import VersionedFlags.Proofs.Cache.Overrun

/-!
# What a cache counts and what it asks

An enabled cache counts every read once, as a hit or as a miss.  A hit asks the
store nothing and a miss asks it once; every other call asks itself, and an upsert
that was superseded asks for what won as well.  What is added by one call is listed
first, and what a run adds up to follows by induction on its turns.
-/

namespace VersionedFlags

namespace Call

def isRead : Call → Bool
  | .get _ _ | .all _ => true
  | .init _ | .upsert _ _ | .initialized | .close => false

/-- The call may take away what a cache has of a key. -/
def Unsettles (kind : Kind) (key : String) : Call → Prop
  | .init _ | .close => True
  | .upsert other item => other = kind ∧ item.key = key
  | .get _ _ | .all _ | .initialized => False

end Call

namespace Cache

/-! ## What one call adds -/

/-- The counts of a cache and what its store was asked. -/
structure Tally where
  hits : Nat
  misses : Nat
  asked : List Exchange

/-- The store had an item as great as the one that was written. -/
def Exchange.isLoss : Exchange → Bool
  | ⟨.upsert _ _, .ok .superseded⟩ => true
  | _ => false

theorem Exchange.isLoss_error (call : Call) (error : StoreError) :
    (⟨call, .error error⟩ : Exchange).isLoss = false := by
  cases call <;> rfl

namespace Tally

def hit (tally : Tally) : Tally := { tally with hits := tally.hits + 1 }

def miss (tally : Tally) : Tally := { tally with misses := tally.misses + 1 }

def ask (tally : Tally) (exchange : Exchange) : Tally :=
  { tally with asked := tally.asked ++ [exchange] }

/-- Everything that a call can add to a tally. -/
inductive Charged (mode : Mode) (tally : Tally) : Call → Tally → Prop
  | hit {call : Call} (hmode : mode.isEnabled = true)
      (hread : call.isRead = true) : Charged mode tally call tally.hit
  | miss {call : Call} (hmode : mode.isEnabled = true)
      (hread : call.isRead = true) (reply : call.Reply) :
      Charged mode tally call (tally.miss.ask ⟨call, reply⟩)
  | passed {call : Call} (hbare : call.isRead = true → mode.isEnabled = false)
      (reply : call.Reply)
      (hkept : mode.isEnabled = true →
        (⟨call, reply⟩ : Exchange).isLoss = false) :
      Charged mode tally call (tally.ask ⟨call, reply⟩)
  /-- What won over the upsert is asked for. -/
  | lost (hmode : mode.isEnabled = true) (kind : Kind) (item : Item)
      (reply : Except StoreError (Option Item)) :
      Charged mode tally (.upsert kind item)
        ((tally.ask ⟨.upsert kind item, .ok .superseded⟩).ask
          ⟨.get kind item.key, reply⟩)
  /-- Whether the store is initialized is known. -/
  | known : Charged mode tally .initialized tally

end Tally

section Steps

variable {mode : Mode} {now : Instant} {state : State} {call : Call}

inductive Counts (mode : Mode) (state : State) :
    (call : Call) → State × Progress call → Prop
  | hit {call : Call} (hmode : mode.isEnabled = true)
      (hread : call.isRead = true) (reply : call.Reply) :
      Counts mode state call (state.hit, .answered reply)
  | miss {call : Call} (hmode : mode.isEnabled = true)
      (hread : call.isRead = true) (pending : Pending call) :
      Counts mode state call (state.miss, .asking pending)
  | nothing {call : Call} (hbare : call.isRead = true → mode.isEnabled = false)
      {after : State} (hhits : after.hits = state.hits)
      (hmisses : after.misses = state.misses) (pending : Pending call) :
      Counts mode state call (after, .asking pending)
  | known (reply : Call.initialized.Reply) :
      Counts mode state .initialized (state, .answered reply)

theorem counts_start (mode : Mode) (now : Instant) (state : State) (call : Call) :
    Counts mode state call (Cache.start mode now state call) := by
  cases call with
  | init data =>
      simp only [Cache.start]
      exact .nothing (by simp [Call.isRead]) rfl rfl _
  | close =>
      have hbare : Call.close.isRead = true → mode.isEnabled = false := by
        simp [Call.isRead]
      exact @Counts.nothing mode state .close hbare state.clear rfl rfl (.pass _)
  | upsert kind item =>
      simp only [Cache.start]
      split <;> exact .nothing (by simp [Call.isRead]) rfl rfl _
  | get kind key =>
      simp only [Cache.start, startGet]
      split
      · rename_i hmode
        split
        · exact .hit hmode rfl _
        · exact .miss hmode rfl _
      · rename_i hmode
        exact .nothing (fun _ => by simpa using hmode) rfl rfl _
  | all kind =>
      simp only [Cache.start, startAll]
      split
      · rename_i hmode
        split
        · exact .hit hmode rfl _
        · exact .miss hmode rfl _
      · rename_i hmode
        exact .nothing (fun _ => by simpa using hmode) rfl rfl _
  | initialized =>
      simp only [Cache.start, startInitialized]
      split
      · exact .known _
      · split
        · split
          · exact .known _
          · exact .nothing (by simp [Call.isRead]) rfl rfl _
        · exact .nothing (by simp [Call.isRead]) rfl rfl _

variable {pending : Pending call} {reply : pending.asks.Reply}
  {next : State × Progress call}

theorem Resumes.counts (h : Resumes mode now state pending reply next) :
    next.1.hits = state.hits ∧ next.1.misses = state.misses := by
  cases h with
  | get | reread =>
      simp only [State.fillItem]
      split <;> exact ⟨rfl, rfl⟩
  | all =>
      simp only [State.fillLive]
      split <;> exact ⟨rfl, rfl⟩
  | _ => exact ⟨rfl, rfl⟩

/-- An enabled cache goes on after a loss, unless it is aborted. -/
theorem Resumes.isLoss_eq_false (h : Resumes mode now state pending reply next)
    (hapt : pending.Apt mode) (hmode : mode.isEnabled = true)
    {result : call.Reply} (hends : next.2.Ends (some result)) :
    (⟨pending.asks, reply⟩ : Exchange).isLoss = false := by
  cases h with
  | failed pending error => exact Exchange.isLoss_error _ error
  | aborted | superseded => cases hends
  | passed call answer =>
      obtain rfl : call = .close := hapt hmode
      rfl
  | _ => rfl

end Steps

namespace Station

variable {σ : Type} {backend : Backend σ} {mode : Mode} {clock : Nat → Instant}
  {station middle after : Station σ} {call : Call} {pending : Pending call}

def tally (station : Station σ) : Tally :=
  ⟨station.state.hits, station.state.misses, station.asked⟩

theorem tally_goOn (station : Station σ) (pending : Pending call) :
    (station.goOn backend mode clock pending).2.tally =
      station.tally.ask
        ⟨pending.asks, (backend station.store pending.asks).1⟩ := by
  obtain ⟨hhits, hmisses⟩ :=
    (resumes_goOn backend mode clock station pending).counts
  simp only [tally] at hhits hmisses ⊢
  rw [hhits, hmisses]
  rfl

theorem exists_exchange (backend : Backend σ) (store : σ)
    (h : pending.asks = call) :
    ∃ reply, (⟨pending.asks, (backend store pending.asks).1⟩ : Exchange) =
      ⟨call, reply⟩ := by
  generalize pending.asks = asks at h
  subst h
  exact ⟨_, rfl⟩

theorem serve_upsert_bare (hmode : mode.isEnabled = false) (kind : Kind)
    (item : Item) :
    (station.serve backend mode clock (.upsert kind item)).2.tally =
      station.tally.ask
        ⟨.upsert kind item, (backend station.store (.upsert kind item)).1⟩ := by
  rw [serve_eq]
  simp only [begin, Cache.start, hmode]
  rfl

/-- What a call adds to the counts of its cache and to what the store was asked. -/
theorem charged_serve (hclock : ∀ n, mode.expiry? (clock n) ≠ none)
    (backend : Backend σ) (station : Station σ) (call : Call) :
    station.tally.Charged mode call
      (station.serve backend mode clock call).2.tally := by
  have hcounts := counts_start mode (clock station.reads) station.state call
  have hended := serve_ne_none hclock backend station call
  rcases serve_cases backend mode clock station call with
    ⟨answer, hstart, hserve⟩ | ⟨pending, middle, result, hasks, hends, hserve⟩
  · rw [hserve]
    simp only [begin, tally] at hstart ⊢
    generalize Cache.start mode (clock station.reads) station.state call =
      started at hcounts hstart
    cases hcounts with
    | hit hmode hread => exact .hit hmode hread
    | known => exact .known
    | miss | nothing => cases hstart
  · cases hasks with
    | first hstart =>
        obtain ⟨reply, hexchange⟩ := exists_exchange backend
          (station.begin mode clock call).2.store (asks_of_start hstart)
        -- An upsert that loses is asked about again, so it does not end here.
        have hloss : mode.isEnabled = true →
            (⟨call, reply⟩ : Exchange).isLoss = false := by
          intro hmode
          obtain ⟨answer, rfl⟩ : ∃ answer, result = some answer :=
            Option.ne_none_iff_exists'.mp (by simpa [hserve] using hended)
          rw [← hexchange]
          exact (resumes_goOn backend mode clock _ pending).isLoss_eq_false
            (apt_of_start hstart) hmode hends
        rw [hserve, tally_goOn, hexchange]
        simp only [begin, tally] at hstart ⊢
        generalize Cache.start mode (clock station.reads) station.state call =
          started at hcounts hstart
        cases hcounts with
        | miss hmode hread => exact .miss hmode hread reply
        | nothing hbare hhits hmisses =>
            simp only [hhits, hmisses]
            exact .passed hbare reply hloss
        | hit | known => cases hstart
    | again kind item hlost =>
        -- The tally of the second question has the first one in it, which was lost.
        cases hmode : mode.isEnabled with
        | true =>
            rw [hserve, tally_goOn]
            exact .lost hmode kind item _
        | false =>
            rw [serve_upsert_bare hmode]
            exact .passed (by simp [Call.isRead]) _ (by simp [hmode])

/-! ## What a run adds up to -/

def Turn.calls (name : String) : Turn σ → Bool
  | .own call => call.name == name
  | .past _ => false

def called (name : String) (turns : List (Turn σ)) : Nat :=
  turns.countP (Turn.calls name)

/-- How many calls of the name were counted as misses. -/
def missed (backend : Backend σ) (mode : Mode) (clock : Nat → Instant)
    (name : String) : Station σ → List (Turn σ) → Nat
  | _, [] => 0
  | station, turn :: rest =>
      let next := station.take backend mode clock turn
      (if turn.calls name && station.state.misses < next.state.misses then 1
        else 0) + missed backend mode clock name next rest

end Station

namespace Tally

def asks (tally : Tally) (name : String) : Nat :=
  tally.asked.countP fun exchange => exchange.call.name == name

def losses (tally : Tally) : Nat := tally.asked.countP Exchange.isLoss

variable {tally : Tally}

@[simp] theorem hits_hit : tally.hit.hits = tally.hits + 1 := rfl

@[simp] theorem misses_hit : tally.hit.misses = tally.misses := rfl

@[simp] theorem asks_hit (name : String) : tally.hit.asks name = tally.asks name := rfl

@[simp] theorem losses_hit : tally.hit.losses = tally.losses := rfl

@[simp] theorem hits_miss : tally.miss.hits = tally.hits := rfl

@[simp] theorem misses_miss : tally.miss.misses = tally.misses + 1 := rfl

@[simp] theorem asks_miss (name : String) :
    tally.miss.asks name = tally.asks name := rfl

@[simp] theorem losses_miss : tally.miss.losses = tally.losses := rfl

@[simp] theorem hits_ask (exchange : Exchange) :
    (tally.ask exchange).hits = tally.hits := rfl

@[simp] theorem misses_ask (exchange : Exchange) :
    (tally.ask exchange).misses = tally.misses := rfl

@[simp] theorem asks_ask (exchange : Exchange) (name : String) :
    (tally.ask exchange).asks name =
      tally.asks name + if exchange.call.name == name then 1 else 0 := by
  simp only [asks, ask, List.countP_append, List.countP_singleton]

@[simp] theorem losses_ask (exchange : Exchange) :
    (tally.ask exchange).losses =
      tally.losses + if exchange.isLoss then 1 else 0 := by
  simp only [losses, ask, List.countP_append, List.countP_singleton]

end Tally

namespace Station

variable {σ : Type} {backend : Backend σ} {mode : Mode} {clock : Nat → Instant}
  {station : Station σ} {call : Call}

/-- What the counts and the questions of a run on an enabled cache add up to. -/
structure Balanced (backend : Backend σ) (mode : Mode) (clock : Nat → Instant)
    (initial : Station σ) (turns : List (Turn σ)) (before after : Tally) : Prop where
  reads : after.hits + after.misses =
    before.hits + before.misses + (called "get" turns + called "all" turns)
  misses : after.misses = before.misses +
    (missed backend mode clock "get" initial turns +
      missed backend mode clock "all" initial turns)
  gets : after.asks "get" + before.losses =
    before.asks "get" + missed backend mode clock "get" initial turns +
      after.losses
  alls : after.asks "all" =
    before.asks "all" + missed backend mode clock "all" initial turns
  others : ∀ name ∈ ["upsert", "init", "close"],
    after.asks name = before.asks name + called name turns

section Balances

variable {turn : Turn σ} {turns : List (Turn σ)} {before between later : Tally}

theorem called_cons (name : String) (turn : Turn σ) (rest : List (Turn σ)) :
    called name (turn :: rest) = called name [turn] + called name rest := by
  rw [called, List.countP_cons, Nat.add_comm]
  simp only [called, List.countP_singleton]

theorem called_own (name : String) (call : Call) :
    called name [(.own call : Turn σ)] = if call.name == name then 1 else 0 :=
  List.countP_singleton

theorem missed_cons (name : String) (turn : Turn σ) (rest : List (Turn σ)) :
    missed backend mode clock name station (turn :: rest) =
      missed backend mode clock name station [turn] +
        missed backend mode clock name (station.take backend mode clock turn)
          rest := by
  simp only [missed, Nat.add_zero]

theorem Balanced.cons
    (h : Balanced backend mode clock station [turn] before between)
    (hrest : Balanced backend mode clock (station.take backend mode clock turn)
      turns between later) :
    Balanced backend mode clock station (turn :: turns) before later where
  reads := by
    have hfirst := h.reads
    have hlast := hrest.reads
    rw [called_cons "get", called_cons "all"]
    omega
  misses := by
    have hfirst := h.misses
    have hlast := hrest.misses
    rw [missed_cons "get" turn, missed_cons "all" turn]
    omega
  gets := by
    have hfirst := h.gets
    have hlast := hrest.gets
    rw [missed_cons "get" turn]
    omega
  alls := by
    have hfirst := h.alls
    have hlast := hrest.alls
    rw [missed_cons "all" turn]
    omega
  others := by
    intro name hm
    have hfirst := h.others name hm
    have hlast := hrest.others name hm
    rw [called_cons name turn]
    omega

theorem balanced_past (change : σ → σ) (tally : Tally) :
    Balanced backend mode clock station [.past change] tally tally := by
  constructor <;> simp [called, missed, Turn.calls]

theorem balanced_own (hmode : mode.isEnabled = true)
    (h : station.tally.Charged mode call
      (station.serve backend mode clock call).2.tally) :
    Balanced backend mode clock station [.own call] station.tally
      (station.serve backend mode clock call).2.tally := by
  have hmissed : ∀ name, missed backend mode clock name station [.own call] =
      if call.name == name && station.tally.misses <
        (station.serve backend mode clock call).2.tally.misses then 1 else 0 :=
    fun _ => rfl
  -- What is missed is read off the counts, so that `Charged` alone decides.
  generalize (station.serve backend mode clock call).2.tally = after at h hmissed
  cases h with
  | hit _ hread =>
      cases call with
      | get | all =>
          constructor <;> simp [hmissed, called_own, Call.name]
          omega
      | _ => cases hread
  | miss _ hread reply =>
      cases call with
      | get | all =>
          constructor <;> simp [hmissed, called_own, Call.name, Exchange.isLoss]
          omega
      | _ => cases hread
  | passed hbare reply hkept =>
      cases call with
      | get | all =>
          rw [hbare rfl] at hmode
          cases hmode
      | _ =>
          constructor <;> simp [hmissed, called_own, Call.name, hkept hmode]
  | lost =>
      constructor <;> simp [hmissed, called_own, Call.name, Exchange.isLoss]
      omega
  | known => constructor <;> simp [hmissed, called_own, Call.name]

end Balances

theorem balanced_run (hclock : ∀ n, mode.expiry? (clock n) ≠ none)
    (hmode : mode.isEnabled = true) (backend : Backend σ) (station : Station σ)
    (turns : List (Turn σ)) :
    Balanced backend mode clock station turns station.tally
      (station.run backend mode clock turns).tally := by
  induction turns generalizing station with
  | nil => constructor <;> simp [run, called, missed]
  | cons turn rest ih =>
      have hrest := ih (station.take backend mode clock turn)
      cases turn with
      | past change => exact (balanced_past change _).cons hrest
      | own call =>
          exact (balanced_own hmode (charged_serve hclock backend station call)).cons hrest

end Station

/-! ## What a cache keeps for ever -/

namespace State

def Timeless (state : State) : Prop := state.All fun _ entry => entry.expires = none

/-- There is an entry of the key, expired or not. -/
def Knows (state : State) (kind : Kind) (key : String) : Prop :=
  (state.shown? (.item kind key)).isSome = true

variable {state : State} {kind : Kind} {key : String}

theorem Knows.fillItem (h : state.Knows kind key) (other : Kind) (name : String)
    (entry : Entry (Option Item)) (seen : Nat) :
    (state.fillItem other name entry seen).Knows kind key := by
  rcases state.shown?_fillItem other name entry seen (.item kind key) with
    hsame | ⟨rfl, hslot⟩
  · rw [Knows, hsame]
    exact h
  · cases hslot
    simp [Knows]

theorem Knows.fillLive (h : state.Knows kind key) (other : Kind)
    (entry : Entry (KeyMap Item)) (seen : Nat) :
    (state.fillLive other entry seen).Knows kind key := by
  rcases state.shown?_fillLive other entry seen (.item kind key) with
    hsame | ⟨-, hslot⟩
  · rw [Knows, hsame]
    exact h
  · cases hslot

theorem Knows.recordWrite (h : state.Knows kind key) {other : Kind} {item : Item}
    (hother : ¬ (other = kind ∧ item.key = key)) (expires : Option Instant) :
    (state.recordWrite other item expires).Knows kind key := by
  have hne : (Slot.item kind key) ≠ .item other item.key := by
    rintro ⟨⟩
    exact hother ⟨rfl, rfl⟩
  rw [Knows, State.recordWrite, shown?_dropLive_of_ne (by simp),
    shown?_setItem_of_ne _ hne]
  exact h

theorem Knows.recordLoss (h : state.Knows kind key) {other : Kind} {name : String}
    (hother : ¬ (other = kind ∧ name = key)) :
    (state.recordLoss other name).Knows kind key := by
  have hne : (Slot.item kind key) ≠ .item other name := by
    rintro ⟨⟩
    exact hother ⟨rfl, rfl⟩
  change (((state.dropItem other name).dropLive other).shown? _).isSome = true
  rw [shown?_dropLive_of_ne (by simp), shown?_dropItem_of_ne hne]
  exact h

theorem knows_of_held? {entry : Entry (Option Item)}
    (h : state.held? (.item kind key) = some entry) : state.Knows kind key := by
  obtain ⟨found, hfound, -⟩ := Option.map_eq_some_iff.mp h
  simp only [Knows, shown?, hfound, Option.map_some, Option.isSome_some]

theorem knows_fillItem (state : State) (kind : Kind) (key : String)
    (entry : Entry (Option Item)) :
    (state.fillItem kind key entry state.generation).Knows kind key := by
  simp only [Knows, shown?_fillItem_self, Option.isSome_some]

theorem SameMemory.knows {after : State} (hsame : state.SameMemory after)
    (h : state.Knows kind key) : after.Knows kind key := by
  simpa only [Knows, shown?, hsame.items_eq] using h

/-- An entry that does not expire is found at every moment. -/
theorem Knows.exists_item? (h : state.Knows kind key) (htimeless : state.Timeless)
    (now : Instant) : ∃ found, state.item? now kind key = some found := by
  obtain ⟨value, hvalue⟩ := Option.isSome_iff_exists.mp h
  obtain ⟨entry, hentry, -⟩ := Option.map_eq_some_iff.mp hvalue
  have hexpires : entry.expires = none :=
    htimeless (.item kind key) ⟨entry.value.bind Item.visible?, entry.expires⟩
      (by simp only [held?, hentry, Option.map_some])
  exact ⟨entry.value, by simp [item?, hentry, Entry.fresh?, hexpires]⟩

end State

section Steps

variable {now : Instant} {state : State} {call : Call} {pending : Pending call}
  {reply : pending.asks.Reply} {next : State × Progress call} {kind : Kind}
  {key : String}

theorem Resumes.timeless (h : Resumes .forever now state pending reply next)
    (htimeless : state.Timeless) : next.1.Timeless := by
  have hnone : ∀ {expires : Option Instant},
      Mode.forever.expiry? now = some expires → expires = none :=
    fun hexpires => (Option.some.inj hexpires).symm
  cases h with
  | failed | aborted | passed | initBare | told | denied => exact htimeless
  | init data hexpires => exact state.all_reset fun _ _ _ => hnone hexpires
  | get _ _ seen _ hexpires => exact htimeless.fillItem (hnone hexpires) seen
  | all _ seen _ hexpires => exact htimeless.fillLive (hnone hexpires) seen
  | applied _ _ hexpires => exact htimeless.recordWrite (hnone hexpires)
  | superseded kind item _ => exact htimeless.recordLoss kind item.key
  | reread _ _ seen _ hexpires => exact htimeless.fillItem (hnone hexpires) seen

theorem Resumes.knows {mode : Mode} (h : Resumes mode now state pending reply next)
    (hcall : ¬ call.Unsettles kind key) (hknows : state.Knows kind key) :
    next.1.Knows kind key := by
  cases h with
  | failed | aborted | passed | told | denied => exact hknows
  | initBare | init => exact absurd trivial hcall
  | get _ _ seen => exact hknows.fillItem _ _ _ seen
  | all _ seen => exact hknows.fillLive _ _ seen
  | applied => exact hknows.recordWrite hcall _
  | superseded => exact hknows.recordLoss hcall
  | reread _ _ seen => exact hknows.fillItem _ _ _ seen

theorem Resumes.get_ok {mode : Mode} {seen : Nat}
    {reply : (Call.get kind key).Reply} {next : State × Progress (.get kind key)}
    (h : Resumes mode now state (.get kind key seen) reply next)
    {item : Option Item} (hends : next.2.Ends (some (.ok item))) :
    ∃ expires, next.1 = state.fillItem kind key ⟨item, expires⟩ seen := by
  cases h with
  | failed | aborted => cases hends
  | get =>
      cases hends
      exact ⟨_, rfl⟩

end Steps

namespace Station

variable {σ : Type} {backend : Backend σ} {mode : Mode} {clock : Nat → Instant}
  {station : Station σ} {call : Call} {kind : Kind} {key : String}

theorem timeless_serve (htimeless : station.state.Timeless) (call : Call) :
    (station.serve backend .forever clock call).2.state.Timeless := by
  have hbegin : (station.begin .forever clock call).2.state.Timeless :=
    all_start_step .forever _ call htimeless
  rcases serve_cases backend .forever clock station call with
    ⟨answer, -, hserve⟩ | ⟨pending, middle, result, hasks, -, hserve⟩
  · rw [hserve]
    exact hbegin
  · rw [hserve]
    refine (resumes_goOn backend .forever clock middle pending).timeless ?_
    cases hasks with
    | first _ => exact hbegin
    | again kind item _ => exact htimeless.recordLoss kind item.key

theorem knows_serve (hcall : ¬ call.Unsettles kind key)
    (hknows : station.state.Knows kind key) :
    (station.serve backend mode clock call).2.state.Knows kind key := by
  have hopen : call ≠ .close := by
    rintro rfl
    exact hcall trivial
  have hbegin : (station.begin mode clock call).2.state.Knows kind key :=
    (sameMemory_start mode _ station.state hopen).knows hknows
  rcases serve_cases backend mode clock station call with
    ⟨answer, -, hserve⟩ | ⟨pending, middle, result, hasks, -, hserve⟩
  · rw [hserve]
    exact hbegin
  · rw [hserve]
    refine (resumes_goOn backend mode clock middle pending).knows hcall ?_
    cases hasks with
    | first _ => exact hbegin
    | again _ _ _ => exact hknows.recordLoss hcall

theorem timeless_run (htimeless : station.state.Timeless)
    (turns : List (Turn σ)) :
    (station.run backend .forever clock turns).state.Timeless :=
  run_keeps (fun station => station.state.Timeless)
    (fun call h => timeless_serve h call) (fun _ h => h) htimeless turns

theorem knows_run {turns : List (Turn σ)}
    (hturns : ∀ call, .own call ∈ turns → ¬ call.Unsettles kind key)
    (hknows : station.state.Knows kind key) :
    (station.run backend mode clock turns).state.Knows kind key := by
  induction turns generalizing station with
  | nil => exact hknows
  | cons turn rest ih =>
      have hrest : ∀ call, .own call ∈ rest → ¬ call.Unsettles kind key :=
        fun call hm => hturns call (List.mem_cons_of_mem _ hm)
      cases turn with
      | own call =>
          exact ih hrest (knows_serve (hturns call List.mem_cons_self) hknows)
      | past change => exact ih hrest hknows

/-- A read that was answered has left an entry of its key. -/
theorem knows_get (hmode : mode.isEnabled = true) {item : Option Item}
    {after : Station σ}
    (h : station.serve backend mode clock (.get kind key) =
      (some (.ok item), after)) : after.state.Knows kind key := by
  rcases serve_cases backend mode clock station (.get kind key) with
    ⟨answer, hstart, hserve⟩ | ⟨pending, middle, result, hasks, hends, hserve⟩
  · rw [hserve] at h
    cases h
    obtain ⟨entry, value, -, hentry, -⟩ :=
      @entry_of_start _ _ _ _ (.item kind key) _ hstart
    exact (sameMemory_start mode _ station.state (by simp)).knows
      (State.knows_of_held? hentry)
  · rw [hserve] at h
    cases h
    cases hasks with
    | first hstart =>
        have hresumes := resumes_goOn backend mode clock
          (station.begin mode clock (.get kind key)).2 pending
        simp only [Cache.start, hmode, if_true, startGet] at hstart
        split at hstart
        · cases hstart
        · rename_i hitem
          cases hstart
          obtain ⟨expires, hstate⟩ := hresumes.get_ok hends
          have hbegin : (station.begin mode clock (.get kind key)).2.state =
              station.state.miss := by
            simp only [begin, Cache.start, hmode, if_true, startGet, hitem]
          simp only [hbegin] at hstate
          rw [hstate]
          exact station.state.miss.knows_fillItem kind key ⟨item, expires⟩

theorem serve_of_knows (htimeless : station.state.Timeless)
    (hknows : station.state.Knows kind key) :
    (station.serve backend .forever clock (.get kind key)).2.tally =
      station.tally.hit := by
  obtain ⟨found, hfound⟩ := hknows.exists_item? htimeless (clock station.reads)
  rw [serve_eq]
  simp only [begin, Cache.start, Mode.isEnabled, startGet, hfound]
  rfl

theorem bare_of_charged {tally after : Tally} (hmode : mode.isEnabled = false)
    (h : tally.Charged mode call after) :
    after.hits = tally.hits ∧ after.misses = tally.misses ∧
      ∀ name ∈ ["get", "all"],
        after.asks name = tally.asks name + if call.name == name then 1 else 0 := by
  cases h with
  | hit henabled | miss henabled | lost henabled =>
      rw [hmode] at henabled
      cases henabled
  | passed => exact ⟨rfl, rfl, fun name _ => tally.asks_ask _ name⟩
  | known => simp [Call.name]

theorem bare_run (hclock : ∀ n, mode.expiry? (clock n) ≠ none)
    (hmode : mode.isEnabled = false) (backend : Backend σ) (station : Station σ)
    (turns : List (Turn σ)) :
    (station.run backend mode clock turns).tally.hits = station.tally.hits ∧
    (station.run backend mode clock turns).tally.misses = station.tally.misses ∧
    ∀ name ∈ ["get", "all"],
      (station.run backend mode clock turns).tally.asks name =
        station.tally.asks name + called name turns := by
  induction turns generalizing station with
  | nil => simp [run, called]
  | cons turn rest ih =>
      obtain ⟨hhits, hmisses, hasks⟩ := ih (station.take backend mode clock turn)
      cases turn with
      | past change =>
          refine ⟨hhits, hmisses, fun name hm => ?_⟩
          rw [called_cons]
          exact (hasks name hm).trans (by simp [called, Turn.calls, take, tally])
      | own call =>
          obtain ⟨hfirst, hsecond, hthird⟩ := bare_of_charged hmode
            (charged_serve hclock backend station call)
          refine ⟨hhits.trans hfirst, hmisses.trans hsecond, fun name hm => ?_⟩
          rw [called_cons, called_own, ← Nat.add_assoc, ← hthird name hm]
          exact hasks name hm

/-- The counts of a new cache, and what its store was asked, whatever the store
replies.  Every call adds one of few things.  Of an enabled cache the hits and the
misses together are its reads, and the store was asked what the misses, the writes
and the lost writes say; without a lifetime the store is not asked for a key again
until something unsettles it.  A cache that is not enabled asks whatever it is
asked. -/
theorem accounts_exactly (hclock : ∀ n, mode.expiry? (clock n) ≠ none)
    (backend : Backend σ) (store : σ) (turns : List (Turn σ)) :
    let opened := start .start store
    let after := opened.run backend mode clock turns
    (∀ call, after.tally.Charged mode call
      (after.serve backend mode clock call).2.tally) ∧
    (mode.isEnabled = true →
      after.tally.hits + after.tally.misses =
        called "get" turns + called "all" turns ∧
      after.tally.misses = missed backend mode clock "get" opened turns +
        missed backend mode clock "all" opened turns ∧
      after.tally.asks "get" =
        missed backend mode clock "get" opened turns + after.tally.losses ∧
      after.tally.asks "all" = missed backend mode clock "all" opened turns ∧
      ∀ name ∈ ["upsert", "init", "close"],
        after.tally.asks name = called name turns) ∧
    (mode = .forever →
      ∀ (kind : Kind) (key : String) (item : Option Item) (middle : Station σ)
        (between : List (Turn σ)),
      after.serve backend mode clock (.get kind key) = (some (.ok item), middle) →
      (∀ call, .own call ∈ between → ¬ call.Unsettles kind key) →
      let later := middle.run backend mode clock between
      (later.serve backend mode clock (.get kind key)).2.tally =
        later.tally.hit) ∧
    (mode.isEnabled = false →
      after.tally.hits = 0 ∧ after.tally.misses = 0 ∧
      ∀ name ∈ ["get", "all"], after.tally.asks name = called name turns) := by
  intro opened after
  refine ⟨charged_serve hclock backend after, fun hmode => ?_, ?_, fun hmode => ?_⟩
  · have hrun : Balanced backend mode clock opened turns opened.tally after.tally :=
      balanced_run hclock hmode backend opened turns
    have hreads := hrun.reads
    have hmisses := hrun.misses
    have hgets := hrun.gets
    have halls := hrun.alls
    have hothers := hrun.others
    simp only [opened, start, tally, State.start, Tally.asks, Tally.losses,
      List.countP_nil, Nat.zero_add, Nat.add_zero] at hreads hmisses hgets halls hothers
    exact ⟨hreads, hmisses, hgets, halls, hothers⟩
  · rintro rfl kind key item middle between hserve hbetween
    have htimeless : middle.state.Timeless := by
      have hopened : opened.state.Timeless := State.all_start
      have hafter : after.state.Timeless := timeless_run hopened turns
      rw [← show (after.serve backend .forever clock (.get kind key)).2 = middle from
        congrArg Prod.snd hserve]
      exact timeless_serve hafter (.get kind key)
    exact serve_of_knows (timeless_run htimeless between)
      (knows_run hbetween (knows_get rfl hserve))
  · obtain ⟨hhits, hmisses, hasks⟩ := bare_run hclock hmode backend opened turns
    refine ⟨hhits, hmisses, fun name hm => (hasks name hm).trans ?_⟩
    exact Nat.zero_add _

/-- A run with a lost write: a miss, a write of the other handle, an upsert that
loses to it and asks for what won, a hit, and a miss. -/
def contested : List (Turn Cluster) :=
  [.own (.get .features "a"),
    .past fun cluster =>
      (cluster.serve 1 (.upsert .features (.live "a" 2 .null))).2,
    .own (.upsert .features (.live "a" 1 .null)),
    .own (.get .features "a"),
    .own (.all .features)]

def ticking (n : Nat) : Instant := ⟨n % 20⟩

/-- The counts of that run with a lifetime; without one, that it does not ask for
the key again; and that a cache that is not enabled asks for all it is asked. -/
theorem accounts_contested :
    let run (mode : Mode) :=
      (start .start Cluster.pair).run (.ofHandle 0) mode ticking contested
    ((run (.ttl 5)).tally.hits + (run (.ttl 5)).tally.misses = 3 ∧
      (run (.ttl 5)).tally.misses = 2 ∧
      (run (.ttl 5)).tally.asks "get" = 2 ∧
      (run (.ttl 5)).tally.asks "upsert" = 1) ∧
    (∃ again, (run .forever).serve (.ofHandle 0) .forever ticking
        (.get .features "a") = (some (.ok (some (.live "a" 2 .null))), again) ∧
      (again.serve (.ofHandle 0) .forever ticking (.get .features "a")).2.tally =
        again.tally.hit) ∧
    (run .disabled).tally.hits = 0 ∧ (run .disabled).tally.asks "get" = 2 := by
  have hshort : ∀ n, (Mode.ttl 5).expiry? (ticking n) ≠ none := by
    intro n
    have hlimit : n % 20 + 5 < Instant.limit :=
      Nat.lt_of_lt_of_le (by omega : n % 20 + 5 < 25) (by decide)
    simp [ticking, Mode.expiry?, Instant.after?, hlimit]
  obtain ⟨hgets, halls, hlosses⟩ :
      missed (.ofHandle 0) (.ttl 5) ticking "get"
        (start .start Cluster.pair) contested = 1 ∧
      missed (.ofHandle 0) (.ttl 5) ticking "all"
        (start .start Cluster.pair) contested = 1 ∧
      ((start .start Cluster.pair).run (.ofHandle 0) (.ttl 5) ticking
        contested).tally.losses = 1 := by
    decide +kernel
  obtain ⟨hcallsGet, hcallsAll, hcallsUpsert⟩ : called "get" contested = 2 ∧
      called "all" contested = 1 ∧ called "upsert" contested = 1 := by
    decide +kernel
  obtain ⟨-, henabled, -, -⟩ :=
    accounts_exactly hshort (.ofHandle 0) Cluster.pair contested
  obtain ⟨-, -, hforever, -⟩ := @accounts_exactly _ .forever ticking
    (fun _ => by simp [Mode.expiry?]) (.ofHandle 0) Cluster.pair contested
  obtain ⟨-, -, -, hbare⟩ := @accounts_exactly _ .disabled ticking
    (fun _ => by simp [Mode.expiry?]) (.ofHandle 0) Cluster.pair contested
  refine ⟨?_, ?_, ?_⟩
  · obtain ⟨hreads, hmisses, hasked, -, hothers⟩ := henabled rfl
    rw [hcallsGet, hcallsAll] at hreads
    rw [hgets, halls] at hmisses
    rw [hgets, hlosses] at hasked
    exact ⟨hreads, hmisses, hasked,
      (hothers "upsert" (by simp)).trans hcallsUpsert⟩
  · have hserve : ((start .start Cluster.pair).run (.ofHandle 0) .forever ticking
        contested).serve (.ofHandle 0) .forever ticking (.get .features "a") =
          (some (.ok (some (.live "a" 2 .null))), _) := rfl
    exact ⟨_, hserve, hforever rfl .features "a" _ _ [] hserve (by simp)⟩
  · obtain ⟨hhits, -, hasks⟩ := hbare rfl
    exact ⟨hhits, (hasks "get" (by simp)).trans hcallsGet⟩

end Station

end Cache

end VersionedFlags
