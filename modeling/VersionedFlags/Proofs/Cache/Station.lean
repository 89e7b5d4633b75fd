import VersionedFlags.Proofs.Cache.Closing
import VersionedFlags.Proofs.Cache.Staleness

/-!
# A cache around any store

The store behind a cache may reply to a call with anything, an error included.
A call through the cache that nothing comes between is answered from the cache,
after its own question to the store, or after the question for the item that won
over a superseded upsert.
-/

namespace VersionedFlags

namespace Cache

/-! ## Stores -/

/-- What a store replies to a call, and what it is afterwards. -/
abbrev Backend (σ : Type) : Type := σ → (call : Call) → call.Reply × σ

/-- A handle of a cluster as a store. -/
def Backend.ofHandle (handle : Nat) : Backend Cluster :=
  fun cluster call => cluster.serve handle call

/-- A question to a store, with its reply. -/
structure Exchange where
  call : Call
  reply : call.Reply

/-! ## Ends -/

namespace Progress

/-- The call has ended with a reply, or was aborted. -/
inductive Ends {call : Call} : Progress call → Option call.Reply → Prop
  | answered (reply : call.Reply) : Ends (.answered reply) (some reply)
  | aborted : Ends .aborted none

end Progress

/-! ## Steps -/

/-- A cache records something of the reply, be it that the store is not
initialized. -/
def Exchange.isRecorded : Exchange → Bool
  | ⟨.init _, .ok _⟩ | ⟨.get _ _, .ok _⟩ | ⟨.all _, .ok _⟩
  | ⟨.upsert _ _, .ok _⟩ | ⟨.initialized, .ok false⟩ => true
  | _ => false

/-- Everything that a step can do with the reply to its question; what holds of
steps is proved by cases on it. -/
inductive Resumes (mode : Mode) (now : Instant) (state : State) :
    {call : Call} → (pending : Pending call) → pending.asks.Reply →
      State × Progress call → Prop
  | failed {call : Call} (pending : Pending call) (error : StoreError) :
      Resumes mode now state pending (.error error)
        (state, .answered (.error error))
  | aborted {call : Call} (pending : Pending call)
      (answer : pending.asks.Answer)
      (hrecorded : (⟨pending.asks, .ok answer⟩ : Exchange).isRecorded = true)
      (hexpiry : mode.expiry? now = none) :
      Resumes mode now state pending (.ok answer) (state, .aborted)
  | passed (call : Call) (answer : call.Answer) :
      Resumes mode now state (.pass call) (.ok answer)
        (state, .answered (.ok answer))
  | initBare (data : DataSet) (hmode : mode.isEnabled = false) :
      Resumes mode now state (.init data) (.ok ())
        (state.latch, .answered (.ok ()))
  | init (data : DataSet) {expires : Option Instant}
      (hexpires : mode.expiry? now = some expires) :
      Resumes mode now state (.init data) (.ok ())
        ((state.reset data expires).latch, .answered (.ok ()))
  | get (kind : Kind) (key : String) (seen : Nat) (item : Option Item)
      {expires : Option Instant} (hexpires : mode.expiry? now = some expires) :
      Resumes mode now state (.get kind key seen) (.ok item)
        (state.fillItem kind key ⟨item, expires⟩ seen, .answered (.ok item))
  | all (kind : Kind) (seen : Nat) (items : KeyMap Item)
      {expires : Option Instant} (hexpires : mode.expiry? now = some expires) :
      Resumes mode now state (.all kind seen) (.ok items)
        (state.fillLive kind ⟨items, expires⟩ seen, .answered (.ok items))
  | applied (kind : Kind) (item : Item) {expires : Option Instant}
      (hexpires : mode.expiry? now = some expires) :
      Resumes mode now state (.upsert kind item) (.ok .applied)
        (state.recordWrite kind item expires, .answered (.ok .applied))
  /-- The upsert goes on to read what won. -/
  | superseded (kind : Kind) (item : Item) {expires : Option Instant}
      (hexpires : mode.expiry? now = some expires) :
      Resumes mode now state (.upsert kind item) (.ok .superseded)
        (state.recordLoss kind item.key,
          .asking (.reread kind item (state.generation + 1)))
  | reread (kind : Kind) (item : Item) (seen : Nat) (current : Option Item)
      {expires : Option Instant} (hexpires : mode.expiry? now = some expires) :
      Resumes mode now state (.reread kind item seen) (.ok current)
        (state.fillItem kind item.key ⟨current, expires⟩ seen,
          .answered (.ok .superseded))
  | told :
      Resumes mode now state .initialized (.ok true)
        (state.latch, .answered (.ok true))
  | denied {expires : Option Instant}
      (hexpires : mode.expiry? now = some expires) :
      Resumes mode now state .initialized (.ok false)
        ({ state with uninitializedUntil := expires }, .answered (.ok false))

section Resume

variable {call : Call} {mode : Mode} {now : Instant} {state : State}

theorem resume_error (mode : Mode) (now : Instant) (state : State)
    (pending : Pending call) (error : StoreError) :
    resume mode now state pending (.error error) =
      (state, .answered (.error error)) := by
  cases pending <;> rfl

theorem resumes_withExpiry {pending : Pending call}
    {answer : pending.asks.Answer} {next : Option Instant → State × Progress call}
    (hrecorded : (⟨pending.asks, .ok answer⟩ : Exchange).isRecorded = true)
    (h : ∀ expires, mode.expiry? now = some expires →
      Resumes mode now state pending (.ok answer) (next expires)) :
    Resumes mode now state pending (.ok answer)
      (withExpiry mode now state next) := by
  simp only [withExpiry]
  cases hexpires : mode.expiry? now with
  | none => exact .aborted pending answer hrecorded hexpires
  | some expires => exact h expires hexpires

theorem resumes_resume (mode : Mode) (now : Instant) (state : State)
    (pending : Pending call) (reply : pending.asks.Reply) :
    Resumes mode now state pending reply
      (resume mode now state pending reply) := by
  cases reply with
  | error error =>
      rw [resume_error]
      exact .failed pending error
  | ok answer =>
      cases pending with
      | pass => exact .passed call answer
      | init data =>
          simp only [resume]
          split
          · exact resumes_withExpiry rfl fun _ => .init data
          · rename_i hmode
            exact .initBare data (by simpa using hmode)
      | get kind key seen =>
          exact resumes_withExpiry rfl fun _ => .get kind key seen answer
      | all kind seen =>
          exact resumes_withExpiry rfl fun _ => .all kind seen answer
      | reread kind item seen =>
          exact resumes_withExpiry rfl fun _ => .reread kind item seen answer
      | upsert kind item =>
          refine resumes_withExpiry rfl fun _ hexpires => ?_
          cases answer with
          | applied => exact .applied kind item hexpires
          | superseded => exact .superseded kind item hexpires
      | initialized =>
          cases answer with
          | true => exact .told
          | false => exact resumes_withExpiry rfl fun _ => .denied

theorem start_upsert (mode : Mode) (now : Instant) (state : State) (kind : Kind)
    (item : Item) : (Cache.start mode now state (.upsert kind item)).1 = state := by
  simp only [Cache.start]
  split <;> rfl

variable {pending : Pending call} {reply : pending.asks.Reply}
  {next : State × Progress call}

/-- Errors are those of the store, and nothing is recorded of them. -/
theorem Resumes.of_error (h : Resumes mode now state pending reply next)
    {error : StoreError} (herror : next.2 = .answered (.error error)) :
    reply = .error error ∧ next.1 = state := by
  cases h with
  | failed pending found =>
      cases herror
      exact ⟨rfl, rfl⟩
  | _ => cases herror

/-- A superseded upsert goes on to read what won. -/
inductive Rereads (state : State) :
    {call : Call} → (pending : Pending call) → pending.asks.Reply →
      State × Progress call → Prop
  | mk (kind : Kind) (item : Item) :
      Rereads state (.upsert kind item) (.ok .superseded)
        (state.recordLoss kind item.key,
          .asking (.reread kind item (state.generation + 1)))

/-- After a reply the call has ended, unless its upsert was superseded. -/
theorem Resumes.ends_or_rereads
    (h : Resumes mode now state pending reply next) :
    (∃ result, next.2.Ends result) ∨ Rereads state pending reply next := by
  cases h with
  | superseded kind item _ => exact .inr (.mk kind item)
  | aborted => exact .inl ⟨_, .aborted⟩
  | _ => exact .inl ⟨_, .answered _⟩

end Resume

/-! ## Stations -/

/-- How often the clock was read, a cache, the store behind it and what that
store was asked. -/
structure Station (σ : Type) where
  reads : Nat
  state : State
  store : σ
  asked : List Exchange

namespace Station

variable {σ : Type}

def start (state : State) (store : σ) : Station σ := ⟨0, state, store, []⟩

/-- The clock has a list of readings, in no certain order. -/
def surroundings (backend : Backend σ) (clock : Nat → Instant) :
    Surroundings (StateM (Station σ)) where
  now := modifyGet fun station =>
    (clock station.reads, { station with reads := station.reads + 1 })
  load := return (← get).state
  save state := modify fun station => { station with state }
  ask call := modifyGet fun station =>
    let reply := backend station.store call
    (reply.1,
      { station with
        store := reply.2
        asked := station.asked ++ [⟨call, reply.1⟩] })

variable (backend : Backend σ) (mode : Mode) (clock : Nat → Instant)

def follow {call : Call} (questions : Nat) (progress : Progress call)
    (station : Station σ) : Option call.Reply × Station σ :=
  (Cache.follow (surroundings backend clock) mode questions progress).run station

def serve (station : Station σ) (call : Call) : Option call.Reply × Station σ :=
  (Cache.serve (surroundings backend clock) mode call).run station

/-- The first step of a call. -/
def begin (station : Station σ) (call : Call) : Progress call × Station σ :=
  let next := Cache.start mode (clock station.reads) station.state call
  (next.2, { station with reads := station.reads + 1, state := next.1 })

/-- A question and the step that goes on with its reply. -/
def goOn {call : Call} (station : Station σ) (pending : Pending call) :
    Progress call × Station σ :=
  let reply := backend station.store pending.asks
  let next := resume mode (clock station.reads) station.state pending reply.1
  (next.2,
    ⟨station.reads + 1, next.1, reply.2,
      station.asked ++ [⟨pending.asks, reply.1⟩]⟩)

variable {backend mode clock} {call : Call} {station : Station σ}

theorem serve_eq (station : Station σ) (call : Call) :
    station.serve backend mode clock call =
      follow backend mode clock 2 (station.begin mode clock call).1
        (station.begin mode clock call).2 :=
  rfl

theorem follow_asking (questions : Nat) (pending : Pending call)
    (station : Station σ) :
    follow backend mode clock (questions + 1) (.asking pending) station =
      follow backend mode clock questions
        (station.goOn backend mode clock pending).1
        (station.goOn backend mode clock pending).2 :=
  rfl

theorem follow_of_ends {progress : Progress call} {result : Option call.Reply}
    (h : progress.Ends result) (questions : Nat) (station : Station σ) :
    follow backend mode clock questions progress station = (result, station) := by
  cases h <;> cases questions <;> rfl

theorem resumes_goOn (backend : Backend σ) (mode : Mode)
    (clock : Nat → Instant) (station : Station σ) (pending : Pending call) :
    Resumes mode (clock station.reads) station.state pending
      (backend station.store pending.asks).1
      ((station.goOn backend mode clock pending).2.state,
        (station.goOn backend mode clock pending).1) :=
  resumes_resume mode _ station.state pending _

/-! ## Whole calls -/

/-- A question that a call asks, and the station where it is asked. -/
inductive Asks (backend : Backend σ) (mode : Mode) (clock : Nat → Instant)
    (station : Station σ) :
    (call : Call) → Pending call → Station σ → Prop
  | first {call : Call} {pending : Pending call}
      (hstart : (Cache.start mode (clock station.reads) station.state call).2 =
        .asking pending) :
      Asks backend mode clock station call pending
        (station.begin mode clock call).2
  /-- The upsert was superseded, and the cache has dropped what it held. -/
  | again (kind : Kind) (item : Item)
      (hlost : (backend station.store (.upsert kind item)).1 =
        .ok .superseded) :
      Asks backend mode clock station (.upsert kind item)
        (.reread kind item (station.state.generation + 1))
        { reads := station.reads + 2
          state := station.state.recordLoss kind item.key
          store := (backend station.store (.upsert kind item)).2
          asked := station.asked ++ [⟨.upsert kind item, .ok .superseded⟩] }

/-- What a superseded upsert asks next is its last question. -/
theorem exists_again {pending : Pending call}
    (h : Rereads (station.begin mode clock call).2.state pending
      (backend station.store pending.asks).1
      (resume mode (clock (station.reads + 1))
        (station.begin mode clock call).2.state pending
        (backend station.store pending.asks).1)) :
    ∃ again result,
      ((station.begin mode clock call).2.goOn backend mode clock pending).1 =
        .asking again ∧
      Asks backend mode clock station call again
        ((station.begin mode clock call).2.goOn backend mode clock pending).2 ∧
      (((station.begin mode clock call).2.goOn backend mode clock
        pending).2.goOn backend mode clock again).1.Ends result := by
  generalize hreply : (backend station.store pending.asks).1 = reply at h
  generalize hresume : resume mode (clock (station.reads + 1))
    (station.begin mode clock call).2.state pending reply = resumed at h
  cases h with
  | mk kind item =>
      have hstate : (station.begin mode clock (.upsert kind item)).2.state =
          station.state := start_upsert mode _ station.state kind item
      rw [hstate] at hresume
      have hgoOn : (station.begin mode clock (.upsert kind item)).2.goOn backend
          mode clock (.upsert kind item) =
            (.asking (.reread kind item (station.state.generation + 1)),
              { reads := station.reads + 2
                state := station.state.recordLoss kind item.key
                store := (backend station.store (.upsert kind item)).2
                asked := station.asked ++
                  [⟨.upsert kind item, .ok .superseded⟩] }) := by
        simp only [goOn, hstate]
        simp only [begin, hreply, hresume]
      rw [hgoOn]
      rcases (resumes_goOn backend mode clock _
          (.reread kind item (station.state.generation + 1))).ends_or_rereads with
        ⟨result, hends⟩ | hreread
      · exact ⟨_, result, rfl, .again kind item hreply, hends⟩
      · generalize (backend (backend station.store (.upsert kind item)).2
          (Pending.reread kind item (station.state.generation + 1)).asks).1 =
            reply at hreread
        cases hreread

/-- A call is answered from the cache, or a question of it is the last. -/
theorem serve_cases (backend : Backend σ) (mode : Mode)
    (clock : Nat → Instant) (station : Station σ) (call : Call) :
    (∃ answer,
      (station.begin mode clock call).1 = .answered (.ok answer) ∧
      station.serve backend mode clock call =
        (some (.ok answer), (station.begin mode clock call).2)) ∨
    ∃ pending middle result, Asks backend mode clock station call pending middle ∧
      (middle.goOn backend mode clock pending).1.Ends result ∧
      station.serve backend mode clock call =
        (result, (middle.goOn backend mode clock pending).2) := by
  rw [serve_eq]
  by_cases hremembers :
      station.state.Remembers mode (clock station.reads) call
  · obtain ⟨answer, hstart⟩ := start_of_remembers hremembers
    have hbegin : (station.begin mode clock call).1 = .answered (.ok answer) :=
      hstart
    rw [hbegin]
    exact .inl ⟨answer, rfl, follow_of_ends (.answered _) 2 _⟩
  · obtain ⟨pending, hstart⟩ := start_of_not_remembers hremembers
    have hbegin : (station.begin mode clock call).1 = .asking pending := hstart
    rw [hbegin, follow_asking]
    refine .inr ?_
    rcases (resumes_goOn backend mode clock (station.begin mode clock call).2
      pending).ends_or_rereads with ⟨result, hends⟩ | hreread
    · exact ⟨pending, _, result, .first hstart, hends, follow_of_ends hends 1 _⟩
    · obtain ⟨again, result, hagain, hasks, hends⟩ := exists_again hreread
      rw [hagain, follow_asking]
      exact ⟨again, _, result, hasks, hends, follow_of_ends hends 0 _⟩

theorem asks_of_start {pending : Pending call}
    (hstart : (Cache.start mode (clock station.reads) station.state call).2 =
      .asking pending) : pending.asks = call := by
  rcases start_cases mode (clock station.reads) station.state call with
    ⟨reply, hreply, -⟩ | ⟨found, hfound, hasks⟩
  · rw [hreply] at hstart
    cases hstart
  · rw [hfound] at hstart
    cases hstart
    exact hasks

/-- Only an upsert asks a second question. -/
theorem Asks.first_of_ne {pending : Pending call} {middle : Station σ}
    (h : Asks backend mode clock station call pending middle)
    (hne : ∀ kind item, call ≠ .upsert kind item) :
    pending.asks = call ∧ middle = (station.begin mode clock call).2 := by
  cases h with
  | first hstart => exact ⟨asks_of_start hstart, rfl⟩
  | again kind item _ => exact absurd rfl (hne kind item)

theorem Asks.exists_asked {pending : Pending call} {middle : Station σ}
    (h : Asks backend mode clock station call pending middle) :
    ∃ exchanges, middle.asked = station.asked ++ exchanges := by
  cases h with
  | first _ => exact ⟨[], (List.append_nil _).symm⟩
  | again kind item _ => exact ⟨_, rfl⟩

theorem exists_asked_serve (backend : Backend σ) (mode : Mode)
    (clock : Nat → Instant) (station : Station σ) (call : Call) :
    ∃ exchanges, (station.serve backend mode clock call).2.asked =
      station.asked ++ exchanges := by
  rcases serve_cases backend mode clock station call with
    ⟨answer, -, hserve⟩ | ⟨pending, middle, result, hasks, -, hserve⟩
  · rw [hserve]
    exact ⟨[], (List.append_nil _).symm⟩
  · obtain ⟨exchanges, hasked⟩ := hasks.exists_asked
    rw [hserve]
    refine ⟨exchanges ++ [⟨pending.asks,
      (backend middle.store pending.asks).1⟩], ?_⟩
    simp only [goOn, hasked, List.append_assoc]

/-! ## Reads -/

variable {slot : Slot} {after : Station σ}

theorem entry_of_start {reply : slot.call.Reply}
    (h : (station.begin mode clock slot.call).1 = .answered reply) :
    ∃ entry value, mode.isEnabled = true ∧
      station.state.held? slot = some entry ∧
      entry.fresh? (clock station.reads) = some value ∧ reply = .ok value := by
  cases slot with
  | item kind key =>
      simp only [begin, Cache.start, startGet] at h
      split at h
      · rename_i henabled
        split at h
        · rename_i found hitem
          cases h
          obtain ⟨entry, hentry, hfresh⟩ := State.exists_entry_of_item? hitem
          exact ⟨entry, _, henabled, hentry, hfresh, rfl⟩
        · cases h
      · cases h
  | live kind =>
      simp only [begin, Cache.start, startAll] at h
      split at h
      · rename_i henabled
        split at h
        · rename_i items hlive
          cases h
          obtain ⟨entry, hentry, hfresh⟩ := Option.bind_eq_some_iff.mp hlive
          exact ⟨entry, _, henabled, hentry, hfresh, rfl⟩
        · cases h
      · cases h

/-- A read passes the reply of the store on, unless it is aborted. -/
theorem ends_of_read {pending : Pending slot.call}
    {result : Option slot.call.Reply}
    (h : (station.goOn backend mode clock pending).1.Ends result) :
    result = none ∨ result = some (backend station.store slot.call).1 := by
  have hresumes := resumes_resume mode (clock station.reads) station.state pending
    (backend station.store pending.asks).1
  simp only [goOn] at h
  generalize resume mode (clock station.reads) station.state pending
    (backend station.store pending.asks).1 = next at h hresumes
  cases slot with
  | item kind key =>
      cases pending with
      | pass | get =>
          generalize (backend station.store (.get kind key)).1 = reply at hresumes ⊢
          cases hresumes <;> cases h <;> simp
  | live kind =>
      cases pending with
      | pass | all =>
          generalize (backend station.store (.all kind)).1 = reply at hresumes ⊢
          cases hresumes <;> cases h <;> simp

/-- A read that is answered gives what a fresh entry holds, or what the store
replies. -/
theorem read_cases {reply : slot.call.Reply}
    (h : station.serve backend mode clock slot.call = (some reply, after)) :
    (∃ entry value, mode.isEnabled = true ∧
      station.state.held? slot = some entry ∧
      entry.fresh? (clock station.reads) = some value ∧ reply = .ok value) ∨
    reply = (backend station.store slot.call).1 ∧
      after.asked = station.asked ++ [⟨slot.call, reply⟩] := by
  rcases serve_cases backend mode clock station slot.call with
    ⟨answer, hstart, hserve⟩ | ⟨pending, middle, result, hasks, hends, hserve⟩
  · rw [hserve] at h
    cases h
    exact .inl (entry_of_start hstart)
  · rw [hserve] at h
    cases h
    obtain ⟨hcall, rfl⟩ := hasks.first_of_ne (by cases slot <;> simp)
    rcases ends_of_read hends with hnone | hsome
    · cases hnone
    · have hreply : reply = (backend station.store slot.call).1 :=
        Option.some.inj hsome
      refine .inr ⟨hreply, ?_⟩
      simp only [goOn]
      rw [hreply, hcall]
      rfl

/-! ## Runs -/

inductive Turn (σ : Type) where
  /-- A call through the cache. -/
  | own (call : Call)
  /-- Others change the store past the cache. -/
  | past (change : σ → σ)

def take (backend : Backend σ) (mode : Mode) (clock : Nat → Instant)
    (station : Station σ) : Turn σ → Station σ
  | .own call => (station.serve backend mode clock call).2
  | .past change => { station with store := change station.store }

def run (backend : Backend σ) (mode : Mode) (clock : Nat → Instant)
    (station : Station σ) (turns : List (Turn σ)) : Station σ :=
  turns.foldl (take backend mode clock) station

/-- What calls keep, and changes past the cache, holds after every run. -/
theorem run_keeps (p : Station σ → Prop)
    (hown : ∀ {station : Station σ} (call : Call), p station →
      p (station.serve backend mode clock call).2)
    (hpast : ∀ {station : Station σ} (change : σ → σ), p station →
      p { station with store := change station.store })
    (h : p station) (turns : List (Turn σ)) :
    p (station.run backend mode clock turns) := by
  induction turns generalizing station with
  | nil => exact h
  | cons turn rest ih =>
      cases turn with
      | own call => exact ih (hown call h)
      | past change => exact ih (hpast change h)

theorem run_append (station : Station σ) (past rest : List (Turn σ)) :
    station.run backend mode clock (past ++ rest) =
      (station.run backend mode clock past).run backend mode clock rest :=
  List.foldl_append

end Station

end Cache

end VersionedFlags
