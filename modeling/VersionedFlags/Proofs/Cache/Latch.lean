import VersionedFlags.Proofs.Cache.Forgetting

/-!
# Whether a store is initialized

A cache that was told that its store is initialized says so for ever.  That it
is not may be said from memory, but no longer than a lifetime: a call learns
something of the store or nothing, and what it can learn is listed once.
-/

namespace VersionedFlags

namespace Cache

/-! ## Steps -/

/-- The answer says that the store is initialized. -/
inductive Assures : (call : Call) → Option call.Reply → Prop
  | init (data : DataSet) : Assures (.init data) (some (.ok ()))
  | initialized : Assures .initialized (some (.ok true))

/-- The same is known of whether the store is initialized. -/
structure State.KnowsAs (before after : State) : Prop where
  latched_eq : after.latched = before.latched
  uninitializedUntil_eq : after.uninitializedUntil = before.uninitializedUntil

namespace State

theorem KnowsAs.refl (state : State) : state.KnowsAs state := ⟨rfl, rfl⟩

theorem KnowsAs.trans {first second third : State}
    (h : first.KnowsAs second) (hnext : second.KnowsAs third) :
    first.KnowsAs third :=
  ⟨hnext.latched_eq.trans h.latched_eq,
    hnext.uninitializedUntil_eq.trans h.uninitializedUntil_eq⟩

theorem knowsAs_fillItem (state : State) (kind : Kind) (key : String)
    (entry : Entry (Option Item)) (seen : Nat) :
    state.KnowsAs (state.fillItem kind key entry seen) := by
  simp only [fillItem]
  split <;> exact ⟨rfl, rfl⟩

theorem knowsAs_fillLive (state : State) (kind : Kind)
    (entry : Entry (KeyMap Item)) (seen : Nat) :
    state.KnowsAs (state.fillLive kind entry seen) := by
  simp only [fillLive]
  split <;> exact ⟨rfl, rfl⟩

end State

variable {mode : Mode} {now : Instant} {state : State} {call : Call}

theorem knowsAs_start (mode : Mode) (now : Instant) (state : State)
    (call : Call) : state.KnowsAs (Cache.start mode now state call).1 := by
  by_cases hclose : call = .close
  · subst hclose
    exact ⟨rfl, rfl⟩
  · have hsame := sameMemory_start mode now state hclose
    exact ⟨hsame.latched_eq, hsame.uninitializedUntil_eq⟩

/-- Reads and upserts learn nothing of whether the store is initialized. -/
theorem Resumes.knowsAs {pending : Pending call} {reply : pending.asks.Reply}
    {next : State × Progress call}
    (h : Resumes mode now state pending reply next)
    (hinit : ∀ data, call ≠ .init data) (hinitialized : call ≠ .initialized) :
    state.KnowsAs next.1 := by
  cases h with
  | failed | aborted | passed => exact .refl state
  | initBare data | init data => exact absurd rfl (hinit data)
  | told | denied => exact absurd rfl hinitialized
  | get | reread => exact state.knowsAs_fillItem _ _ _ _
  | all => exact state.knowsAs_fillLive _ _ _
  | applied | superseded => exact ⟨rfl, rfl⟩

theorem Resumes.init_cases {data : DataSet} {reply : (Call.init data).Reply}
    {next : State × Progress (.init data)}
    (h : Resumes mode now state (.init data) reply next)
    {result : Option (Call.init data).Reply} (hends : next.2.Ends result) :
    state.KnowsAs next.1 ∧ ¬ Assures (.init data) result ∨
      result = some (.ok ()) ∧ next.1.latched = true := by
  cases h with
  | failed | aborted =>
      cases hends
      exact .inl ⟨.refl state, fun h => by cases h⟩
  | initBare | init =>
      cases hends
      exact .inr ⟨rfl, rfl⟩

theorem Resumes.initialized_cases {reply : Except StoreError Bool}
    {next : State × Progress .initialized}
    (h : Resumes mode now state .initialized reply next)
    {result : Option Call.initialized.Reply} (hends : next.2.Ends result) :
    state.KnowsAs next.1 ∧ ¬ Assures .initialized result ∨
      (reply = .ok true ∧ result = some (.ok true) ∧ next.1.latched = true) ∨
      reply = .ok false ∧ result = some (.ok false) ∧
        next.1.latched = state.latched ∧
        mode.expiry? now = some next.1.uninitializedUntil := by
  cases h with
  | failed | aborted =>
      cases hends
      exact .inl ⟨.refl state, fun h => by cases h⟩
  | told =>
      cases hends
      exact .inr (.inl ⟨rfl, rfl, rfl⟩)
  | denied hexpires =>
      cases hends
      exact .inr (.inr ⟨rfl, rfl, rfl, hexpires⟩)

/-! ## Calls -/

namespace Station

variable {σ : Type} {backend : Backend σ} {clock : Nat → Instant}
  {station middle after : Station σ}

/-- What a call learns of whether its store is initialized. -/
inductive Learns (backend : Backend σ) (mode : Mode) (clock : Nat → Instant)
    (station after : Station σ) : (call : Call) → Option call.Reply → Prop
  | nothing {call : Call} {result : Option call.Reply}
      (hsame : station.state.KnowsAs after.state)
      (hknown : Assures call result → station.state.latched = true) :
      Learns backend mode clock station after call result
  | made (data : DataSet) (hlatched : after.state.latched = true) :
      Learns backend mode clock station after (.init data) (some (.ok ()))
  | told (hlatched : after.state.latched = true)
      (hasked : ⟨.initialized, .ok true⟩ ∈ after.asked) :
      Learns backend mode clock station after .initialized (some (.ok true))
  | denied (hreply : (backend station.store .initialized).1 = .ok false)
      (hlatched : after.state.latched = station.state.latched) (n : Nat)
      (hread : n < after.reads)
      (hexpires : mode.expiry? (clock n) =
        some after.state.uninitializedUntil) :
      Learns backend mode clock station after .initialized (some (.ok false))

theorem Asks.knowsAs {pending : Pending call}
    (h : Asks backend mode clock station call pending middle) :
    station.state.KnowsAs middle.state := by
  cases h with
  | first _ => exact knowsAs_start mode _ station.state call
  | again _ _ _ => exact ⟨rfl, rfl⟩

theorem latched_of_start
    (h : (Cache.start mode now state .initialized).2 = .answered (.ok true)) :
    state.latched = true := by
  simp only [Cache.start, startInitialized] at h
  split at h
  · assumption
  · split at h
    · split at h <;> cases h
    · cases h

theorem asks_initialized {pending : Pending .initialized}
    (h : (Cache.start mode now state .initialized).2 = .asking pending) :
    pending = .initialized := by
  simp only [Cache.start, startInitialized] at h
  split at h
  · cases h
  · split at h
    · split at h <;> cases h
      rfl
    · cases h
      rfl

theorem learns_start {answer : call.Answer}
    (h : (station.begin mode clock call).1 = .answered (.ok answer)) :
    Learns backend mode clock station (station.begin mode clock call).2 call
      (some (.ok answer)) := by
  refine .nothing (knowsAs_start mode _ station.state call) fun hassures => ?_
  cases hassures with
  | init data => cases h
  | initialized => exact latched_of_start h

theorem learns_init {data : DataSet} {pending : Pending (.init data)}
    {result : Option (Call.init data).Reply}
    (hasks : Asks backend mode clock station (.init data) pending middle)
    (hends : (middle.goOn backend mode clock pending).1.Ends result) :
    Learns backend mode clock station (middle.goOn backend mode clock pending).2
      (.init data) result := by
  have hsame := hasks.knowsAs
  have hresumes := resumes_goOn backend mode clock middle pending
  cases hasks with
  | first hstart =>
      cases hstart
      rcases hresumes.init_cases hends with ⟨hknows, hquiet⟩ | ⟨rfl, hlatched⟩
      · exact .nothing (hsame.trans hknows) fun h => absurd h hquiet
      · exact .made data hlatched

theorem learns_initialized {pending : Pending .initialized}
    {result : Option Call.initialized.Reply}
    (hasks : Asks backend mode clock station .initialized pending middle)
    (hends : (middle.goOn backend mode clock pending).1.Ends result) :
    Learns backend mode clock station (middle.goOn backend mode clock pending).2
      .initialized result := by
  have hsame := hasks.knowsAs
  have hresumes := resumes_goOn backend mode clock middle pending
  cases hasks with
  | first hstart =>
      obtain rfl := asks_initialized hstart
      rcases hresumes.initialized_cases hends with
        ⟨hknows, hquiet⟩ | ⟨hreply, rfl, hlatched⟩ |
          ⟨hreply, rfl, hlatched, hexpires⟩
      · exact .nothing (hsame.trans hknows) fun h => absurd h hquiet
      · refine .told hlatched (List.mem_append_right _ ?_)
        rw [hreply]
        exact List.mem_singleton_self _
      · exact .denied hreply (hlatched.trans hsame.latched_eq) _
          (Nat.lt_succ_self _) hexpires

theorem learns_of_serve {result : Option call.Reply}
    (h : station.serve backend mode clock call = (result, after)) :
    Learns backend mode clock station after call result := by
  rcases serve_cases backend mode clock station call with
    ⟨answer, hstart, hserve⟩ | ⟨pending, middle, found, hasks, hends, hserve⟩
  · rw [hserve] at h
    cases h
    exact learns_start hstart
  · rw [hserve] at h
    cases h
    cases call with
    | init data => exact learns_init hasks hends
    | initialized => exact learns_initialized hasks hends
    | get | all | upsert | close =>
        refine .nothing ?_ fun h => by cases h
        exact hasks.knowsAs.trans
          ((resumes_goOn backend mode clock middle pending).knowsAs (by simp)
            (by simp))

/-! ## Runs -/

theorem reads_le_serve (station : Station σ) (call : Call) :
    station.reads ≤ (station.serve backend mode clock call).2.reads := by
  rcases serve_cases backend mode clock station call with
    ⟨answer, -, hserve⟩ | ⟨pending, middle, result, hasks, -, hserve⟩
  · rw [hserve]
    exact Nat.le_succ _
  · rw [hserve]
    refine Nat.le_trans ?_ (Nat.le_succ middle.reads)
    cases hasks with
    | first _ => exact Nat.le_succ _
    | again _ _ _ => exact Nat.le_add_right _ _

theorem Learns.latched {result : Option call.Reply}
    (h : Learns backend mode clock station after call result)
    (hlatched : station.state.latched = true) : after.state.latched = true := by
  cases h with
  | nothing hsame _ => exact hsame.latched_eq.trans hlatched
  | made _ hlatched => exact hlatched
  | told hlatched _ => exact hlatched
  | denied _ hkept => exact hkept.trans hlatched

theorem Learns.latched_of_assures {result : Option call.Reply}
    (h : Learns backend mode clock station after call result)
    (hassures : Assures call result) : after.state.latched = true := by
  cases h with
  | nothing hsame hknown => exact hsame.latched_eq.trans (hknown hassures)
  | made _ hlatched => exact hlatched
  | told hlatched _ => exact hlatched
  | denied => cases hassures

theorem latched_run (h : station.state.latched = true)
    (turns : List (Turn σ)) :
    (station.run backend mode clock turns).state.latched = true :=
  run_keeps (·.state.latched = true)
    (fun _ h => (learns_of_serve rfl).latched h) (fun _ h => h) h turns

theorem serve_initialized_of_latched (h : station.state.latched = true) :
    (station.serve backend mode clock .initialized).1 = some (.ok true) := by
  have hstart : (station.begin mode clock .initialized).1 =
      .answered (.ok true) := by
    simp only [begin, Cache.start, startInitialized, h, if_true]
  rw [serve_eq, hstart, follow_of_ends (.answered _)]

/-- The store says that it is initialized. -/
def Ready (backend : Backend σ) (station : Station σ) : Prop :=
  (backend station.store .initialized).1 = .ok true

/-- The store does not count as uninitialized from memory. -/
def Asking (mode : Mode) (clock : Nat → Instant) (station : Station σ) : Prop :=
  ∀ nanos moment, mode = .ttl nanos →
    station.state.uninitializedUntil = some moment →
      moment.nanos ≤ (clock station.reads).nanos

theorem serve_initialized_of_ready (h : station.Asking mode clock)
    (hready : station.Ready backend) :
    (station.serve backend mode clock .initialized).1 = some (.ok true) := by
  by_cases hlatched : station.state.latched = true
  · exact serve_initialized_of_latched hlatched
  · have hforgot : ¬ station.state.Remembers mode (clock station.reads)
        .initialized := by
      rintro (hlatched | ⟨nanos, moment, hmode, hmoment, hbefore⟩)
      · contradiction
      · exact Nat.not_lt.mpr (h nanos moment hmode hmoment) hbefore
    obtain ⟨pending, hstart⟩ := start_of_not_remembers hforgot
    obtain rfl := asks_initialized hstart
    have hbegin : (station.begin mode clock .initialized).1 =
        .asking .initialized := hstart
    have hreply : ((station.begin mode clock .initialized).2.goOn backend mode
        clock .initialized).1 = .answered (.ok true) := by
      have hasked : (backend (station.begin mode clock .initialized).2.store
          .initialized).1 = .ok true := hready
      simp only [goOn, hasked, resume]
    rw [serve_eq, hbegin, follow_asking, hreply, follow_of_ends (.answered _)]

/-! ## What is remembered of the store -/

/-- Unless the store is known to be initialized, it counts as uninitialized up to
a lifetime after one of the first readings of the clock. -/
def Dated (mode : Mode) (clock : Nat → Instant) (bound : Nat)
    (station : Station σ) : Prop :=
  station.state.latched = false → ∀ moment,
    station.state.uninitializedUntil = some moment →
      ∃ n < bound, mode.expiry? (clock n) = some (some moment)

variable {bound : Nat}

theorem dated_start (store : σ) : (start .start store).Dated mode clock 0 := by
  rintro - moment hmoment
  cases hmoment

theorem Dated.mono (h : station.Dated mode clock bound) {later : Nat}
    (hle : bound ≤ later) : station.Dated mode clock later := by
  intro hlatched moment hmoment
  obtain ⟨n, hn, hexpires⟩ := h hlatched moment hmoment
  exact ⟨n, Nat.lt_of_lt_of_le hn hle, hexpires⟩

/-- Only the word of the store that it is not initialized is remembered. -/
theorem Dated.learns (h : station.Dated mode clock bound)
    {result : Option call.Reply}
    (hlearns : Learns backend mode clock station after call result)
    (hdenied : (backend station.store .initialized).1 = .ok false →
      after.reads ≤ bound) : after.Dated mode clock bound := by
  intro hlatched moment hmoment
  cases hlearns with
  | nothing hsame _ =>
      rw [hsame.latched_eq] at hlatched
      rw [hsame.uninitializedUntil_eq] at hmoment
      exact h hlatched moment hmoment
  | made _ hset | told hset _ =>
      rw [hset] at hlatched
      cases hlatched
  | denied hreply _ n hn hexpires =>
      exact ⟨n, Nat.lt_of_lt_of_le hn (hdenied hreply), hmoment ▸ hexpires⟩

theorem Dated.serve (h : station.Dated mode clock station.reads) (call : Call) :
    (station.serve backend mode clock call).2.Dated mode clock
      (station.serve backend mode clock call).2.reads :=
  (h.mono (reads_le_serve station call)).learns (learns_of_serve rfl)
    fun _ => Nat.le_refl _

/-- While the store says that it is initialized, nothing else is remembered. -/
theorem Dated.run_ready (h : station.Dated mode clock bound)
    {turns : List (Turn σ)}
    (hready : ∀ part, part <+: turns →
      (station.run backend mode clock part).Ready backend) :
    (station.run backend mode clock turns).Dated mode clock bound := by
  induction turns generalizing station with
  | nil => exact h
  | cons turn rest ih =>
      have hnow : station.Ready backend := hready [] List.nil_prefix
      refine ih ?_ fun part hpart =>
        hready (turn :: part) (List.cons_prefix_cons.mpr ⟨rfl, hpart⟩)
      cases turn with
      | past change => exact h
      | own call =>
          refine h.learns (learns_of_serve rfl) fun hdenied => ?_
          cases hnow.symm.trans hdenied

theorem mem_asked_of_serve {exchange : Exchange}
    (h : exchange ∈ station.asked) {result : Option call.Reply}
    (hserve : station.serve backend mode clock call = (result, after)) :
    exchange ∈ after.asked := by
  obtain ⟨more, hmore⟩ := exists_asked_serve backend mode clock station call
  rw [hserve] at hmore
  exact hmore ▸ List.mem_append_left more h

theorem mem_asked_run {exchange : Exchange} (h : exchange ∈ station.asked)
    (turns : List (Turn σ)) :
    exchange ∈ (station.run backend mode clock turns).asked :=
  run_keeps (exchange ∈ ·.asked) (fun _ h => mem_asked_of_serve h rfl)
    (fun _ h => h) h turns

/-- An initialization through the cache succeeded in one of the turns. -/
def Initializes (backend : Backend σ) (mode : Mode) (clock : Nat → Instant)
    (station : Station σ) (turns : List (Turn σ)) : Prop :=
  ∃ past data rest, turns = past ++ .own (.init data) :: rest ∧
    ((station.run backend mode clock past).serve backend mode clock
      (.init data)).1 = some (.ok ())

theorem Initializes.cons {turn : Turn σ} {turns : List (Turn σ)}
    (h : (station.take backend mode clock turn).Initializes backend mode clock
      turns) : station.Initializes backend mode clock (turn :: turns) := by
  obtain ⟨past, data, rest, rfl, hinit⟩ := h
  exact ⟨turn :: past, data, rest, rfl, hinit⟩

/-- What set the latch. -/
theorem latched_cases {turns : List (Turn σ)}
    (hstart : station.state.latched = false)
    (h : (station.run backend mode clock turns).state.latched = true) :
    station.Initializes backend mode clock turns ∨
      ⟨.initialized, .ok true⟩ ∈
        (station.run backend mode clock turns).asked := by
  induction turns generalizing station with
  | nil => exact absurd h (by simp [run, hstart])
  | cons turn rest ih =>
      -- the first turn that sets the latch decides
      have hlater (hnext : (station.take backend mode clock turn).state.latched =
          false) : station.Initializes backend mode clock (turn :: rest) ∨
            ⟨.initialized, .ok true⟩ ∈
              (station.run backend mode clock (turn :: rest)).asked :=
        (ih hnext h).imp_left Initializes.cons
      cases turn with
      | past change => exact hlater hstart
      | own call =>
          obtain ⟨result, after, hserve⟩ : ∃ result after,
              station.serve backend mode clock call = (result, after) :=
            ⟨_, _, rfl⟩
          have hafter : station.take backend mode clock (.own call) = after :=
            congrArg Prod.snd hserve
          rw [hafter] at hlater
          cases learns_of_serve hserve with
          | nothing hsame _ => exact hlater (hsame.latched_eq.trans hstart)
          | denied _ hsame => exact hlater (hsame.trans hstart)
          | made data _ =>
              exact .inl ⟨[], data, rest, rfl, congrArg Prod.fst hserve⟩
          | told _ hasked =>
              rw [← hafter] at hasked
              exact .inr (mem_asked_run hasked rest)

/-- Some turns around a store with a new cache. -/
def opened (backend : Backend σ) (mode : Mode) (clock : Nat → Instant)
    (store : σ) (turns : List (Turn σ)) : Station σ :=
  (start .start store).run backend mode clock turns

theorem opened_append (store : σ) (past rest : List (Turn σ)) :
    opened backend mode clock store (past ++ rest) =
      (opened backend mode clock store past).run backend mode clock rest :=
  run_append _ past rest

theorem dated_opened (store : σ) (turns : List (Turn σ)) :
    (opened backend mode clock store turns).Dated mode clock
      (opened backend mode clock store turns).reads :=
  run_keeps (fun station => station.Dated mode clock station.reads)
    (fun call h => Dated.serve h call) (fun _ h => h) (dated_start store) turns

theorem asking_of_dated {nanos since : Nat}
    (h : station.Dated (.ttl nanos) clock bound)
    (hbefore : ∀ n < bound, (clock n).nanos ≤ since)
    (hlate : since + nanos ≤ (clock station.reads).nanos)
    (hlatched : station.state.latched = false) :
    station.Asking (.ttl nanos) clock := by
  rintro lifetime moment - hmoment
  obtain ⟨n, hn, hexpires⟩ := h hlatched moment hmoment
  obtain rfl : moment = ⟨(clock n).nanos + nanos⟩ :=
    Option.some.inj (Scene.expires_of_ttl hexpires)
  exact Nat.le_trans (Nat.add_le_add_right (hbefore n hn) nanos) hlate

/-- A cache says that its store is initialized only after an initialization
through it or on the word of the store, and then for ever; while the store is
initialized it says so after a lifetime, or at once if there is none. -/
theorem initialized_latches (backend : Backend σ) (mode : Mode)
    (clock : Nat → Instant) (store : σ) (turns : List (Turn σ)) :
    (∀ after, (opened backend mode clock store turns).serve backend mode clock
        .initialized = (some (.ok true), after) →
      (start .start store).Initializes backend mode clock turns ∨
        ⟨.initialized, .ok true⟩ ∈ after.asked) ∧
    (∀ past call rest, turns = past ++ .own call :: rest →
      Assures call ((opened backend mode clock store past).serve backend mode
        clock call).1 →
      ((opened backend mode clock store turns).serve backend mode clock
        .initialized).1 = some (.ok true)) ∧
    (∀ nanos past rest since, mode = .ttl nanos → turns = past ++ rest →
      (∀ n < (opened backend mode clock store past).reads,
        (clock n).nanos ≤ since) →
      (∀ part, part <+: rest →
        (opened backend mode clock store (past ++ part)).Ready backend) →
      since + nanos ≤
        (clock (opened backend mode clock store turns).reads).nanos →
      ((opened backend mode clock store turns).serve backend mode clock
        .initialized).1 = some (.ok true)) ∧
    ((∀ nanos, mode ≠ .ttl nanos) →
      (opened backend mode clock store turns).Ready backend →
      ((opened backend mode clock store turns).serve backend mode clock
        .initialized).1 = some (.ok true)) := by
  refine ⟨?_, ?_, ?_, ?_⟩
  · intro after hserve
    cases learns_of_serve hserve with
    | told _ hasked => exact .inr hasked
    | nothing _ hknown =>
        exact (latched_cases rfl (hknown .initialized)).imp_right fun hm =>
          mem_asked_of_serve hm hserve
  · rintro past call rest rfl hassures
    rw [opened_append]
    refine serve_initialized_of_latched (latched_run ?_ rest)
    exact (learns_of_serve rfl).latched_of_assures hassures
  · rintro nanos past rest since rfl rfl hbefore hready hlate
    have hfinal := hready rest (List.prefix_refl rest)
    simp only [opened_append] at hready hlate hfinal ⊢
    -- what is remembered was learnt before the store was initialized
    have hdated := (dated_opened store past).run_ready hready
    cases hlatched : ((opened backend (.ttl nanos) clock store past).run backend
        (.ttl nanos) clock rest).state.latched with
    | true => exact serve_initialized_of_latched hlatched
    | false =>
        exact serve_initialized_of_ready
          (asking_of_dated hdated hbefore hlate hlatched) hfinal
  · intro hmode hready
    exact serve_initialized_of_ready
      (fun nanos _ hnanos => absurd hnanos (hmode nanos)) hready

/-- The clock shows its sixth nanosecond from the fourth reading on. -/
def jumping (n : Nat) : Instant := if n < 3 then ⟨1⟩ else ⟨6⟩

/-- The cache is told that its store is not initialized, and then another handle
initializes it. -/
def overtakenInit : List (Turn Cluster) :=
  [.own .initialized, .past fun cluster => (cluster.serve 1 (.init .bare)).2]

/-- What was remembered is given up a lifetime later, and what was learnt then is
kept when the store has been cleared. -/
theorem initialized_latches_overdue :
    ((opened (.ofHandle 0) (.ttl 5) jumping Cluster.pair overtakenInit).serve
        (.ofHandle 0) (.ttl 5) jumping .initialized).1 = some (.ok false) ∧
      ((opened (.ofHandle 0) (.ttl 5) jumping Cluster.pair
          (overtakenInit ++ [.own .initialized])).serve (.ofHandle 0) (.ttl 5)
          jumping .initialized).1 = some (.ok true) ∧
      ((opened (.ofHandle 0) (.ttl 5) jumping Cluster.pair
          (overtakenInit ++ [.own .initialized, .own .initialized,
            .past fun cluster => (cluster.clear 1).2])).serve (.ofHandle 0)
          (.ttl 5) jumping .initialized).1 = some (.ok true) ∧
      ((opened (.ofHandle 0) .forever jumping Cluster.pair overtakenInit).serve
        (.ofHandle 0) .forever jumping .initialized).1 = some (.ok true) := by
  obtain ⟨-, -, hlate, -⟩ := initialized_latches (.ofHandle 0) (.ttl 5) jumping
    Cluster.pair (overtakenInit ++ [.own .initialized])
  obtain ⟨-, hkept, -, -⟩ := initialized_latches (.ofHandle 0) (.ttl 5) jumping
    Cluster.pair (overtakenInit ++ [.own .initialized, .own .initialized,
      .past fun cluster => (cluster.clear 1).2])
  obtain ⟨-, -, -, hprompt⟩ := initialized_latches (.ofHandle 0) .forever jumping
    Cluster.pair overtakenInit
  have hready : ∀ part, part <+: [.own .initialized] →
      (opened (.ofHandle 0) (.ttl 5) jumping Cluster.pair
        (overtakenInit ++ part)).Ready (.ofHandle 0) := by
    intro part hpart
    rcases List.prefix_cons_iff.mp hpart with rfl | ⟨rest, rfl, hrest⟩
    · rfl
    · cases List.prefix_nil.mp hrest
      rfl
  have htold := hlate 5 overtakenInit [.own .initialized] 1 rfl rfl (by decide)
    hready (by decide)
  refine ⟨rfl, htold, ?_, hprompt (by simp) rfl⟩
  refine hkept (overtakenInit ++ [.own .initialized]) .initialized _ rfl ?_
  rw [htold]
  exact .initialized

end Station

end Cache

end VersionedFlags
