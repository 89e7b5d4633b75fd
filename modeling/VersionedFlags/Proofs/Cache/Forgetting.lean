import VersionedFlags.Proofs.Cache.Station

/-!
# Failures only forget

A call that fails records nothing.  It drops something only where an upsert was
superseded and what won could not be read, and where a close failed.  So
whatever a read gives was supplied by a call of the store that succeeded.
-/

namespace VersionedFlags

namespace Cache

/-! ## What a cache remembers -/

namespace State

/-- Counts and the generation apart, a cache is as it was. -/
structure SameMemory (before after : State) : Prop where
  items_eq : after.items = before.items
  live_eq : after.live = before.live
  uninitializedUntil_eq : after.uninitializedUntil = before.uninitializedUntil
  latched_eq : after.latched = before.latched

/-- The entry of a key and the live items of its kind are gone. -/
structure Drops (kind : Kind) (key : String) (before after : State) : Prop where
  get?_items : ∀ other name, (after.items.get other).get? name =
    if other = kind ∧ name = key then none
    else (before.items.get other).get? name
  get_live : ∀ other, after.live.get other =
    if other = kind then none else before.live.get other
  uninitializedUntil_eq : after.uninitializedUntil = before.uninitializedUntil
  latched_eq : after.latched = before.latched

theorem SameMemory.refl (state : State) : state.SameMemory state :=
  ⟨rfl, rfl, rfl, rfl⟩

theorem drops_recordLoss (state : State) (kind : Kind) (key : String) :
    state.Drops kind key (state.recordLoss kind key) where
  get?_items := by
    intro other name
    simp only [recordLoss, dropLive, advance, PerKind.modify, PerKind.get_set]
    by_cases hkind : kind = other
    · subst hkind
      simp [KeyMap.get?_erase]
    · simp [hkind, Ne.symm hkind]
  get_live := by
    intro other
    simp only [recordLoss, dropLive, advance, PerKind.get_set, eq_comm]
  uninitializedUntil_eq := rfl
  latched_eq := rfl

theorem SameMemory.held?_eq {before after : State} (h : before.SameMemory after)
    (slot : Slot) : after.held? slot = before.held? slot := by
  cases slot with
  | item kind key => simp only [held?, h.items_eq]
  | live kind => simp only [held?, h.live_eq]

end State

variable {mode : Mode} {now : Instant} {state : State} {call : Call}

theorem sameMemory_start (mode : Mode) (now : Instant) (state : State)
    (hopen : call ≠ .close) :
    state.SameMemory (Cache.start mode now state call).1 := by
  cases call with
  | close => exact absurd rfl hopen
  | init data => exact .refl state
  | upsert kind item =>
      rw [start_upsert]
      exact .refl state
  | get kind key =>
      simp only [Cache.start, startGet]
      split
      · split <;> exact ⟨rfl, rfl, rfl, rfl⟩
      · exact .refl state
  | all kind =>
      simp only [Cache.start, startAll]
      split
      · split <;> exact ⟨rfl, rfl, rfl, rfl⟩
      · exact .refl state
  | initialized =>
      simp only [Cache.start, startInitialized]
      split
      · exact .refl state
      · split
        · split <;> exact .refl state
        · exact .refl state

/-! ## Failures -/

namespace Station

variable {σ : Type} {backend : Backend σ} {clock : Nat → Instant}
  {station after : Station σ}

/-- A call that fails leaves its cache as it was at its last question. -/
theorem exists_failed_question {error : StoreError}
    (h : station.serve backend mode clock call = (some (.error error), after)) :
    ∃ pending middle, Asks backend mode clock station call pending middle ∧
      (backend middle.store pending.asks).1 = .error error ∧
      after.state = middle.state := by
  rcases serve_cases backend mode clock station call with
    ⟨answer, -, hserve⟩ | ⟨pending, middle, result, hasks, hends, hserve⟩
  · rw [hserve] at h
    cases h
  · rw [hserve] at h
    cases h
    have herror : (middle.goOn backend mode clock pending).1 =
        .answered (.error error) := by
      generalize (middle.goOn backend mode clock pending).1 = progress at hends
      cases hends
      rfl
    obtain ⟨hreply, hstate⟩ :=
      (resumes_goOn backend mode clock middle pending).of_error herror
    exact ⟨pending, middle, hasks, hreply, hstate⟩

/-- How a call through a cache fails, and what it leaves of the cache. -/
inductive Fails (backend : Backend σ) (error : StoreError)
    (station : Station σ) : Call → State → Prop
  | refused {call : Call} {after : State} (hopen : call ≠ .close)
      (hreply : (backend station.store call).1 = .error error)
      (hsame : station.state.SameMemory after) :
      Fails backend error station call after
  /-- What won over an upsert could not be read. -/
  | unread {kind : Kind} {item : Item} {after : State}
      (hlost : (backend station.store (.upsert kind item)).1 =
        .ok .superseded)
      (hreply : (backend (backend station.store (.upsert kind item)).2
        (.get kind item.key)).1 = .error error)
      (hdrops : station.state.Drops kind item.key after) :
      Fails backend error station (.upsert kind item) after
  | closing (hreply : (backend station.store .close).1 = .error error) :
      Fails backend error station .close station.state.clear

theorem fails_of_error {error : StoreError}
    (h : station.serve backend mode clock call = (some (.error error), after)) :
    Fails backend error station call after.state := by
  obtain ⟨pending, middle, hasks, hreply, hstate⟩ := exists_failed_question h
  rw [hstate]
  cases hasks with
  | again kind item hlost =>
      exact .unread hlost hreply (State.drops_recordLoss _ _ _)
  | first hstart =>
      have hreply : (backend station.store call).1 = .error error := by
        have hcall := asks_of_start hstart
        revert hreply
        generalize pending.asks = asks at hcall
        subst hcall
        exact id
      by_cases hclose : call = .close
      · subst hclose
        exact .closing hreply
      · exact .refused hclose hreply (sameMemory_start mode _ _ hclose)

end Station

/-! ## What a store supplies -/

/-- A call of the store that succeeded stands for what a slot may show: it read
that, or it wrote that. -/
inductive Exchange.Supplies :
    Exchange → (slot : Slot) → slot.call.Answer → Prop
  | get (kind : Kind) (key : String) (item : Option Item) :
      Supplies ⟨.get kind key, .ok item⟩ (.item kind key) item
  /-- A tombstone, if the store gives one, is not shown again. -/
  | visible (kind : Kind) (key : String) (item : Option Item) :
      Supplies ⟨.get kind key, .ok item⟩ (.item kind key)
        (item.bind Item.visible?)
  | all (kind : Kind) (items : KeyMap Item) :
      Supplies ⟨.all kind, .ok items⟩ (.live kind) items
  | applied (kind : Kind) (item : Item) :
      Supplies ⟨.upsert kind item, .ok .applied⟩ (.item kind item.key)
        item.visible?
  | init (data : DataSet) {slot : Slot} {value : slot.call.Answer}
      (hshown : data.shown? slot = some value) :
      Supplies ⟨.init data, .ok ()⟩ slot value

variable {p : (slot : Slot) → Entry slot.call.Answer → Prop}

theorem all_start_step (mode : Mode) (now : Instant) (call : Call)
    (hall : state.All p) : (Cache.start mode now state call).1.All p := by
  by_cases hclose : call = .close
  · subst hclose
    exact State.all_clear
  · intro slot entry hentry
    rw [(sameMemory_start mode now state hclose).held?_eq] at hentry
    exact hall slot entry hentry

/-- What is recorded of a reply, it supplies. -/
theorem Resumes.entries {pending : Pending call} {reply : pending.asks.Reply}
    {next : State × Progress call}
    (h : Resumes mode now state pending reply next) (hall : state.All p)
    (hnew : ∀ slot value expires,
      (⟨pending.asks, reply⟩ : Exchange).Supplies slot value →
        p slot ⟨value, expires⟩) : next.1.All p := by
  cases h with
  | failed | aborted | passed | initBare | told | denied => exact hall
  | init data =>
      exact state.all_reset fun slot value hshown =>
        hnew slot value _ (.init data hshown)
  | get kind key seen item =>
      exact hall.fillItem (hnew _ _ _ (.visible kind key item)) seen
  | all kind seen items => exact hall.fillLive (hnew _ _ _ (.all kind items)) seen
  | applied kind item => exact hall.recordWrite (hnew _ _ _ (.applied kind item))
  | superseded kind item => exact hall.recordLoss kind item.key
  | reread kind item seen current =>
      exact hall.fillItem (hnew _ _ _ (.visible kind item.key current)) seen

namespace Station

variable {σ : Type} {backend : Backend σ} {clock : Nat → Instant}
  {station middle : Station σ} {pending : Pending call}
  {held : (slot : Slot) → slot.call.Answer → Prop}

/-- A call of the store supplied what the slot shows. -/
def Supplied (station : Station σ) (slot : Slot) (value : slot.call.Answer) :
    Prop :=
  ∃ exchange ∈ station.asked, exchange.Supplies slot value

/-- Every entry was held before, or its value was supplied. -/
def Vouched (held : (slot : Slot) → slot.call.Answer → Prop)
    (station : Station σ) : Prop :=
  station.state.All fun slot entry =>
    held slot entry.value ∨ station.Supplied slot entry.value

theorem Supplied.append {slot : Slot} {value : slot.call.Answer}
    (h : station.Supplied slot value) {later : Station σ} {more : List Exchange}
    (hasked : later.asked = station.asked ++ more) : later.Supplied slot value := by
  obtain ⟨exchange, hm, hsupplies⟩ := h
  exact ⟨exchange, hasked ▸ List.mem_append_left more hm, hsupplies⟩

theorem Vouched.append (h : station.Vouched held) {more : List Exchange} :
    station.state.All fun slot entry => held slot entry.value ∨
      Supplied { station with asked := station.asked ++ more } slot
        entry.value :=
  State.All.mono h fun _ _ => Or.imp_right fun hsupplied =>
    hsupplied.append rfl

theorem Vouched.begin (h : station.Vouched held) :
    (station.begin mode clock call).2.Vouched held :=
  all_start_step mode _ call h

theorem Vouched.goOn (h : station.Vouched held) :
    (station.goOn backend mode clock pending).2.Vouched held := by
  refine (resumes_goOn backend mode clock station pending).entries h.append
    fun slot value expires hsupplies => .inr ?_
  exact ⟨_, List.mem_append_right _ List.mem_cons_self, hsupplies⟩

theorem Vouched.asks (h : station.Vouched held)
    (hasks : Asks backend mode clock station call pending middle) :
    middle.Vouched held := by
  cases hasks with
  | first _ => exact h.begin
  | again kind item _ => exact State.All.recordLoss h.append kind item.key

theorem Vouched.serve (h : station.Vouched held) (call : Call) :
    (station.serve backend mode clock call).2.Vouched held := by
  rcases serve_cases backend mode clock station call with
    ⟨answer, -, hserve⟩ | ⟨pending, middle, result, hasks, -, hserve⟩
  · rw [hserve]
    exact h.begin
  · rw [hserve]
    exact (h.asks hasks).goOn

theorem Vouched.run (h : station.Vouched held) (turns : List (Turn σ)) :
    (station.run backend mode clock turns).Vouched held :=
  run_keeps (Vouched held) (fun call h => Vouched.serve h call) (fun _ h => h) h
    turns

/-- A read gives what an entry held or what it was supplied with itself. -/
theorem Vouched.read (h : station.Vouched held) {slot : Slot}
    {value : slot.call.Answer} {after : Station σ}
    (hread : station.serve backend mode clock slot.call =
      (some (.ok value), after)) :
    held slot value ∨ after.Supplied slot value := by
  rcases read_cases hread with
    ⟨entry, found, -, hentry, hfresh, hfound⟩ | ⟨hreply, hasked⟩
  · cases hfound
    rw [← Entry.value_of_fresh? hfresh]
    obtain ⟨more, hmore⟩ :=
      exists_asked_serve backend mode clock station slot.call
    rw [hread] at hmore
    exact (h slot entry hentry).imp_right fun hsupplied => hsupplied.append hmore
  · refine .inr ⟨⟨slot.call, .ok value⟩, ?_, ?_⟩
    · rw [hasked]
      exact List.mem_append_right _ List.mem_cons_self
    · cases slot with
      | item kind key => exact .get kind key value
      | live kind => exact .all kind value

/-! ## Failing calls -/

/-- A call that fails leaves its cache as it was, but for what it drops; and
what a read gives was held at first, or a successful call of the store
supplied it. -/
theorem failures_only_forget (backend : Backend σ) (mode : Mode)
    (clock : Nat → Instant) :
    (∀ (station : Station σ) (call : Call) (error : StoreError)
        (after : Station σ),
      station.serve backend mode clock call = (some (.error error), after) →
        Fails backend error station call after.state) ∧
    ∀ (state : State) (store : σ) (turns : List (Turn σ)) (slot : Slot)
        (value : slot.call.Answer) (after : Station σ),
      ((start state store).run backend mode clock turns).serve backend mode clock
          slot.call = (some (.ok value), after) →
        (∃ entry, state.held? slot = some entry ∧ entry.value = value) ∨
          after.Supplied slot value := by
  refine ⟨fun station call error after h => fails_of_error h, ?_⟩
  intro state store turns slot value after hread
  have hstart : (start state store).Vouched fun slot value =>
      ∃ entry, state.held? slot = some entry ∧ entry.value = value :=
    fun slot entry hentry => .inl ⟨entry, hentry, rfl⟩
  exact (hstart.run turns).read hread

/-- A store whose items cannot be read one by one. -/
def unreadable : Backend Cluster
  | cluster, .get _ _ => (.error (.refused "get"), cluster)
  | cluster, call => cluster.serve 0 call

/-- A cache around a store that others have written to. -/
def overtaken (state : State) : Station Cluster :=
  start state (Cluster.pair.serve 1 (.upsert .features (.live "a" 2 .null))).2

/-- The winner of an upsert cannot be read, and is listed then. -/
theorem failures_only_forget_unread :
    ∃ (stale : State) (failed listed : Station Cluster) (items : KeyMap Item),
      stale.held? (.item .features "a") = some ⟨some (.live "a" 1 .null), none⟩ ∧
      (overtaken stale).serve unreadable .forever (fun _ => ⟨0⟩)
          (.upsert .features (.live "a" 1 .null)) =
        (some (.error (.refused "get")), failed) ∧
      Fails unreadable (.refused "get") (overtaken stale)
        (.upsert .features (.live "a" 1 .null)) failed.state ∧
      ((overtaken .start).run unreadable .forever (fun _ => ⟨0⟩)
          [.own (.upsert .features (.live "a" 1 .null))]).serve unreadable
          .forever (fun _ => ⟨0⟩) (.all .features) = (some (.ok items), listed) ∧
      items.get? "a" = some (.live "a" 2 .null) ∧
      listed.Supplied (.live .features) items := by
  obtain ⟨hfails, hreads⟩ :=
    failures_only_forget unreadable .forever fun _ => ⟨0⟩
  refine ⟨State.start.setItem .features "a" ⟨some (.live "a" 1 .null), none⟩,
    _, _, _, rfl, rfl, hfails _ _ _ _ rfl, rfl, rfl, ?_⟩
  refine (hreads .start (overtaken .start).store
    [.own (.upsert .features (.live "a" 1 .null))] (.live .features) _ _
    rfl).resolve_left ?_
  rintro ⟨entry, hentry, -⟩
  cases hentry

end Station

end Cache

end VersionedFlags
