import VersionedFlags.Proofs.Cache.Stages

/-!
# What the slots show while calls overlap

Nothing but the calls through a cache writes to its backend.  A slot that none
of them outdates shows what the backend answers, unless it is late: a write
entered its own item there when the backend had moved on to something else.
-/

namespace VersionedFlags

namespace Cache

namespace Traffic

/-! ## Flights -/

def Unrecorded (traffic : Traffic) (slot : Slot) : Prop :=
  ∃ flight ∈ traffic.flights, flight.stage.Unrecorded slot

def Outdated (traffic : Traffic) (slot : Slot) : Prop :=
  ∃ flight ∈ traffic.flights, flight.stage.Outdates slot

theorem Unrecorded.outdated {traffic : Traffic} {slot : Slot}
    (h : traffic.Unrecorded slot) : traffic.Outdated slot := by
  obtain ⟨flight, hm, hflight⟩ := h
  exact ⟨flight, hm, .unrecorded hflight⟩

theorem exists_mem_set {flights : List Flight} {index : Nat}
    {before : Flight} (after : Flight) (hbefore : flights[index]? = some before)
    {p : Flight → Prop} (h : ∃ flight ∈ flights, p flight) :
    p before ∨ ∃ flight ∈ flights.set index after, p flight := by
  obtain ⟨flight, hm, hflight⟩ := h
  obtain ⟨other, hother⟩ := List.mem_iff_getElem?.mp hm
  by_cases hindex : other = index
  · subst hindex
    rw [hbefore] at hother
    cases hother
    exact .inl hflight
  · refine .inr ⟨flight, ?_, hflight⟩
    refine List.mem_iff_getElem?.mpr ⟨other, ?_⟩
    rw [List.getElem?_set_ne (Ne.symm hindex), hother]

theorem mem_set_self {flights : List Flight} {index : Nat}
    {before : Flight} (hbefore : flights[index]? = some before)
    (after : Flight) : after ∈ flights.set index after :=
  List.mem_set (List.getElem?_eq_some_iff.mp hbefore).1 after

variable {mode : Mode} {handle : Nat} {traffic : Traffic}

/-! ## Late slots -/

/-- The slot shows something that the backend does not answer. -/
def Differs (handle : Nat) (traffic : Traffic) (slot : Slot) : Prop :=
  ∃ value, traffic.state.shown? slot = some value ∧
    (traffic.cluster.serve handle slot.call).1 ≠ .ok value

def Enters (traffic : Traffic) (move : Move) (slot : Slot) : Prop :=
  ∃ index flight shown, move = .record index ∧
    traffic.flights[index]? = some flight ∧ flight.stage.Enters slot shown

/-- The late slots after a move: those in which a write entered its item while
the backend answers something else, and those that were late and show what they
showed. -/
def lateAfter (mode : Mode) (handle : Nat) (traffic : Traffic) (move : Move)
    (late : Slot → Prop) (slot : Slot) : Prop :=
  let next := traffic.step mode handle move
  traffic.Enters move slot ∧ next.Differs handle slot ∨
    ¬ traffic.Enters move slot ∧ late slot ∧
      next.state.shown? slot = traffic.state.shown? slot

def lateIn (mode : Mode) (handle : Nat) (traffic : Traffic)
    (late : Slot → Prop) : List Move → Slot → Prop
  | [] => late
  | move :: rest =>
      lateIn mode handle (traffic.step mode handle move)
        (lateAfter mode handle traffic move late) rest

/-! ## The invariant -/

/-- What holds of the traffic through a cache around an open handle whose
backend holds a ledger. -/
structure Tracked (mode : Mode) (handle index : Nat) (realm : Realm)
    (file : Bool) (ledger : Ledger) (late : Slot → Prop) (traffic : Traffic) :
    Prop where
  handle_eq : traffic.cluster.handles[handle]? = some ⟨index, realm, false⟩
  holds : traffic.cluster.Holds index file ledger
  kept : ∀ flight ∈ traffic.flights,
    flight.call ≠ .close ∧ flight.call.Kept file
  suits : ∀ flight ∈ traffic.flights, flight.stage.Suits mode
  bare : mode.isEnabled = false → ∀ slot, traffic.state.shown? slot = none
  seen_le : ∀ flight ∈ traffic.flights, ∀ seen,
    flight.stage.seen? = some seen → seen ≤ traffic.state.generation
  /-- A read that will be recorded has what the backend answers, or some write
  of its slot is to be recorded after it. -/
  brought : ∀ flight ∈ traffic.flights, ∀ slot value,
    flight.stage.Brings slot traffic.state.generation value →
      value = ledger.answer realm slot ∨ traffic.Unrecorded slot
  shown : ∀ slot value, traffic.state.shown? slot = some value →
    (value = ledger.answer realm slot ↔ ¬ late slot) ∨ traffic.Outdated slot

variable {index : Nat} {realm : Realm} {file : Bool} {ledger : Ledger}
  {late : Slot → Prop}

theorem tracked_start (mode : Mode) (late : Slot → Prop) {cluster : Cluster}
    (now : Instant)
    (hhandle : cluster.handles[handle]? = some ⟨index, realm, false⟩)
    (hholds : cluster.Holds index file ledger) :
    Tracked mode handle index realm file ledger late (start now cluster) where
  handle_eq := hhandle
  holds := hholds
  kept := by simp [start]
  suits := by simp [start]
  bare := fun _ slot => State.shown?_start slot
  seen_le := by simp [start]
  brought := by simp [start]
  shown := by
    intro slot value h
    simp [start] at h

/-! ## What a move preserves -/

/-- Only a step on the cache can make a slot late or good. -/
theorem Tracked.same_late {move : Move}
    (h : Tracked mode handle index realm file ledger late
      (traffic.step mode handle move))
    (hmove : ∀ position, move ≠ .record position)
    (hshown : ∀ slot, (traffic.step mode handle move).state.shown? slot =
      traffic.state.shown? slot) :
    Tracked mode handle index realm file ledger
      (lateAfter mode handle traffic move late)
      (traffic.step mode handle move) := by
  have hlate : lateAfter mode handle traffic move late = late := by
    funext slot
    simp [lateAfter, Enters, hmove, hshown]
  rw [hlate]
  exact h

theorem isEnabled_of_brings {call : Call} {stage : Stage call} {slot : Slot}
    {seen : Nat} {value : slot.call.Answer} (hsuits : stage.Suits mode)
    (h : stage.Brings slot seen value) : mode.isEnabled = true := by
  cases h <;> exact hsuits

theorem seen?_of_brings {call : Call} {stage : Stage call} {slot : Slot}
    {seen : Nat} {value : slot.call.Answer} (h : stage.Brings slot seen value) :
    stage.seen? = some seen := by
  cases h <;> rfl

theorem not_outdates_of_brings {call : Call} {stage : Stage call}
    {slot other : Slot} {seen : Nat} {value : slot.call.Answer}
    (h : stage.Brings slot seen value) : ¬ stage.Outdates other := by
  cases h <;> rintro ⟨⟨⟩⟩

theorem Tracked.tick
    (h : Tracked mode handle index realm file ledger late traffic)
    (nanos : Nat) :
    Tracked mode handle index realm file ledger late
      (traffic.step mode handle (.tick nanos)) :=
  ⟨h.handle_eq, h.holds, h.kept, h.suits, h.bare, h.seen_le, h.brought,
    h.shown⟩

theorem Tracked.begin
    (h : Tracked mode handle index realm file ledger late traffic)
    {call : Call} (hopen : call ≠ .close) (hkept : call.Kept file) :
    Tracked mode handle index realm file ledger late
      (traffic.step mode handle (.begin call)) := by
  have hbegun := begun_start mode traffic.now traffic.state hopen
  simp only [step]
  generalize Cache.start mode traffic.now traffic.state call = result at hbegun
  obtain ⟨state, progress⟩ := result
  obtain ⟨hgeneration, hshown, hsuits, hseen⟩ := hbegun
  simp only at hgeneration hshown hsuits hseen
  have hcases : ∀ flight ∈ traffic.flights ++ [⟨call, .ofProgress progress⟩],
      flight ∈ traffic.flights ∨ flight = ⟨call, .ofProgress progress⟩ := by
    simp
  exact {
    handle_eq := h.handle_eq
    holds := h.holds
    kept := by
      intro flight hm
      rcases hcases flight hm with hm | rfl
      · exact h.kept flight hm
      · exact ⟨hopen, hkept⟩
    suits := by
      intro flight hm
      rcases hcases flight hm with hm | rfl
      · exact h.suits flight hm
      · exact hsuits
    bare := fun hmode slot => (hshown slot).trans (h.bare hmode slot)
    seen_le := by
      intro flight hm seen heq
      rw [hgeneration]
      rcases hcases flight hm with hm | rfl
      · exact h.seen_le flight hm seen heq
      · exact (hseen seen heq).le
    brought := by
      intro flight hm slot value hbrings
      rw [hgeneration] at hbrings
      rcases hcases flight hm with hm | rfl
      · refine (h.brought flight hm slot value hbrings).imp_right ?_
        rintro ⟨other, hother, hunrecorded⟩
        exact ⟨other, List.mem_append_left _ hother, hunrecorded⟩
      · exact absurd hbrings (Stage.not_brings_ofProgress _ _ _ _)
    shown := by
      intro slot value heq
      rw [hshown] at heq
      refine (h.shown slot value heq).imp_right ?_
      rintro ⟨other, hother, houtdates⟩
      exact ⟨other, List.mem_append_left _ hother, houtdates⟩ }

/-- A flight goes on, and with it perhaps the backend and the cache. -/
theorem Tracked.set
    (h : Tracked mode handle index realm file ledger late traffic)
    {position : Nat} {call : Call} {before after : Stage call}
    (hbefore : traffic.flights[position]? = some ⟨call, before⟩)
    {next : Traffic}
    (hflights : next.flights = traffic.flights.set position ⟨call, after⟩)
    {other : Ledger} {newlyLate : Slot → Prop}
    (hhandle : next.cluster.handles[handle]? = some ⟨index, realm, false⟩)
    (hholds : next.cluster.Holds index file other)
    (hsuits : after.Suits mode)
    (hbare : mode.isEnabled = false → ∀ slot,
      next.state.shown? slot = traffic.state.shown? slot)
    (hgeneration : traffic.state.generation ≤ next.state.generation)
    (hseen : ∀ seen, after.seen? = some seen → seen ≤ next.state.generation)
    (hledger : mode.isEnabled = true → ∀ slot,
      other.answer realm slot = ledger.answer realm slot ∨ after.Unrecorded slot)
    (hunrecorded : mode.isEnabled = true → ∀ slot, before.Unrecorded slot →
      traffic.state.generation < next.state.generation)
    (hbrings : ∀ slot value, after.Brings slot next.state.generation value →
      value = other.answer realm slot)
    (hshown : mode.isEnabled = true → ∀ slot value,
      next.state.shown? slot = some value →
        (value = other.answer realm slot ↔ ¬ newlyLate slot) ∨
          next.Outdated slot) :
    Tracked mode handle index realm file other newlyLate next := by
  have hcases : ∀ flight ∈ next.flights,
      flight ∈ traffic.flights ∨ flight = ⟨call, after⟩ := by
    rw [hflights]
    exact fun flight => List.mem_or_eq_of_mem_set
  have hself : (⟨call, after⟩ : Flight) ∈ next.flights := by
    rw [hflights]
    exact mem_set_self hbefore _
  have hbefore' := List.mem_of_getElem? hbefore
  exact {
    handle_eq := hhandle
    holds := hholds
    kept := by
      intro flight hm
      rcases hcases flight hm with hm | rfl
      · exact h.kept flight hm
      · exact h.kept ⟨call, before⟩ hbefore'
    suits := by
      intro flight hm
      rcases hcases flight hm with hm | rfl
      · exact h.suits flight hm
      · exact hsuits
    bare := fun hmode slot => (hbare hmode slot).trans (h.bare hmode slot)
    seen_le := by
      intro flight hm seen heq
      rcases hcases flight hm with hm | rfl
      · exact (h.seen_le flight hm seen heq).trans hgeneration
      · exact hseen seen heq
    brought := by
      intro flight hm slot value hbrings'
      rcases hcases flight hm with hm | rfl
      · have hmode := isEnabled_of_brings (h.suits flight hm) hbrings'
        have heq : next.state.generation = traffic.state.generation :=
          (h.seen_le flight hm _ (seen?_of_brings hbrings')).antisymm hgeneration
        rw [heq] at hbrings'
        rcases h.brought flight hm slot value hbrings' with rfl | hother
        · rcases hledger hmode slot with hsame | hafter
          · exact .inl hsame.symm
          · exact .inr ⟨_, hself, hafter⟩
        · rcases exists_mem_set ⟨call, after⟩ hbefore hother with
            hmine | hother
          · have := hunrecorded hmode slot hmine
            omega
          · refine .inr ?_
            rw [Unrecorded, hflights]
            exact hother
      · exact .inl (hbrings slot value hbrings')
    shown := by
      intro slot value heq
      cases hmode : mode.isEnabled with
      | true => exact hshown hmode slot value heq
      | false =>
          rw [hbare hmode, h.bare hmode] at heq
          cases heq }

/-! ### Replies -/

/-- What the backend does for a call concerns only slots that the call outdates
from then on. -/
theorem unrecorded_of_serve (ledger : Ledger) (realm : Realm) {call : Call}
    {pending : Pending call} (hmode : mode.isEnabled = true)
    (hsuits : pending.Suits mode) (slot : Slot) :
    (ledger.serve realm pending.asks).2.answer realm slot =
        ledger.answer realm slot ∨
      (Stage.replied pending (.ok (ledger.serve realm pending.asks).1)).Unrecorded
        slot := by
  cases pending with
  | init data => exact .inr (.init data slot)
  | get kind key seen => exact .inl rfl
  | all kind seen => exact .inl rfl
  | reread kind item seen => exact .inl rfl
  | initialized => exact .inl rfl
  | pass call => exact absurd (hmode.symm.trans hsuits) (by decide)
  | upsert kind item =>
      simp only [Pending.asks, Ledger.serve, Ledger.upsert]
      split
      · by_cases hitem : slot = .item kind item.key
        · subst hitem
          exact .inr (.item kind item)
        · by_cases hlive : slot = .live kind
          · subst hlive
            exact .inr (.live kind item)
          · exact .inl (Ledger.answer_put_of_ne hitem hlive)
      · exact .inl rfl

theorem brings_of_serve {call : Call} {pending : Pending call} {slot : Slot}
    {seen : Nat} {value : slot.call.Answer}
    (h : (Stage.replied pending
      (.ok (ledger.serve realm pending.asks).1)).Brings slot seen value) :
    value = (ledger.serve realm pending.asks).2.answer realm slot := by
  have hvisible : ∀ stored : Option Item,
      (stored.bind Item.visible?).bind Item.visible? =
        stored.bind Item.visible? := by
    intro stored
    cases stored with
    | none => rfl
    | some item => cases hdeleted : item.deleted <;> simp [Item.visible?, hdeleted]
  cases pending with
  | init data => cases h
  | get kind key seen =>
      cases h
      exact hvisible _
  | all kind seen =>
      cases h
      rfl
  | reread kind item seen =>
      cases h
      exact hvisible _
  | initialized => cases h
  | pass call => cases h
  | upsert kind item => cases h

theorem asks_kept {call : Call} (pending : Pending call) (hopen : call ≠ .close)
    (hkept : call.Kept file) :
    pending.asks ≠ .close ∧ pending.asks.Kept file := by
  cases pending with
  | reread kind item seen => exact ⟨nofun, ⟨trivial, fun _ _ => nofun⟩⟩
  | init | get | all | upsert | initialized | pass => exact ⟨hopen, hkept⟩

theorem Tracked.failed
    (h : Tracked mode handle index realm file ledger late traffic)
    {position : Nat} {call : Call} {pending : Pending call}
    (hflight : traffic.flights[position]? = some ⟨call, .asking pending⟩)
    (error : StoreError) :
    Tracked mode handle index realm file ledger late
      { traffic with
        flights := traffic.flights.set position
          ⟨call, .replied pending (.error error)⟩ } := by
  have hm := List.mem_of_getElem? hflight
  refine h.set hflight rfl h.handle_eq h.holds ?_ (fun _ _ => rfl) le_rfl
    ?_ (fun _ _ => .inl rfl) (fun _ _ => nofun) ?_ ?_
  · exact h.suits _ hm
  · exact h.seen_le _ hm
  · intro slot value hbrings
    cases pending <;> cases hbrings
  · intro hmode slot value heq
    rcases h.shown slot value heq with hiff | houtdated
    · exact .inl hiff
    · rcases exists_mem_set _ hflight houtdated with hmine | hother
      · exact absurd hmine (by rintro ⟨⟨⟩⟩)
      · exact .inr hother

theorem Tracked.reply
    (h : Tracked mode handle index realm file ledger late traffic)
    (position : Nat) :
    ∃ next, Tracked mode handle index realm file next late
      (traffic.step mode handle (.reply position)) := by
  rcases step_reply_cases mode handle traffic position with
    hidle | ⟨call, pending, hflight, hstep⟩
  · rw [hidle]
    exact ⟨ledger, h⟩
  · have hm := List.mem_of_getElem? hflight
    have hcall := h.kept _ hm
    have hasks := asks_kept pending hcall.1 hcall.2
    rw [hstep]
    rcases h.holds.serve h.handle_eq hasks.1 hasks.2 with
      ⟨hanswer, hholds, hhandles⟩ | ⟨-, error, herror⟩
    · refine ⟨_, h.set hflight rfl (hhandles ▸ h.handle_eq)
        hholds ?_ (fun _ _ => rfl) le_rfl ?_ ?_ (fun _ _ => nofun) ?_ ?_⟩
      · exact h.suits _ hm
      · exact h.seen_le _ hm
      · intro hmode slot
        rw [hanswer]
        exact unrecorded_of_serve ledger realm hmode (h.suits _ hm) slot
      · intro slot value hbrings
        rw [hanswer] at hbrings
        exact brings_of_serve hbrings
      · intro hmode slot value heq
        rcases h.shown slot value heq with hiff | houtdated
        · rcases unrecorded_of_serve ledger realm hmode (h.suits _ hm) slot with
            hsame | hafter
          · exact .inl (hsame ▸ hiff)
          · refine .inr ⟨_, mem_set_self hflight _, .unrecorded ?_⟩
            rw [hanswer]
            exact hafter
        · rcases exists_mem_set _ hflight houtdated with hmine | hother
          · exact absurd hmine (by rintro ⟨⟨⟩⟩)
          · exact .inr hother
    · rw [herror]
      exact ⟨ledger, h.failed hflight error⟩

theorem Tracked.fail
    (h : Tracked mode handle index realm file ledger late traffic)
    (position : Nat) (error : StoreError) :
    Tracked mode handle index realm file ledger late
      (traffic.step mode handle (.fail position error)) := by
  rcases step_fail_cases mode handle traffic position error with
    hidle | ⟨call, pending, hflight, hstep⟩
  · rw [hidle]
    exact h
  · rw [hstep]
    exact h.failed hflight error

/-! ### Steps on the cache -/

theorem Tracked.record
    (h : Tracked mode handle index realm file ledger late traffic)
    (hclock : mode.expiry? traffic.now ≠ none) (position : Nat) :
    Tracked mode handle index realm file ledger
      (lateAfter mode handle traffic (.record position) late)
      (traffic.step mode handle (.record position)) := by
  rcases step_record_cases mode handle traffic position with
    ⟨hidle, hnone⟩ | ⟨call, stage, hflight, hstep⟩
  · have hlate : lateAfter mode handle traffic (.record position) late = late := by
      funext slot
      simp [lateAfter, hidle, Enters, hnone]
    rw [hidle, hlate]
    exact h
  · have hm := List.mem_of_getElem? hflight
    have hrecorded := recorded_record hclock (h.suits _ hm) (h.seen_le _ hm)
    have henters : ∀ slot, traffic.Enters (.record position) slot ↔
        ∃ shown, stage.Enters slot shown := by
      intro slot
      constructor
      · rintro ⟨place, flight, shown, hmove, hfound, hshown⟩
        cases hmove
        rw [hflight] at hfound
        cases hfound
        exact ⟨shown, hshown⟩
      · rintro ⟨shown, hshown⟩
        exact ⟨position, _, shown, rfl, hflight, hshown⟩
    have hlate : ∀ slot,
        lateAfter mode handle traffic (.record position) late slot ↔
          (∃ shown, stage.Enters slot shown) ∧
            (∃ value, (stage.record mode traffic.now traffic.state).1.shown?
              slot = some value ∧ value ≠ ledger.answer realm slot) ∨
          ¬ (∃ shown, stage.Enters slot shown) ∧ late slot ∧
            (stage.record mode traffic.now traffic.state).1.shown? slot =
              traffic.state.shown? slot := by
      intro slot
      simp only [lateAfter, henters, hstep, Differs,
        h.holds.serve_slot h.handle_eq, ne_eq, Except.ok.injEq, eq_comm]
    rw [hstep]
    refine h.set hflight rfl h.handle_eq h.holds hrecorded.suits
      hrecorded.shown_eq hrecorded.generation_le hrecorded.seen_le
      (fun _ _ => .inl rfl) hrecorded.generation_lt
      (fun slot value hbrings => absurd hbrings (hrecorded.not_brings _ _ _)) ?_
    intro hmode slot value heq
    by_cases hentered : ∃ shown, stage.Enters slot shown
    · refine .inl ?_
      rw [hlate]
      simp [hentered, heq]
    · by_cases hsame : traffic.state.shown? slot = some value
      · -- the slot shows what it did, so it is as late as it was
        rcases h.shown slot value hsame with hiff | houtdated
        · refine .inl ?_
          rw [hlate, hiff]
          simp [hentered, heq, hsame]
        · rcases exists_mem_set _ hflight houtdated with hmine | hother
          · rcases hrecorded.outdates_cases hmode slot hmine with
              hshown | hafter | hnone
            · exact absurd hshown hentered
            · exact .inr ⟨_, mem_set_self hflight _, hafter⟩
            · rw [heq] at hnone
              cases hnone
          · exact .inr hother
      · -- otherwise a read of this generation filled it
        rcases hrecorded.shown_cases slot value heq with
          hshown | hbrings | hshown
        · exact absurd hshown hsame
        · rcases h.brought _ hm slot value hbrings with rfl | hunrecorded
          · refine .inl ?_
            rw [hlate]
            simp [hentered, heq, Ne.symm hsame]
          · rcases exists_mem_set _ hflight hunrecorded.outdated with
              hmine | hother
            · exact absurd hmine (not_outdates_of_brings hbrings)
            · exact .inr hother
        · exact absurd hshown hentered

/-! ## Runs -/

/-- What runs are about: the handle is not closed, a data set can be made, a
database file gives back each written payload unchanged, and entries made at
any moment of the run expire at a moment that the clock can show. -/
def Admits (mode : Mode) (handle : Nat) (file : Bool) (traffic : Traffic) :
    List Move → Prop
  | [] => mode.expiry? traffic.now ≠ none
  | move :: rest =>
      mode.expiry? traffic.now ≠ none ∧
        (∀ call, move = .begin call → call ≠ .close ∧ call.Kept file) ∧
        Admits mode handle file (traffic.step mode handle move) rest

theorem Admits.append {before after : List Move}
    (h : Admits mode handle file traffic (before ++ after)) :
    Admits mode handle file traffic before ∧
      Admits mode handle file (run mode handle traffic before) after := by
  induction before generalizing traffic with
  | nil =>
      refine ⟨?_, h⟩
      cases after with
      | nil => exact h
      | cons move rest => exact h.1
  | cons move rest ih =>
      obtain ⟨hclock, hcall, hrest⟩ := h
      exact ⟨⟨hclock, hcall, (ih hrest).1⟩, (ih hrest).2⟩

theorem Admits.clock {moves : List Move}
    (h : Admits mode handle file traffic moves) :
    mode.expiry? (run mode handle traffic moves).now ≠ none := by
  induction moves generalizing traffic with
  | nil => exact h
  | cons move rest ih => exact ih h.2.2

theorem Tracked.step
    (h : Tracked mode handle index realm file ledger late traffic) {move : Move}
    (hclock : mode.expiry? traffic.now ≠ none)
    (hcall : ∀ call, move = .begin call → call ≠ .close ∧ call.Kept file) :
    ∃ next, Tracked mode handle index realm file next
      (lateAfter mode handle traffic move late)
      (traffic.step mode handle move) := by
  cases move with
  | tick nanos =>
      exact ⟨ledger, (h.tick nanos).same_late (by simp) fun _ => rfl⟩
  | begin call =>
      obtain ⟨hopen, hkept⟩ := hcall call rfl
      have hbegun := begun_start mode traffic.now traffic.state hopen
      exact ⟨ledger, (h.begin hopen hkept).same_late (by simp) hbegun.shown_eq⟩
  | reply position =>
      obtain ⟨next, hnext⟩ := h.reply position
      refine ⟨next, hnext.same_late (by simp) fun slot => ?_⟩
      rcases step_reply_cases mode handle traffic position with
        hidle | ⟨call, pending, -, hstep⟩
      · rw [hidle]
      · rw [hstep]
  | fail position error =>
      refine ⟨ledger, (h.fail position error).same_late (by simp) fun slot => ?_⟩
      rcases step_fail_cases mode handle traffic position error with
        hidle | ⟨call, pending, -, hstep⟩
      · rw [hidle]
      · rw [hstep]
  | record position => exact ⟨ledger, h.record hclock position⟩

theorem Tracked.run {moves : List Move}
    (h : Tracked mode handle index realm file ledger late traffic)
    (hadmits : Admits mode handle file traffic moves) :
    ∃ next, Tracked mode handle index realm file next
      (lateIn mode handle traffic late moves) (run mode handle traffic moves) := by
  induction moves generalizing traffic ledger late with
  | nil => exact ⟨ledger, h⟩
  | cons move rest ih =>
      obtain ⟨hclock, hcall, hrest⟩ := hadmits
      obtain ⟨next, hnext⟩ := h.step hclock hcall
      exact ih hnext hrest

/-- A cache around one handle of a fresh database in memory. -/
def blank : Traffic :=
  start ⟨0⟩ ⟨[.memory .empty], [⟨0, .ofName? none, false⟩]⟩

theorem holds_blank : blank.cluster.Holds 0 false .empty :=
  ⟨.memory .empty, rfl, rfl, rfl⟩

end Traffic

end Cache

end VersionedFlags
