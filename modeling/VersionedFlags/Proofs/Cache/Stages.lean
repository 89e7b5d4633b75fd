import VersionedFlags.Proofs.Cache.Traffic

/-!
# Stages of a call and the slots

A write that its backend has made outdates the slots that it concerns until it
has recorded its part in them.  A read brings what its backend answered, and
records it only if no write was recorded since it began.  What a call does to a
cache with one step is stated slot by slot.
-/

namespace VersionedFlags

namespace Cache

/-! ## What a stage is about -/

/-- Calls that record need an enabled cache, and only a disabled one passes
replies on. -/
def Pending.Suits (mode : Mode) : {call : Call} → Pending call → Prop
  | _, .get _ _ _ | _, .all _ _ | _, .upsert _ _ | _, .reread _ _ _ =>
      mode.isEnabled = true
  | _, .pass _ => mode.isEnabled = false
  | _, .init _ | _, .initialized => True

def Pending.seen? : {call : Call} → Pending call → Option Nat
  | _, .get _ _ seen | _, .all _ seen | _, .reread _ _ seen => some seen
  | _, .upsert _ _ | _, .pass _ | _, .init _ | _, .initialized => none

def Pending.isWrite {call : Call} : Pending call → Bool
  | .init _ | .upsert _ _ => true
  | .get _ _ _ | .all _ _ | .reread _ _ _ | .initialized | .pass _ => false

namespace Stage

/-- A stage that a call can be at while the clock shows every expiry. -/
def Suits (mode : Mode) {call : Call} : Stage call → Prop
  | .asking pending | .replied pending _ => pending.Suits mode
  | .dropping _ _ _ => mode.isEnabled = true
  | .answered _ => True
  | .aborted => False

def seen? {call : Call} : Stage call → Option Nat
  | .asking pending | .replied pending _ => pending.seen?
  | .dropping _ _ _ | .answered _ | .aborted => none

/-- A read with the reply of its backend and the generation it saw. -/
inductive Brings : {call : Call} → Stage call → (slot : Slot) → Nat →
    slot.call.Answer → Prop
  | get (kind : Kind) (key : String) (seen : Nat) (item : Option Item) :
      Brings (.replied (.get kind key seen) (.ok item)) (.item kind key) seen
        (item.bind Item.visible?)
  | all (kind : Kind) (seen : Nat) (items : KeyMap Item) :
      Brings (.replied (.all kind seen) (.ok items)) (.live kind) seen items
  | reread (kind : Kind) (item : Item) (seen : Nat) (found : Option Item) :
      Brings (.replied (.reread kind item seen) (.ok found))
        (.item kind item.key) seen (found.bind Item.visible?)

/-- A write that its backend has made and that is not recorded yet. -/
inductive Unrecorded : {call : Call} → Stage call → Slot → Prop
  | init (data : DataSet) (slot : Slot) :
      Unrecorded (.replied (.init data) (.ok ())) slot
  | item (kind : Kind) (item : Item) :
      Unrecorded (.replied (.upsert kind item) (.ok .applied))
        (.item kind item.key)
  | live (kind : Kind) (item : Item) :
      Unrecorded (.replied (.upsert kind item) (.ok .applied)) (.live kind)

/-- What a write shows in a slot once its own item is recorded there. -/
inductive Enters : {call : Call} → Stage call → (slot : Slot) →
    Option slot.call.Answer → Prop
  | init (data : DataSet) (slot : Slot) :
      Enters (.replied (.init data) (.ok ())) slot (data.shown? slot)
  | item (kind : Kind) (item : Item) :
      Enters (.replied (.upsert kind item) (.ok .applied))
        (.item kind item.key) (some item.visible?)

/-- Whether the write has yet to record something in the slot or to drop it. -/
inductive Outdates : {call : Call} → Stage call → Slot → Prop
  | unrecorded {call : Call} {stage : Stage call} {slot : Slot} :
      stage.Unrecorded slot → Outdates stage slot
  | dropping (kind : Kind) (item : Item) :
      Outdates (.dropping kind item .applied) (.live kind)

end Stage

/-! ## Steps on the cache -/

namespace Stage

theorem not_brings_ofProgress {call : Call} (progress : Progress call)
    (slot : Slot) (seen : Nat) (value : slot.call.Answer) :
    ¬ (ofProgress progress).Brings slot seen value := by
  cases progress <;> exact nofun

theorem not_outdates_ofProgress {call : Call} (progress : Progress call)
    (slot : Slot) : ¬ (ofProgress progress).Outdates slot := by
  cases progress <;> rintro ⟨⟨⟩⟩

/-- A stage of a call that has nothing of a write to record. -/
structure Reads {call : Call} (stage : Stage call) : Prop where
  not_outdates : ∀ slot, ¬ stage.Outdates slot
  not_enters : ∀ slot shown, ¬ stage.Enters slot shown

theorem reads_asking {call : Call} (pending : Pending call) :
    (asking pending).Reads := by
  constructor
  · rintro slot ⟨⟨⟩⟩
  · rintro slot shown ⟨⟩

theorem reads_answered {call : Call} (reply : call.Reply) :
    (answered reply).Reads := by
  constructor
  · rintro slot ⟨⟨⟩⟩
  · rintro slot shown ⟨⟩

theorem reads_error {call : Call} (pending : Pending call) (error : StoreError) :
    (replied pending (.error error)).Reads := by
  constructor
  · rintro slot (h | h)
    cases pending <;> cases h
  · intro slot shown h
    cases pending <;> cases h

theorem reads_replied {call : Call} {pending : Pending call}
    (hread : pending.isWrite = false) (reply : pending.asks.Reply) :
    (replied pending reply).Reads := by
  cases pending with
  | init | upsert => cases hread
  | get | all | reread | initialized | pass =>
      constructor
      · rintro slot ⟨⟨⟩⟩
      · rintro slot shown ⟨⟩

end Stage

/-- What a call begins with: nothing else is shown, and a read remembers the
generation. -/
structure Begun (mode : Mode) (state : State) {call : Call}
    (result : State × Progress call) : Prop where
  generation_eq : result.1.generation = state.generation
  shown_eq : ∀ slot, result.1.shown? slot = state.shown? slot
  suits : (Stage.ofProgress result.2).Suits mode
  seen_eq : ∀ seen, (Stage.ofProgress result.2).seen? = some seen →
    seen = state.generation

theorem Begun.hit (mode : Mode) (state : State) {call : Call}
    (reply : call.Reply) : Begun mode state (state.hit, .answered reply) :=
  ⟨rfl, fun _ => State.shown?_hit _, trivial, nofun⟩

theorem Begun.miss {mode : Mode} {state : State} {call : Call}
    {pending : Pending call} (hsuits : pending.Suits mode)
    (hseen : pending.seen? = some state.generation) :
    Begun mode state (state.miss, .asking pending) :=
  ⟨rfl, fun _ => State.shown?_miss _, hsuits, fun seen h => by
    rw [Stage.ofProgress, Stage.seen?, hseen] at h
    exact (Option.some.inj h).symm⟩

theorem Begun.answered (mode : Mode) (state : State) {call : Call}
    (reply : call.Reply) : Begun mode state (state, .answered reply) :=
  ⟨rfl, fun _ => rfl, trivial, nofun⟩

theorem Begun.asking {mode : Mode} {state : State} {call : Call}
    {pending : Pending call} (hsuits : pending.Suits mode)
    (hseen : pending.seen? = none) :
    Begun mode state (state, .asking pending) :=
  ⟨rfl, fun _ => rfl, hsuits, fun seen h => by
    rw [Stage.ofProgress, Stage.seen?, hseen] at h
    cases h⟩

theorem begun_start (mode : Mode) (now : Instant) (state : State) {call : Call}
    (hopen : call ≠ .close) :
    Begun mode state (Cache.start mode now state call) := by
  cases call with
  | close => exact absurd rfl hopen
  | init data => exact .asking trivial rfl
  | initialized =>
      simp only [Cache.start, startInitialized]
      split
      · exact .answered _ _ _
      · split
        · split
          · exact .answered _ _ _
          · exact .asking trivial rfl
        · exact .asking trivial rfl
  | get kind key =>
      cases hmode : mode.isEnabled with
      | false =>
          simp only [Cache.start, hmode, Bool.false_eq_true, if_false]
          exact .asking hmode rfl
      | true =>
          simp only [Cache.start, hmode, if_true, startGet]
          split
          · exact .hit mode state _
          · exact .miss hmode rfl
  | all kind =>
      cases hmode : mode.isEnabled with
      | false =>
          simp only [Cache.start, hmode, Bool.false_eq_true, if_false]
          exact .asking hmode rfl
      | true =>
          simp only [Cache.start, hmode, if_true, startAll]
          split
          · exact .hit mode state _
          · exact .miss hmode rfl
  | upsert kind item =>
      cases hmode : mode.isEnabled with
      | false =>
          simp only [Cache.start, hmode, Bool.false_eq_true, if_false]
          exact .asking hmode rfl
      | true =>
          simp only [Cache.start, hmode, if_true]
          exact .asking hmode rfl

/-- What a call does to the cache when it records.  A slot goes on to show what
it did unless a write enters its item or a read of this generation brought
something, a recorded write starts a generation, and what it no longer outdates
shows its item or nothing. -/
structure Recorded (mode : Mode) (state : State) {call : Call}
    (stage : Stage call) (result : State × Stage call) : Prop where
  suits : result.2.Suits mode
  seen_le : ∀ seen, result.2.seen? = some seen → seen ≤ result.1.generation
  not_brings : ∀ slot seen value, ¬ result.2.Brings slot seen value
  not_unrecorded : ∀ slot, ¬ result.2.Unrecorded slot
  generation_le : state.generation ≤ result.1.generation
  generation_lt : mode.isEnabled = true → ∀ slot, stage.Unrecorded slot →
    state.generation < result.1.generation
  shown_of_enters : mode.isEnabled = true → ∀ slot shown,
    stage.Enters slot shown → result.1.shown? slot = shown
  shown_cases : ∀ slot value, result.1.shown? slot = some value →
    state.shown? slot = some value ∨
      stage.Brings slot state.generation value ∨
      ∃ shown, stage.Enters slot shown
  outdates_cases : mode.isEnabled = true → ∀ slot, stage.Outdates slot →
    (∃ shown, stage.Enters slot shown) ∨ result.2.Outdates slot ∨
      result.1.shown? slot = none
  shown_eq : mode.isEnabled = false → ∀ slot,
    result.1.shown? slot = state.shown? slot

theorem Recorded.idle {mode : Mode} {state : State} {call : Call}
    {stage : Stage call} (hsuits : stage.Suits mode)
    (hseen : ∀ seen, stage.seen? = some seen → seen ≤ state.generation)
    (hbrings : ∀ slot seen value, ¬ stage.Brings slot seen value)
    (hreads : stage.Reads) : Recorded mode state stage (state, stage) where
  suits := hsuits
  seen_le := hseen
  not_brings := hbrings
  not_unrecorded := fun slot h => hreads.not_outdates slot (.unrecorded h)
  generation_le := Nat.le_refl _
  generation_lt := fun _ slot h =>
    absurd (.unrecorded h) (hreads.not_outdates slot)
  shown_of_enters := fun _ slot shown h => absurd h (hreads.not_enters slot shown)
  shown_cases := fun _ _ h => .inl h
  outdates_cases := fun _ _ h => .inr (.inl h)
  shown_eq := fun _ _ => rfl

/-- A call that ends and changes only what no slot shows. -/
theorem Recorded.ends {mode : Mode} {state next : State} {call : Call}
    {stage : Stage call} {reply : call.Reply}
    (hgeneration : next.generation = state.generation)
    (hshown : ∀ slot, next.shown? slot = state.shown? slot)
    (hreads : mode.isEnabled = true → stage.Reads) :
    Recorded mode state stage (next, .answered reply) where
  suits := trivial
  seen_le := nofun
  not_brings := nofun
  not_unrecorded := nofun
  generation_le := hgeneration.ge
  generation_lt := fun hmode slot h =>
    absurd (.unrecorded h) ((hreads hmode).not_outdates slot)
  shown_of_enters := fun hmode slot shown h =>
    absurd h ((hreads hmode).not_enters slot shown)
  shown_cases := fun slot _ h => .inl (hshown slot ▸ h)
  outdates_cases := fun hmode slot h => absurd h ((hreads hmode).not_outdates slot)
  shown_eq := fun _ => hshown

/-- A read that ends; what it brought may be shown in its slot. -/
theorem Recorded.read {mode : Mode} (hmode : mode.isEnabled = true)
    {state next : State} {call : Call} {stage : Stage call} {reply : call.Reply}
    (hgeneration : next.generation = state.generation)
    (hshown : ∀ slot value, next.shown? slot = some value →
      state.shown? slot = some value ∨ stage.Brings slot state.generation value)
    (hreads : stage.Reads) :
    Recorded mode state stage (next, .answered reply) where
  suits := trivial
  seen_le := nofun
  not_brings := nofun
  not_unrecorded := nofun
  generation_le := hgeneration.ge
  generation_lt := fun _ slot h =>
    absurd (.unrecorded h) (hreads.not_outdates slot)
  shown_of_enters := fun _ slot shown h => absurd h (hreads.not_enters slot shown)
  shown_cases := fun slot value h => (hshown slot value h).imp_right .inl
  outdates_cases := fun _ slot h => absurd h (hreads.not_outdates slot)
  shown_eq := fun hdisabled => absurd hmode (by simp [hdisabled])

theorem shown?_fillItem_cases {state : State} {kind : Kind} {key : String}
    {found : Option Item} {expires : Option Instant} {seen : Nat} {call : Call}
    {stage : Stage call}
    (hbrings : stage.Brings (.item kind key) seen (found.bind Item.visible?))
    (slot : Slot) (value : slot.call.Answer)
    (h : (state.fillItem kind key ⟨found, expires⟩ seen).shown? slot =
      some value) :
    state.shown? slot = some value ∨ stage.Brings slot state.generation value := by
  rcases State.shown?_fillItem state kind key ⟨found, expires⟩ seen slot with
    hsame | ⟨rfl, rfl⟩
  · exact .inl (hsame ▸ h)
  · rw [State.shown?_fillItem_self] at h
    cases h
    exact .inr hbrings

theorem shown?_fillLive_cases {state : State} {kind : Kind}
    {items : KeyMap Item} {expires : Option Instant} {seen : Nat} {call : Call}
    {stage : Stage call} (hbrings : stage.Brings (.live kind) seen items)
    (slot : Slot) (value : slot.call.Answer)
    (h : (state.fillLive kind ⟨items, expires⟩ seen).shown? slot =
      some value) :
    state.shown? slot = some value ∨ stage.Brings slot state.generation value := by
  rcases State.shown?_fillLive state kind ⟨items, expires⟩ seen slot with
    hsame | ⟨rfl, rfl⟩
  · exact .inl (hsame ▸ h)
  · rw [State.shown?_fillLive_self] at h
    cases h
    exact .inr hbrings

theorem recorded_dropping {mode : Mode} (hmode : mode.isEnabled = true)
    (state : State) (kind : Kind) (item : Item) (outcome : Outcome) :
    Recorded mode state (.dropping kind item outcome)
      (Stage.dropLive state kind item outcome) where
  suits := by
    cases outcome with
    | applied => trivial
    | superseded => exact hmode
  seen_le := by
    cases outcome with
    | applied => exact nofun
    | superseded =>
        intro seen h
        cases h
        exact Nat.le_refl _
  not_brings := by cases outcome <;> exact nofun
  not_unrecorded := by cases outcome <;> exact nofun
  generation_le := Nat.le_refl _
  generation_lt := nofun
  shown_of_enters := nofun
  shown_cases := by
    intro slot value h
    by_cases hslot : slot = .live kind
    · subst hslot
      simp [Stage.dropLive] at h
    · simp only [Stage.dropLive, State.shown?_dropLive_of_ne hslot] at h
      exact .inl h
  outdates_cases := by
    rintro - slot (h | h)
    · cases h
    · exact .inr (.inr (State.shown?_dropLive_self kind))
  shown_eq := fun hdisabled => absurd hmode (by simp [hdisabled])

theorem recorded_applied {mode : Mode} (hmode : mode.isEnabled = true)
    (state : State) (kind : Kind) (item : Item) (expires : Option Instant) :
    Recorded mode state (.replied (.upsert kind item) (.ok .applied))
      (state.advance.setItem kind item.key ⟨some item, expires⟩,
        .dropping kind item .applied) where
  suits := hmode
  seen_le := nofun
  not_brings := nofun
  not_unrecorded := nofun
  generation_le := by simp
  generation_lt := by simp
  shown_of_enters := by
    rintro - slot shown ⟨⟩
    simp
  shown_cases := by
    intro slot value h
    by_cases hslot : slot = .item kind item.key
    · subst hslot
      exact .inr (.inr ⟨_, .item kind item⟩)
    · simp only [State.shown?_setItem_of_ne _ hslot, State.shown?_advance] at h
      exact .inl h
  outdates_cases := by
    rintro - slot ⟨⟨⟩⟩
    · exact .inl ⟨_, .item kind item⟩
    · exact .inr (.inl (.dropping kind item))
  shown_eq := fun hdisabled => absurd hmode (by simp [hdisabled])

theorem recorded_superseded {mode : Mode} (hmode : mode.isEnabled = true)
    (state : State) (kind : Kind) (item : Item) :
    Recorded mode state (.replied (.upsert kind item) (.ok .superseded))
      (state.dropItem kind item.key, .dropping kind item .superseded) where
  suits := hmode
  seen_le := nofun
  not_brings := nofun
  not_unrecorded := nofun
  generation_le := by simp
  generation_lt := by simp
  shown_of_enters := nofun
  shown_cases := by
    intro slot value h
    by_cases hslot : slot = .item kind item.key
    · subst hslot
      simp at h
    · simp only [State.shown?_dropItem_of_ne hslot] at h
      exact .inl h
  outdates_cases := by
    rintro - slot ⟨⟨⟩⟩
  shown_eq := fun hdisabled => absurd hmode (by simp [hdisabled])

theorem recorded_reset {mode : Mode} (hmode : mode.isEnabled = true)
    (state : State) (data : DataSet) (expires : Option Instant) :
    Recorded mode state (.replied (.init data) (.ok ()))
      ((state.reset data expires).latch, .answered (.ok ())) where
  suits := trivial
  seen_le := nofun
  not_brings := nofun
  not_unrecorded := nofun
  generation_le := by simp
  generation_lt := by simp
  shown_of_enters := by
    rintro - slot shown ⟨⟩
    rw [State.shown?_latch, State.shown?_reset]
  shown_cases := fun slot _ _ => .inr (.inr ⟨_, .init data slot⟩)
  outdates_cases := fun _ slot _ => .inl ⟨_, .init data slot⟩
  shown_eq := fun hdisabled => absurd hmode (by simp [hdisabled])

theorem recorded_record {mode : Mode} {now : Instant} {state : State}
    (hclock : mode.expiry? now ≠ none) {call : Call} {stage : Stage call}
    (hsuits : stage.Suits mode)
    (hseen : ∀ seen, stage.seen? = some seen → seen ≤ state.generation) :
    Recorded mode state stage (stage.record mode now state) := by
  obtain ⟨expires, hexpires⟩ := Option.ne_none_iff_exists'.mp hclock
  match stage with
  | .asking pending =>
      exact .idle hsuits hseen (by rintro _ _ _ ⟨⟩) (Stage.reads_asking pending)
  | .answered reply =>
      exact .idle hsuits hseen (by rintro _ _ _ ⟨⟩) (Stage.reads_answered reply)
  | .aborted => exact hsuits.elim
  | .dropping kind item outcome =>
      exact recorded_dropping hsuits state kind item outcome
  | .replied pending (.error error) =>
      have hrecord : (Stage.replied pending (.error error)).record mode now state =
          (state, .answered (.error error)) := by
        cases pending <;> rfl
      rw [hrecord]
      exact .ends rfl (fun _ => rfl) fun _ => Stage.reads_error pending error
  | .replied (.pass _) (.ok _) =>
      exact .ends rfl (fun _ => rfl) fun _ => Stage.reads_replied rfl _
  | .replied (.init data) (.ok ()) =>
      cases hmode : mode.isEnabled with
      | false =>
          simp only [Stage.record, Stage.recordReply, resume, hmode,
            Bool.false_eq_true, if_false, Stage.ofProgress]
          exact .ends rfl (fun _ => State.shown?_latch _) (by simp [hmode])
      | true =>
          simp only [Stage.record, Stage.recordReply, resume, hmode, if_true,
            withExpiry, hexpires, Stage.ofProgress]
          exact recorded_reset hmode state data expires
  | .replied (.upsert kind item) (.ok .applied) =>
      simp only [Stage.record, Stage.recordReply, Stage.recordItem, hexpires]
      exact recorded_applied hsuits state kind item expires
  | .replied (.upsert kind item) (.ok .superseded) =>
      simp only [Stage.record, Stage.recordReply, Stage.recordItem, hexpires]
      exact recorded_superseded hsuits state kind item
  | .replied (.get kind key seen) (.ok item) =>
      simp only [Stage.record, Stage.recordReply, resume, withExpiry, hexpires]
      exact .read hsuits (by simp)
        (shown?_fillItem_cases (.get kind key seen item))
        (Stage.reads_replied rfl _)
  | .replied (.all kind seen) (.ok items) =>
      simp only [Stage.record, Stage.recordReply, resume, withExpiry, hexpires]
      exact .read hsuits (by simp)
        (shown?_fillLive_cases (.all kind seen items))
        (Stage.reads_replied rfl _)
  | .replied (.reread kind item seen) (.ok found) =>
      simp only [Stage.record, Stage.recordReply, resume, withExpiry, hexpires]
      exact .read hsuits (by simp)
        (shown?_fillItem_cases (.reread kind item seen found))
        (Stage.reads_replied rfl _)
  | .replied .initialized (.ok true) =>
      exact .ends rfl (fun _ => State.shown?_latch _) fun _ =>
        Stage.reads_replied rfl _
  | .replied .initialized (.ok false) =>
      simp only [Stage.record, Stage.recordReply, resume, withExpiry, hexpires]
      exact .ends rfl (fun slot => by cases slot <;> rfl) fun _ =>
        Stage.reads_replied rfl _

end Cache

end VersionedFlags
