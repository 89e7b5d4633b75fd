import VersionedFlags.Json.Record
import VersionedFlags.Proofs.Json.Progress

/-!
# Parts of containers

What a loop over a container reads is a list of its elements or of its members, each
read where the one before it has ended.  Since reading makes progress, the loop reaches
the end of every container.
-/

namespace VersionedFlags

namespace Json

/-! ## Parts of a container -/

/-- The elements between the brackets of a list, with what is left at its end. -/
inductive Listed {α : Type} (element : Unread → Except Stop (α × Unread)) :
    Bool → Unread → List α → Unread → Prop
  | done {first : Bool} {input rest : Unread}
      (h : nextElement .kept first input = .ok (false, rest)) :
      Listed element first input [] rest
  | more {first : Bool} {input start behind rest : Unread} {value : α}
      {values : List α} (h : nextElement .kept first input = .ok (true, start))
      (hvalue : element start = .ok (value, behind))
      (hrest : Listed element false behind values rest) :
      Listed element first input (value :: values) rest

/-- The members between the braces of an object; a field is read behind its name. -/
inductive Named {α : Type} (field : Unread → Except Stop (α × Unread)) :
    Bool → Unread → List (String × α) → Unread → Prop
  | done {first : Bool} {input rest : Unread}
      (h : nextMember .kept first input = .ok (false, rest)) :
      Named field first input [] rest
  | more {first : Bool} {input start behind left rest : Unread} {name : String}
      {value : α} {members : List (String × α)}
      (h : nextMember .kept first input = .ok (true, start))
      (hname : stringBody true [] start = .ok (name, behind))
      (hvalue : field behind = .ok (value, left))
      (hrest : Named field false left members rest) :
      Named field first input ((name, value) :: members) rest

/-- The members between the braces of an object; how the text behind a name is read
depends on the name. -/
inductive Titled {α : Type} (read : String → Unread → Except Stop (α × Unread)) :
    Bool → Unread → List α → Unread → Prop
  | done {first : Bool} {input rest : Unread}
      (h : nextMember .kept first input = .ok (false, rest)) :
      Titled read first input [] rest
  | more {first : Bool} {input start behind left rest : Unread} {name : String}
      {value : α} {values : List α} (h : nextMember .kept first input = .ok (true, start))
      (hname : stringBody true [] start = .ok (name, behind))
      (hvalue : read name behind = .ok (value, left))
      (hrest : Titled read false left values rest) :
      Titled read first input (value :: values) rest

/-- Reads a field from behind its name. -/
def behindColon {α : Type} (read : Unread → Except Stop (α × Unread))
    (input : Unread) : Except Stop (α × Unread) := do
  read (← colon input)

variable {α β σ : Type} {element field : Unread → Except Stop (α × Unread)}
  {first : Bool} {input rest : Unread}

theorem shrinks_behindColon {read : Unread → Except Stop (α × Unread)}
    (h : Shrinks read) : Shrinks (behindColon read) := by
  intro input value rest hread
  obtain ⟨behind, hcolon, hread⟩ := exists_of_bind_eq_ok hread
  exact Nat.lt_trans (h hread) (length_of_colon hcolon)

theorem Listed.length_le {values : List α} (hshrinks : Shrinks element)
    (h : Listed element first input values rest) : values.length ≤ input.length := by
  induction h with
  | done => exact Nat.zero_le _
  | more h hvalue _ ih =>
      have hstart := length_of_nextElement h
      have hbehind := hshrinks hvalue
      rw [List.length_cons]
      omega

theorem Titled.length_le {read : String → Unread → Except Stop (α × Unread)}
    {values : List α} (hshrinks : ∀ name, Shrinks (read name))
    (h : Titled read first input values rest) : values.length ≤ input.length := by
  induction h with
  | done => exact Nat.zero_le _
  | more h hname hvalue _ ih =>
      have hstart := length_of_nextMember h
      have hbehind := shrinks_stringBody true [] hname
      have hleft := hshrinks _ hvalue
      rw [List.length_cons]
      omega

theorem named_iff_titled {members : List (String × α)} :
    Named field first input members rest ↔
      Titled (fun name input => do
        let (value, input) ← field input
        return ((name, value), input)) first input members rest := by
  constructor
  · intro h
    induction h with
    | done h => exact .done h
    | more h hname hvalue _ ih =>
        exact .more h hname (by rw [hvalue, ok_bind]; rfl) ih
  · intro h
    induction h with
    | done h => exact .done h
    | more h hname hvalue _ ih =>
        obtain ⟨⟨found, left⟩, hfound, hvalue⟩ := exists_of_bind_eq_ok hvalue
        cases hvalue
        exact .more h hname hfound ih

theorem elements_eq_ok_iff {fuel : Nat} {done all : List α} :
    elements .kept element fuel first done input = .ok (all, rest) ↔
      ∃ values, Listed element first input values rest ∧ values.length < fuel ∧
        all = done.reverse ++ values := by
  induction fuel generalizing first done input with
  | zero => simp [elements]
  | succ fuel ih =>
      rw [elements]
      constructor
      · intro h
        obtain ⟨⟨more, start⟩, hnext, h⟩ := exists_of_bind_eq_ok h
        cases more with
        | false =>
            cases h
            exact ⟨[], .done hnext, Nat.succ_pos _, (List.append_nil _).symm⟩
        | true =>
            obtain ⟨⟨value, behind⟩, hvalue, h⟩ := exists_of_bind_eq_ok h
            obtain ⟨values, hvalues, hlength, rfl⟩ := ih.mp h
            exact ⟨value :: values, .more hnext hvalue hvalues,
              Nat.succ_lt_succ hlength, by simp⟩
      · rintro ⟨values, hvalues, hlength, rfl⟩
        cases hvalues with
        | done hnext =>
            rw [hnext, ok_bind]
            simp [pure, Except.pure]
        | more hnext hvalue hvalues =>
            rw [hnext, ok_bind]
            simp only [if_true]
            rw [hvalue, ok_bind]
            exact ih.mpr ⟨_, hvalues, Nat.lt_of_succ_lt_succ hlength, by simp⟩

/-- Elements are read up to the end of the list, as many as there are. -/
theorem elements_eq_ok {all : List α} (hshrinks : Shrinks element) :
    elements .kept element (input.length + 1) true [] input = .ok (all, rest) ↔
      Listed element true input all rest := by
  rw [elements_eq_ok_iff]
  constructor
  · rintro ⟨values, hvalues, -, rfl⟩
    exact hvalues
  · intro h
    exact ⟨all, h, Nat.lt_succ_of_le (h.length_le hshrinks), rfl⟩

section Members

variable {member : σ → String → Unread → Except Stop (σ × Unread)}

section Titled

variable {read : String → Unread → Except Stop (α × Unread)} (step : σ → α → Option σ)
  (hmember : ∀ state name input next rest,
    member state name input = .ok (next, rest) ↔
      ∃ value, read name input = .ok (value, rest) ∧ step state value = some next)

include hmember

theorem members_titled_iff {fuel : Nat} {state final : σ} :
    members .kept true member fuel first state input = .ok (final, rest) ↔
      ∃ values, Titled read first input values rest ∧ values.length < fuel ∧
        values.foldlM step state = some final := by
  induction fuel generalizing first state input with
  | zero => simp [members]
  | succ fuel ih =>
      rw [members]
      constructor
      · intro h
        obtain ⟨⟨more, start⟩, hnext, h⟩ := exists_of_bind_eq_ok h
        cases more with
        | false =>
            cases h
            exact ⟨[], .done hnext, Nat.succ_pos _, rfl⟩
        | true =>
            obtain ⟨⟨name, behind⟩, hname, h⟩ := exists_of_bind_eq_ok h
            obtain ⟨⟨next, left⟩, hfield, h⟩ := exists_of_bind_eq_ok h
            obtain ⟨value, hvalue, hstep⟩ := (hmember _ _ _ _ _).mp hfield
            obtain ⟨values, hvalues, hlength, hfold⟩ := ih.mp h
            refine ⟨value :: values, .more hnext hname hvalue hvalues,
              Nat.succ_lt_succ hlength, ?_⟩
            rw [List.foldlM_cons, hstep]
            exact hfold
      · rintro ⟨values, hvalues, hlength, hfold⟩
        cases hvalues with
        | done hnext =>
            cases hfold
            rw [hnext, ok_bind]
            rfl
        | more hnext hname hvalue hvalues =>
            rw [List.foldlM_cons] at hfold
            obtain ⟨next, hstep, hfold⟩ := Option.bind_eq_some_iff.mp hfold
            rw [hnext, ok_bind]
            simp only [if_true]
            rw [hname, ok_bind]
            simp only
            rw [(hmember _ _ _ _ _).mpr ⟨_, hvalue, hstep⟩, ok_bind]
            exact ih.mpr ⟨_, hvalues, Nat.lt_of_succ_lt_succ hlength, hfold⟩

/-- Members are folded up to the end of the object, as many as there are. -/
theorem members_titled (hshrinks : ∀ name, Shrinks (read name)) {state final : σ} :
    members .kept true member (input.length + 1) true state input =
        .ok (final, rest) ↔
      ∃ values, Titled read true input values rest ∧
        values.foldlM step state = some final := by
  rw [members_titled_iff step hmember]
  constructor
  · rintro ⟨values, hvalues, -, hfold⟩
    exact ⟨values, hvalues, hfold⟩
  · rintro ⟨values, hvalues, hfold⟩
    exact ⟨values, hvalues, Nat.lt_succ_of_le (hvalues.length_le hshrinks), hfold⟩

end Titled

theorem members_eq_ok (step : σ → String × α → Option σ)
    (hmember : ∀ state key input next rest,
      member state key input = .ok (next, rest) ↔
        ∃ value, field input = .ok (value, rest) ∧ step state (key, value) = some next)
    (hshrinks : Shrinks field) {state final : σ} :
    members .kept true member (input.length + 1) true state input =
        .ok (final, rest) ↔
      ∃ listed, Named field true input listed rest ∧
        listed.foldlM step state = some final := by
  simp only [named_iff_titled]
  refine members_titled step (fun state key input next rest => ?_) fun name => ?_
  · rw [hmember]
    constructor
    · rintro ⟨value, hvalue, hstep⟩
      exact ⟨(key, value), by rw [hvalue, ok_bind]; rfl, hstep⟩
    · rintro ⟨member, hvalue, hstep⟩
      obtain ⟨⟨value, left⟩, hfound, hvalue⟩ := exists_of_bind_eq_ok hvalue
      cases hvalue
      exact ⟨value, hfound, hstep⟩
  · intro input value rest h
    obtain ⟨⟨found, left⟩, hfound, h⟩ := exists_of_bind_eq_ok h
    cases h
    exact hshrinks hfound

end Members

/-! ## Fields of a list -/

section

variable {start : Unread}

theorem listField?_none (field : Unread → Except Stop (α × Unread))
    (hnext : nextElement .kept first input = .ok (false, rest)) :
    listField? field first input = .ok (none, rest) := by
  rw [listField?, hnext, ok_bind]
  rfl

theorem listField?_some {value : α}
    (hnext : nextElement .kept first input = .ok (true, start))
    (hvalue : field start = .ok (value, rest)) :
    listField? field first input = .ok (some value, rest) := by
  rw [listField?, hnext, ok_bind]
  simp only [if_true]
  rw [hvalue, ok_bind]
  rfl

theorem listField?_cases {found : Option α}
    (h : listField? field first input = .ok (found, rest)) :
    (found = none ∧ nextElement .kept first input = .ok (false, rest)) ∨
      ∃ value start, found = some value ∧
        nextElement .kept first input = .ok (true, start) ∧
        field start = .ok (value, rest) := by
  obtain ⟨⟨more, start⟩, hnext, h⟩ := exists_of_bind_eq_ok h
  cases more with
  | false =>
      cases h
      exact .inl ⟨rfl, hnext⟩
  | true =>
      obtain ⟨⟨value, left⟩, hvalue, h⟩ := exists_of_bind_eq_ok h
      cases h
      exact .inr ⟨value, start, rfl, hnext, hvalue⟩

/-- A list ends where nothing but its bracket comes next. -/
theorem closeList_eq_ok :
    closeList input = .ok rest ↔
      ∃ left, nextElement .kept false input = .ok (false, left) ∧
        closeList left = .ok rest := by
  have hbracket : ∀ inner, closeList (']' :: inner) = .ok inner := by
    intro inner
    simp [closeList, skipBlanks, isBlank]
  constructor
  · intro h
    unfold closeList at h
    split at h
    · cases h
    · rename_i hstart
      cases h
      exact ⟨']' :: rest, by simp [nextElement, hstart], hbracket rest⟩
    · split at h <;> cases h
    · cases h
  · rintro ⟨left, hnext, hclose⟩
    unfold nextElement at hnext
    split at hnext
    · cases hnext
    · rename_i inner hstart
      cases hnext
      rw [hbracket] at hclose
      cases hclose
      simp [closeList, hstart]
    · simp only [Bool.false_eq_true, if_false] at hnext
      split at hnext
      · cases hnext
      · cases hnext
      · cases hnext
    · cases hnext

end

/-! ## Whole containers -/

/-- A list of what the reader of its elements gives. -/
def ReadsList (element : Unread → Except Stop (α × Unread)) (input : Unread)
    (values : List α) (rest : Unread) : Prop :=
  ∃ inner left, skipBlanks input = '[' :: inner ∧
    Listed element true inner values left ∧ closeList left = .ok rest

/-- An object of what the reader of its fields gives. -/
def ReadsObject (field : Unread → Except Stop (α × Unread)) (input : Unread)
    (members : List (String × α)) (rest : Unread) : Prop :=
  ∃ inner left, skipBlanks input = '\x7b' :: inner ∧
    Named (behindColon field) true inner members left ∧ closeObject left = .ok rest

theorem folded_eq_ok {next : σ → String → α → σ} {state after : σ} {name : String} :
    folded next field state name input = .ok (after, rest) ↔
      ∃ value, behindColon field input = .ok (value, rest) ∧
        next state name value = after := by
  have hfolded : folded next field state name input =
      behindColon field input >>= fun found =>
        .ok (next state name found.1, found.2) := by
    simp only [folded, behindColon, bind_assoc]
    rfl
  rw [hfolded]
  constructor
  · intro h
    obtain ⟨⟨value, left⟩, hvalue, h⟩ := exists_of_bind_eq_ok h
    cases h
    exact ⟨value, hvalue, rfl⟩
  · rintro ⟨value, hvalue, rfl⟩
    rw [hvalue, ok_bind]

theorem members_folded (hshrinks : Shrinks field) {next : σ → String → α → σ}
    {state final : σ} :
    members .kept true (folded next field) (input.length + 1) true state input =
        .ok (final, rest) ↔
      ∃ listed, Named (behindColon field) true input listed rest ∧
        listed.foldl (fun state member => next state member.1 member.2) state =
          final := by
  have hmember : ∀ state key input after rest,
      folded next field state key input = .ok (after, rest) ↔
        ∃ value, behindColon field input = .ok (value, rest) ∧
          (pure (next state key value) : Option σ) = some after := by
    intro state key input after rest
    simp [folded_eq_ok]
  rw [members_eq_ok (fun state member => pure (next state member.1 member.2)) hmember
    (shrinks_behindColon hshrinks)]
  simp only [List.foldlM_pure]
  simp [pure]

/-- What a container is read as, unless there is only a scalar. -/
theorem container_eq_ok (hshrinks : Shrinks field) {ofList : List α → β}
    {ofObject : List (String × α) → β} {scalar : Unread → Except Stop (β × Unread)}
    (hlist : ∀ input inner, skipBlanks input = '[' :: inner →
      ∀ found, scalar input ≠ .ok found)
    (hobject : ∀ input inner, skipBlanks input = '\x7b' :: inner →
      ∀ found, scalar input ≠ .ok found) {found : β} :
    container field ofList ofObject scalar input = .ok (found, rest) ↔
      scalar input = .ok (found, rest) ∨
      (∃ values, ReadsList field input values rest ∧ ofList values = found) ∨
      ∃ members, ReadsObject field input members rest ∧ ofObject members = found := by
  unfold container
  constructor
  · intro h
    split at h
    · rename_i inner hstart
      obtain ⟨⟨values, left⟩, hvalues, h⟩ := exists_of_bind_eq_ok h
      obtain ⟨behind, hclose, h⟩ := exists_of_bind_eq_ok h
      cases h
      exact .inr (.inl ⟨values,
        ⟨inner, left, hstart, (elements_eq_ok hshrinks).mp hvalues, hclose⟩, rfl⟩)
    · rename_i inner hstart
      obtain ⟨⟨fields, left⟩, hfields, h⟩ := exists_of_bind_eq_ok h
      obtain ⟨behind, hclose, h⟩ := exists_of_bind_eq_ok h
      cases h
      obtain ⟨members, hmembers, rfl⟩ := (members_folded hshrinks).mp hfields
      exact .inr (.inr ⟨members, ⟨inner, left, hstart, hmembers, hclose⟩, by simp⟩)
    · exact .inl h
  · rintro (h | ⟨values, ⟨inner, left, hstart, hvalues, hclose⟩, rfl⟩ |
      ⟨members, ⟨inner, left, hstart, hmembers, hclose⟩, rfl⟩)
    · split
      · rename_i inner hstart
        exact absurd h (hlist input inner hstart _)
      · rename_i inner hstart
        exact absurd h (hobject input inner hstart _)
      · exact h
    · simp only [hstart]
      rw [(elements_eq_ok hshrinks).mpr hvalues, ok_bind]
      simp only [hclose, ok_bind]
      rfl
    · simp only [hstart]
      rw [(members_folded hshrinks).mpr ⟨members, hmembers, rfl⟩, ok_bind]
      simp only [hclose, ok_bind]
      simp [pure, Except.pure]

end Json

end VersionedFlags
