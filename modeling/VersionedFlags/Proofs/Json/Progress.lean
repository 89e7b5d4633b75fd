import VersionedFlags.Json.Reader
import VersionedFlags.Proofs.Fallible

/-!
# Reading makes progress

A reader that succeeds leaves less than it was given.  A container therefore has fewer
parts than its text has characters, which is what the loops over a container allow.
-/

namespace VersionedFlags

namespace Json

/-- What is left behind a value is less than what there was in front of it. -/
def Shrinks {α : Type} (read : Unread → Except Stop (α × Unread)) : Prop :=
  ∀ {input value rest}, read input = .ok (value, rest) → rest.length < input.length

variable {input rest : Unread}

/-! ## Words and strings -/

theorem length_skipBlanks_le (input : Unread) :
    (skipBlanks input).length ≤ input.length :=
  (List.dropWhile_sublist _).length_le

theorem length_of_word {expected : List Char} (h : word expected input = .ok rest) :
    rest.length ≤ input.length := by
  induction expected generalizing input with
  | nil =>
      cases h
      exact Nat.le_refl _
  | cons c more ih =>
      cases input with
      | nil => cases h
      | cons first behind =>
          unfold word at h
          split at h
          · have hle := ih h
            rw [List.length_cons]
            omega
          · cases h

theorem shrinks_stringBody (paired : Bool) (decoded : List Char) :
    Shrinks (stringBody paired decoded) := by
  intro input text rest h
  fun_induction stringBody paired decoded input
  -- The closing quote ends the string, the other characters lead on to it.
  case case2 =>
    cases h
    exact Nat.lt_succ_self _
  case case5 | case10 | case15 | case17 | case20 =>
    rename_i ih
    have hlt := ih h
    simp only [List.length_cons]
    omega
  all_goals cases h

/-! ## Numbers -/

theorem length_spanDigits_le (input : Unread) :
    (spanDigits input).2.length ≤ input.length :=
  (List.dropWhile_sublist _).length_le

theorem length_of_spanDigits {digits : List Char}
    (h : spanDigits input = (digits, rest)) : rest.length ≤ input.length := by
  have hle := length_spanDigits_le input
  rw [h] at hle
  exact hle

theorem shrinks_wholePart (cut : Cause) : Shrinks (wholePart cut) := by
  intro input digits rest h
  cases input with
  | nil => cases h
  | cons c behind =>
      simp only [wholePart] at h
      split at h
      · split at h
        · cases h
        · cases h
          exact Nat.lt_succ_self _
      · split at h
        · rename_i hdigit
          simp only [spanDigits, List.takeWhile_cons, List.dropWhile_cons, hdigit,
            if_true, Except.ok.injEq, Prod.mk.injEq] at h
          rw [← h.2]
          exact Nat.lt_succ_of_le (length_spanDigits_le behind)
        · cases h

theorem length_of_fractionPart {cut : Cause} {fraction : Option (List Char)}
    (h : fractionPart cut input = .ok (fraction, rest)) :
    rest.length ≤ input.length := by
  unfold fractionPart at h
  split at h
  · split at h
    · cases h
    · cases h
    · rename_i hspan
      cases h
      exact Nat.le_succ_of_le (length_of_spanDigits hspan)
  · cases h
    exact Nat.le_refl _

theorem length_exponentSign_le (input : Unread) :
    (exponentSign input).2.length ≤ input.length := by
  unfold exponentSign
  split <;> simp

theorem length_of_exponentPart {cut : Cause}
    {scientific : Option (Bool × List Char)}
    (h : exponentPart cut input = .ok (scientific, rest)) :
    rest.length ≤ input.length := by
  unfold exponentPart at h
  split at h
  · split at h
    · rename_i c behind _
      have hsign := length_exponentSign_le behind
      simp only at h
      split at h
      · cases h
      · cases h
      · rename_i hspan
        cases h
        have hdigits := length_of_spanDigits hspan
        rw [List.length_cons]
        omega
    · cases h
      exact Nat.le_refl _
  · cases h
    exact Nat.le_refl _

theorem shrinks_numeral (cut : Cause) : Shrinks (numeral cut) := by
  intro input literal rest h
  unfold numeral at h
  obtain ⟨⟨whole, behindWhole⟩, hwhole, h⟩ := exists_of_bind_eq_ok h
  obtain ⟨⟨fraction, behindFraction⟩, hfraction, h⟩ := exists_of_bind_eq_ok h
  obtain ⟨⟨scientific, behindExponent⟩, hscientific, h⟩ := exists_of_bind_eq_ok h
  cases h
  have hfraction := length_of_fractionPart hfraction
  have hscientific := length_of_exponentPart hscientific
  have hsign := shrinks_wholePart _ hwhole
  split at hsign
  · simp only [List.length_cons]
    simp only at hsign hfraction hscientific
    omega
  · simp only at hsign hfraction hscientific
    omega

theorem shrinks_number : Shrinks number := by
  intro input value rest h
  obtain ⟨⟨literal, behind⟩, hliteral, h⟩ := exists_of_bind_eq_ok h
  obtain ⟨found, -, h⟩ := exists_of_bind_eq_ok h
  cases h
  exact shrinks_numeral _ hliteral

/-! ## Separators and brackets -/

theorem length_of_skipBlanks (h : skipBlanks input = rest) :
    rest.length ≤ input.length :=
  h ▸ length_skipBlanks_le input

theorem length_of_nextElement {commas : Commas} {first more : Bool}
    (h : nextElement commas first input = .ok (more, rest)) :
    rest.length ≤ input.length := by
  unfold nextElement at h
  split at h
  · cases h
  · rename_i hstart
    cases h
    exact length_of_skipBlanks hstart
  · rename_i behind hstart
    have hle := length_of_skipBlanks hstart
    rw [List.length_cons] at hle
    split at h
    · cases h
      exact hle
    · split at h
      · cases h
      · rename_i hnext
        have hbehind := length_of_skipBlanks hnext
        split at h
        · cases h
        · cases h
          omega
      · have hbehind := length_skipBlanks_le behind
        cases h
        omega
  · rename_i hstart
    split at h
    · cases h
      exact length_of_skipBlanks rfl
    · cases h

theorem length_of_nextMember {commas : Commas} {first more : Bool}
    (h : nextMember commas first input = .ok (more, rest)) :
    rest.length ≤ input.length := by
  unfold nextMember at h
  split at h
  · cases h
  · rename_i hstart
    cases h
    exact length_of_skipBlanks hstart
  · rename_i behind hstart
    have hle := length_of_skipBlanks hstart
    rw [List.length_cons] at hle
    split at h
    · cases h
    · split at h
      · cases h
      · rename_i hnext
        have hbehind := length_of_skipBlanks hnext
        rw [List.length_cons] at hbehind
        cases h
        omega
      · cases h
      · cases h
  · rename_i hstart
    have hle := length_of_skipBlanks hstart
    rw [List.length_cons] at hle
    split at h
    · cases h
      omega
    · cases h
  · split at h <;> cases h

theorem length_of_colon (h : colon input = .ok rest) : rest.length < input.length := by
  unfold colon at h
  split at h
  · cases h
  · rename_i hstart
    cases h
    exact length_of_skipBlanks hstart
  · cases h

theorem length_of_closeList (h : closeList input = .ok rest) :
    rest.length < input.length := by
  unfold closeList at h
  split at h
  · cases h
  · rename_i hstart
    cases h
    exact length_of_skipBlanks hstart
  · split at h <;> cases h
  · cases h

theorem length_of_closeObject (h : closeObject input = .ok rest) :
    rest.length < input.length := by
  unfold closeObject at h
  split at h
  · cases h
  · rename_i hstart
    cases h
    exact length_of_skipBlanks hstart
  · cases h
  · cases h

/-! ## Containers -/

theorem length_of_elements {α : Type} {commas : Commas}
    {element : Unread → Except Stop (α × Unread)} (helement : Shrinks element)
    {fuel : Nat} {first : Bool} {done all : List α}
    (h : elements commas element fuel first done input = .ok (all, rest)) :
    rest.length ≤ input.length := by
  induction fuel generalizing first done input with
  | zero => cases h
  | succ fuel ih =>
      rw [elements] at h
      obtain ⟨⟨more, start⟩, hnext, h⟩ := exists_of_bind_eq_ok h
      have hstart := length_of_nextElement hnext
      cases more with
      | false =>
          cases h
          exact hstart
      | true =>
          obtain ⟨⟨value, behind⟩, hvalue, h⟩ := exists_of_bind_eq_ok h
          have hbehind := helement hvalue
          have hrest := ih h
          omega

theorem length_of_members {σ : Type} {commas : Commas} {paired : Bool}
    {member : σ → String → Unread → Except Stop (σ × Unread)}
    (hmember : ∀ state key, Shrinks (member state key)) {fuel : Nat} {first : Bool}
    {state final : σ}
    (h : members commas paired member fuel first state input = .ok (final, rest)) :
    rest.length ≤ input.length := by
  induction fuel generalizing first state input with
  | zero => cases h
  | succ fuel ih =>
      rw [members] at h
      obtain ⟨⟨more, start⟩, hnext, h⟩ := exists_of_bind_eq_ok h
      have hstart := length_of_nextMember hnext
      cases more with
      | false =>
          cases h
          exact hstart
      | true =>
          obtain ⟨⟨key, behindKey⟩, hkey, h⟩ := exists_of_bind_eq_ok h
          obtain ⟨⟨next, behind⟩, hnext, h⟩ := exists_of_bind_eq_ok h
          have hbehindKey := shrinks_stringBody paired [] hkey
          have hbehind := hmember state key hnext
          have hrest := ih h
          omega

/-! ## Values -/

/-- Reads a member and goes on to the next state. -/
def folded {α σ : Type} (next : σ → String → α → σ)
    (read : Unread → Except Stop (α × Unread)) (state : σ) (name : String)
    (input : Unread) : Except Stop (σ × Unread) := do
  let (value, input) ← read (← colon input)
  return (next state name value, input)

/-- Reads a list or an object of what one reader gives, or a scalar with another. -/
def container {α β : Type} (read : Unread → Except Stop (α × Unread))
    (ofList : List α → β) (ofObject : List (String × α) → β)
    (scalar : Unread → Except Stop (β × Unread)) (input : Unread) :
    Except Stop (β × Unread) :=
  match skipBlanks input with
  | '[' :: rest => do
      let (list, rest) ← elements .kept read (rest.length + 1) true [] rest
      return (ofList list, ← closeList rest)
  | '\x7b' :: rest => do
      let (fields, rest) ←
        members .kept true
          (folded (fun (fields : List (String × α)) name field =>
            (name, field) :: fields) read)
          (rest.length + 1) true [] rest
      return (ofObject fields.reverse, ← closeObject rest)
  | _ => scalar input

/-- Only containers look at the limit on nesting. -/
theorem value_succ (limit : Nat) :
    value (limit + 1) = container (value limit) .array ofMembers (value 0) := by
  funext input
  unfold container
  conv => lhs; unfold value
  split
  case h_6 =>
    rename_i hstart
    simp only [hstart]
  case h_7 =>
    rename_i hstart
    simp only [hstart]
    rfl
  all_goals
    rename_i hstart
    unfold value
    simp_all

theorem shrinks_folded {α σ : Type} {next : σ → String → α → σ}
    {read : Unread → Except Stop (α × Unread)} (hread : Shrinks read) (state : σ)
    (name : String) : Shrinks (folded next read state name) := by
  intro input after rest h
  obtain ⟨behind, hcolon, h⟩ := exists_of_bind_eq_ok h
  obtain ⟨⟨value, left⟩, hvalue, h⟩ := exists_of_bind_eq_ok h
  cases h
  exact Nat.lt_trans (hread hvalue) (length_of_colon hcolon)

theorem shrinks_container {α β : Type} {read : Unread → Except Stop (α × Unread)}
    {ofList : List α → β} {ofObject : List (String × α) → β}
    {scalar : Unread → Except Stop (β × Unread)} (hread : Shrinks read)
    (hscalar : Shrinks scalar) :
    Shrinks (container read ofList ofObject scalar) := by
  intro input found rest h
  unfold container at h
  split at h
  · rename_i inner hstart
    have hinner := length_of_skipBlanks hstart
    rw [List.length_cons] at hinner
    obtain ⟨⟨list, left⟩, hlist, h⟩ := exists_of_bind_eq_ok h
    obtain ⟨behind, hclose, h⟩ := exists_of_bind_eq_ok h
    cases h
    have hleft := length_of_elements hread hlist
    have hbehind := length_of_closeList hclose
    omega
  · rename_i inner hstart
    have hinner := length_of_skipBlanks hstart
    rw [List.length_cons] at hinner
    obtain ⟨⟨fields, left⟩, hfields, h⟩ := exists_of_bind_eq_ok h
    obtain ⟨behind, hclose, h⟩ := exists_of_bind_eq_ok h
    cases h
    have hleft := length_of_members (shrinks_folded hread) hfields
    have hbehind := length_of_closeObject hclose
    omega
  · exact hscalar h

theorem shrinks_scalar : Shrinks (value 0) := by
  intro input v rest h
  unfold value at h
  have hword : ∀ {expected : List Char} {behind : Unread} {c : Char} {read : Json},
      skipBlanks input = c :: behind →
      (do return (read, ← word expected behind)) = Except.ok (v, rest) →
      rest.length < input.length := by
    intro expected behind c read hstart h
    obtain ⟨left, hleft, h⟩ := exists_of_bind_eq_ok h
    cases h
    exact Nat.lt_of_le_of_lt (length_of_word hleft) (length_of_skipBlanks hstart)
  split at h
  · cases h
  · rename_i hstart
    exact hword hstart h
  · rename_i hstart
    exact hword hstart h
  · rename_i hstart
    exact hword hstart h
  · rename_i hstart
    obtain ⟨⟨text, left⟩, htext, h⟩ := exists_of_bind_eq_ok h
    cases h
    exact Nat.lt_of_lt_of_le (shrinks_stringBody true [] htext)
      (Nat.le_of_lt (length_of_skipBlanks hstart))
  · cases h
  · cases h
  · rename_i hstart
    split at h
    · exact Nat.lt_of_lt_of_le (shrinks_number h) (length_of_skipBlanks hstart)
    · cases h

/-- A value takes at least one character, however deep it may nest. -/
theorem shrinks_value (limit : Nat) : Shrinks (value limit) := by
  induction limit with
  | zero => exact shrinks_scalar
  | succ limit ih =>
      rw [value_succ]
      exact shrinks_container ih shrinks_scalar

/-! ## Values that are not kept -/

theorem shrinks_skip_of_less {limit : Nat}
    (hless : ∀ less, limit = less + 1 → Shrinks (skip less)) : Shrinks (skip limit) := by
  intro input value rest h
  have hword : ∀ {expected : List Char} {behind : Unread} {c : Char},
      skipBlanks input = c :: behind →
      (do return ((), ← word expected behind)) = Except.ok (value, rest) →
      rest.length < input.length := by
    intro expected behind c hstart h
    obtain ⟨left, hleft, h⟩ := exists_of_bind_eq_ok h
    cases h
    exact Nat.lt_of_le_of_lt (length_of_word hleft) (length_of_skipBlanks hstart)
  unfold skip at h
  split at h
  · cases h
  · rename_i hstart
    exact hword hstart h
  · rename_i hstart
    exact hword hstart h
  · rename_i hstart
    exact hword hstart h
  · rename_i hstart
    obtain ⟨⟨text, left⟩, htext, h⟩ := exists_of_bind_eq_ok h
    cases h
    exact Nat.lt_of_lt_of_le (shrinks_stringBody false [] htext)
      (Nat.le_of_lt (length_of_skipBlanks hstart))
  · rename_i hstart
    have hinner := length_of_skipBlanks hstart
    rw [List.length_cons] at hinner
    split at h
    · cases h
    · rename_i less
      obtain ⟨⟨all, left⟩, hall, h⟩ := exists_of_bind_eq_ok h
      obtain ⟨behind, hclose, h⟩ := exists_of_bind_eq_ok h
      cases h
      have hleft := length_of_elements (hless less rfl) hall
      have hbehind := length_of_closeList hclose
      omega
  · rename_i hstart
    have hinner := length_of_skipBlanks hstart
    rw [List.length_cons] at hinner
    split at h
    · cases h
    · rename_i less
      obtain ⟨⟨state, left⟩, hmembers, h⟩ := exists_of_bind_eq_ok h
      obtain ⟨behind, hclose, h⟩ := exists_of_bind_eq_ok h
      cases h
      have hmember : ∀ (state : Unit) (name : String), Shrinks fun input =>
          (do skip less (← colon input) : Except Stop (Unit × Unread)) := by
        intro state name input value rest h
        obtain ⟨behind, hcolon, h⟩ := exists_of_bind_eq_ok h
        exact Nat.lt_trans (hless less rfl h) (length_of_colon hcolon)
      have hleft := length_of_members hmember hmembers
      have hbehind := length_of_closeObject hclose
      omega
  · rename_i hstart
    split at h
    · obtain ⟨⟨literal, left⟩, hliteral, h⟩ := exists_of_bind_eq_ok h
      cases h
      exact Nat.lt_of_lt_of_le (shrinks_numeral _ hliteral)
        (length_of_skipBlanks hstart)
    · cases h

/-- Whatever is passed over takes at least one character. -/
theorem shrinks_skip (limit : Nat) : Shrinks (skip limit) := by
  induction limit with
  | zero => exact shrinks_skip_of_less fun less hless => by cases hless
  | succ limit ih =>
      exact shrinks_skip_of_less fun less hless => Nat.succ.inj hless ▸ ih

end Json

end VersionedFlags
