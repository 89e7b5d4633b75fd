import Mathlib.Data.List.Basic
import VersionedFlags.Json.Printer
import VersionedFlags.Json.Reader
import VersionedFlags.Proofs.Fallible

/-!
# Lexemes that are read back

A quoted string is read back up to its closing quote, whatever follows.  A
number ends where what follows cannot belong to it, so a printed integer is read
back in front of a comma, a closing bracket or nothing.
-/

namespace VersionedFlags

namespace Json

/-! ## Strings -/

theorem hexValue?_hexDigit {digit : Nat} (h : digit < 16) :
    hexValue? (hexDigit digit) = some digit := by
  revert h
  revert digit
  decide

/-- The escape of a control character stands for the character itself. -/
theorem hexUnit?_control {c : Char} (h : c.toNat < 32) :
    hexUnit? '0' '0' (hexDigit (c.toNat / 16)) (hexDigit (c.toNat % 16)) =
      some c.toNat := by
  have hzero : hexValue? '0' = some 0 := by decide
  have hhigh : hexValue? (hexDigit (c.toNat / 16)) = some (c.toNat / 16) :=
    hexValue?_hexDigit (by omega)
  have hlow : hexValue? (hexDigit (c.toNat % 16)) = some (c.toNat % 16) :=
    hexValue?_hexDigit (by omega)
  simp only [hexUnit?, hzero, hhigh, hlow, Option.bind_eq_bind, Option.bind_some]
  congr 1
  omega

theorem stringBody_plain (paired : Bool) (decoded : List Char) {c : Char}
    (hquote : c ≠ '"') (hslash : c ≠ '\\') (hlarge : ¬ c.toNat < 32)
    (rest : Unread) :
    stringBody paired decoded (c :: rest) =
      stringBody paired (c :: decoded) rest := by
  rw [stringBody]
  · simp [hlarge]
  all_goals simp_all

theorem stringBody_escape (paired : Bool) (decoded : List Char) (c : Char)
    (rest : Unread) :
    stringBody paired decoded (escape c ++ rest) =
      stringBody paired (c :: decoded) rest := by
  unfold escape
  split
  case h_8 hquote hslash _ _ _ _ _ =>
    split
    · rename_i hcontrol
      have hunit := hexUnit?_control hcontrol
      have htrailing : isTrailing c.toNat = false := by
        simp [isTrailing]
        omega
      have hleading : isLeading c.toNat = false := by
        simp [isLeading]
        omega
      simp only [List.cons_append, List.nil_append]
      rw [stringBody]
      simp [hunit, htrailing, hleading]
    · rename_i hlarge
      exact stringBody_plain paired decoded hquote hslash hlarge rest
  all_goals simp [stringBody, shortEscape?]

theorem stringBody_quoted (paired : Bool) (decoded text : List Char)
    (rest : Unread) :
    stringBody paired decoded (text.flatMap escape ++ '"' :: rest) =
      .ok (String.ofList (decoded.reverse ++ text), rest) := by
  induction text generalizing decoded with
  | nil => simp [stringBody]
  | cons c more ih =>
      rw [List.flatMap_cons, List.append_assoc, stringBody_escape, ih]
      simp

/-- Behind its opening quote a quoted text is read back. -/
theorem exists_quote (text : String) :
    ∃ body, quote text = '"' :: body ∧ ∀ (paired : Bool) (rest : Unread),
      stringBody paired [] (body ++ rest) = .ok (text, rest) := by
  refine ⟨text.toList.flatMap escape ++ ['"'], rfl, fun paired rest => ?_⟩
  rw [List.append_assoc]
  simpa using stringBody_quoted paired [] text.toList rest

/-! ## Runs of digits -/

def AllDigits (text : List Char) : Prop := ∀ c ∈ text, isDigit c = true

theorem allDigits_toDigits (n : Nat) : AllDigits (Nat.toDigits 10 n) := by
  intro c hm
  have hdigit := Nat.isDigit_of_mem_toDigits (by decide) (by decide) hm
  simpa [Char.isDigit, isDigit, Char.le_def] using hdigit

theorem spanDigits_append {digits : List Char} (h : AllDigits digits)
    {rest : Unread} (hrest : startsWithDigit rest = false) :
    spanDigits (digits ++ rest) = (digits, rest) := by
  induction digits with
  | nil =>
      cases rest with
      | nil => rfl
      | cons c more =>
          have hc : isDigit c = false := hrest
          simp [spanDigits, hc]
  | cons c more ih =>
      have hc := h c List.mem_cons_self
      have hmore := ih fun d hm => h d (List.mem_cons_of_mem _ hm)
      simp only [spanDigits, Prod.mk.injEq] at hmore
      simp [spanDigits, hc, hmore]

theorem digitChar_ne_zero {n : Nat} (hlt : n < 10) (hpos : 0 < n) :
    n.digitChar ≠ '0' := by
  revert hpos
  revert hlt
  revert n
  decide

/-- A positive number does not start with a zero. -/
theorem exists_toDigits {n : Nat} (h : 0 < n) :
    ∃ c rest, Nat.toDigits 10 n = c :: rest ∧ c ≠ '0' := by
  induction n using Nat.strongRecOn with
  | ind n ih =>
      by_cases hlt : n < 10
      · exact ⟨n.digitChar, [], Nat.toDigits_of_lt_base hlt,
          digitChar_ne_zero hlt h⟩
      · obtain ⟨c, rest, heq, hc⟩ := ih (n / 10) (by omega) (by omega)
        refine ⟨c, rest ++ [(n % 10).digitChar], ?_, hc⟩
        rw [Nat.toDigits_of_base_le (by decide) (by omega), heq]
        rfl

theorem ofDigitChars_cons (total : Nat) (c : Char) (rest : List Char) :
    Nat.ofDigitChars 10 (c :: rest) total =
      Nat.ofDigitChars 10 rest (total * 10 + digitValue c) := by
  rw [Nat.ofDigitChars_cons, Nat.mul_comm]
  rfl

theorem le_ofDigitChars (total : Nat) (digits : List Char) :
    total ≤ Nat.ofDigitChars 10 digits total := by
  rw [Nat.ofDigitChars_eq_ofDigitChars_zero]
  have hpos : 0 < 10 ^ digits.length := Nat.pow_pos (by decide)
  have hle := Nat.le_mul_of_pos_left total hpos
  omega

/-- Digits of a number that fits a word are gathered whole. -/
theorem gather_eq {total : Nat} {digits : List Char}
    (h : Nat.ofDigitChars 10 digits total < 2 ^ 64) :
    gather total digits = (Nat.ofDigitChars 10 digits total, []) := by
  induction digits generalizing total with
  | nil => rfl
  | cons c rest ih =>
      rw [ofDigitChars_cons] at h ⊢
      have hle := le_ofDigitChars (total * 10 + digitValue c) rest
      rw [gather, if_pos (by omega)]
      exact ih h

/-! ## Where a number ends -/

/-- What follows does not go on with a number. -/
def EndsNumber : Unread → Prop
  | [] => True
  | c :: _ => isDigit c = false ∧ c ≠ '.' ∧ c ≠ 'e' ∧ c ≠ 'E'

theorem endsNumber_comma (rest : Unread) : EndsNumber (',' :: rest) := by
  simp [EndsNumber, isDigit]

theorem endsNumber_bracket (rest : Unread) : EndsNumber (']' :: rest) := by
  simp [EndsNumber, isDigit]

theorem endsNumber_brace (rest : Unread) : EndsNumber ('\x7d' :: rest) := by
  simp [EndsNumber, isDigit]

variable {rest : Unread}

theorem EndsNumber.startsWithDigit (h : EndsNumber rest) :
    startsWithDigit rest = false := by
  cases rest with
  | nil => rfl
  | cons c more => exact h.1

theorem EndsNumber.fractionPart (h : EndsNumber rest) (cut : Cause) :
    fractionPart cut rest = .ok (none, rest) := by
  cases rest with
  | nil => rfl
  | cons c more =>
      rw [Json.fractionPart]
      intro other heq
      cases heq
      exact h.2.1 rfl

theorem EndsNumber.exponentPart (h : EndsNumber rest) (cut : Cause) :
    exponentPart cut rest = .ok (none, rest) := by
  cases rest with
  | nil => rfl
  | cons c more => simp [Json.exponentPart, h.2.2.1, h.2.2.2]

/-- Digits without a needless zero in front are an integer part. -/
theorem wholePart_append (cut : Cause) {c : Char} {digits : List Char}
    (h : AllDigits (c :: digits)) (hzero : c = '0' → digits = [])
    (hrest : startsWithDigit rest = false) :
    wholePart cut (c :: digits ++ rest) = .ok (c :: digits, rest) := by
  have hc := h c List.mem_cons_self
  by_cases hfirst : c = '0'
  · obtain rfl := hzero hfirst
    simp [wholePart, hfirst, hrest]
  · have hspan := spanDigits_append h hrest
    rw [List.cons_append] at hspan ⊢
    simp [wholePart, hfirst, hc, hspan]

theorem wholePart_toDigits (cut : Cause) (n : Nat)
    (hrest : startsWithDigit rest = false) :
    wholePart cut (Nat.toDigits 10 n ++ rest) =
      .ok (Nat.toDigits 10 n, rest) := by
  have hdigits := allDigits_toDigits n
  rcases Nat.eq_zero_or_pos n with rfl | hpos
  · exact wholePart_append cut hdigits (fun _ => rfl) hrest
  · obtain ⟨c, more, heq, hc⟩ := exists_toDigits hpos
    rw [heq] at hdigits ⊢
    exact wholePart_append cut hdigits (fun h => absurd h hc) hrest

/-! ## Numbers -/

theorem wholePart_minus (cut : Cause) (input : Unread) :
    wholePart cut ('-' :: input) =
      .error (.next .invalidNumber ('-' :: input)) := by
  simp [wholePart, isDigit]

/-- A number is read part by part, behind a minus or without one. -/
theorem numeral_of_parts {cut : Cause} {input behindWhole behindFraction : Unread}
    {whole : List Char} {fraction : Option (List Char)}
    {scientific : Option (Bool × List Char)}
    (hwhole : wholePart cut input = .ok (whole, behindWhole))
    (hfraction : fractionPart cut behindWhole = .ok (fraction, behindFraction))
    (hexponent : exponentPart cut behindFraction = .ok (scientific, rest))
    (negative : Bool) :
    numeral cut (if negative then '-' :: input else input) =
      .ok (⟨negative, whole, fraction, scientific⟩, rest) := by
  have hunsigned : ∀ behind, input ≠ '-' :: behind := by
    rintro behind rfl
    rw [wholePart_minus] at hwhole
    cases hwhole
  unfold numeral
  cases negative with
  | true => simp [hwhole, hfraction, hexponent, pure, Except.pure]
  | false => simp [hwhole, hfraction, hexponent, pure, Except.pure]

theorem integerChars_eq (value : Int) :
    integerChars value =
      if decide (value < 0) then '-' :: Nat.toDigits 10 value.natAbs
      else Nat.toDigits 10 value.natAbs := by
  simp [integerChars]

theorem numeral_integerChars (cut : Cause) (value : Int) (h : EndsNumber rest) :
    numeral cut (integerChars value ++ rest) =
      .ok (⟨decide (value < 0), Nat.toDigits 10 value.natAbs, none, none⟩,
        rest) := by
  have hwhole := wholePart_toDigits cut value.natAbs h.startsWithDigit
  have hparts := numeral_of_parts hwhole (h.fractionPart cut)
    (h.exponentPart cut) (decide (value < 0))
  rw [integerChars_eq, ← hparts]
  split <;> rfl

/-- An integer of a word is read back as it was. -/
theorem number_integerChars (w : WordInt) (h : EndsNumber rest) :
    number (integerChars w.value ++ rest) = .ok (.integer w, rest) := by
  have hrange := w.inRange
  have hgather : gather 0 (Nat.toDigits 10 w.value.natAbs) =
      (w.value.natAbs, []) := by
    have hdigits := Nat.ofDigitChars_ten_toDigits (n := w.value.natAbs)
    rw [gather_eq (by omega), hdigits]
  have hliteral : (if decide (w.value < 0) then -(w.value.natAbs : Int)
      else w.value.natAbs) = w.value := by
    simp only [decide_eq_true_eq]
    split <;> omega
  have hzero : (decide (w.value < 0) && w.value.natAbs == 0) = false := by
    simp
    omega
  have hword : WordInt.ofInt? w.value = some w := dif_pos hrange
  unfold number
  rw [numeral_integerChars .valueCut w.value h, ok_bind]
  simp only [Numeral.value, hgather, hliteral, hzero, hword, ok_bind,
    Option.isNone_none, List.isEmpty_nil, Bool.and_self, Bool.not_false]
  rfl

end Json

end VersionedFlags
