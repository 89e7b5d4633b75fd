import Mathlib.Algebra.Order.Field.Power
import Mathlib.Algebra.Order.Ring.Rat
import Mathlib.Tactic.FieldSimp
import Mathlib.Tactic.Linarith
import Mathlib.Tactic.NormNum
import Mathlib.Tactic.Positivity
import Mathlib.Tactic.Ring
import VersionedFlags.Binary64.Basic

/-!
# Rounding bounds

A quotient is rounded on the grid of the doubles of its magnitude.  `Rounds`
says which grid that is and that the digits are nearest on it, from which follow
the bounds on the rounded number: it is finite below the midpoint to the first
number that is not, it does not pass a power of two that the quotient does not
pass, and its relative error is half a unit in the last place.
-/

namespace VersionedFlags

namespace Binary64

/-! ## Powers with an integer exponent -/

theorem zpow_eq_div {base : ℚ} (h : base ≠ 0) (exponent : Int) :
    base ^ exponent = base ^ exponent.toNat / base ^ (-exponent).toNat := by
  have hsplit : exponent = (exponent.toNat : Int) - ((-exponent).toNat : Int) := by
    omega
  conv_lhs => rw [hsplit]
  rw [zpow_sub₀ h, zpow_natCast, zpow_natCast]

theorem two_zpow_pos (exponent : Int) : (0 : ℚ) < 2 ^ exponent := by positivity

theorem two_zpow_le {a b : Int} : (2 : ℚ) ^ a ≤ 2 ^ b ↔ a ≤ b :=
  zpow_le_zpow_iff_right₀ (by norm_num)

theorem two_zpow_lt {a b : Int} : (2 : ℚ) ^ a < 2 ^ b ↔ a < b :=
  zpow_lt_zpow_iff_right₀ (by norm_num)

theorem two_zpow_add (a b : Int) : (2 : ℚ) ^ (a + b) = 2 ^ a * 2 ^ b :=
  zpow_add₀ (by norm_num) a b

/-! ## Magnitudes -/

def magnitude (x : Binary64) : ℚ := x.significand * 2 ^ x.exponent

theorem magnitude_nonneg (x : Binary64) : 0 ≤ x.magnitude := by
  unfold magnitude
  positivity

theorem denominator_pos (x : Binary64) : 0 < x.denominator := by
  simp [denominator, Nat.shiftLeft_eq]

theorem numerator_div_denominator (x : Binary64) :
    (x.numerator : ℚ) / x.denominator = x.magnitude := by
  unfold magnitude
  rw [zpow_eq_div (by norm_num)]
  simp only [numerator, denominator, Nat.shiftLeft_eq]
  push_cast
  rw [one_mul, mul_div_assoc]

/-- The value that a word of scale and digits stands for. -/
theorem magnitude_of_word {x : Binary64} {scale : Int} {digits : Nat}
    (hscale : -1074 ≤ scale) (hdigits : digits ≤ 2 ^ 53)
    (hnormal : scale = -1074 ∨ 2 ^ 52 ≤ digits)
    (hword : x.word = (scale + 1074).toNat * 2 ^ 52 + digits) :
    x.magnitude = digits * 2 ^ scale := by
  obtain ⟨offset, rfl⟩ : ∃ offset : Nat, scale = offset - 1074 :=
    ⟨(scale + 1074).toNat, by omega⟩
  have hoffset : ((offset : Int) - 1074 + 1074).toNat = offset := by omega
  rw [hoffset] at hword
  unfold magnitude
  by_cases hcarry : digits = 2 ^ 53
  · have hsignificand : x.significand = 2 ^ 52 := by
      simp only [significand, hword]
      split <;> omega
    have hexponent : x.exponent = (offset : Int) - 1074 + 1 := by
      simp only [exponent, hword]
      omega
    rw [hsignificand, hexponent, hcarry, two_zpow_add]
    push_cast
    ring
  · have hsignificand : x.significand = digits := by
      simp only [significand, hword]
      split <;> omega
    have hexponent : x.exponent = (offset : Int) - 1074 := by
      simp only [exponent, hword]
      omega
    rw [hsignificand, hexponent]

/-! ## The nearest integer -/

theorem roundQuotient_cases (num den : Nat) :
    roundQuotient num den = num / den ∧ 2 * (num % den) ≤ den ∨
      roundQuotient num den = num / den + 1 ∧ den ≤ 2 * (num % den) := by
  unfold roundQuotient
  dsimp only
  split
  · exact .inl ⟨rfl, by omega⟩
  · split
    · exact .inr ⟨rfl, by omega⟩
    · rcases Nat.mod_two_eq_zero_or_one (num / den) with heven | hodd
      · exact .inl ⟨by omega, by omega⟩
      · exact .inr ⟨by omega, by omega⟩

theorem roundQuotient_near (num : Nat) {den : Nat} (hden : 0 < den) :
    |(roundQuotient num den : ℚ) - num / den| ≤ 1 / 2 := by
  have hpos : (0 : ℚ) < den := by exact_mod_cast hden
  have hdiv : (den : ℚ) * (num / den : Nat) + (num % den : Nat) = num := by
    exact_mod_cast Nat.div_add_mod num den
  have hsplit : (num : ℚ) / den =
      (num / den : Nat) + ((num % den : Nat) : ℚ) / den := by
    rw [← hdiv, add_div, mul_div_cancel_left₀ _ hpos.ne']
  rw [hsplit, abs_le]
  rcases roundQuotient_cases num den with ⟨heq, hrest⟩ | ⟨heq, hrest⟩
  · have hsmall : ((num % den : Nat) : ℚ) / den ≤ 1 / 2 := by
      rw [div_le_div_iff₀ hpos (by norm_num), one_mul, mul_comm]
      exact_mod_cast hrest
    have hnonneg : 0 ≤ ((num % den : Nat) : ℚ) / den := by positivity
    rw [heq]
    constructor <;> linarith
  · have hlarge : 1 / 2 ≤ ((num % den : Nat) : ℚ) / den := by
      rw [div_le_div_iff₀ (by norm_num) hpos, one_mul, mul_comm]
      exact_mod_cast hrest
    have hone : ((num % den : Nat) : ℚ) / den < 1 := by
      rw [div_lt_one hpos]
      exact_mod_cast Nat.mod_lt num hden
    rw [heq]
    push_cast
    constructor <;> linarith

/-! ## The grid of a magnitude -/

theorem two_zpow_le_div_iff {num den : Nat} (hden : 0 < den) (exponent : Int) :
    den <<< exponent.toNat ≤ num <<< (-exponent).toNat ↔
      (2 : ℚ) ^ exponent ≤ num / den := by
  have hpos : (0 : ℚ) < den := by exact_mod_cast hden
  rw [zpow_eq_div (by norm_num), div_le_div_iff₀ (by positivity) hpos,
    Nat.shiftLeft_eq, Nat.shiftLeft_eq, mul_comm ((2 : ℚ) ^ _)]
  exact_mod_cast Iff.rfl

theorem magnitudeExponent_spec {num den : Nat} (hnum : 0 < num)
    (hden : 0 < den) :
    (2 : ℚ) ^ magnitudeExponent num den ≤ num / den ∧
      (num : ℚ) / den < 2 ^ (magnitudeExponent num den + 1) := by
  have hnumPos : (0 : ℚ) < num := by exact_mod_cast hnum
  have hdenPos : (0 : ℚ) < den := by exact_mod_cast hden
  have hnumLow : (2 : ℚ) ^ (num.log2 : Int) ≤ num := by
    exact_mod_cast Nat.log2_self_le (Nat.ne_of_gt hnum)
  have hnumHigh : (num : ℚ) < 2 ^ ((num.log2 : Int) + 1) := by
    exact_mod_cast Nat.lt_log2_self (n := num)
  have hdenLow : (2 : ℚ) ^ (den.log2 : Int) ≤ den := by
    exact_mod_cast Nat.log2_self_le (Nat.ne_of_gt hden)
  have hdenHigh : (den : ℚ) < 2 ^ ((den.log2 : Int) + 1) := by
    exact_mod_cast Nat.lt_log2_self (n := den)
  -- The exponent of the quotient is the difference of the two or one less.
  have hlow : (2 : ℚ) ^ ((num.log2 : Int) - den.log2 - 1) ≤ num / den := by
    rw [le_div_iff₀ hdenPos]
    calc (2 : ℚ) ^ ((num.log2 : Int) - den.log2 - 1) * den
        ≤ 2 ^ ((num.log2 : Int) - den.log2 - 1) * 2 ^ ((den.log2 : Int) + 1) :=
          mul_le_mul_of_nonneg_left hdenHigh.le (by positivity)
      _ = 2 ^ (num.log2 : Int) := by
          rw [← two_zpow_add]
          congr 1
          omega
      _ ≤ num := hnumLow
  have hhigh : (num : ℚ) / den < 2 ^ ((num.log2 : Int) - den.log2 + 1) := by
    rw [div_lt_iff₀ hdenPos]
    calc (num : ℚ) < 2 ^ ((num.log2 : Int) + 1) := hnumHigh
      _ = 2 ^ ((num.log2 : Int) - den.log2 + 1) * 2 ^ (den.log2 : Int) := by
          rw [← two_zpow_add]
          congr 1
          omega
      _ ≤ 2 ^ ((num.log2 : Int) - den.log2 + 1) * den :=
          mul_le_mul_of_nonneg_left hdenLow (by positivity)
  simp only [magnitudeExponent, two_zpow_le_div_iff hden]
  split
  · rename_i hguess
    exact ⟨hguess, hhigh⟩
  · rename_i hguess
    refine ⟨hlow, ?_⟩
    rw [sub_add_cancel]
    exact not_le.mp hguess

/-- The digits on the grid of a scale that are nearest to a quotient, on the
grid that the doubles have at its magnitude. -/
structure Rounds (quotient : ℚ) (scale : Int) (digits : Nat) : Prop where
  least : -1074 ≤ scale
  below : quotient < 2 ^ (scale + 53)
  normal : scale = -1074 ∨ (2 : ℚ) ^ (scale + 52) ≤ quotient
  near : |(digits : ℚ) - quotient / 2 ^ scale| ≤ 1 / 2

theorem exists_rounds (negative : Bool) {num den : Nat} (hnum : 0 < num)
    (hden : 0 < den) :
    ∃ scale digits, Rounds ((num : ℚ) / den) scale digits ∧
      nearest negative num den =
        if h : (scale + 1074).toNat * 2 ^ 52 + digits < 2047 * 2 ^ 52 then
          some ⟨negative, (scale + 1074).toNat * 2 ^ 52 + digits, h⟩
        else none := by
  obtain ⟨hlow, hhigh⟩ := magnitudeExponent_spec hnum hden
  have hsome : ¬ (num = 0 ∨ den = 0) := by omega
  refine ⟨max (magnitudeExponent num den - 52) (-1074), _, ?_,
    by rw [nearest, if_neg hsome]⟩
  generalize hscale : max (magnitudeExponent num den - 52) (-1074) = scale
  constructor
  case least => omega
  case below =>
    apply hhigh.trans_le
    apply two_zpow_le.mpr
    omega
  case normal =>
    rcases eq_or_ne scale (-1074) with h | h
    · exact .inl h
    · refine .inr (le_trans ?_ hlow)
      apply two_zpow_le.mpr
      omega
  case near =>
    have hscaled : ((num <<< (-scale).toNat : Nat) : ℚ) /
        (den <<< scale.toNat : Nat) = num / den / 2 ^ scale := by
      rw [zpow_eq_div (by norm_num), Nat.shiftLeft_eq, Nat.shiftLeft_eq]
      push_cast
      field_simp
    rw [← hscaled]
    apply roundQuotient_near
    rw [Nat.shiftLeft_eq]
    positivity

namespace Rounds

variable {quotient : ℚ} {scale : Int} {digits : Nat}

/-- A whole number of units that the quotient does not pass is not passed by the
digits, and one that it reaches is reached by them. -/
theorem le_of_le (h : Rounds quotient scale digits) {bound : Nat}
    (hle : quotient ≤ bound * 2 ^ scale) : digits ≤ bound := by
  have hnear := (abs_le.mp h.near).2
  have hunits : quotient / 2 ^ scale ≤ bound :=
    (div_le_iff₀ (two_zpow_pos scale)).mpr hle
  have hlt : (digits : ℚ) < bound + 1 := by linarith
  have hlt : digits < bound + 1 := by exact_mod_cast hlt
  omega

theorem ge_of_ge (h : Rounds quotient scale digits) {bound : Nat}
    (hle : bound * 2 ^ scale ≤ quotient) : bound ≤ digits := by
  have hnear := (abs_le.mp h.near).1
  have hunits : (bound : ℚ) ≤ quotient / 2 ^ scale :=
    (le_div_iff₀ (two_zpow_pos scale)).mpr hle
  have hlt : (bound : ℚ) < digits + 1 := by linarith
  have hlt : bound < digits + 1 := by exact_mod_cast hlt
  omega

theorem digits_le (h : Rounds quotient scale digits) : digits ≤ 2 ^ 53 := by
  apply h.le_of_le
  have hbelow := h.below
  rw [two_zpow_add, mul_comm] at hbelow
  exact_mod_cast hbelow.le

theorem digits_ge (h : Rounds quotient scale digits) :
    scale = -1074 ∨ 2 ^ 52 ≤ digits := by
  refine h.normal.imp id fun hnormal => h.ge_of_ge ?_
  rw [two_zpow_add, mul_comm] at hnormal
  exact_mod_cast hnormal

theorem magnitude (h : Rounds quotient scale digits) {x : Binary64}
    (hword : x.word = (scale + 1074).toNat * 2 ^ 52 + digits) :
    x.magnitude = digits * 2 ^ scale :=
  magnitude_of_word h.least h.digits_le h.digits_ge hword

end Rounds

/-! ## The nearest double -/

/-- The midpoint between the largest double and the power of two behind it. -/
def overflow : ℚ := (2 ^ 53 - 1 / 2) * 2 ^ (971 : Int)

theorem magnitude_zero (negative : Bool) : (zero negative).magnitude = 0 := by
  simp [magnitude, significand, zero]

theorem nearest_zero (negative : Bool) (den : Nat) :
    nearest negative 0 den = some (zero negative) := by
  simp [nearest]

theorem overflow_lt : overflow < 2 ^ (1024 : Int) := by
  rw [show (1024 : Int) = 53 + 971 from rfl, two_zpow_add]
  apply mul_lt_mul_of_pos_right _ (two_zpow_pos 971)
  norm_num

theorem lt_overflow {power : Int} (h : power ≤ 1023) :
    (2 : ℚ) ^ power < overflow := by
  apply (two_zpow_le.mpr h).trans_lt
  rw [show (1023 : Int) = 52 + 971 from rfl, two_zpow_add]
  apply mul_lt_mul_of_pos_right _ (two_zpow_pos 971)
  norm_num

theorem natCast_lt_midpoint {n power : Nat}
    (h : 2 * n < (2 ^ 54 - 1) * 2 ^ power) :
    (n : ℚ) < (2 ^ 53 - 1 / 2) * 2 ^ (power : Int) := by
  have hcast : ((2 * n : Nat) : ℚ) < ((2 ^ 54 - 1) * 2 ^ power : Nat) :=
    Nat.cast_lt.mpr h
  norm_num at hcast ⊢
  linarith

theorem ten_pow_lt_midpoint {power top : Nat} (unit : Nat) (h : power ≤ top)
    (htop : 2 * 10 ^ top < (2 ^ 54 - 1) * 2 ^ unit) :
    (10 : ℚ) ^ power < (2 ^ 53 - 1 / 2) * 2 ^ (unit : Int) := by
  have hle : 2 * 10 ^ power ≤ 2 * 10 ^ top :=
    Nat.mul_le_mul_left 2 (Nat.pow_le_pow_right (by decide) h)
  have hlt := natCast_lt_midpoint (hle.trans_lt htop)
  rwa [Nat.cast_pow] at hlt

/-- The powers of ten up to the 308th are doubles after rounding. -/
theorem ten_pow_lt_overflow {power : Nat} (h : power ≤ 308) :
    (10 : ℚ) ^ power < overflow :=
  ten_pow_lt_midpoint 971 h (by decide +kernel)

theorem Rounds.scale_le {quotient : ℚ} {scale : Int} {digits : Nat}
    (h : Rounds quotient scale digits) (hlt : quotient < overflow) :
    scale ≤ 971 := by
  rcases h.normal with hleast | hnormal
  · omega
  · have hpow : (2 : ℚ) ^ (scale + 52) < 2 ^ (1024 : Int) :=
      (hnormal.trans_lt hlt).trans overflow_lt
    have hexponent := two_zpow_lt.mp hpow
    omega

/-- On the grid below the overflow the digits do not carry. -/
theorem Rounds.digits_lt {quotient : ℚ} {digits : Nat}
    (h : Rounds quotient 971 digits) (hlt : quotient < overflow) :
    digits < 2 ^ 53 := by
  have hnear := (abs_le.mp h.near).2
  have hunits : quotient / 2 ^ (971 : Int) < 2 ^ 53 - 1 / 2 := by
    rw [div_lt_iff₀ (two_zpow_pos 971)]
    exact hlt
  have hdigits : (digits : ℚ) < 2 ^ 53 := by linarith
  exact_mod_cast hdigits

theorem exists_nearest (negative : Bool) (num : Nat) {den : Nat} (hden : 0 < den)
    (hlt : (num : ℚ) / den < overflow) :
    ∃ x, nearest negative num den = some x := by
  rcases Nat.eq_zero_or_pos num with rfl | hnum
  · exact ⟨_, nearest_zero negative den⟩
  obtain ⟨scale, digits, hrounds, heq⟩ := exists_rounds negative hnum hden
  have hle := hrounds.digits_le
  have htop := hrounds.scale_le hlt
  rw [heq]
  suffices hword :
      (scale + 1074).toNat * 2 ^ 52 + digits < 2047 * 2 ^ 52 by
    exact ⟨_, dif_pos hword⟩
  rcases eq_or_ne scale 971 with rfl | hscale
  · have hdigits := hrounds.digits_lt hlt
    omega
  · omega

theorem magnitude_nearest {negative : Bool} {num den : Nat} {x : Binary64}
    (hden : 0 < den) (heq : nearest negative num den = some x) :
    num = 0 ∧ x.magnitude = 0 ∨
      ∃ scale digits, Rounds ((num : ℚ) / den) scale digits ∧
        x.magnitude = digits * 2 ^ scale := by
  rcases Nat.eq_zero_or_pos num with rfl | hnum
  · rw [nearest_zero] at heq
    cases heq
    exact .inl ⟨rfl, magnitude_zero negative⟩
  obtain ⟨scale, digits, hrounds, hnearest⟩ :=
    exists_rounds negative hnum hden
  rw [hnearest] at heq
  split at heq
  · cases heq
    exact .inr ⟨scale, digits, hrounds, hrounds.magnitude rfl⟩
  · cases heq

section

variable {negative : Bool} {num den : Nat} {x : Binary64}

/-- A power of two that the quotient does not pass is not passed by the double. -/
theorem magnitude_nearest_le (hden : 0 < den)
    (heq : nearest negative num den = some x) (power : Nat)
    (hle : (num : ℚ) / den ≤ 2 ^ power) : x.magnitude ≤ 2 ^ power := by
  rcases magnitude_nearest hden heq with ⟨-, hzero⟩ | ⟨scale, digits, h, hvalue⟩
  · rw [hzero]
    positivity
  have hscale : scale ≤ power := by
    rcases h.normal with hleast | hnormal
    · omega
    · have hpow : (2 : ℚ) ^ (scale + 52) ≤ 2 ^ (power : Int) := by
        rw [zpow_natCast]
        exact hnormal.trans hle
      have hexponent := two_zpow_le.mp hpow
      omega
  have hunits : ((2 ^ (power - scale).toNat : Nat) : ℚ) * 2 ^ scale =
      2 ^ power := by
    push_cast
    rw [← zpow_natCast, ← two_zpow_add, ← zpow_natCast]
    congr 1
    omega
  have hdigits : digits ≤ 2 ^ (power - scale).toNat :=
    h.le_of_le (by rw [hunits]; exact hle)
  calc x.magnitude = digits * 2 ^ scale := hvalue
    _ ≤ ((2 ^ (power - scale).toNat : Nat) : ℚ) * 2 ^ scale :=
        mul_le_mul_of_nonneg_right (by exact_mod_cast hdigits)
          (two_zpow_pos scale).le
    _ = 2 ^ power := hunits

theorem Rounds.half_unit_le {quotient : ℚ} {scale : Int} {digits : Nat}
    (h : Rounds quotient scale digits) (hone : 1 ≤ quotient) :
    2 ^ scale / 2 ≤ quotient / 2 ^ 53 := by
  have hnormal : (2 : ℚ) ^ (scale + 52) ≤ quotient := by
    rcases h.normal with rfl | hnormal
    · apply le_trans _ hone
      rw [← zpow_zero (2 : ℚ)]
      exact two_zpow_le.mpr (by omega)
    · exact hnormal
  rw [two_zpow_add] at hnormal
  norm_num at hnormal ⊢
  linarith

/-- From one on the error is relative: half a unit in the last place. -/
theorem magnitude_nearest_near (hden : 0 < den)
    (heq : nearest negative num den = some x)
    (hone : 1 ≤ (num : ℚ) / den) :
    |x.magnitude - num / den| ≤ num / den / 2 ^ 53 := by
  rcases magnitude_nearest hden heq with ⟨rfl, -⟩ | ⟨scale, digits, h, hvalue⟩
  · norm_num at hone
  have hpos := two_zpow_pos scale
  have hsplit : x.magnitude - num / den =
      (digits - num / den / 2 ^ scale) * 2 ^ scale := by
    rw [hvalue, sub_mul, div_mul_cancel₀ _ hpos.ne']
  calc |x.magnitude - num / den|
      = |(digits : ℚ) - num / den / 2 ^ scale| * 2 ^ scale := by
        rw [hsplit, abs_mul, abs_of_pos hpos]
    _ ≤ 1 / 2 * 2 ^ scale := mul_le_mul_of_nonneg_right h.near hpos.le
    _ = 2 ^ scale / 2 := by ring
    _ ≤ num / den / 2 ^ 53 := h.half_unit_le hone

end

/-! ## Products and quotients -/

theorem numerator_mul_div (x y : Binary64) :
    ((x.numerator * y.numerator : Nat) : ℚ) /
      (x.denominator * y.denominator : Nat) = x.magnitude * y.magnitude := by
  push_cast
  rw [mul_div_mul_comm, numerator_div_denominator, numerator_div_denominator]

theorem exists_mul {x y : Binary64}
    (hlt : x.magnitude * y.magnitude < overflow) :
    ∃ product, x.mul y = some product := by
  apply exists_nearest
  · exact Nat.mul_pos x.denominator_pos y.denominator_pos
  · rwa [numerator_mul_div]

/-- A quotient by a number from one on stays below the bound of the dividend. -/
theorem exists_div {x y : Binary64} {power : Nat} (hpower : power ≤ 1023)
    (hx : x.magnitude ≤ 2 ^ power) (hy : 1 ≤ y.magnitude) :
    ∃ quotient, x.div y = some quotient ∧ quotient.magnitude ≤ 2 ^ power := by
  have hnumerator : 0 < y.numerator := by
    apply Nat.pos_of_ne_zero
    intro hzero
    rw [← numerator_div_denominator, hzero] at hy
    norm_num at hy
  have hden : 0 < x.denominator * y.numerator :=
    Nat.mul_pos x.denominator_pos hnumerator
  have hvalue : ((x.numerator * y.denominator : Nat) : ℚ) /
      (x.denominator * y.numerator : Nat) = x.magnitude / y.magnitude := by
    rw [← numerator_div_denominator, ← numerator_div_denominator, div_div_div_eq]
    push_cast
    rfl
  have hle : ((x.numerator * y.denominator : Nat) : ℚ) /
      (x.denominator * y.numerator : Nat) ≤ 2 ^ power := by
    rw [hvalue]
    exact (div_le_self x.magnitude_nonneg hy).trans hx
  have hfinite : (2 : ℚ) ^ power < overflow := by
    rw [← zpow_natCast]
    exact lt_overflow (by omega)
  obtain ⟨quotient, heq⟩ := exists_nearest (x.negative != y.negative) _ hden
    (hle.trans_lt hfinite)
  exact ⟨quotient, heq, magnitude_nearest_le hden heq power hle⟩

end Binary64

end VersionedFlags
