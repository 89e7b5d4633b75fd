import Mathlib.Data.Nat.Digits.Defs
import VersionedFlags.Binary64.Shortest
import VersionedFlags.Proofs.Binary64.Rounding

/-!
# Shortest decimals

The search starts at the decimal magnitude of a number, so its digits are
positive, and it has a hit by eighteen digits, since the grid is finer than the
gap to the next double by then.  The decimal it finds is within half that gap.
-/

namespace VersionedFlags

namespace Binary64

/-! ## Powers of ten -/

theorem ten_zpow_pos (exponent : Int) : (0 : ℚ) < 10 ^ exponent := by positivity

theorem ten_zpow_le {a b : Int} : (10 : ℚ) ^ a ≤ 10 ^ b ↔ a ≤ b :=
  zpow_le_zpow_iff_right₀ (by norm_num)

theorem ten_zpow_lt {a b : Int} : (10 : ℚ) ^ a < 10 ^ b ↔ a < b :=
  zpow_lt_zpow_iff_right₀ (by norm_num)

theorem ten_zpow_add (a b : Int) : (10 : ℚ) ^ (a + b) = 10 ^ a * 10 ^ b :=
  zpow_add₀ (by norm_num) a b

theorem tenTo_div (exponent : Int) :
    (tenTo exponent : ℚ) / tenTo (-exponent) = 10 ^ exponent := by
  rw [zpow_eq_div (by norm_num)]
  simp [tenTo]

theorem tenTo_pos (exponent : Int) : 0 < tenTo exponent :=
  Nat.pow_pos (by decide)

/-! ## The decimal magnitude -/

theorem toDigits_bounds {n : Nat} (h : 0 < n) :
    10 ^ ((Nat.toDigits 10 n).length - 1) ≤ n ∧
      n < 10 ^ (Nat.toDigits 10 n).length := by
  have hpos : 0 < (Nat.toDigits 10 n).length :=
    List.length_pos_of_ne_nil Nat.toDigits_ne_nil
  constructor
  · by_contra hlt
    rcases Nat.eq_zero_or_pos ((Nat.toDigits 10 n).length - 1) with hone | hmore
    · rw [hone] at hlt
      omega
    · have hle := (Nat.length_toDigits_le_iff (b := 10) (by decide) hmore).mpr
        (Nat.lt_of_not_le hlt)
      omega
  · exact (Nat.length_toDigits_le_iff (by decide) hpos).mp (Nat.le_refl _)

theorem decimalExponent_spec {num den : Nat} (hnum : 0 < num)
    (hden : 0 < den) :
    (10 : ℚ) ^ decimalExponent num den ≤ num / den ∧
      (num : ℚ) / den < 10 ^ (decimalExponent num den + 1) := by
  have hpos : (0 : ℚ) < den := by exact_mod_cast hden
  have hnumPos : (0 : ℚ) < num := by exact_mod_cast hnum
  unfold decimalExponent
  split
  · rename_i hle
    obtain ⟨hlow, hhigh⟩ := toDigits_bounds (Nat.div_pos hle hden)
    have hlength : 0 < (Nat.toDigits 10 (num / den)).length :=
      List.length_pos_of_ne_nil Nat.toDigits_ne_nil
    generalize (Nat.toDigits 10 (num / den)).length = length at *
    have hlow' := (Nat.le_div_iff_mul_le hden).mp hlow
    have hhigh' := (Nat.div_lt_iff_lt_mul hden).mp hhigh
    constructor
    · rw [le_div_iff₀ hpos, show (length : Int) - 1 = (length - 1 : Nat) by omega,
        zpow_natCast]
      exact_mod_cast hlow'
    · rw [div_lt_iff₀ hpos, sub_add_cancel, zpow_natCast]
      exact_mod_cast hhigh'
  · rename_i hlt
    obtain ⟨hlow, hhigh⟩ := toDigits_bounds
      (Nat.div_pos (show num ≤ den - 1 by omega) hnum)
    have hlength : 0 < (Nat.toDigits 10 ((den - 1) / num)).length :=
      List.length_pos_of_ne_nil Nat.toDigits_ne_nil
    generalize (Nat.toDigits 10 ((den - 1) / num)).length = length at *
    have hlow' := (Nat.le_div_iff_mul_le hnum).mp hlow
    have hhigh' := (Nat.div_lt_iff_lt_mul hnum).mp hhigh
    constructor
    · rw [zpow_neg, zpow_natCast, inv_le_comm₀ (by positivity) (by positivity),
        inv_div, div_le_iff₀ hnumPos]
      have hle : den ≤ 10 ^ length * num := by omega
      exact_mod_cast hle
    · rw [show -(length : Int) + 1 = -((length - 1 : Nat) : Int) by omega,
        zpow_neg, zpow_natCast, lt_inv_comm₀ (by positivity) (by positivity),
        inv_div, lt_div_iff₀ hnumPos]
      have hlt : 10 ^ (length - 1) * num < den := by omega
      exact_mod_cast hlt

/-! ## Candidates -/

namespace Neighbourhood

theorem pick?_cases {area : Neighbourhood} {digits : Nat}
    (h : area.pick? = some digits) :
    area.holds digits = true ∧
      (digits = area.num / area.den ∨ digits = area.num / area.den + 1) := by
  unfold pick? at h
  dsimp only at h
  split at h
  case h_1 => cases h
  case h_2 hbelow _ =>
    cases h
    exact ⟨hbelow, .inl rfl⟩
  case h_3 _ habove =>
    cases h
    exact ⟨habove, .inr rfl⟩
  case h_4 hbelow habove =>
    cases h
    rcases roundQuotient_cases area.num area.den with ⟨heq, -⟩ | ⟨heq, -⟩
    · exact ⟨heq ▸ hbelow, .inl heq⟩
    · exact ⟨heq ▸ habove, .inr heq⟩

theorem le_high {area : Neighbourhood} {candidate : Nat}
    (h : area.holds candidate = true) : candidate * area.den ≤ area.high := by
  unfold holds at h
  dsimp only at h
  split at h <;> simp only [Bool.and_eq_true, decide_eq_true_eq] at h <;> omega

/-- On a grid finer than the gap above the value there is a hit. -/
theorem exists_pick? {area : Neighbourhood} (hden : 0 < area.den)
    (hlow : area.low ≤ area.num) (hgap : area.num + area.den < area.high) :
    ∃ digits, area.pick? = some digits := by
  have hdiv := Nat.div_add_mod area.num area.den
  have hmod := Nat.mod_lt area.num hden
  have habove : area.holds (area.num / area.den + 1) = true := by
    unfold holds
    dsimp only
    rw [Nat.add_mul, Nat.one_mul, Nat.mul_comm]
    split <;> simp only [Bool.and_eq_true, decide_eq_true_eq] <;> omega
  unfold pick?
  dsimp only
  rw [habove]
  cases area.holds (area.num / area.den) <;> simp

theorem search_eq {area : Neighbourhood} {top : Int} (tries count : Nat)
    (hlast : ∃ digits, (area.rescale (top - (tries + count : Nat))).pick? =
      some digits) :
    ∃ digits steps, count ≤ steps ∧ steps ≤ tries + count ∧
      area.search top (tries + 1) count = (digits, top - steps) ∧
      (area.rescale (top - steps)).pick? = some digits := by
  induction tries generalizing count with
  | zero =>
      obtain ⟨digits, hdigits⟩ := hlast
      rw [Nat.zero_add] at hdigits
      refine ⟨digits, count, Nat.le_refl _, by omega, ?_, hdigits⟩
      simp [search, hdigits]
  | succ tries ih =>
      cases hpick : (area.rescale (top - count)).pick? with
      | some digits =>
          refine ⟨digits, count, Nat.le_refl _, by omega, ?_, hpick⟩
          rw [search]
          simp [hpick]
      | none =>
          rw [Nat.add_right_comm, Nat.add_assoc] at hlast
          obtain ⟨digits, steps, hge, hle, heq, hsome⟩ := ih _ hlast
          refine ⟨digits, steps, by omega, by omega, ?_, hsome⟩
          rw [search]
          simp [hpick, heq]

end Neighbourhood

/-! ## Trailing zeros -/

theorem dropZeros_spec (tries : Nat) {digits : Nat} (power : Int)
    (hpos : 0 < digits) :
    ∃ fewer raised, dropZeros tries (digits, power) = (fewer, raised) ∧
      0 < fewer ∧ fewer ≤ digits ∧ power ≤ raised ∧
      (fewer : ℚ) * 10 ^ raised = digits * 10 ^ power := by
  induction tries generalizing digits power with
  | zero => exact ⟨digits, power, rfl, hpos, Nat.le_refl _, le_refl _, rfl⟩
  | succ tries ih =>
      by_cases hzero : digits % 10 = 0
      · obtain ⟨fewer, raised, heq, hfewer, hle, hraised, hvalue⟩ :=
          ih (power + 1) (show 0 < digits / 10 by omega)
        refine ⟨fewer, raised, ?_, hfewer, by omega, by omega, ?_⟩
        · simp [dropZeros, hzero, heq]
        · have hten : ((digits / 10 : Nat) : ℚ) * 10 = digits := by
            have htimes : digits / 10 * 10 = digits := by omega
            exact_mod_cast htimes
          rw [hvalue, add_comm, ten_zpow_add, ← mul_assoc, zpow_one, hten]
      · refine ⟨digits, power, ?_, hpos, Nat.le_refl _, le_refl _, rfl⟩
        simp [dropZeros, hzero]

/-! ## The neighbourhood of a double -/

theorem significand_lt (x : Binary64) : x.significand < 2 ^ 53 := by
  unfold significand
  split <;> omega

theorem significand_pos {x : Binary64} (h : x.isZero = false) :
    0 < x.significand := by
  have hword : x.word ≠ 0 := by simpa [isZero] using h
  unfold significand
  split <;> omega

theorem neighbourhood_den_pos (x : Binary64) : 0 < x.neighbourhood.den := by
  simp [neighbourhood, Nat.shiftLeft_eq]

theorem two_zpow_quarter (exponent : Int) :
    ((1 <<< (exponent - 2).toNat : Nat) : ℚ) / (1 <<< (2 - exponent).toNat : Nat) =
      2 ^ exponent / 4 := by
  have hquarter : (2 : ℚ) ^ exponent / 4 = 2 ^ (exponent - 2) := by
    rw [zpow_sub₀ (by norm_num)]
    norm_num
  rw [hquarter, zpow_eq_div (by norm_num), neg_sub]
  simp [Nat.shiftLeft_eq]

theorem neighbourhood_value (x : Binary64) :
    (x.neighbourhood.num : ℚ) / x.neighbourhood.den = x.magnitude := by
  simp only [neighbourhood, magnitude]
  rw [Nat.cast_mul, mul_div_assoc, two_zpow_quarter]
  push_cast
  ring

theorem neighbourhood_high (x : Binary64) :
    (x.neighbourhood.high : ℚ) / x.neighbourhood.den =
      x.magnitude + 2 ^ x.exponent / 2 := by
  simp only [neighbourhood, magnitude]
  rw [Nat.cast_mul, mul_div_assoc, two_zpow_quarter]
  push_cast
  ring

theorem neighbourhood_low (x : Binary64) :
    x.neighbourhood.low ≤ x.neighbourhood.num := by
  simp only [neighbourhood]
  apply Nat.mul_le_mul_right
  omega

namespace Neighbourhood

theorem rescale_den_pos {area : Neighbourhood} (h : 0 < area.den) (power : Int) :
    0 < (area.rescale power).den :=
  Nat.mul_pos h (tenTo_pos power)

theorem scaled_div (part : Nat) (area : Neighbourhood) (power : Int) :
    ((part * tenTo (-power) : Nat) : ℚ) / (area.rescale power).den =
      part / area.den / 10 ^ power := by
  have hup : (0 : ℚ) < tenTo (-power) := by exact_mod_cast tenTo_pos (-power)
  have hdown : (0 : ℚ) < tenTo power := by exact_mod_cast tenTo_pos power
  rw [← tenTo_div, rescale]
  push_cast
  field_simp

end Neighbourhood

section

variable {x : Binary64}

/-- Eighteen digits are finer than half the gap to the next double. -/
theorem exists_hit {top : Int} (htop : (10 : ℚ) ^ top ≤ x.magnitude) :
    ∃ digits, (x.neighbourhood.rescale (top - 17)).pick? = some digits := by
  have hden := Neighbourhood.rescale_den_pos x.neighbourhood_den_pos (top - 17)
  have hpos : (0 : ℚ) < (x.neighbourhood.rescale (top - 17)).den := by
    exact_mod_cast hden
  have hten := ten_zpow_pos (top - 17)
  have htwo := two_zpow_pos x.exponent
  apply Neighbourhood.exists_pick? hden
  · exact Nat.mul_le_mul_right _ x.neighbourhood_low
  · have hstep : (10 : ℚ) ^ (top - 17) < 2 ^ x.exponent / 2 := by
      have hsignificand : (x.significand : ℚ) ≤ 2 ^ 53 := by
        exact_mod_cast x.significand_lt.le
      have hmagnitude : x.magnitude ≤ 2 ^ 53 * 2 ^ x.exponent :=
        mul_le_mul_of_nonneg_right hsignificand htwo.le
      rw [show top = top - 17 + 17 by omega, ten_zpow_add] at htop
      norm_num at htop hmagnitude
      linarith
    have hnum := Neighbourhood.scaled_div x.neighbourhood.num x.neighbourhood
      (top - 17)
    have hhigh := Neighbourhood.scaled_div x.neighbourhood.high x.neighbourhood
      (top - 17)
    rw [neighbourhood_value] at hnum
    rw [neighbourhood_high] at hhigh
    have hlt : ((x.neighbourhood.rescale (top - 17)).num : ℚ) +
        (x.neighbourhood.rescale (top - 17)).den <
        (x.neighbourhood.rescale (top - 17)).high := by
      rw [← div_lt_div_iff_of_pos_right hpos, add_div, div_self hpos.ne']
      change ((x.neighbourhood.num * tenTo (-(top - 17)) : Nat) : ℚ) / _ + 1 <
        ((x.neighbourhood.high * tenTo (-(top - 17)) : Nat) : ℚ) / _
      rw [hnum, hhigh, add_div, add_lt_add_iff_left, one_lt_div hten]
      exact hstep
    exact_mod_cast hlt

/-- A hit has the digits that its place below the top allows. -/
theorem hit_bounds {top : Int} {steps digits : Nat}
    (hlow : (10 : ℚ) ^ top ≤ x.magnitude)
    (hhigh : x.magnitude < 10 ^ (top + 1)) (hsteps : steps ≤ 17)
    (hpick : (x.neighbourhood.rescale (top - steps)).pick? = some digits) :
    0 < digits ∧ digits ≤ 10 ^ 18 ∧
      (digits : ℚ) * 10 ^ (top - steps) ≤ x.magnitude + 2 ^ x.exponent / 2 := by
  obtain ⟨hholds, hnear⟩ := Neighbourhood.pick?_cases hpick
  have hden := Neighbourhood.rescale_den_pos x.neighbourhood_den_pos (top - steps)
  have hpos : (0 : ℚ) < (x.neighbourhood.rescale (top - steps)).den := by
    exact_mod_cast hden
  have hten := ten_zpow_pos (top - steps)
  have hvalue : ((x.neighbourhood.rescale (top - steps)).num : ℚ) /
      (x.neighbourhood.rescale (top - steps)).den =
        x.magnitude / 10 ^ (top - steps) := by
    rw [← neighbourhood_value]
    exact Neighbourhood.scaled_div _ _ _
  have hbound : ((x.neighbourhood.rescale (top - steps)).high : ℚ) /
      (x.neighbourhood.rescale (top - steps)).den =
        (x.magnitude + 2 ^ x.exponent / 2) / 10 ^ (top - steps) := by
    rw [← neighbourhood_high]
    exact Neighbourhood.scaled_div _ _ _
  have hone : (x.neighbourhood.rescale (top - steps)).den ≤
      (x.neighbourhood.rescale (top - steps)).num := by
    have hle : 1 ≤ x.magnitude / 10 ^ (top - steps) := by
      rw [one_le_div hten]
      exact (ten_zpow_le.mpr (by omega)).trans hlow
    rw [← hvalue, one_le_div hpos] at hle
    exact_mod_cast hle
  have hmost : (x.neighbourhood.rescale (top - steps)).num <
      10 ^ 18 * (x.neighbourhood.rescale (top - steps)).den := by
    have hlt : x.magnitude / 10 ^ (top - steps) < 10 ^ (18 : Int) := by
      rw [div_lt_iff₀ hten, ← ten_zpow_add]
      exact hhigh.trans_le (ten_zpow_le.mpr (by omega))
    rw [← hvalue, div_lt_iff₀ hpos] at hlt
    exact_mod_cast hlt
  refine ⟨?_, ?_, ?_⟩
  · have hbelow := Nat.div_pos hone hden
    omega
  · have hbelow := (Nat.div_lt_iff_lt_mul hden).mpr hmost
    omega
  · rw [← le_div_iff₀ hten, ← hbound, le_div_iff₀ hpos]
    exact_mod_cast Neighbourhood.le_high hholds

end

/-! ## Sizes -/

theorem zpow_lt_zpow_of_pow {a b : Nat} (h : 2 ^ a < 10 ^ b) :
    (2 : ℚ) ^ (a : Int) < 10 ^ (b : Int) := by
  rw [zpow_natCast, zpow_natCast]
  exact_mod_cast h

theorem exponent_bounds (x : Binary64) :
    -1074 ≤ x.exponent ∧ x.exponent ≤ 971 := by
  have hfinite := x.finite
  unfold exponent
  omega

theorem magnitude_lt (x : Binary64) : x.magnitude < 2 ^ (1024 : Int) := by
  have hsignificand : (x.significand : ℚ) < 2 ^ (53 : Int) := by
    exact_mod_cast x.significand_lt
  calc x.magnitude < 2 ^ (53 : Int) * 2 ^ x.exponent :=
        mul_lt_mul_of_pos_right hsignificand (two_zpow_pos _)
    _ = 2 ^ (53 + x.exponent) := (two_zpow_add _ _).symm
    _ ≤ 2 ^ (1024 : Int) := two_zpow_le.mpr (by have := x.exponent_bounds; omega)

theorem le_magnitude {x : Binary64} (h : x.isZero = false) :
    2 ^ (-1074 : Int) ≤ x.magnitude := by
  have hone : (1 : ℚ) ≤ x.significand := by exact_mod_cast significand_pos h
  calc (2 : ℚ) ^ (-1074 : Int) ≤ 2 ^ x.exponent :=
        two_zpow_le.mpr x.exponent_bounds.1
    _ ≤ x.magnitude := le_mul_of_one_le_left (two_zpow_pos _).le hone

/-- A decimal that is no greater than a double and half its gap has no power
past that of the largest doubles. -/
theorem power_le {x : Binary64} {digits : Nat} {power : Int}
    (hpos : 0 < digits)
    (hle : (digits : ℚ) * 10 ^ power ≤ x.magnitude + 2 ^ x.exponent / 2) :
    power ≤ 308 := by
  have hone : (1 : ℚ) ≤ digits := by exact_mod_cast hpos
  have hdigits : (10 : ℚ) ^ power ≤ digits * 10 ^ power :=
    le_mul_of_one_le_left (ten_zpow_pos power).le hone
  have hgap : (2 : ℚ) ^ x.exponent ≤ 2 ^ (1024 : Int) :=
    two_zpow_le.mpr (by have := x.exponent_bounds; omega)
  have hmagnitude := x.magnitude_lt
  have htwice : (2 : ℚ) ^ (1024 : Int) * 2 = 2 ^ (1025 : Int) :=
    (zpow_add_one₀ (by norm_num) 1024).symm
  have hlarge : (2 : ℚ) ^ (1025 : Int) < 10 ^ (309 : Int) :=
    zpow_lt_zpow_of_pow (a := 1025) (b := 309) (by decide +kernel)
  rw [← htwice] at hlarge
  have hpositive := two_zpow_pos 1024
  generalize (2 : ℚ) ^ (1024 : Int) = unit at hgap hmagnitude hlarge hpositive
  have hlt : (10 : ℚ) ^ power < 10 ^ (309 : Int) := by
    apply lt_of_le_of_lt _ hlarge
    linarith
  have hpower := ten_zpow_lt.mp hlt
  omega

/-- The decimal of a number other than zero: its digits fit a word, and it is
within half the gap to the next double. -/
theorem shortest_spec {x : Binary64} (h : x.isZero = false) :
    ∃ digits power, x.shortest = (digits, power) ∧ 0 < digits ∧
      digits ≤ 10 ^ 18 ∧ -341 ≤ power ∧ power ≤ 308 ∧
      (digits : ℚ) * 10 ^ power ≤ x.magnitude + 2 ^ x.exponent / 2 := by
  have hnum : 0 < x.neighbourhood.num := by
    have hpos := significand_pos h
    simp only [neighbourhood, Nat.shiftLeft_eq]
    positivity
  obtain ⟨hlow, hhigh⟩ := decimalExponent_spec hnum x.neighbourhood_den_pos
  rw [neighbourhood_value] at hlow hhigh
  have hleast : -324 ≤
      decimalExponent x.neighbourhood.num x.neighbourhood.den := by
    have hlt : (10 : ℚ) ^ (-324 : Int) < 2 ^ (-1074 : Int) := by
      rw [zpow_neg, zpow_neg, inv_lt_inv₀ (ten_zpow_pos _) (two_zpow_pos _)]
      exact zpow_lt_zpow_of_pow (by decide +kernel)
    have hpow := ten_zpow_lt.mp ((hlt.trans_le (le_magnitude h)).trans hhigh)
    omega
  generalize htop : decimalExponent x.neighbourhood.num x.neighbourhood.den =
    top at hlow hhigh hleast
  obtain ⟨digits, steps, -, hsteps, hsearch, hpick⟩ :=
    Neighbourhood.search_eq 17 0 (exists_hit hlow)
  obtain ⟨hpos, hmost, hvalue⟩ := hit_bounds hlow hhigh hsteps hpick
  obtain ⟨fewer, raised, hdrop, hfewer, hle, hraised, hsame⟩ :=
    dropZeros_spec 20 (top - steps) hpos
  rw [← hsame] at hvalue
  refine ⟨fewer, raised, ?_, hfewer, by omega, by omega,
    power_le hfewer hvalue, hvalue⟩
  unfold shortest
  simp only [htop, hsearch, hdrop]

end Binary64

end VersionedFlags
