import VersionedFlags.Proofs.Binary64.Shortest
import VersionedFlags.Proofs.Json.Lexemes

/-!
# Printed doubles are numbers

Scaling rounds twice, so a decimal near the largest double could come out of
range although the double that printed it does not.  Below the last three
doubles there is room for both errors, and the last three are computed.
-/

namespace VersionedFlags

namespace Json

/-! ## Scaling -/

theorem powerOfTen_eq {power : Nat} (h : power ≤ 308) :
    powerOfTen power = Binary64.nearest false (10 ^ power) 1 := by
  have hdigits : (Nat.toDigits 10 1).length = 1 := rfl
  unfold powerOfTen Binary64.ofDecimal
  rw [hdigits]
  dsimp only
  rw [if_neg (by omega), if_neg (by omega)]
  simp [Binary64.tenTo]

theorem exists_powerOfTen {power : Nat} (h : power ≤ 308) :
    ∃ x, powerOfTen power = some x ∧
      |x.magnitude - 10 ^ power| ≤ 10 ^ power / 2 ^ 53 := by
  have hquotient : ((10 ^ power : Nat) : ℚ) / (1 : Nat) = 10 ^ power := by simp
  have hone : (1 : ℚ) ≤ 10 ^ power := one_le_pow₀ (by norm_num)
  have hlt := Binary64.ten_pow_lt_overflow h
  rw [powerOfTen_eq h]
  obtain ⟨x, heq⟩ := Binary64.exists_nearest false (10 ^ power) Nat.one_pos
    (by rwa [hquotient])
  have hnear := Binary64.magnitude_nearest_near (by decide) heq
    (by rwa [hquotient])
  rw [hquotient] at hnear
  exact ⟨x, heq, hnear⟩

/-- A power of ten from ten on is at least one when it is rounded. -/
theorem one_le_of_near {power : Nat} {x : Binary64} (hpower : 0 < power)
    (hnear : |x.magnitude - 10 ^ power| ≤ 10 ^ power / 2 ^ 53) :
    1 ≤ x.magnitude := by
  have hten : (10 : ℚ) ^ 1 ≤ 10 ^ power :=
    pow_le_pow_right₀ (by norm_num) hpower
  have hlow := (abs_le.mp hnear).1
  norm_num at hten hlow
  linarith

theorem exists_scale_nonpos (tries : Nat) {x : Binary64} {exponent : Int}
    (hexponent : exponent ≤ 0) (hx : x.magnitude ≤ 2 ^ 64) :
    ∃ y, scale tries x exponent = some y := by
  induction tries generalizing x exponent with
  | zero => exact ⟨x, rfl⟩
  | succ tries ih =>
      unfold scale
      by_cases hnear : exponent.natAbs ≤ 308
      · obtain ⟨power, hpower, hvalue⟩ := exists_powerOfTen hnear
        rw [if_pos hnear, hpower, Option.bind_eq_bind, Option.bind_some]
        rcases Int.lt_or_eq_of_le hexponent with hneg | rfl
        · obtain ⟨y, hy, -⟩ := Binary64.exists_div (by decide) hx
            (one_le_of_near (by omega) hvalue)
          rw [if_neg (by omega)]
          exact ⟨y, hy⟩
        · rw [if_pos (Int.le_refl 0)]
          apply Binary64.exists_mul
          have hone := (abs_le.mp hvalue).2
          have hroom := Binary64.lt_overflow (show (65 : Int) ≤ 1023 by decide)
          calc x.magnitude * power.magnitude ≤ 2 ^ 64 * 2 := by
                apply mul_le_mul hx _ power.magnitude_nonneg (by positivity)
                norm_num at hone
                linarith
            _ < Binary64.overflow := by
                norm_num at hroom ⊢
                exact hroom
      · obtain ⟨power, hpower, hvalue⟩ := exists_powerOfTen (Nat.le_refl 308)
        obtain ⟨smaller, hsmaller, hbound⟩ :=
          Binary64.exists_div (by decide) hx (one_le_of_near (by decide) hvalue)
        rw [if_neg hnear, if_neg (show ¬ 0 ≤ exponent by omega)]
        by_cases hzero : x.isZero = true
        · exact ⟨x, if_pos hzero⟩
        · rw [if_neg hzero, hpower]
          simp only [Option.bind_eq_bind, Option.bind_some, hsmaller]
          exact ih (by omega) hbound

theorem exists_scale_pos (tries : Nat) {x : Binary64} {power : Nat}
    (hpower : power ≤ 308)
    (hroom : x.magnitude * (10 ^ power * (1 + 1 / 2 ^ 53)) < Binary64.overflow) :
    ∃ y, scale (tries + 1) x power = some y := by
  obtain ⟨y, hy, hvalue⟩ := exists_powerOfTen hpower
  have hround := (abs_le.mp hvalue).2
  have hlt : x.magnitude * y.magnitude < Binary64.overflow := by
    apply lt_of_le_of_lt _ hroom
    apply mul_le_mul_of_nonneg_left _ x.magnitude_nonneg
    linarith
  obtain ⟨product, hproduct⟩ := Binary64.exists_mul hlt
  refine ⟨product, ?_⟩
  unfold scale
  rw [if_pos (by omega), Int.natAbs_natCast, hy]
  simpa using hproduct

theorem exists_nearest_word {significand : Nat} (h : significand < 2 ^ 64) :
    ∃ x, Binary64.nearest false significand 1 = some x ∧
      x.magnitude ≤ 2 ^ 64 ∧ x.magnitude ≤ significand * (1 + 1 / 2 ^ 53) := by
  have hquotient : (significand : ℚ) / (1 : Nat) = significand := by simp
  have hword : (significand : ℚ) ≤ 2 ^ 64 := by exact_mod_cast h.le
  have hlt : (significand : ℚ) / (1 : Nat) < Binary64.overflow := by
    rw [hquotient]
    apply hword.trans_lt
    have hroom := Binary64.lt_overflow (show (64 : Int) ≤ 1023 by decide)
    norm_num at hroom ⊢
    exact hroom
  obtain ⟨x, hx⟩ := Binary64.exists_nearest false significand Nat.one_pos hlt
  refine ⟨x, hx, ?_, ?_⟩
  · exact Binary64.magnitude_nearest_le (by decide) hx 64 (by rwa [hquotient])
  · rcases Nat.eq_zero_or_pos significand with rfl | hpos
    · rw [Binary64.nearest_zero] at hx
      cases hx
      simp [Binary64.magnitude_zero]
    · have hone : (1 : ℚ) ≤ significand := by exact_mod_cast hpos
      have hround := (abs_le.mp (Binary64.magnitude_nearest_near (by decide) hx
        (by rwa [hquotient]))).2
      rw [hquotient] at hround
      linarith

/-- Two roundings, of the digits and of the power of ten, and then the product. -/
theorem exists_scaled (significand : Nat) (exponent : Int)
    (hsignificand : significand < 2 ^ 64) (hexponent : exponent ≤ 308)
    (h : exponent ≤ 0 ∨
      (significand : ℚ) * 10 ^ exponent * (1 + 1 / 2 ^ 53) ^ 2 <
        Binary64.overflow) (negative : Bool) :
    ∃ v, scaled negative significand exponent = some v := by
  obtain ⟨x, hx, hmost, hnear⟩ := exists_nearest_word hsignificand
  suffices hscale : ∃ y, scale 8 x exponent = some y by
    obtain ⟨y, hy⟩ := hscale
    unfold scaled
    simp only [hx, hy, Option.bind_eq_bind, Option.bind_some]
    exact ⟨_, rfl⟩
  by_cases hsign : exponent ≤ 0
  · exact exists_scale_nonpos 8 hsign hmost
  · have hproduct := h.resolve_left hsign
    obtain ⟨power, rfl⟩ : ∃ power : Nat, exponent = power :=
      ⟨exponent.toNat, by omega⟩
    apply exists_scale_pos 7 (by omega)
    calc x.magnitude * (10 ^ power * (1 + 1 / 2 ^ 53))
        ≤ significand * (1 + 1 / 2 ^ 53) * (10 ^ power * (1 + 1 / 2 ^ 53)) :=
          mul_le_mul_of_nonneg_right hnear (by positivity)
      _ = significand * 10 ^ (power : Int) * (1 + 1 / 2 ^ 53) ^ 2 := by
          rw [zpow_natCast]
          ring
      _ < Binary64.overflow := hproduct

/-! ## The digits of a double -/

/-- The three doubles of each sign that two roundings could push out of range. -/
theorem scaled_largest : ∀ (negative sign : Bool), ∀ below < 3,
    (scaled negative
      (Binary64.shortest ⟨sign, 2047 * 2 ^ 52 - 1 - below, by omega⟩).1
      (Binary64.shortest ⟨sign, 2047 * 2 ^ 52 - 1 - below, by omega⟩).2).isSome := by
  decide +kernel

theorem magnitude_add_half_le {x : Binary64} (h : x.word ≤ 2047 * 2 ^ 52 - 4) :
    x.magnitude + 2 ^ x.exponent / 2 ≤ (2 ^ 53 - 7 / 2) * 2 ^ (971 : Int) := by
  have hbounds := x.exponent_bounds
  have htop := Binary64.two_zpow_pos 971
  unfold Binary64.magnitude
  by_cases hexponent : x.exponent = 971
  · have hdigits : x.significand + 4 ≤ 2 ^ 53 := by
      unfold Binary64.exponent at hexponent
      unfold Binary64.significand
      split <;> omega
    have hdigits : (x.significand : ℚ) + 4 ≤ 2 ^ 53 := by
      exact_mod_cast hdigits
    rw [hexponent]
    generalize (2 : ℚ) ^ (971 : Int) = unit at htop ⊢
    calc (x.significand : ℚ) * unit + unit / 2
        = (x.significand + 1 / 2) * unit := by ring
      _ ≤ (2 ^ 53 - 7 / 2) * unit := by
          apply mul_le_mul_of_nonneg_right _ htop.le
          linarith
  · have hhalf : (2 : ℚ) ^ x.exponent * 2 ≤ 2 ^ (971 : Int) := by
      rw [← zpow_add_one₀ (by norm_num)]
      exact Binary64.two_zpow_le.mpr (by omega)
    have hdigits : (x.significand : ℚ) ≤ 2 ^ 53 := by
      exact_mod_cast x.significand_lt.le
    have hpos := Binary64.two_zpow_pos x.exponent
    generalize (2 : ℚ) ^ (971 : Int) = unit at htop hhalf ⊢
    generalize (2 : ℚ) ^ x.exponent = small at hhalf hpos ⊢
    have hproduct : (x.significand : ℚ) * small ≤ 2 ^ 53 * small :=
      mul_le_mul_of_nonneg_right hdigits hpos.le
    norm_num at hproduct ⊢
    linarith

/-- Below the three greatest there is room for both roundings. -/
theorem room_of_word_le {x : Binary64} (h : x.word ≤ 2047 * 2 ^ 52 - 4) :
    (x.magnitude + 2 ^ x.exponent / 2) * (1 + 1 / 2 ^ 53) ^ 2 <
      Binary64.overflow := by
  calc (x.magnitude + 2 ^ x.exponent / 2) * (1 + 1 / 2 ^ 53) ^ 2
      ≤ (2 ^ 53 - 7 / 2) * 2 ^ (971 : Int) * (1 + 1 / 2 ^ 53) ^ 2 :=
        mul_le_mul_of_nonneg_right (magnitude_add_half_le h) (by positivity)
    _ = (2 ^ 53 - 7 / 2) * (1 + 1 / 2 ^ 53) ^ 2 * 2 ^ (971 : Int) := by ring
    _ < (2 ^ 53 - 1 / 2) * 2 ^ (971 : Int) := by
        apply mul_lt_mul_of_pos_right _ (Binary64.two_zpow_pos 971)
        norm_num

/-- A decimal with digits and a power as a layout takes them, which is not out of
range when it is read. -/
structure Printable (digits : Nat) (power : Int) : Prop where
  pos : 0 < digits
  most : digits ≤ 10 ^ 18
  least : -341 ≤ power
  greatest : power ≤ 308
  scaled : ∀ negative, ∃ v, scaled negative digits power = some v

theorem printable_shortest {x : Binary64} (h : x.isZero = false) :
    Printable x.shortest.1 x.shortest.2 := by
  obtain ⟨digits, power, heq, hpos, hmost, hleast, hgreatest, hvalue⟩ :=
    Binary64.shortest_spec h
  rw [heq]
  refine ⟨hpos, hmost, hleast, hgreatest, fun negative => ?_⟩
  by_cases hword : x.word ≤ 2047 * 2 ^ 52 - 4
  · apply exists_scaled _ _ (by dsimp only; omega) hgreatest
    refine .inr ?_
    apply lt_of_le_of_lt _ (room_of_word_le hword)
    exact mul_le_mul_of_nonneg_right hvalue (by positivity)
  · have hfinite := x.finite
    obtain ⟨below, hbelow, hsame⟩ : ∃ below < 3,
        x.word = 2047 * 2 ^ 52 - 1 - below :=
      ⟨2047 * 2 ^ 52 - 1 - x.word, by omega, by omega⟩
    have hlargest := scaled_largest negative x.negative below hbelow
    have hx : x = ⟨x.negative, 2047 * 2 ^ 52 - 1 - below, by omega⟩ := by
      cases x
      simpa using hsame
    rw [← hx, heq] at hlargest
    exact Option.isSome_iff_exists.mp hlargest

/-! ## The value of a numeral -/

theorem gatherExponent_eq {total : Nat} {digits : List Char}
    (h : Nat.ofDigitChars 10 digits total < 2 ^ 31) :
    gatherExponent total digits = .ok (Nat.ofDigitChars 10 digits total) := by
  induction digits generalizing total with
  | nil => rfl
  | cons c rest ih =>
      rw [ofDigitChars_cons] at h ⊢
      have hle := le_ofDigitChars (total * 10 + digitValue c) rest
      rw [gatherExponent, if_pos (by omega)]
      exact ih h

/-- Digits before the point and behind it are gathered as one run. -/
theorem exists_gather {whole fraction : List Char} {n : Nat} (hn : n < 2 ^ 64)
    (h : Nat.ofDigitChars 10 (whole ++ fraction) 0 = n) :
    ∃ m, gather 0 whole = (m, []) ∧ gather m fraction = (n, []) := by
  rw [Nat.ofDigitChars_append] at h
  have hle := le_ofDigitChars (Nat.ofDigitChars 10 whole 0) fraction
  refine ⟨_, gather_eq (by omega), ?_⟩
  rw [gather_eq (by omega), h]

variable {negative : Bool} {whole fraction : List Char} {n : Nat} {v : Json}

theorem value_positional (hn : n < 2 ^ 64)
    (hdigits : Nat.ofDigitChars 10 (whole ++ fraction) 0 = n)
    (hscaled : scaled negative n (-fraction.length) = some v) (rest : Unread) :
    Numeral.value ⟨negative, whole, some fraction, none⟩ rest = .ok v := by
  obtain ⟨m, hwhole, hfraction⟩ := exists_gather hn hdigits
  simp only [Numeral.value, hwhole, hfraction]
  simp [hscaled]

theorem value_scientific {below : Bool} {digits : List Char} {e : Nat}
    (optional : Option (List Char)) (hn : n < 2 ^ 64) (he : e < 2 ^ 31)
    (hdigits : Nat.ofDigitChars 10 (whole ++ optional.getD []) 0 = n)
    (hexponent : Nat.ofDigitChars 10 digits 0 = e)
    (hscaled : scaled negative n
      (-(optional.getD []).length + if below then -(e : Int) else e) = some v)
    (rest : Unread) :
    Numeral.value ⟨negative, whole, optional, some (below, digits)⟩ rest =
      .ok v := by
  obtain ⟨m, hwhole, hfraction⟩ := exists_gather hn hdigits
  have hgathered : gatherExponent 0 digits = .ok e := by
    rw [gatherExponent_eq (by omega), hexponent]
  cases optional with
  | none =>
      cases hfraction
      simp only [Numeral.value, hwhole, hgathered]
      simp_all
  | some fraction =>
      rw [Option.getD_some] at hfraction hscaled
      simp only [Numeral.value, hwhole, hfraction, hgathered]
      simp_all

/-! ## Numerals spelled out -/

theorem fractionPart_digits (cut : Cause) {digits : List Char} {rest : Unread}
    (h : AllDigits digits) (hsome : digits ≠ [])
    (hrest : startsWithDigit rest = false) :
    fractionPart cut ('.' :: (digits ++ rest)) = .ok (some digits, rest) := by
  rw [fractionPart, spanDigits_append h hrest]
  cases digits with
  | nil => exact absurd rfl hsome
  | cons c more => rfl

def exponentChars (below : Bool) (digits : List Char) : List Char :=
  'e' :: (if below then '-' else '+') :: digits

theorem exponentPart_digits (cut : Cause) (below : Bool) {digits : List Char}
    {rest : Unread} (h : AllDigits digits) (hsome : digits ≠ [])
    (hrest : startsWithDigit rest = false) :
    exponentPart cut (exponentChars below digits ++ rest) =
      .ok (some (below, digits), rest) := by
  have hspan := spanDigits_append h hrest
  cases digits with
  | nil => exact absurd rfl hsome
  | cons c more =>
      rw [List.cons_append] at hspan
      cases below <;> simp [exponentPart, exponentChars, exponentSign, hspan]

/-- The text is that of a numeral of the given parts, wherever it ends. -/
def Spells (text : List Char) (whole : List Char)
    (fraction : Option (List Char)) (scientific : Option (Bool × List Char)) :
    Prop :=
  ∀ (cut : Cause) (negative : Bool) (rest : Unread), EndsNumber rest →
    numeral cut ((if negative then '-' :: text else text) ++ rest) =
      .ok (⟨negative, whole, fraction, scientific⟩, rest)

/-- Digits without a needless zero in front. -/
def Leads (whole : List Char) : Prop :=
  AllDigits whole ∧ ∃ c more, whole = c :: more ∧ (c = '0' → more = [])

theorem Leads.wholePart (h : Leads whole) (cut : Cause) (rest : Unread)
    (hrest : startsWithDigit rest = false) :
    wholePart cut (whole ++ rest) = .ok (whole, rest) := by
  obtain ⟨hdigits, c, more, rfl, hzero⟩ := h
  exact wholePart_append cut hdigits hzero hrest

theorem spells_positional (hwhole : Leads whole) (hfraction : AllDigits fraction)
    (hsome : fraction ≠ []) :
    Spells (whole ++ '.' :: fraction) whole (some fraction) none := by
  intro cut negative rest hrest
  have hparts := numeral_of_parts
    (hwhole.wholePart cut ('.' :: (fraction ++ rest)) rfl)
    (fractionPart_digits cut hfraction hsome hrest.startsWithDigit)
    (hrest.exponentPart cut) negative
  rw [← hparts]
  cases negative <;> simp

theorem spells_scientific {below : Bool} {digits : List Char}
    (hwhole : Leads whole) (hdigits : AllDigits digits) (hsome : digits ≠ []) :
    Spells (whole ++ exponentChars below digits) whole none
      (some (below, digits)) := by
  intro cut negative rest hrest
  have hparts := numeral_of_parts
    (hwhole.wholePart cut (exponentChars below digits ++ rest) rfl)
    (by rfl : fractionPart cut (exponentChars below digits ++ rest) = _)
    (exponentPart_digits cut below hdigits hsome hrest.startsWithDigit) negative
  rw [← hparts]
  cases negative <;> simp

theorem spells_fraction_scientific {below : Bool} {digits : List Char}
    (hwhole : Leads whole) (hfraction : AllDigits fraction)
    (hpart : fraction ≠ []) (hdigits : AllDigits digits) (hsome : digits ≠ []) :
    Spells (whole ++ '.' :: fraction ++ exponentChars below digits) whole
      (some fraction) (some (below, digits)) := by
  intro cut negative rest hrest
  have hparts := numeral_of_parts
    (hwhole.wholePart cut
      ('.' :: (fraction ++ (exponentChars below digits ++ rest))) rfl)
    (fractionPart_digits cut hfraction hpart rfl)
    (exponentPart_digits cut below hdigits hsome hrest.startsWithDigit) negative
  rw [← hparts]
  cases negative <;> simp

theorem Spells.read {text : List Char} {optional : Option (List Char)}
    {scientific : Option (Bool × List Char)}
    (h : Spells text whole optional scientific)
    (hvalue : ∀ rest,
      Numeral.value ⟨negative, whole, optional, scientific⟩ rest = .ok v)
    {rest : Unread} (hrest : EndsNumber rest) :
    number ((if negative then '-' :: text else text) ++ rest) =
      .ok (v, rest) := by
  unfold number
  rw [h .valueCut negative rest hrest, ok_bind]
  simp only [hvalue, ok_bind]
  rfl

/-! ## Layouts -/

theorem allDigits_append {a b : List Char} (ha : AllDigits a)
    (hb : AllDigits b) : AllDigits (a ++ b) := by
  intro c hm
  exact (List.mem_append.mp hm).elim (ha c) (hb c)

theorem allDigits_zeros (k : Nat) : AllDigits (List.replicate k '0') := by
  intro c hm
  rw [List.eq_of_mem_replicate hm]
  rfl

namespace Printable

variable {digits : Nat} {power : Int}

theorem length_le (h : Printable digits power) :
    (Nat.toDigits 10 digits).length ≤ 19 := by
  have hmost := h.most
  exact (Nat.length_toDigits_le_iff (by decide) (by decide)).mpr (by omega)

theorem leads_append (h : Printable digits power) {taken more : List Char}
    {c : Char} (heq : Nat.toDigits 10 digits = c :: more)
    (htaken : AllDigits taken) : Leads (c :: taken) := by
  obtain ⟨first, rest, hfirst, hzero⟩ := exists_toDigits h.pos
  have hdigits := allDigits_toDigits digits
  rw [heq] at hfirst hdigits
  cases hfirst
  refine ⟨?_, c, taken, rfl, fun h => absurd h hzero⟩
  intro d hm
  rcases List.mem_cons.mp hm with rfl | hm
  · exact hdigits d List.mem_cons_self
  · exact htaken d hm

/-- Whole numbers are filled up with zeros. -/
theorem padded (h : Printable digits power) (zeros : Nat)
    (hlength : (Nat.toDigits 10 digits).length + zeros ≤ 16) (negative : Bool) :
    ∃ whole fraction v,
      Spells (Nat.toDigits 10 digits ++ List.replicate zeros '0' ++ ['.', '0'])
        whole (some fraction) none ∧
      ∀ rest,
        Numeral.value ⟨negative, whole, some fraction, none⟩ rest = .ok v := by
  have hbound := (Binary64.toDigits_bounds h.pos).2
  have hlarge : 10 ^ (Nat.toDigits 10 digits).length * 10 ^ zeros ≤ 10 ^ 16 := by
    rw [← Nat.pow_add]
    exact Nat.pow_le_pow_right (by decide) hlength
  have hless : digits * 10 ^ zeros < 10 ^ 16 :=
    (Nat.mul_lt_mul_of_pos_right hbound (Nat.pow_pos (by decide))).trans_le hlarge
  have hwhole : Leads (Nat.toDigits 10 digits ++ List.replicate zeros '0') := by
    cases heq : Nat.toDigits 10 digits with
    | nil => exact absurd heq Nat.toDigits_ne_nil
    | cons c more =>
        apply h.leads_append heq
        apply allDigits_append _ (allDigits_zeros zeros)
        intro d hm
        exact allDigits_toDigits digits d (heq ▸ List.mem_cons_of_mem _ hm)
  have hvalue : Nat.ofDigitChars 10
      (Nat.toDigits 10 digits ++ List.replicate zeros '0' ++ ['0']) 0 =
        digits * 10 ^ zeros * 10 := by
    rw [Nat.ofDigitChars_append, Nat.ofDigitChars_append,
      Nat.ofDigitChars_ten_toDigits, Nat.ofDigitChars_replicate_zero]
    simp [ofDigitChars_cons, digitValue]
    ring
  obtain ⟨v, hv⟩ := exists_scaled (digits * 10 ^ zeros * 10) (-1) (by omega)
    (by omega) (.inl (by omega)) negative
  refine ⟨_, _, v, spells_positional hwhole (allDigits_zeros 1) (by simp), ?_⟩
  exact value_positional (by omega) hvalue hv

/-- Other positional numbers have their point among the digits. -/
theorem pointed (h : Printable digits power) (place : Nat) (hplace : 0 < place)
    (hlength : ((Nat.toDigits 10 digits).length : Int) + power = place)
    (hinside : place < (Nat.toDigits 10 digits).length) (negative : Bool) :
    ∃ whole fraction v,
      Spells ((Nat.toDigits 10 digits).take place ++
        '.' :: (Nat.toDigits 10 digits).drop place) whole (some fraction) none ∧
      ∀ rest,
        Numeral.value ⟨negative, whole, some fraction, none⟩ rest = .ok v := by
  have hmost := h.most
  have hwhole : Leads ((Nat.toDigits 10 digits).take place) := by
    cases heq : Nat.toDigits 10 digits with
    | nil => exact absurd heq Nat.toDigits_ne_nil
    | cons c more =>
        obtain ⟨before, rfl⟩ : ∃ before, place = before + 1 :=
          ⟨place - 1, by omega⟩
        apply h.leads_append heq
        intro d hm
        exact allDigits_toDigits digits d
          (heq ▸ List.mem_cons_of_mem _ (List.mem_of_mem_take hm))
  have hfraction : AllDigits ((Nat.toDigits 10 digits).drop place) := fun d hm =>
    allDigits_toDigits digits d (List.mem_of_mem_drop hm)
  have hlen : ((Nat.toDigits 10 digits).drop place).length =
      (Nat.toDigits 10 digits).length - place := List.length_drop
  have hsome : (Nat.toDigits 10 digits).drop place ≠ [] := by
    apply List.ne_nil_of_length_pos
    omega
  obtain ⟨v, hv⟩ := h.scaled negative
  refine ⟨_, _, v, spells_positional hwhole hfraction hsome, ?_⟩
  apply value_positional (n := digits) (by omega)
  · rw [List.take_append_drop, Nat.ofDigitChars_ten_toDigits]
  · rw [hlen, ← hv]
    congr 1
    omega

/-- Small numbers have zeros behind the point. -/
theorem small (h : Printable digits power) (zeros : Nat)
    (hlength : ((Nat.toDigits 10 digits).length : Int) + power = -zeros)
    (negative : Bool) :
    ∃ whole fraction v,
      Spells ('0' :: '.' :: (List.replicate zeros '0' ++ Nat.toDigits 10 digits))
        whole (some fraction) none ∧
      ∀ rest,
        Numeral.value ⟨negative, whole, some fraction, none⟩ rest = .ok v := by
  have hmost := h.most
  have hwhole : Leads ['0'] := ⟨allDigits_zeros 1, '0', [], rfl, fun _ => rfl⟩
  obtain ⟨v, hv⟩ := h.scaled negative
  refine ⟨['0'], _, v, spells_positional hwhole
    (allDigits_append (allDigits_zeros zeros) (allDigits_toDigits digits))
    (List.append_ne_nil_of_right_ne_nil _ Nat.toDigits_ne_nil), ?_⟩
  apply value_positional (n := digits) (by omega)
  · rw [Nat.ofDigitChars_append, Nat.ofDigitChars_append]
    simp [Nat.ofDigitChars_replicate_zero, ofDigitChars_cons, digitValue,
      Nat.ofDigitChars_ten_toDigits]
  · rw [List.length_append, List.length_replicate, ← hv]
    congr 1
    omega

/-- The others have an exponent. -/
theorem exponential (h : Printable digits power) {point : Int}
    (hpoint : ((Nat.toDigits 10 digits).length : Int) + power = point)
    (negative : Bool) :
    ∃ whole fraction scientific v,
      Spells ((if (Nat.toDigits 10 digits).length ≤ 1 then Nat.toDigits 10 digits
          else (Nat.toDigits 10 digits).take 1 ++
            '.' :: (Nat.toDigits 10 digits).drop 1) ++
        exponentChars (decide (point - 1 < 0))
          (Nat.toDigits 10 (point - 1).natAbs)) whole fraction scientific ∧
      ∀ rest,
        Numeral.value ⟨negative, whole, fraction, scientific⟩ rest = .ok v := by
  have hmost := h.most
  have hleast := h.least
  have hgreatest := h.greatest
  have hlength := h.length_le
  have hexponent := allDigits_toDigits (point - 1).natAbs
  obtain ⟨v, hv⟩ := h.scaled negative
  have hpower : ∀ behind : Nat, (Nat.toDigits 10 digits).length = behind + 1 →
      -(behind : Int) + (if decide (point - 1 < 0) then -((point - 1).natAbs : Int)
        else (point - 1).natAbs) = power := by
    intro behind hbehind
    simp only [decide_eq_true_eq]
    split <;> omega
  cases heq : Nat.toDigits 10 digits with
  | nil => exact absurd heq Nat.toDigits_ne_nil
  | cons c more =>
      have hmore : AllDigits more := fun d hm =>
        allDigits_toDigits digits d (heq ▸ List.mem_cons_of_mem _ hm)
      have hdigits : Nat.ofDigitChars 10 (c :: more) 0 = digits := by
        rw [← heq, Nat.ofDigitChars_ten_toDigits]
      have hscaled := hpower more.length (by rw [heq]; rfl)
      cases more with
      | nil =>
          refine ⟨_, _, _, v, spells_scientific (h.leads_append heq hmore)
            hexponent Nat.toDigits_ne_nil, ?_⟩
          apply value_scientific none (n := digits)
            (e := (point - 1).natAbs) (by omega) (by omega)
          · simpa using hdigits
          · exact Nat.ofDigitChars_ten_toDigits
          · rw [← hv]
            exact congrArg _ hscaled
      | cons d rest =>
          have hlead : AllDigits ([] : List Char) := by simp [AllDigits]
          refine ⟨_, _, _, v, spells_fraction_scientific
            (h.leads_append heq hlead) hmore (by simp) hexponent
            Nat.toDigits_ne_nil, ?_⟩
          apply value_scientific (some _) (n := digits)
            (e := (point - 1).natAbs) (by omega) (by omega)
          · exact hdigits
          · exact Nat.ofDigitChars_ten_toDigits
          · rw [← hv]
            exact congrArg _ hscaled

theorem layout (h : Printable digits power) (negative : Bool) :
    ∃ whole fraction scientific v,
      Spells (Binary64.layout (Nat.toDigits 10 digits) power) whole fraction
        scientific ∧
      ∀ rest,
        Numeral.value ⟨negative, whole, fraction, scientific⟩ rest = .ok v := by
  unfold Binary64.layout
  dsimp only
  split
  · rename_i hinside
    split
    · rename_i hwhole
      obtain ⟨whole, fraction, v, hspells, hvalue⟩ := h.padded
        ((Nat.toDigits 10 digits).length + power -
          (Nat.toDigits 10 digits).length).toNat (by omega) negative
      exact ⟨whole, some fraction, none, v, hspells, hvalue⟩
    · rename_i hpart
      obtain ⟨whole, fraction, v, hspells, hvalue⟩ := h.pointed
        ((Nat.toDigits 10 digits).length + power).toNat (by omega) (by omega)
        (by omega) negative
      exact ⟨whole, some fraction, none, v, hspells, hvalue⟩
  · split
    · rename_i hsmall
      obtain ⟨whole, fraction, v, hspells, hvalue⟩ := h.small
        (-((Nat.toDigits 10 digits).length + power)).toNat (by omega) negative
      exact ⟨whole, some fraction, none, v, hspells, hvalue⟩
    · obtain ⟨whole, fraction, scientific, v, hspells, hvalue⟩ :=
        h.exponential rfl negative
      refine ⟨whole, fraction, scientific, v, ?_, hvalue⟩
      simpa [exponentChars] using hspells

end Printable

/-- A printed double is read as some number, wherever it ends. -/
theorem exists_number_chars (x : Binary64) :
    ∃ v, ∀ rest, EndsNumber rest → number (x.chars ++ rest) = .ok (v, rest) := by
  unfold Binary64.chars
  dsimp only
  by_cases hzero : x.isZero = true
  · have hlead : Leads ['0'] := ⟨allDigits_zeros 1, '0', [], rfl, fun _ => rfl⟩
    obtain ⟨v, hv⟩ := exists_scaled 0 (-1) (by decide) (by decide)
      (.inl (by decide)) x.negative
    rw [if_pos hzero]
    refine ⟨v, fun rest hrest => ?_⟩
    exact (spells_positional hlead (allDigits_zeros 1) (by simp)).read
      (value_positional (n := 0) (by decide) rfl hv) hrest
  · have hprintable := printable_shortest (Bool.eq_false_of_not_eq_true hzero)
    obtain ⟨whole, fraction, scientific, v, hspells, hvalue⟩ :=
      hprintable.layout x.negative
    rw [if_neg hzero]
    exact ⟨v, fun rest hrest => hspells.read hvalue hrest⟩

end Json

end VersionedFlags
