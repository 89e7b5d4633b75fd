/-!
# Finite double precision numbers

A number is a sign and a word: the eleven exponent bits above the fifty-two
fraction bits.  The all-ones exponent is excluded, so every value is finite.
Arithmetic is exact in `Nat` and rounds once, to the nearest number and to the
even word on a tie.
-/

-- Powers are the core library's, also beside those of a monoid.
attribute [default_instance 20000] instPowNat

namespace VersionedFlags

structure Binary64 where
  negative : Bool
  word : Nat
  finite : word < 2047 * 2 ^ 52
  deriving DecidableEq, Repr

namespace Binary64

/-! ## Exact value -/

def significand (x : Binary64) : Nat :=
  if x.word < 2 ^ 52 then x.word else 2 ^ 52 + x.word % 2 ^ 52

def exponent (x : Binary64) : Int := max (x.word / 2 ^ 52 : Nat) 1 - 1075

/-- The magnitude is `numerator / denominator`. -/
def numerator (x : Binary64) : Nat := x.significand <<< x.exponent.toNat

def denominator (x : Binary64) : Nat := 1 <<< (-x.exponent).toNat

def zero (negative : Bool) : Binary64 := ⟨negative, 0, by decide⟩

def isZero (x : Binary64) : Bool := x.word == 0

def negate (x : Binary64) : Binary64 := { x with negative := !x.negative }

/-- The zeros of both signs are the same number. -/
def same (x y : Binary64) : Bool := x == y || (x.isZero && y.isZero)

/-! ## Rounding -/

/-- The quotient rounded to the nearest integer, to the even one on a tie. -/
def roundQuotient (num den : Nat) : Nat :=
  let floor := num / den
  let rest := 2 * (num % den)
  if rest < den then floor
  else if den < rest then floor + 1
  else floor + floor % 2

/-- The largest `e` with `2 ^ e ≤ num / den`. -/
def magnitudeExponent (num den : Nat) : Int :=
  let guess : Int := (num.log2 : Int) - den.log2
  if den <<< guess.toNat ≤ num <<< (-guess).toNat then guess else guess - 1

/-- The number nearest to `num / den`, or `none` past the largest one. -/
def nearest (negative : Bool) (num den : Nat) : Option Binary64 :=
  if num = 0 ∨ den = 0 then some (zero negative)
  else
    let scale : Int := max (magnitudeExponent num den - 52) (-1074)
    let digits := roundQuotient (num <<< (-scale).toNat) (den <<< scale.toNat)
    let word := (scale + 1074).toNat * 2 ^ 52 + digits
    if h : word < 2047 * 2 ^ 52 then some ⟨negative, word, h⟩ else none

def mul (x y : Binary64) : Option Binary64 :=
  nearest (x.negative != y.negative) (x.numerator * y.numerator)
    (x.denominator * y.denominator)

def div (x y : Binary64) : Option Binary64 :=
  nearest (x.negative != y.negative) (x.numerator * y.denominator)
    (x.denominator * y.numerator)

/-- The power of ten, or one where its exponent is negative. -/
def tenTo (exponent : Int) : Nat := Nat.pow 10 exponent.toNat

/-- The number nearest to `digits * 10 ^ exponent`. Exponents so far out that
the result is settled are not expanded. -/
def ofDecimal (negative : Bool) (digits : Nat) (exponent : Int) :
    Option Binary64 :=
  let size : Int := exponent + (Nat.toDigits 10 digits).length
  if digits = 0 ∨ size < -400 then some (zero negative)
  else if 400 < size then none
  else nearest negative (digits * tenTo exponent) (tenTo (-exponent))

def ltInt (x : Binary64) (bound : Int) : Bool :=
  let value : Int := if x.negative then -x.numerator else x.numerator
  value < bound * x.denominator

def toInt? (x : Binary64) : Option Int :=
  if x.numerator % x.denominator = 0 then
    let size : Int := (x.numerator / x.denominator : Nat)
    some (if x.negative then -size else size)
  else none

end Binary64

end VersionedFlags
