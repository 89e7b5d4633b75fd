import VersionedFlags.Binary64.Basic

/-!
# Shortest decimal text

`shortest` looks for the fewest digits that read back as the number.  For each
count of digits it tests the two neighbours of the value on that decimal grid;
the first grid with a hit wins, and of two hits the nearer one.
-/

namespace VersionedFlags

namespace Binary64

/-! ## Digits -/

/-- The largest `e` with `10 ^ e ≤ num / den`, for a positive quotient. -/
def decimalExponent (num den : Nat) : Int :=
  if den ≤ num then (Nat.toDigits 10 (num / den)).length - 1
  else -(Nat.toDigits 10 ((den - 1) / num)).length

/-- The quotients `low / den < num / den < high / den` bound the decimals that
read back as the number; the bounds themselves count when `closed`. -/
structure Neighbourhood where
  num : Nat
  den : Nat
  low : Nat
  high : Nat
  closed : Bool
  deriving Repr

/-- Half the gap to the number below is a quarter step at a power of two. -/
def neighbourhood (x : Binary64) : Neighbourhood :=
  let unit := 1 <<< (x.exponent - 2).toNat
  let gap := if x.word % 2 ^ 52 = 0 ∧ 2 ^ 52 < x.word then 1 else 2
  { num := 4 * x.significand * unit
    den := 1 <<< (2 - x.exponent).toNat
    low := (4 * x.significand - gap) * unit
    high := (4 * x.significand + 2) * unit
    closed := x.significand % 2 == 0 }

namespace Neighbourhood

def rescale (area : Neighbourhood) (power : Int) : Neighbourhood :=
  let up := tenTo (-power)
  { area with
    num := area.num * up
    den := area.den * tenTo power
    low := area.low * up
    high := area.high * up }

def holds (area : Neighbourhood) (candidate : Nat) : Bool :=
  let value := candidate * area.den
  if area.closed then area.low ≤ value && value ≤ area.high
  else area.low < value && value < area.high

def pick? (area : Neighbourhood) : Option Nat :=
  let below := area.num / area.den
  match area.holds below, area.holds (below + 1) with
  | false, false => none
  | true, false => some below
  | false, true => some (below + 1)
  | true, true => some (roundQuotient area.num area.den)

def search (area : Neighbourhood) (top : Int) : Nat → Nat → Nat × Int
  | 0, count => (area.num / area.den, top - count)
  | tries + 1, count =>
      let power := top - count
      match (area.rescale power).pick? with
      | some digits => (digits, power)
      | none => search area top tries (count + 1)

end Neighbourhood

def dropZeros : Nat → Nat × Int → Nat × Int
  | 0, decimal => decimal
  | tries + 1, (digits, power) =>
      if digits % 10 = 0 then dropZeros tries (digits / 10, power + 1)
      else (digits, power)

/-- The magnitude of a number other than zero as `digits * 10 ^ power`. -/
def shortest (x : Binary64) : Nat × Int :=
  let area := x.neighbourhood
  dropZeros 20 (area.search (decimalExponent area.num area.den) 18 0)

/-! ## Layout -/

/-- Numbers from `10 ^ -5` up to `10 ^ 16` are positional and keep a fraction;
the others have an exponent with its sign. -/
def layout (digits : List Char) (power : Int) : List Char :=
  let count := digits.length
  let point : Int := count + power
  if 0 < point ∧ point ≤ 16 then
    if (count : Int) ≤ point then
      digits ++ List.replicate (point - count).toNat '0' ++ ['.', '0']
    else digits.take point.toNat ++ '.' :: digits.drop point.toNat
  else if -5 < point ∧ point ≤ 0 then
    '0' :: '.' :: List.replicate (-point).toNat '0' ++ digits
  else
    let mantissa :=
      if count ≤ 1 then digits else digits.take 1 ++ '.' :: digits.drop 1
    let sign := if point - 1 < 0 then '-' else '+'
    mantissa ++ 'e' :: sign :: Nat.toDigits 10 (point - 1).natAbs

def chars (x : Binary64) : List Char :=
  let magnitude :=
    if x.isZero then ['0', '.', '0']
    else
      let (digits, power) := x.shortest
      layout (Nat.toDigits 10 digits) power
  if x.negative then '-' :: magnitude else magnitude

end Binary64

end VersionedFlags
