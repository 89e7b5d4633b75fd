import VersionedFlags.Binary64.Shortest
import VersionedFlags.Json.Numeral
import VersionedFlags.Store.Error

/-!
# Table cells

A column has an affinity.  Storing a value in an integer column turns text that
reads as a number, and numbers without a fraction, into integers.  Storing a
number in a text column writes it out.  What cannot be turned stays as it is.
-/

namespace VersionedFlags

namespace Sqlite

inductive Cell where
  | integer (value : Int)
  | real (value : Binary64)
  | text (value : String)
  | blob (bytes : List UInt8)
  | null
  deriving DecidableEq, Repr

namespace Cell

def type : Cell → CellType
  | .integer _ => .integer
  | .real _ => .real
  | .text _ => .text
  | .blob _ => .blob
  | .null => .null

/-! ## Numbers in text -/

def isSpace (c : Char) : Bool :=
  c == ' ' || ('\x09' ≤ c && c ≤ '\x0d')

def takeSign : List Char → Bool × List Char
  | '-' :: rest => (true, rest)
  | '+' :: rest => (false, rest)
  | rest => (false, rest)

def digitsValue (digits : List Char) : Nat :=
  digits.foldl (fun total c => total * 10 + Json.digitValue c) 0

def takeFraction : List Char → Option (List Char) × List Char
  | '.' :: rest =>
      let (digits, rest) := Json.spanDigits rest
      (some digits, rest)
  | rest => (none, rest)

def takePower : List Char → Option Int × List Char
  | [] => (none, [])
  | c :: rest =>
      let (below, left) := takeSign rest
      let (digits, left) := Json.spanDigits left
      if (c = 'e' ∨ c = 'E') ∧ ¬ digits.isEmpty then
        let size : Int := digitsValue digits
        (some (if below then -size else size), left)
      else (none, c :: rest)

structure NumberText where
  negative : Bool
  whole : List Char
  fraction : Option (List Char)
  power : Option Int
  deriving DecidableEq, Repr

/-- The number that fills the text but for spaces around it. -/
def numberText? (text : String) : Option NumberText :=
  let (negative, input) := takeSign (text.toList.dropWhile isSpace)
  let (whole, input) := Json.spanDigits input
  let (fraction, input) := takeFraction input
  let (power, input) := takePower input
  if (whole ++ fraction.getD []).isEmpty ∨ ¬ input.all isSpace then none
  else some ⟨negative, whole, fraction, power⟩

/-! ## Integer columns -/

def isInteger64 (value : Int) : Bool := -2 ^ 63 ≤ value && value < 2 ^ 63

/-- A real strictly between the outermost integers that has no fraction. -/
def ofReal (x : Binary64) : Cell :=
  match x.toInt? with
  | some value =>
      if -2 ^ 63 < value ∧ value < 2 ^ 63 then .integer value else .real x
  | none => .real x

def ofNumber? (number : NumberText) : Option Cell :=
  let size : Int := digitsValue number.whole
  let value := if number.negative then -size else size
  if number.fraction.isNone ∧ number.power.isNone ∧ isInteger64 value then
    some (.integer value)
  else
    let fraction := number.fraction.getD []
    let exponent := number.power.getD 0 - fraction.length
    (Binary64.ofDecimal number.negative
      (digitsValue (number.whole ++ fraction)) exponent).map ofReal

def inIntegerColumn : Cell → Cell
  | .real x => ofReal x
  | .text value => ((numberText? value).bind ofNumber?).getD (.text value)
  | cell => cell

/-! ## Text columns -/

/-- The magnitude to fifteen digits, as `digits * 10 ^ power`. -/
def fifteenDigits (x : Binary64) : Nat × Int :=
  let power := Binary64.decimalExponent x.numerator x.denominator - 14
  let digits := Binary64.roundQuotient
    (x.numerator * Binary64.tenTo (-power)) (x.denominator * Binary64.tenTo power)
  Binary64.dropZeros 15 (digits, power)

/-- Positional with a fraction from `10 ^ -4` up to `10 ^ 15`, otherwise with
an exponent of two digits or more. -/
def realChars (x : Binary64) : List Char :=
  if x.isZero then ['0', '.', '0']
  else
    let (value, power) := fifteenDigits x
    let digits := Nat.toDigits 10 value
    let point : Int := digits.length + power
    let magnitude :=
      if -4 < point ∧ point ≤ 15 then Binary64.layout digits power
      else
        let fraction := if digits.length ≤ 1 then ['0'] else digits.drop 1
        let size := Nat.toDigits 10 (point - 1).natAbs
        let padded := if size.length < 2 then '0' :: size else size
        let sign := if point - 1 < 0 then '-' else '+'
        digits.take 1 ++ '.' :: fraction ++ 'e' :: sign :: padded
    if x.negative then '-' :: magnitude else magnitude

def inTextColumn : Cell → Cell
  | .integer value => .text (toString value)
  | .real x => .text (String.ofList (realChars x))
  | cell => cell

/-! ## Comparing -/

/-- Whether an integer is greater than the cell; text and blobs come after
every number, and nothing is greater than null. -/
def ltInteger (cell : Cell) (value : Int) : Bool :=
  match cell with
  | .integer stored => stored < value
  | .real x => x.ltInt value
  | .text _ | .blob _ | .null => false

end Cell

end Sqlite

end VersionedFlags
