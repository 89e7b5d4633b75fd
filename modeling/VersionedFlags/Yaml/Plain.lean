import VersionedFlags.Json.Basic
import VersionedFlags.Json.Cursor

/-!
# What plain scalars stand for

A plain scalar is the empty value, a truth value, an integer, a number or
else a string.  Integers are decimal, hexadecimal, octal or binary; several
decimal digits that start with a zero are a string.  Numbers without an end and
those that are none have no JSON form and read as the empty value.
-/

namespace VersionedFlags

namespace Yaml

namespace Plain

/-! ## Words -/

def isNull (text : String) : Bool :=
  ["null", "Null", "NULL", "~"].contains text

def bool? (text : String) : Option Bool :=
  if ["true", "True", "TRUE"].contains text then some true
  else if ["false", "False", "FALSE"].contains text then some false
  else none

/-! ## Integers -/

def digitsValue? (base : Nat) (digits : List Char) : Option Nat := do
  let values ← digits.mapM Json.hexValue?
  if values.isEmpty ∨ values.any (base ≤ ·) then none
  return values.foldl (fun total value => total * base + value) 0

/-- Whether the text is a zero with more digits behind it. -/
def isPadded : List Char → Bool
  | '0' :: rest => !rest.isEmpty && rest.all Json.isDigit
  | _ => false

def unsigned? (text : List Char) : Option Nat :=
  match text with
  | '0' :: 'x' :: digits => digitsValue? 16 digits
  | '0' :: 'o' :: digits => digitsValue? 8 digits
  | '0' :: 'b' :: digits => digitsValue? 2 digits
  | digits => if isPadded digits then none else digitsValue? 10 digits

def signed : List Char → Bool × List Char
  | '+' :: rest => (false, rest)
  | '-' :: rest => (true, rest)
  | rest => (false, rest)

def literal? (text : List Char) : Option Int := do
  let (negative, text) := signed text
  let size ← unsigned? text
  return if negative then -size else size

/-- The literals beyond 64 bits that still fit 128 bits have no value; longer
ones are no integers. -/
def isWide (number : Int) : Bool := -2 ^ 127 ≤ number && number < 2 ^ 128

/-- The integer of a text; the inner `none` is one too wide. -/
def integer? (text : List Char) : Option (Option Json) := do
  let number ← literal? text
  match WordInt.ofInt? number with
  | some word => return some (.integer word)
  | none => if isWide number then some none else none

/-! ## Numbers -/

def exponent? : List Char → Option Int
  | [] => some 0
  | c :: rest => do
      if c ≠ 'e' ∧ c ≠ 'E' then none
      let (negative, digits) := signed rest
      let size ← digitsValue? 10 digits
      return if negative then -size else size

def decimal? (negative : Bool) (text : List Char) : Option Binary64 := do
  let whole := text.takeWhile Json.isDigit
  let rest := text.dropWhile Json.isDigit
  let (fraction, rest) :=
    match rest with
    | '.' :: rest => (rest.takeWhile Json.isDigit, rest.dropWhile Json.isDigit)
    | rest => ([], rest)
  let digits ← digitsValue? 10 (whole ++ fraction)
  let exponent ← exponent? rest
  Binary64.ofDecimal negative digits (exponent - fraction.length)

def isInfinity (text : String) : Bool :=
  [".inf", ".Inf", ".INF"].contains text

def isNoNumber (text : String) : Bool :=
  [".nan", ".NaN", ".NAN"].contains text

def number? (text : String) : Option Json :=
  let (negative, rest) := signed text.toList
  if isInfinity (String.ofList rest) ∨ isNoNumber text then some .null
  else (decimal? negative rest).map .double

/-! ## Values -/

def value? (text : String) : Option Json :=
  if text.isEmpty ∨ isNull text then some .null
  else
    match bool? text, integer? text.toList with
    | some value, _ => some (.bool value)
    | none, some value => value
    | none, none =>
        if isPadded (signed text.toList).2 then some (.string text)
        else some ((number? text).getD (.string text))

end Plain

/-- The value of a scalar.  Four tags have a meaning and demand a text of their
type; any other tag makes a string. -/
def scalarValue? (tag : Option String) (text : String) (plain : Bool) :
    Option Json :=
  match tag with
  | some "tag:yaml.org,2002:bool" => (Plain.bool? text).map .bool
  | some "tag:yaml.org,2002:int" => (Plain.integer? text.toList).join
  | some "tag:yaml.org,2002:float" => Plain.number? text
  | some "tag:yaml.org,2002:null" =>
      if Plain.isNull text then some .null else none
  | some _ => some (.string text)
  | none => if plain then Plain.value? text else some (.string text)

end Yaml

end VersionedFlags
