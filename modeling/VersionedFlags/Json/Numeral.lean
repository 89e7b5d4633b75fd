import VersionedFlags.Json.Cursor
import VersionedFlags.Json.Basic

/-!
# Numbers in JSON text

`numeral` is the grammar.  `Numeral.value` gives an integer literal that fits a
64-bit word as it is.  Every other number becomes a double: the leading digits
that fit an unsigned 64-bit word are rounded once and then scaled by powers of
ten, each step rounding again.
-/

namespace VersionedFlags

namespace Json

structure Numeral where
  negative : Bool
  whole : List Char
  fraction : Option (List Char)
  scientific : Option (Bool × List Char)
  deriving DecidableEq, Repr

def spanDigits (input : Unread) : List Char × Unread :=
  (input.takeWhile isDigit, input.dropWhile isDigit)

def startsWithDigit : Unread → Bool
  | c :: _ => isDigit c
  | [] => false

/-! ## Grammar -/

/-- The integer part; `cut` is the cause when the text ends before it. -/
def wholePart (cut : Cause) : Unread → Except Stop (List Char × Unread)
  | [] => .error (.here cut [])
  | c :: rest =>
      if c = '0' then
        if startsWithDigit rest then .error (.next .invalidNumber rest)
        else .ok (['0'], rest)
      else if isDigit c then .ok (spanDigits (c :: rest))
      else .error (.next .invalidNumber (c :: rest))

def fractionPart (cut : Cause) :
    Unread → Except Stop (Option (List Char) × Unread)
  | '.' :: rest =>
      match spanDigits rest with
      | ([], []) => .error (.next cut [])
      | ([], left) => .error (.next .invalidNumber left)
      | (digits, left) => .ok (some digits, left)
  | rest => .ok (none, rest)

def exponentSign : Unread → Bool × Unread
  | '+' :: rest => (false, rest)
  | '-' :: rest => (true, rest)
  | rest => (false, rest)

def exponentPart (cut : Cause) :
    Unread → Except Stop (Option (Bool × List Char) × Unread)
  | c :: rest =>
      if c = 'e' ∨ c = 'E' then
        let (negative, rest) := exponentSign rest
        match spanDigits rest with
        | ([], []) => .error (.here cut [])
        | ([], left) => .error (.next .invalidNumber left)
        | (digits, left) => .ok (some (negative, digits), left)
      else .ok (none, c :: rest)
  | [] => .ok (none, [])

def numeral (cut : Cause) (input : Unread) :
    Except Stop (Numeral × Unread) := do
  let (negative, input) :=
    match input with
    | '-' :: rest => (true, rest)
    | rest => (false, rest)
  let (whole, input) ← wholePart cut input
  let (fraction, input) ← fractionPart cut input
  let (scientific, input) ← exponentPart cut input
  return (⟨negative, whole, fraction, scientific⟩, input)

/-! ## Values -/

/-- Takes digits as long as the number fits an unsigned 64-bit word. -/
def gather (total : Nat) : List Char → Nat × List Char
  | [] => (total, [])
  | c :: rest =>
      if total * 10 + digitValue c < 2 ^ 64 then
        gather (total * 10 + digitValue c) rest
      else (total, c :: rest)

/-- The exponent, or the digits behind the one at which it passes `2 ^ 31`. -/
def gatherExponent (total : Nat) : List Char → Except (List Char) Nat
  | [] => .ok total
  | c :: rest =>
      if total * 10 + digitValue c < 2 ^ 31 then
        gatherExponent (total * 10 + digitValue c) rest
      else .error rest

def powerOfTen (power : Nat) : Option Binary64 :=
  Binary64.ofDecimal false 1 power

/-- Scales by `10 ^ 308` at a time; `none` is a number out of range. -/
def scale : Nat → Binary64 → Int → Option Binary64
  | 0, x, _ => some x
  | tries + 1, x, exponent =>
      if exponent.natAbs ≤ 308 then do
        let power ← powerOfTen exponent.natAbs
        if 0 ≤ exponent then x.mul power else x.div power
      else if x.isZero then some x
      else if 0 ≤ exponent then none
      else do
        let power ← powerOfTen 308
        let smaller ← x.div power
        scale tries smaller (exponent + 308)

def scaled (negative : Bool) (significand : Nat) (exponent : Int) :
    Option Json := do
  let x ← Binary64.nearest false significand 1
  let x ← scale 8 x exponent
  some (.double { x with negative := negative })

/-- The value, given what is unread behind the number. -/
def Numeral.value (number : Numeral) (rest : Unread) : Except Stop Json :=
  let outOfRange := .error (.here .numberOutOfRange rest)
  let (significand, dropped) := gather 0 number.whole
  let (significand, shift) :=
    match number.fraction with
    | none => (significand, (dropped.length : Int))
    | some digits =>
        let (significand', left) := gather significand digits
        (significand',
          (dropped.length : Int) - ((digits.length : Int) - left.length))
  match number.scientific with
  | some (below, digits) =>
      match gatherExponent 0 digits with
      | .ok exponent =>
          let exponent : Int := if below then -exponent else exponent
          match scaled number.negative significand (shift + exponent) with
          | some value => .ok value
          | none => outOfRange
      | .error left =>
          if significand ≠ 0 ∧ !below then
            .error (.here .numberOutOfRange (left ++ rest))
          else .ok (.double (.zero number.negative))
  | none =>
      let literal : Int :=
        if number.negative then -significand else significand
      let isWord := number.fraction.isNone && dropped.isEmpty &&
        !(number.negative && significand == 0)
      match isWord, WordInt.ofInt? literal with
      | true, some word => .ok (.integer word)
      | _, _ =>
          match scaled number.negative significand shift with
          | some value => .ok value
          | none => outOfRange

def number (input : Unread) : Except Stop (Json × Unread) := do
  let (literal, rest) ← numeral .valueCut input
  let value ← literal.value rest
  return (value, rest)

end Json

end VersionedFlags
