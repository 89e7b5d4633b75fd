import VersionedFlags.Json.Reader
import VersionedFlags.Json.Printer
import VersionedFlags.Text.Quoted

/-!
# Reading records

A record is read from an object or from a list of its fields in order.  A fault
of meaning (a field that is unknown, repeated, missing or of the wrong shape)
is placed where reading stands once the record has been left.
-/

namespace VersionedFlags

namespace Json

def Numeral.shape (number : Numeral) (rest : Unread) : Except Stop Shape := do
  match ← number.value rest with
  | .double x => return .fraction (String.ofList x.chars)
  | value => return .number value.text

/-- The fault of a value of the wrong shape; scalars are read first. -/
def wrongShape (wanted : String) (input : Unread) : Stop :=
  let misplaced (shape : Shape) (rest : Unread) : Stop :=
    .here (.wrongShape shape wanted) rest
  match input with
  | 'n' :: rest =>
      match word ['u', 'l', 'l'] rest with
      | .ok rest => misplaced .null rest
      | .error stop => stop
  | 't' :: rest =>
      match word ['r', 'u', 'e'] rest with
      | .ok rest => misplaced (.bool true) rest
      | .error stop => stop
  | 'f' :: rest =>
      match word ['a', 'l', 's', 'e'] rest with
      | .ok rest => misplaced (.bool false) rest
      | .error stop => stop
  | '"' :: rest =>
      match stringBody true [] rest with
      | .ok (text, rest) => misplaced (.string (Text.quoted text)) rest
      | .error stop => stop
  | '[' :: _ => misplaced .sequence input
  | '\x7b' :: _ => misplaced .map input
  | c :: _ =>
      if c = '-' ∨ isDigit c then
        match numeral .valueCut input with
        | .error stop => stop
        | .ok (literal, rest) =>
            match literal.shape rest with
            | .ok shape => misplaced shape rest
            | .error stop => stop
      else .next .expectedValue input
  | [] => .next .expectedValue []

/-! ## Fields -/

def stringField (input : Unread) : Except Stop (String × Unread) :=
  match skipBlanks input with
  | [] => .error (.next .valueCut [])
  | '"' :: rest => stringBody true [] rest
  | rest => .error (wrongShape "a string" rest)

def boolField (input : Unread) : Except Stop (Bool × Unread) :=
  match skipBlanks input with
  | [] => .error (.next .valueCut [])
  | 't' :: rest => do return (true, ← word ['r', 'u', 'e'] rest)
  | 'f' :: rest => do return (false, ← word ['a', 'l', 's', 'e'] rest)
  | rest => .error (wrongShape "a boolean" rest)

def wordField (input : Unread) : Except Stop (UInt64 × Unread) :=
  match skipBlanks input with
  | [] => .error (.next .valueCut [])
  | c :: rest =>
      if c = '-' ∨ isDigit c then do
        let (literal, rest) ← numeral .valueCut (c :: rest)
        match ← literal.value rest with
        | .integer number =>
            match number.toUInt64? with
            | some word => return (word, rest)
            | none =>
                let found := Shape.number (Json.integer number).text
                .error (.here (.wrongValue found "u64") rest)
        | .double x =>
            let found := Shape.fraction (String.ofList x.chars)
            .error (.here (.wrongShape found "u64") rest)
        | _ => .error (.here .expectedValue rest)
      else .error (wrongShape "u64" (c :: rest))

/-! ## Records -/

def within {α : Type} (leaving : Unread → Unread)
    (close : Unread → Except Stop Unread)
    (inner : Except Stop (α × Unread)) : Except Stop (α × Unread) :=
  match inner with
  | .error stop => .error (stop.leave leaving)
  | .ok (value, rest) => (close rest).map fun rest => (value, rest)

/-- A record; `ofList` and `ofObject` read behind the opening bracket. -/
def record {α : Type} (wanted : String)
    (ofList : Nat → Unread → Except Stop (α × Unread))
    (ofObject : Nat → Unread → Except Stop (α × Unread)) (depth : Nat)
    (input : Unread) : Except Stop (α × Unread) :=
  match skipBlanks input with
  | [] => .error (.next .valueCut [])
  | '[' :: rest =>
      match depth with
      | 0 => .error (.next .tooDeep ('[' :: rest))
      | depth + 1 => within leaveList closeList (ofList depth rest)
  | '\x7b' :: rest =>
      match depth with
      | 0 => .error (.next .tooDeep ('\x7b' :: rest))
      | depth + 1 => within leaveObject closeObject (ofObject depth rest)
  | rest => .error (wrongShape wanted rest)

/-- A map from strings to values; of a repeated key the last value stays. -/
def mapField (depth : Nat) (input : Unread) :
    Except Stop (KeyMap Json × Unread) :=
  match skipBlanks input with
  | [] => .error (.next .valueCut [])
  | '\x7b' :: rest =>
      match depth with
      | 0 => .error (.next .tooDeep ('\x7b' :: rest))
      | depth + 1 =>
          within leaveObject closeObject <|
            members .kept true
              (fun (map : KeyMap Json) key input => do
                let (field, input) ← value depth (← colon input)
                return (map.insert key field, input))
              (rest.length + 1) true .empty rest
  | rest => .error (wrongShape "a map" rest)

/-- Reads the next field of a list, or gives `none` at the end of the list. -/
def listField? {α : Type} (field : Unread → Except Stop (α × Unread))
    (first : Bool) (input : Unread) : Except Stop (Option α × Unread) := do
  let (more, input) ← nextElement .kept first input
  if more then
    let (value, input) ← field input
    return (some value, input)
  else return (none, input)

end Json

end VersionedFlags
