import VersionedFlags.Json.Numeral

/-!
# Reading JSON text

`value depth` reads one value with at most `depth` containers open around its
innermost part.  `skip` passes over a value that nobody keeps: it has no limit
on nesting and does not look at what numbers and surrogates stand for.
-/

namespace VersionedFlags

namespace Json

/-- How many containers may be open at once. -/
def depthLimit : Nat := 127

/-! ## Values -/

def value : Nat → Unread → Except Stop (Json × Unread)
  | depth, input =>
      match skipBlanks input with
      | [] => .error (.next .valueCut [])
      | 'n' :: rest => do return (.null, ← word ['u', 'l', 'l'] rest)
      | 't' :: rest => do return (.bool true, ← word ['r', 'u', 'e'] rest)
      | 'f' :: rest =>
          do return (.bool false, ← word ['a', 'l', 's', 'e'] rest)
      | '"' :: rest => do
          let (text, rest) ← stringBody true [] rest
          return (.string text, rest)
      | '[' :: rest =>
          match depth with
          | 0 => .error (.next .tooDeep ('[' :: rest))
          | depth + 1 => do
              let (list, rest) ←
                elements .kept (value depth) (rest.length + 1) true [] rest
              return (.array list, ← closeList rest)
      | '\x7b' :: rest =>
          match depth with
          | 0 => .error (.next .tooDeep ('\x7b' :: rest))
          | depth + 1 => do
              let (fields, rest) ←
                members .kept true
                  (fun (fields : List (String × Json)) key input => do
                    let (field, input) ← value depth (← colon input)
                    return ((key, field) :: fields, input))
                  (rest.length + 1) true [] rest
              return (ofMembers fields.reverse, ← closeObject rest)
      | c :: rest =>
          if c = '-' ∨ isDigit c then number (c :: rest)
          else .error (.next .expectedValue (c :: rest))

def parse (text : String) : Except Error Json := document (value depthLimit) text

def parseDeep (text : String) : Except Error Json :=
  document (value text.length) text

/-! ## Values that are not kept -/

def skip : Nat → Unread → Except Stop (Unit × Unread)
  | depth, input =>
      match skipBlanks input with
      | [] => .error (.next .valueCut [])
      | 'n' :: rest => do return ((), ← word ['u', 'l', 'l'] rest)
      | 't' :: rest => do return ((), ← word ['r', 'u', 'e'] rest)
      | 'f' :: rest => do return ((), ← word ['a', 'l', 's', 'e'] rest)
      | '"' :: rest => do
          let (_, rest) ← stringBody false [] rest
          return ((), rest)
      | '[' :: rest =>
          match depth with
          | 0 => .error (.next .tooDeep ('[' :: rest))
          | depth + 1 => do
              let (_, rest) ←
                elements .skipped (skip depth) (rest.length + 1) true [] rest
              return ((), ← closeList rest)
      | '\x7b' :: rest =>
          match depth with
          | 0 => .error (.next .tooDeep ('\x7b' :: rest))
          | depth + 1 => do
              let (_, rest) ←
                members .skipped false
                  (fun _ _ input => do skip depth (← colon input))
                  (rest.length + 1) true () rest
              return ((), ← closeObject rest)
      | c :: rest =>
          if c = '-' ∨ isDigit c then do
            let (_, rest) ← numeral .invalidNumber (c :: rest)
            return ((), rest)
          else .error (.next .expectedValue (c :: rest))

end Json

end VersionedFlags
