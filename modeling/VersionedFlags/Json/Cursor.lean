import VersionedFlags.Json.Error

/-!
# Reading characters and placing faults

A reader consumes a prefix of the unread characters.  When it stops it keeps
the characters that were still unread, so the place of a fault is computed once,
from the text and what was left of it.
-/

namespace VersionedFlags

namespace Json

abbrev Unread := List Char

/-- A refusal: the unread characters and how many bytes past their start the
fault lies.  A fault of meaning has no place of its own until the value that
holds it has been left. -/
structure Stop where
  cause : Cause
  rest : Unread
  ahead : Nat
  placed : Bool
  deriving DecidableEq, Repr

namespace Stop

def here (cause : Cause) (rest : Unread) : Stop := ⟨cause, rest, 0, true⟩

def next (cause : Cause) (rest : Unread) : Stop := ⟨cause, rest, 1, true⟩

def meaning (cause : Cause) (rest : Unread) : Stop := ⟨cause, rest, 0, false⟩

def place (stop : Stop) : Stop := { stop with placed := true }

/-- A fault of meaning moves to where its value was left. -/
def leave (leaving : Unread → Unread) (stop : Stop) : Stop :=
  if stop.placed then stop
  else { stop with rest := leaving stop.rest, placed := true }

end Stop

/-! ## Blanks and words -/

def isBlank (c : Char) : Bool := c == ' ' || c == '\n' || c == '\t' || c == '\r'

def skipBlanks (input : Unread) : Unread := input.dropWhile isBlank

def isDigit (c : Char) : Bool := '0' ≤ c && c ≤ '9'

def digitValue (c : Char) : Nat := c.toNat - 48

def word : List Char → Unread → Except Stop Unread
  | [], input => .ok input
  | _ :: _, [] => .error (.here .valueCut [])
  | expected :: more, c :: rest =>
      if c = expected then word more rest
      else .error (.next .expectedWord (c :: rest))

/-! ## Places -/

def byteCount (text : List Char) : Nat :=
  text.foldl (fun total c => total + c.utf8Size) 0

/-- Line and column after the given number of bytes of the text. -/
def placeAfter : Nat → Nat × Nat → List Char → Nat × Nat
  | 0, place, _ => place
  | _ + 1, place, [] => place
  | bytes + 1, (line, column), c :: rest =>
      if c = '\n' then placeAfter bytes (line + 1, 0) rest
      else
        let size := min c.utf8Size (bytes + 1)
        placeAfter (bytes + 1 - size) (line, column + size) rest
  termination_by bytes _ text => (text.length, bytes)

def Stop.toError (stop : Stop) (text : List Char) : Error :=
  let consumed := byteCount text - byteCount stop.rest
  let (line, column) := placeAfter (consumed + stop.ahead) (1, 0) text
  ⟨stop.cause, line, column⟩

/-- A whole text: one value and nothing but blanks after it. -/
def document {α : Type} (read : Unread → Except Stop (α × Unread))
    (text : String) : Except Error α :=
  match read text.toList with
  | .error stop => .error (stop.toError text.toList)
  | .ok (value, rest) =>
      match skipBlanks rest with
      | [] => .ok value
      | left =>
          .error ((Stop.next .trailingCharacters left).toError text.toList)

/-! ## Strings -/

def hexValue? (c : Char) : Option Nat :=
  if '0' ≤ c ∧ c ≤ '9' then some (c.toNat - 48)
  else if 'a' ≤ c ∧ c ≤ 'f' then some (c.toNat - 87)
  else if 'A' ≤ c ∧ c ≤ 'F' then some (c.toNat - 55)
  else none

def hexUnit? (a b c d : Char) : Option Nat := do
  let a ← hexValue? a
  let b ← hexValue? b
  let c ← hexValue? c
  let d ← hexValue? d
  some (((a * 16 + b) * 16 + c) * 16 + d)

/-- A unit escape needs four bytes; when there are fewer the string is cut. -/
def badUnit (input : Unread) : Stop :=
  if byteCount input < 4 then .here .stringCut []
  else ⟨.invalidEscape, input, 4, true⟩

def shortEscape? : Char → Option Char
  | '"' => some '"'
  | '\\' => some '\\'
  | '/' => some '/'
  | 'b' => some '\x08'
  | 'f' => some '\x0c'
  | 'n' => some '\n'
  | 'r' => some '\r'
  | 't' => some '\t'
  | _ => none

def isLeading (unit : Nat) : Bool := 0xd800 ≤ unit && unit < 0xdc00

def isTrailing (unit : Nat) : Bool := 0xdc00 ≤ unit && unit < 0xe000

def joinUnits (leading trailing : Nat) : Char :=
  Char.ofNat (0x10000 + (leading - 0xd800) * 0x400 + (trailing - 0xdc00))

/-- The characters up to the closing quote, latest first in `decoded`. Escaped
surrogates have to come in pairs when `paired`. -/
def stringBody (paired : Bool) (decoded : List Char) :
    Unread → Except Stop (String × Unread)
  | [] => .error (.here .stringCut [])
  | '"' :: rest => .ok (String.ofList decoded.reverse, rest)
  | ['\\'] => .error (.here .stringCut [])
  | '\\' :: 'u' :: a :: b :: c :: d :: rest =>
      match hexUnit? a b c d with
      | none => .error (badUnit (a :: b :: c :: d :: rest))
      | some unit =>
          if !paired then stringBody paired (Char.ofNat unit :: decoded) rest
          else if isTrailing unit then .error (.here .loneSurrogate rest)
          else if isLeading unit then
            match rest with
            | [] => .error (.here .stringCut [])
            | ['\\'] => .error (.here .stringCut [])
            | '\\' :: 'u' :: e :: f :: g :: h :: rest' =>
                match hexUnit? e f g h with
                | none => .error (badUnit (e :: f :: g :: h :: rest'))
                | some low =>
                    if isTrailing low then
                      stringBody paired (joinUnits unit low :: decoded) rest'
                    else .error (.here .loneSurrogate rest')
            | '\\' :: 'u' :: short => .error (badUnit short)
            | '\\' :: other => .error (.next .escapeCut other)
            | other => .error (.next .escapeCut other)
          else stringBody paired (Char.ofNat unit :: decoded) rest
  | '\\' :: 'u' :: short => .error (badUnit short)
  | '\\' :: c :: rest =>
      match shortEscape? c with
      | some plain => stringBody paired (plain :: decoded) rest
      | none => .error (.next .invalidEscape (c :: rest))
  | c :: rest =>
      if c.toNat < 32 then .error (.next .controlCharacter (c :: rest))
      else stringBody paired (c :: decoded) rest

/-! ## Separators -/

/-- What is refused straight after a comma. -/
structure Commas where
  listEnd : Option Cause
  objectEnd : Cause
  objectCut : Cause

def Commas.kept : Commas := ⟨some .trailingComma, .trailingComma, .valueCut⟩

def Commas.skipped : Commas := ⟨none, .keyNotString, .objectCut⟩

/-- The start of the next element, or `none` at the closing bracket. -/
def nextElement (commas : Commas) (first : Bool) (input : Unread) :
    Except Stop (Bool × Unread) :=
  match skipBlanks input with
  | [] => .error (.next .listCut [])
  | ']' :: rest => .ok (false, ']' :: rest)
  | ',' :: rest =>
      if first then .ok (true, ',' :: rest)
      else
        match skipBlanks rest with
        | [] => .error (.next .valueCut [])
        | ']' :: rest =>
            match commas.listEnd with
            | some cause => .error (.next cause (']' :: rest))
            | none => .ok (true, ']' :: rest)
        | rest => .ok (true, rest)
  | rest =>
      if first then .ok (true, rest)
      else .error (.next .expectedListEnd rest)

/-- The start of the next member past its opening quote, or `false` at the
closing brace. -/
def nextMember (commas : Commas) (first : Bool) (input : Unread) :
    Except Stop (Bool × Unread) :=
  match skipBlanks input with
  | [] => .error (.next .objectCut [])
  | '\x7d' :: rest => .ok (false, '\x7d' :: rest)
  | ',' :: rest =>
      if first then .error (.next .keyNotString (',' :: rest))
      else
        match skipBlanks rest with
        | [] => .error (.next commas.objectCut [])
        | '"' :: rest => .ok (true, rest)
        | '\x7d' :: rest => .error (.next commas.objectEnd ('\x7d' :: rest))
        | rest => .error (.next .keyNotString rest)
  | '"' :: rest =>
      if first then .ok (true, rest)
      else .error (.next .expectedObjectEnd ('"' :: rest))
  | rest =>
      if first then .error (.next .keyNotString rest)
      else .error (.next .expectedObjectEnd rest)

def colon (input : Unread) : Except Stop Unread :=
  match skipBlanks input with
  | [] => .error (.next .objectCut [])
  | ':' :: rest => .ok rest
  | rest => .error (.next .expectedColon rest)

/-! ## Closing a container -/

def closeList (input : Unread) : Except Stop Unread :=
  match skipBlanks input with
  | [] => .error (.next .listCut [])
  | ']' :: rest => .ok rest
  | ',' :: rest =>
      match skipBlanks rest with
      | ']' :: rest => .error (.next .trailingComma (']' :: rest))
      | rest => .error (.next .trailingCharacters rest)
  | rest => .error (.next .trailingCharacters rest)

def closeObject (input : Unread) : Except Stop Unread :=
  match skipBlanks input with
  | [] => .error (.next .objectCut [])
  | '\x7d' :: rest => .ok rest
  | ',' :: rest => .error (.next .trailingComma (',' :: rest))
  | rest => .error (.next .trailingCharacters rest)

/-- What is left unread once a list has been left, however it ends. -/
def leaveList (input : Unread) : Unread :=
  match skipBlanks input with
  | ']' :: rest => rest
  | ',' :: rest => skipBlanks rest
  | rest => rest

def leaveObject (input : Unread) : Unread :=
  match skipBlanks input with
  | '\x7d' :: rest => rest
  | rest => rest

/-! ## Loops over a container -/

def elements {α : Type} (commas : Commas)
    (element : Unread → Except Stop (α × Unread)) :
    Nat → Bool → List α → Unread → Except Stop (List α × Unread)
  | 0, _, _, input => .error (.next .listCut input)
  | fuel + 1, first, done, input => do
      let (more, input) ← nextElement commas first input
      if more then
        let (value, input) ← element input
        elements commas element fuel false (value :: done) input
      else return (done.reverse, input)

/-- Folds the members of an object; `member` reads from behind the key. -/
def members {σ : Type} (commas : Commas) (paired : Bool)
    (member : σ → String → Unread → Except Stop (σ × Unread)) :
    Nat → Bool → σ → Unread → Except Stop (σ × Unread)
  | 0, _, _, input => .error (.next .objectCut input)
  | fuel + 1, first, state, input => do
      let (more, input) ← nextMember commas first input
      if more then
        let (key, input) ← stringBody paired [] input
        let (state, input) ← member state key input
        members commas paired member fuel false state input
      else return (state, input)

end Json

end VersionedFlags
