import VersionedFlags.Json.Cursor
import VersionedFlags.Yaml.Cursor

/-!
# Anchors, tags and directives in YAML text

An anchor names a node and a tag its type.  A tag is written in short, as a
handle and a suffix; a directive says what a handle stands for.  A reader gives
`none` for a malformed text.
-/

namespace VersionedFlags

namespace Yaml

/-! ## Anchors -/

/-- What may follow the name of an anchor besides a gap. -/
def anchorEnds : List Char := ['?', ':', ',', ']', '\x7d', '%', '@', '\x60']

/-- The name behind the sign of an anchor or of an alias. -/
def anchorName (cursor : Cursor) : Option (String × Cursor) :=
  let (name, cursor) := (cursor.advance 1).takeWhile isWordChar
  if ¬ name.isEmpty ∧
      (atGap cursor.rest ∨ startsWithAny anchorEnds cursor.rest) then
    some (String.ofList name, cursor)
  else none

/-! ## Resource names -/

/-- The characters of resource names; brackets and commas only if `listed`. -/
def isResourceChar (listed : Bool) (c : Char) : Bool :=
  isWordChar c || ";/?:@&=+$.!~*'()".toList.contains c ||
    (listed && [',', '[', ']'].contains c)

def octet? : List Char → Option Nat
  | '%' :: high :: low :: _ => do
      return (← Json.hexValue? high) * 16 + (← Json.hexValue? low)
  | _ => none

/-- How many octets encode a character that starts with the given one. -/
def octetCount? (lead : Nat) : Option Nat :=
  if lead < 128 then some 1
  else if 192 ≤ lead ∧ lead < 224 then some 2
  else if 224 ≤ lead ∧ lead < 240 then some 3
  else if 240 ≤ lead ∧ lead < 248 then some 4
  else none

def trailingOctets? : Nat → List Char → Option (List Nat)
  | 0, _ => some []
  | count + 1, rest => do
      let octet ← octet? rest
      if octet < 128 ∨ 192 ≤ octet then none
      return octet :: (← trailingOctets? count (rest.drop 3))

/-- The escaped octets of one character. -/
def escapedOctets? (rest : List Char) : Option (List Nat) := do
  let lead ← octet? rest
  let count ← octetCount? lead
  return lead :: (← trailingOctets? (count - 1) (rest.drop 3))

def resourceFrom (listed : Bool) :
    Nat → List Char → Cursor → Option (List Char × Cursor)
  | 0, text, cursor => some (text, cursor)
  | fuel + 1, text, cursor =>
      match cursor.rest with
      | [] => some (text, cursor)
      | c :: _ =>
          if c = '%' then do
            let octets ← escapedOctets? cursor.rest
            resourceFrom listed fuel (text ++ octets.map Char.ofNat)
              (cursor.advance (3 * octets.length))
          else if isResourceChar listed c then
            resourceFrom listed fuel (text ++ [c]) (cursor.advance 1)
          else some (text, cursor)

/-- A resource name, which may be empty.  Escaped octets are kept one by one;
no tag with a meaning has any past ASCII. -/
def resource (listed : Bool) (cursor : Cursor) :
    Option (List Char × Cursor) :=
  resourceFrom listed cursor.rest.length [] cursor

/-! ## Tags -/

/-- A tag as it is written.  With an empty handle the suffix is the tag. -/
structure ShortTag where
  handle : String
  suffix : String
  deriving DecidableEq, Repr

/-- A handle and whether a second mark closes it. -/
def tagHandle (cursor : Cursor) : Option (List Char × Bool × Cursor) :=
  if startsWithAny ['!'] cursor.rest then
    let (name, cursor) := (cursor.advance 1).takeWhile isWordChar
    if startsWithAny ['!'] cursor.rest then
      some ('!' :: name ++ ['!'], true, cursor.advance 1)
    else some ('!' :: name, false, cursor)
  else none

def verbatimTag (cursor : Cursor) : Option (ShortTag × Cursor) := do
  let (text, cursor) ← resource true (cursor.advance 2)
  if text.isEmpty ∨ ¬ startsWithAny ['>'] cursor.rest then none
  return (⟨"", String.ofList text⟩, cursor.advance 1)

def shortTag (cursor : Cursor) : Option (ShortTag × Cursor) := do
  let (handle, closed, cursor) ← tagHandle cursor
  let (text, cursor) ← resource false cursor
  if closed then
    if text.isEmpty then none
    return (⟨String.ofList handle, String.ofList text⟩, cursor)
  else
    let suffix := handle.tail ++ text
    if suffix.isEmpty then return (⟨"", "!"⟩, cursor)
    else return (⟨"!", String.ofList suffix⟩, cursor)

/-- The tag at the cursor; `flow` inside of brackets. -/
def tag (flow : Bool) (cursor : Cursor) : Option (ShortTag × Cursor) := do
  let (tag, cursor) ←
    if startsWithAny ['<'] (cursor.rest.drop 1) then verbatimTag cursor
    else shortTag cursor
  if atGap cursor.rest ∨ flow ∧ startsWithAny [','] cursor.rest then
    return (tag, cursor)
  else none

/-! ## Directives -/

inductive Directive where
  | version (major minor : Nat)
  | handle (handle expansion : String)
  deriving DecidableEq, Repr

def versionNumber (cursor : Cursor) : Option (Nat × Cursor) :=
  let (digits, cursor) := cursor.takeWhile Char.isDigit
  if digits.isEmpty ∨ 9 < digits.length then none
  else
    let number :=
      digits.foldl (fun number c => number * 10 + Json.digitValue c) 0
    some (number, cursor)

def versionDirective (cursor : Cursor) : Option (Directive × Cursor) := do
  let (major, cursor) ← versionNumber (cursor.skipWhile isBlank)
  if ¬ startsWithAny ['.'] cursor.rest then none
  let (minor, cursor) ← versionNumber (cursor.advance 1)
  return (.version major minor, cursor)

def handleDirective (cursor : Cursor) : Option (Directive × Cursor) := do
  let (handle, closed, cursor) ← tagHandle (cursor.skipWhile isBlank)
  if ¬ closed ∧ handle ≠ ['!'] then none
  if ¬ startsWithAny [' ', '\t'] cursor.rest then none
  let (expansion, cursor) ← resource true (cursor.skipWhile isBlank)
  if expansion.isEmpty ∨ ¬ atGap cursor.rest then none
  return (.handle (String.ofList handle) (String.ofList expansion), cursor)

def directive (cursor : Cursor) : Option (Directive × Cursor) := do
  let (name, cursor) := (cursor.advance 1).takeWhile isWordChar
  if ¬ atGap cursor.rest then none
  let (directive, cursor) ←
    match String.ofList name with
    | "YAML" => versionDirective cursor
    | "TAG" => handleDirective cursor
    | _ => none
  return (directive, ← cursor.endLine?)

end Yaml

end VersionedFlags
