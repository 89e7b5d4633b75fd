import VersionedFlags.Json.Cursor
import VersionedFlags.Yaml.Cursor

/-!
# Scalars in YAML text

A scalar is plain, quoted or a block.  Inside of plain and quoted scalars a
single line break reads as a blank and of several all but the first are kept.
A reader gives `none` for a malformed scalar.
-/

namespace VersionedFlags

namespace Yaml

/-! ## Gaps -/

/-- Blanks and line breaks between two runs of characters. -/
structure Gap where
  blanks : List Char
  broken : Bool
  first : List Char
  others : List Char
  deriving DecidableEq, Repr

namespace Gap

def empty : Gap := ⟨[], false, [], []⟩

def escaped : Gap := ⟨[], true, [], []⟩

def text (gap : Gap) : List Char :=
  if gap.broken then
    if gap.first = ['\n'] then
      if gap.others.isEmpty then [' '] else gap.others
    else gap.first ++ gap.others
  else gap.blanks

def addBreak (gap : Gap) (text : List Char) : Gap :=
  if gap.broken then { gap with others := gap.others ++ text }
  else ⟨[], true, text, []⟩

def addBlank (gap : Gap) (c : Char) : Gap :=
  if gap.broken then gap else { gap with blanks := gap.blanks ++ [c] }

/-- Reads on through a gap.  On a new line no tab may stand before the column
`indent`. -/
def read (indent : Int) : Nat → Gap → Cursor → Option (Gap × Cursor)
  | 0, gap, cursor => some (gap, cursor)
  | fuel + 1, gap, cursor =>
      match cursor.rest with
      | [] => some (gap, cursor)
      | c :: _ =>
          if isBlank c then
            if gap.broken ∧ c = '\t' ∧ (cursor.column : Int) < indent then none
            else read indent fuel (gap.addBlank c) (cursor.advance 1)
          else if isBreak c then
            let (text, cursor) := cursor.takeBreak
            read indent fuel (gap.addBreak text) cursor
          else some (gap, cursor)

end Gap

/-! ## Plain scalars -/

def flowIndicators : List Char := [',', '[', ']', '\x7b', '\x7d']

/-- A run of a plain scalar; `flow` inside of brackets. -/
def plainRun (flow : Bool) : List Char → Option (List Char)
  | [] => some []
  | c :: rest =>
      if isGap c then some []
      else if flow && c == ':' && startsWithAny ('?' :: flowIndicators) rest then
        none
      else if c = ':' ∧ atGap rest then some []
      else if flow && flowIndicators.contains c then some []
      else (plainRun flow rest).map (c :: ·)

structure PlainScalar where
  text : List Char
  /-- Whether the scalar was left behind a line break. -/
  broken : Bool
  cursor : Cursor

def plainFrom (flow : Bool) (indent : Int) :
    Nat → List Char → Gap → Cursor → Option PlainScalar
  | 0, _, _, _ => none
  | fuel + 1, text, gap, cursor => do
      if cursor.atAnyMark ∨ startsWithAny ['#'] cursor.rest then
        return ⟨text, gap.broken, cursor⟩
      let run ← plainRun flow cursor.rest
      let cursor := cursor.advance run.length
      let (text, gap) :=
        if run.isEmpty then (text, gap) else (text ++ gap.text ++ run, .empty)
      if cursor.rest.isEmpty ∨ ¬ atGap cursor.rest then
        return ⟨text, gap.broken, cursor⟩
      let (gap, cursor) ← gap.read indent cursor.rest.length cursor
      if ¬ flow ∧ (cursor.column : Int) < indent then
        return ⟨text, gap.broken, cursor⟩
      plainFrom flow indent fuel text gap cursor

/-- A plain scalar below a collection of the given indent. -/
def plainScalar (flow : Bool) (indent : Int) (cursor : Cursor) :
    Option PlainScalar :=
  plainFrom flow (indent + 1) (cursor.rest.length + 1) [] .empty cursor

/-! ## Quoted scalars -/

def shortEscape? (c : Char) : Option Char :=
  match c with
  | '0' => some '\x00'
  | 'a' => some '\x07'
  | 'b' => some '\x08'
  | 't' | '\t' => some '\t'
  | 'n' => some '\n'
  | 'v' => some '\x0b'
  | 'f' => some '\x0c'
  | 'r' => some '\r'
  | 'e' => some '\x1b'
  | ' ' => some ' '
  | '"' => some '"'
  | '/' => some '/'
  | '\\' => some '\\'
  | 'N' => some '\u0085'
  | '_' => some '\u00a0'
  | 'L' => some '\u2028'
  | 'P' => some '\u2029'
  | _ => none

/-- How many hexadecimal digits follow the letter of an escape. -/
def codeLength? (c : Char) : Option Nat :=
  match c with
  | 'x' => some 2
  | 'u' => some 4
  | 'U' => some 8
  | _ => none

def codeChar? (digits : List Char) (length : Nat) : Option Char := do
  let values ← digits.mapM Json.hexValue?
  let code := values.foldl (fun code value => code * 16 + value) 0
  if values.length = length ∧ code.isValidChar then some (Char.ofNat code)
  else none

/-- The escaped character behind a backslash and the length of its escape. -/
def escape? : List Char → Option (Char × Nat)
  | [] => none
  | c :: rest =>
      match shortEscape? c, codeLength? c with
      | some decoded, _ => some (decoded, 1)
      | none, some length =>
          (codeChar? (rest.take length) length).map fun decoded =>
            (decoded, length + 1)
      | none, none => none

structure QuotedRun where
  text : List Char
  gap : Gap
  cursor : Cursor

/-- A run up to the closing quote or a gap; `text` is read so far. -/
def singleRun : Nat → List Char → Cursor → Option QuotedRun
  | 0, _, _ => none
  | fuel + 1, text, cursor =>
      match cursor.rest with
      | '\'' :: '\'' :: _ => singleRun fuel (text ++ ['\'']) (cursor.advance 2)
      | c :: _ =>
          if c = '\'' ∨ isGap c then some ⟨text, .empty, cursor⟩
          else singleRun fuel (text ++ [c]) (cursor.advance 1)
      | [] => some ⟨text, .empty, cursor⟩

def doubleRun : Nat → List Char → Cursor → Option QuotedRun
  | 0, _, _ => none
  | fuel + 1, text, cursor =>
      match cursor.rest with
      | '\\' :: rest =>
          if (Cursor.start rest).atBreak then
            some ⟨text, .escaped, (cursor.advance 1).takeBreak.2⟩
          else
            match escape? rest with
            | some (c, length) =>
                doubleRun fuel (text ++ [c]) (cursor.advance (length + 1))
            | none => none
      | c :: _ =>
          if c = '"' ∨ isGap c then some ⟨text, .empty, cursor⟩
          else doubleRun fuel (text ++ [c]) (cursor.advance 1)
      | [] => some ⟨text, .empty, cursor⟩

def quotedFrom (quote : Char)
    (run : Nat → List Char → Cursor → Option QuotedRun) :
    Nat → List Char → Cursor → Option (List Char × Cursor)
  | 0, _, _ => none
  | fuel + 1, text, cursor => do
      if cursor.atAnyMark ∨ cursor.rest.isEmpty then none
      let ⟨text, gap, cursor⟩ ← run (cursor.rest.length + 1) text cursor
      if startsWithAny [quote] cursor.rest then return (text, cursor.advance 1)
      let (gap, cursor) ← gap.read 0 cursor.rest.length cursor
      quotedFrom quote run fuel (text ++ gap.text) cursor

def quotedScalar (quote : Char) (cursor : Cursor) :
    Option (List Char × Cursor) :=
  let run := if quote = '\'' then singleRun else doubleRun
  quotedFrom quote run (cursor.rest.length + 1) [] (cursor.advance 1)

/-! ## Block scalars -/

inductive Chomping where
  | strip
  | clip
  | keep
  deriving DecidableEq, Repr

structure BlockHeader where
  chomping : Chomping
  deeper : Option Nat
  deriving DecidableEq, Repr

def chomping? : List Char → Option Chomping
  | '+' :: _ => some .keep
  | '-' :: _ => some .strip
  | _ => none

def deeper? : List Char → Option Nat
  | c :: _ => if c.isDigit then some (c.toNat - 48) else none
  | [] => none

/-- The two indicators come in either order. -/
def blockHeader (cursor : Cursor) : Option (BlockHeader × Cursor) := do
  let (chomping, deeper, cursor) :=
    match chomping? cursor.rest, deeper? cursor.rest with
    | some chomping, _ =>
        let cursor := cursor.advance 1
        match deeper? cursor.rest with
        | some deeper => (chomping, some deeper, cursor.advance 1)
        | none => (chomping, none, cursor)
    | none, some deeper =>
        let cursor := cursor.advance 1
        match chomping? cursor.rest with
        | some chomping => (chomping, some deeper, cursor.advance 1)
        | none => (.clip, some deeper, cursor)
    | none, none => (.clip, none, cursor)
  if deeper = some 0 then none
  return (⟨chomping, deeper⟩, ← cursor.endLine?)

/-- The line breaks before the next line that is not empty.  Without a known
indent the deepest column of the lines passed is given as well. -/
def blockBreaks (indent : Option Nat) :
    Nat → Nat → List Char → Cursor → Option (List Char × Nat × Cursor)
  | 0, _, _, _ => none
  | fuel + 1, deepest, breaks, cursor =>
      let spaces := (cursor.rest.takeWhile (· == ' ')).length
      let cursor :=
        match indent with
        | none => cursor.advance spaces
        | some indent => cursor.advance (min spaces (indent - cursor.column))
      let deepest := max deepest cursor.column
      let short : Bool :=
        match indent with
        | none => true
        | some indent => cursor.column < indent
      if short ∧ startsWithAny ['\t'] cursor.rest then none
      else if cursor.atBreak then
        let (text, cursor) := cursor.takeBreak
        blockBreaks indent fuel deepest (breaks ++ text) cursor
      else some (breaks, deepest, cursor)

/-- A block in the making: the text so far, the break that ended its last line
and the breaks of empty lines behind that. -/
structure Block where
  text : List Char
  last : List Char
  empty : List Char
  /-- Whether the last line started with a blank. -/
  blank : Bool
  deriving DecidableEq, Repr

/-- Adds what stands between the last line and one that starts with a blank or
not.  In a folded block a line feed between lines that do not is a blank. -/
def Block.join (block : Block) (folded blank : Bool) : List Char :=
  if folded && block.last == ['\n'] && !block.blank && !blank then
    if block.empty.isEmpty then block.text ++ [' ']
    else block.text ++ block.empty
  else block.text ++ block.last ++ block.empty

def Block.chomp (block : Block) (chomping : Chomping) : List Char :=
  match chomping with
  | .strip => block.text
  | .clip => block.text ++ block.last
  | .keep => block.text ++ block.last ++ block.empty

def blockLines (folded : Bool) (indent : Nat) :
    Nat → Block → Cursor → Option (Block × Cursor)
  | 0, _, _ => none
  | fuel + 1, block, cursor =>
      if cursor.column = indent ∧ ¬ cursor.rest.isEmpty then do
        let blank :=
          match cursor.rest with
          | c :: _ => isBlank c
          | [] => false
        let text := block.join folded blank
        let (line, cursor) := cursor.takeWhile fun c => !isBreak c
        let (last, cursor) := cursor.takeBreak
        let (empty, _, cursor) ←
          blockBreaks (some indent) (cursor.rest.length + 1) 0 [] cursor
        blockLines folded indent fuel ⟨text ++ line, last, empty, blank⟩ cursor
      else some (block, cursor)

/-- A block scalar from its indicator on, below a collection of the given
indent. -/
def blockScalar (folded : Bool) (parent : Int) (cursor : Cursor) :
    Option (List Char × Cursor) := do
  let (header, cursor) ← blockHeader (cursor.advance 1)
  let given := header.deeper.map fun deeper => deeper + parent.toNat
  let (empty, deepest, cursor) ←
    blockBreaks given (cursor.rest.length + 1) 0 [] cursor
  let indent := given.getD (max (max deepest (parent + 1).toNat) 1)
  let (block, cursor) ←
    blockLines folded indent (cursor.rest.length + 1) ⟨[], [], empty, false⟩
      cursor
  return (block.chomp header.chomping, cursor)

end Yaml

end VersionedFlags
