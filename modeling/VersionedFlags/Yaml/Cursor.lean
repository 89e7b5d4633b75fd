/-!
# Reading YAML text

A cursor stands in a text and knows its line and its column.  There are five
line breaks; the two of typewriters and the one of mainframes read as a line
feed, the two of Unicode as themselves.
-/

namespace VersionedFlags

namespace Yaml

/-! ## Characters -/

def isAllowed (c : Char) : Bool :=
  c == '\t' || c == '\n' || c == '\r' || c == '\u0085' ||
    (' ' ≤ c && c ≤ '~') || ('\u00a0' ≤ c && c ≤ '\ufffd') || '\uffff' < c

def isBlank (c : Char) : Bool := c == ' ' || c == '\t'

def isBreak (c : Char) : Bool :=
  c == '\n' || c == '\r' || c == '\u0085' || c == '\u2028' || c == '\u2029'

def isGap (c : Char) : Bool := isBlank c || isBreak c

/-- The characters of names of anchors, handles and directives. -/
def isWordChar (c : Char) : Bool := c.isAlphanum || c == '_' || c == '-'

def byteOrderMark : Char := '\ufeff'

def atGap : List Char → Bool
  | [] => true
  | c :: _ => isGap c

def startsWithAny (chars : List Char) : List Char → Bool
  | [] => false
  | c :: _ => chars.contains c

/-! ## Cursors -/

structure Cursor where
  rest : List Char
  index : Nat
  line : Nat
  column : Nat
  deriving DecidableEq, Repr

namespace Cursor

def start (text : List Char) : Cursor := ⟨text, 0, 0, 0⟩

/-- Passes characters that are no line breaks. -/
def advance (cursor : Cursor) (count : Nat) : Cursor :=
  { cursor with
    rest := cursor.rest.drop count
    index := cursor.index + count
    column := cursor.column + count }

def takeWhile (cursor : Cursor) (wanted : Char → Bool) : List Char × Cursor :=
  let taken := cursor.rest.takeWhile wanted
  (taken, cursor.advance taken.length)

def skipWhile (cursor : Cursor) (unwanted : Char → Bool) : Cursor :=
  (cursor.takeWhile unwanted).2

def newLine (cursor : Cursor) (rest : List Char) (width : Nat) : Cursor :=
  ⟨rest, cursor.index + width, cursor.line + 1, 0⟩

/-- Takes a line break and gives what it reads as; nothing at no break. -/
def takeBreak (cursor : Cursor) : List Char × Cursor :=
  match cursor.rest with
  | '\r' :: '\n' :: rest => (['\n'], cursor.newLine rest 2)
  | c :: rest =>
      if c = '\u2028' ∨ c = '\u2029' then ([c], cursor.newLine rest 1)
      else if isBreak c then (['\n'], cursor.newLine rest 1)
      else ([], cursor)
  | [] => ([], cursor)

def atBreak (cursor : Cursor) : Bool :=
  match cursor.rest with
  | c :: _ => isBreak c
  | [] => false

/-- Whether a line starts here that is a mark between documents. -/
def atMark (cursor : Cursor) (mark : Char) : Bool :=
  cursor.column == 0 && cursor.rest.take 3 == List.replicate 3 mark &&
    atGap (cursor.rest.drop 3)

def atAnyMark (cursor : Cursor) : Bool := cursor.atMark '-' || cursor.atMark '.'

/-- Passes the rest of a line that holds a comment at most. -/
def endLine? (cursor : Cursor) : Option Cursor :=
  let cursor := cursor.skipWhile isBlank
  let cursor :=
    if startsWithAny ['#'] cursor.rest then
      cursor.skipWhile fun c => !isBreak c
    else cursor
  match cursor.rest with
  | [] => some cursor
  | c :: _ => if isBreak c then some cursor.takeBreak.2 else none

end Cursor

end Yaml

end VersionedFlags
