import VersionedFlags.Yaml.Scalar
import VersionedFlags.Yaml.Token

/-!
# Tokens from YAML text

Whether a node is a key shows only at the colon behind it.  Until then it is a
candidate: its place among the tokens is kept, and the colon puts the token of
a key there and opens a block if the key stands deeper than the blocks that are
open.  `scan` gives `none` for a malformed text.
-/

namespace VersionedFlags

namespace Yaml

structure Candidate where
  /-- Nothing but a key may stand here. -/
  required : Bool
  place : Nat
  index : Nat
  line : Nat
  column : Nat
  deriving DecidableEq, Repr

structure Lexer where
  cursor : Cursor
  tokens : List Token
  /-- The columns of the open blocks, from the innermost. -/
  blocks : List Nat
  candidate : Option Candidate
  /-- The candidates outside of each open bracket, from the innermost. -/
  outer : List (Option Candidate)
  keyAllowed : Bool
  deriving DecidableEq, Repr

namespace Lexer

def start (text : List Char) : Lexer := ⟨.start text, [], [], none, [], true⟩

def inFlow (lexer : Lexer) : Bool := !lexer.outer.isEmpty

/-- The column of the innermost block; `-1` outside of all blocks. -/
def indent (lexer : Lexer) : Int :=
  match lexer.blocks with
  | [] => -1
  | column :: _ => column

def column (lexer : Lexer) : Nat := lexer.cursor.column

/-! ## Tokens -/

def emit (lexer : Lexer) (token : Token) : Lexer :=
  { lexer with tokens := token :: lexer.tokens }

def emitAt (lexer : Lexer) (place : Nat) (token : Token) : Lexer :=
  let (later, earlier) := lexer.tokens.splitAt (lexer.tokens.length - place)
  { lexer with tokens := later ++ token :: earlier }

def emitMark (lexer : Lexer) (token : Token) (width : Nat) : Lexer :=
  { lexer.emit token with cursor := lexer.cursor.advance width }

/-! ## Blocks -/

/-- Opens a block at a column that is deeper than the open ones. -/
def openBlock (lexer : Lexer) (column place : Nat) (opening : Token) : Lexer :=
  if lexer.inFlow ∨ (column : Int) ≤ lexer.indent then lexer
  else { lexer.emitAt place opening with blocks := column :: lexer.blocks }

def openBlockHere (lexer : Lexer) (opening : Token) : Lexer :=
  lexer.openBlock lexer.column lexer.tokens.length opening

def closeBlocks (lexer : Lexer) (column : Int) : Lexer :=
  if lexer.inFlow then lexer
  else
    let closed := lexer.blocks.takeWhile fun (block : Nat) => column < block
    { lexer with
      tokens := List.replicate closed.length .blockEnd ++ lexer.tokens
      blocks := lexer.blocks.drop closed.length }

/-! ## Candidates -/

def withdraw (lexer : Lexer) : Option Lexer :=
  if lexer.candidate.any Candidate.required then none
  else some { lexer with candidate := none }

/-- Makes what follows the candidate where a key is allowed. -/
def offer (lexer : Lexer) : Option Lexer :=
  if lexer.keyAllowed then do
    let required := !lexer.inFlow && lexer.indent == lexer.column
    let lexer ← lexer.withdraw
    return { lexer with
      candidate := some ⟨required, lexer.tokens.length, lexer.cursor.index,
        lexer.cursor.line, lexer.column⟩ }
  else some lexer

/-- A key stands on one line, at most 1024 characters before its colon. -/
def expire (cursor : Cursor) :
    Option Candidate → Option (Option Candidate)
  | none => some none
  | some candidate =>
      if candidate.line < cursor.line ∨ candidate.index + 1024 < cursor.index then
        if candidate.required then none else some none
      else some (some candidate)

def expireAll (lexer : Lexer) : Option Lexer := do
  let candidate ← expire lexer.cursor lexer.candidate
  let outer ← lexer.outer.mapM (expire lexer.cursor)
  return { lexer with candidate := candidate, outer := outer }

def allowKey (lexer : Lexer) (allowed : Bool) : Lexer :=
  { lexer with keyAllowed := allowed }

/-! ## Between tokens -/

/-- Passes blanks, comments and line breaks.  A tab is no indentation. -/
def passGaps : Nat → Lexer → Lexer
  | 0, lexer => lexer
  | fuel + 1, lexer =>
      let cursor := lexer.cursor
      let cursor :=
        if cursor.column = 0 ∧ startsWithAny [byteOrderMark] cursor.rest then
          cursor.advance 1
        else cursor
      let tabs := lexer.inFlow || !lexer.keyAllowed
      let cursor := cursor.skipWhile fun c => c == ' ' || (tabs && c == '\t')
      let cursor :=
        if startsWithAny ['#'] cursor.rest then
          cursor.skipWhile fun c => !isBreak c
        else cursor
      if cursor.atBreak then
        passGaps fuel { lexer with
          cursor := cursor.takeBreak.2
          keyAllowed := lexer.keyAllowed || !lexer.inFlow }
      else { lexer with cursor := cursor }

/-! ## Documents -/

def documentMark (lexer : Lexer) (token : Token) : Option Lexer := do
  let lexer ← (lexer.closeBlocks (-1)).withdraw
  return (lexer.emitMark token 3).allowKey false

def directiveLine (lexer : Lexer) : Option Lexer := do
  let lexer ← (lexer.closeBlocks (-1)).withdraw
  let (directive, cursor) ← directive lexer.cursor
  return { lexer.emit (.directive directive) with
    cursor := cursor, keyAllowed := false }

/-! ## Collections -/

def openBracket (lexer : Lexer) (token : Token) : Option Lexer := do
  let lexer ← lexer.offer
  return { lexer.emitMark token 1 with
    candidate := none
    outer := lexer.candidate :: lexer.outer
    keyAllowed := true }

def closeBracket (lexer : Lexer) (token : Token) : Option Lexer := do
  let lexer ← lexer.withdraw
  let lexer := (lexer.emitMark token 1).allowKey false
  match lexer.outer with
  | [] => return lexer
  | candidate :: outer =>
      return { lexer with candidate := candidate, outer := outer }

def comma (lexer : Lexer) : Option Lexer := do
  let lexer ← lexer.withdraw
  return (lexer.emitMark .comma 1).allowKey true

def entry (lexer : Lexer) : Option Lexer := do
  if ¬ lexer.inFlow ∧ ¬ lexer.keyAllowed then none
  let lexer ← (lexer.openBlockHere .blockSequence).withdraw
  return (lexer.emitMark .entry 1).allowKey true

def key (lexer : Lexer) : Option Lexer := do
  if ¬ lexer.inFlow ∧ ¬ lexer.keyAllowed then none
  let lexer ← (lexer.openBlockHere .blockMapping).withdraw
  return (lexer.emitMark .key 1).allowKey (!lexer.inFlow)

def value (lexer : Lexer) : Option Lexer :=
  match lexer.candidate with
  | some candidate =>
      let lexer := lexer.emitAt candidate.place .key
      let lexer :=
        lexer.openBlock candidate.column candidate.place .blockMapping
      some { lexer.emitMark .value 1 with
        candidate := none, keyAllowed := false }
  | none =>
      if ¬ lexer.inFlow ∧ ¬ lexer.keyAllowed then none
      else
        let lexer := lexer.openBlockHere .blockMapping
        some ((lexer.emitMark .value 1).allowKey (!lexer.inFlow))

/-! ## Nodes -/

/-- Emits what a reader finds at the cursor, as a candidate for a key. -/
def node {α : Type} (lexer : Lexer) (read : Cursor → Option (α × Cursor))
    (token : α → Token) : Option Lexer := do
  let lexer ← lexer.offer
  let (content, cursor) ← read lexer.cursor
  return { lexer.emit (token content) with
    cursor := cursor, keyAllowed := false }

def quoted (lexer : Lexer) (quote : Char) : Option Lexer :=
  lexer.node (quotedScalar quote) fun text =>
    .scalar (String.ofList text) false

/-- Behind a line break a key is allowed again. -/
def plain (lexer : Lexer) : Option Lexer := do
  let lexer ← lexer.offer
  let scalar ← plainScalar lexer.inFlow lexer.indent lexer.cursor
  return { lexer.emit (.scalar (String.ofList scalar.text) true) with
    cursor := scalar.cursor, keyAllowed := scalar.broken }

def block (lexer : Lexer) (folded : Bool) : Option Lexer := do
  if lexer.inFlow then none
  let lexer ← lexer.withdraw
  let (text, cursor) ← blockScalar folded lexer.indent lexer.cursor
  return { lexer.emit (.scalar (String.ofList text) false) with
    cursor := cursor, keyAllowed := true }

/-! ## Scanning -/

def next (lexer : Lexer) (c : Char) (rest : List Char) : Option Lexer :=
  let standsAlone := lexer.inFlow || atGap rest
  if c = '%' ∧ lexer.column = 0 then lexer.directiveLine
  else if lexer.cursor.atMark '-' then lexer.documentMark .documentStart
  else if lexer.cursor.atMark '.' then lexer.documentMark .documentEnd
  else
    match c with
    | '[' => lexer.openBracket .flowSequence
    | ']' => lexer.closeBracket .flowSequenceEnd
    | '\x7b' => lexer.openBracket .flowMapping
    | '\x7d' => lexer.closeBracket .flowMappingEnd
    | ',' => lexer.comma
    | '-' => if atGap rest then lexer.entry else lexer.plain
    | '?' => if standsAlone then lexer.key else lexer.plain
    | ':' => if standsAlone then lexer.value else lexer.plain
    | '*' => lexer.node anchorName .alias
    | '&' => lexer.node anchorName .anchor
    | '!' => lexer.node (tag lexer.inFlow) .tag
    | '|' => lexer.block false
    | '>' => lexer.block true
    | '\'' | '"' => lexer.quoted c
    | '\t' | '%' | '@' | '\x60' => none
    | _ => lexer.plain

def scanFrom : Nat → Lexer → Option (List Token)
  | 0, _ => none
  | fuel + 1, lexer => do
      let lexer ← (lexer.passGaps (lexer.cursor.rest.length + 1)).expireAll
      let lexer := lexer.closeBlocks lexer.column
      match lexer.cursor.rest with
      | [] =>
          let lexer ← (lexer.closeBlocks (-1)).withdraw
          return lexer.tokens.reverse
      | c :: rest => scanFrom fuel (← lexer.next c rest)

end Lexer

def Token.scan (text : List Char) : Option (List Token) :=
  if text.all isAllowed then
    Lexer.scanFrom (text.length + 1) (.start text)
  else none

end Yaml

end VersionedFlags
