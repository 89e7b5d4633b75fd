import VersionedFlags.Yaml.Node
import VersionedFlags.Yaml.Token.Lexer

/-!
# Documents from tokens

Each function reads one production of the grammar and fails on a malformed
text.  Collections are read by loops over a reader for the nodes in them, so
that recursion is on the depth of nesting.
-/

namespace VersionedFlags

namespace Yaml

/-! ## Handles -/

structure Prolog where
  versioned : Bool
  handles : KeyMap String
  deriving DecidableEq, Repr

namespace Prolog

def empty : Prolog := ⟨false, .empty⟩

/-- A document names its version and declares a handle at most once. -/
def add (prolog : Prolog) : Directive → Option Prolog
  | .version major minor =>
      if ¬ prolog.versioned ∧ major = 1 ∧ (minor = 1 ∨ minor = 2) then
        some { prolog with versioned := true }
      else none
  | .handle handle expansion =>
      if prolog.handles.contains handle then none
      else some { prolog with
        handles := prolog.handles.insert handle expansion }

def handle? (prolog : Prolog) (handle : String) : Option String :=
  match prolog.handles.get? handle, handle with
  | some expansion, _ => some expansion
  | none, "!" => some "!"
  | none, "!!" => some "tag:yaml.org,2002:"
  | none, _ => none

def expand? (prolog : Prolog) (tag : ShortTag) : Option String :=
  if tag.handle.isEmpty then some tag.suffix
  else (prolog.handle? tag.handle).map (· ++ tag.suffix)

end Prolog

/-! ## Reading tokens -/

structure Unread where
  tokens : List Token
  anchors : KeyMap Nat
  deriving DecidableEq, Repr

abbrev Reader := StateT Unread Option

namespace Reader

def next : Reader (Option Token) := return (← get).tokens.head?

def pass : Reader Unit :=
  modify fun unread => { unread with tokens := unread.tokens.tail }

def isAt (tokens : List Token) : Reader Bool :=
  return (← next).any tokens.contains

def passed (token : Token) : Reader Bool := do
  if ← isAt [token] then
    pass
    return true
  else return false

/-- Reads a node unless one of the tokens shows that there is none. -/
def unlessAt (tokens : List Token) (node : Reader Node) : Reader Node := do
  if ← isAt tokens then return .empty else node

/-! ## Properties -/

def anchor? : Reader (Option String) := do
  match ← next with
  | some (.anchor name) =>
      pass
      return some name
  | _ => return none

def tag? (prolog : Prolog) : Reader (Option String) := do
  match ← next with
  | some (.tag tag) =>
      pass
      return some (← prolog.expand? tag)
  | _ => return none

/-- Gives an anchor the number of names that were in use before. -/
def place (name : String) : Reader Nat := do
  let number := (← get).anchors.size
  modify fun unread =>
    { unread with anchors := unread.anchors.insert name number }
  return number

def properties (prolog : Prolog) : Reader Properties := do
  let before ← anchor?
  let tag ← tag? prolog
  let name ← if before.isSome then pure before else anchor?
  return ⟨← name.mapM place, tag⟩

/-! ## Blocks -/

def elements (node : Reader Node) : Nat → Reader (List Node)
  | 0 => failure
  | fuel + 1 => do
      if ← passed .entry then
        let element ← unlessAt [.entry, .blockEnd] node
        return element :: (← elements node fuel)
      else if ← passed .blockEnd then return []
      else failure

/-- The elements of a sequence that is no deeper than the mapping around it. -/
def looseElements (node : Reader Node) : Nat → Reader (List Node)
  | 0 => failure
  | fuel + 1 => do
      if ← passed .entry then
        let element ← unlessAt [.entry, .key, .value, .blockEnd] node
        return element :: (← looseElements node fuel)
      else return []

def members (node : Reader Node) : Nat → Reader (List (Node × Node))
  | 0 => failure
  | fuel + 1 => do
      if ← passed .key then
        let key ← unlessAt [.key, .value, .blockEnd] node
        let value ←
          if ← passed .value then unlessAt [.key, .value, .blockEnd] node
          else pure .empty
        return (key, value) :: (← members node fuel)
      else if ← passed .blockEnd then return []
      else failure

/-! ## Brackets -/

/-- The value of a key within brackets. -/
def flowValue (close : Token) (node : Reader Node) : Reader Node := do
  if ← passed .value then unlessAt [.comma, close] node else return .empty

/-- A mapping of one member without brackets of its own.  A token that shows
that there is no key is passed. -/
def flowPair (node : Reader Node) : Reader Node := do
  let key ←
    if ← isAt [.value, .comma, .flowSequenceEnd] then
      pass
      pure .empty
    else node
  let value ← flowValue .flowSequenceEnd node
  return .mapping .unset [(key, value)]

def flowElements (node : Reader Node) : Nat → Bool → Reader (List Node)
  | 0, _ => failure
  | fuel + 1, first => do
      if ← passed .flowSequenceEnd then return []
      unless first || (← passed .comma) do failure
      if ← passed .flowSequenceEnd then return []
      let element ← if ← passed .key then flowPair node else node
      return element :: (← flowElements node fuel false)

def flowMembers (node : Reader Node) :
    Nat → Bool → Reader (List (Node × Node))
  | 0, _ => failure
  | fuel + 1, first => do
      if ← passed .flowMappingEnd then return []
      unless first || (← passed .comma) do failure
      if ← passed .flowMappingEnd then return []
      if ← passed .key then
        let key ← unlessAt [.value, .comma, .flowMappingEnd] node
        let value ← flowValue .flowMappingEnd node
        return (key, value) :: (← flowMembers node fuel false)
      else
        let key ← node
        return (key, .empty) :: (← flowMembers node fuel false)

/-! ## Nodes -/

/-- A node with at most `depth` collections open around its innermost part;
`loose` where a sequence need not be deeper. -/
def node (prolog : Prolog) (loose : Bool) : Nat → Reader Node
  | 0 => failure
  | depth + 1 => do
      if let some (.alias name) ← next then
        pass
        return .alias (← (← get).anchors.get? name)
      let properties ← properties prolog
      let fuel := (← get).tokens.length + 1
      let inBlock := node prolog false depth
      let inMapping := node prolog true depth
      match ← next with
      | some (.scalar text plain) =>
          pass
          return .scalar properties text plain
      | some .blockSequence =>
          pass
          return .sequence properties (← elements inBlock fuel)
      | some .blockMapping =>
          pass
          return .mapping properties (← members inMapping fuel)
      | some .flowSequence =>
          pass
          return .sequence properties (← flowElements inBlock fuel true)
      | some .flowMapping =>
          pass
          return .mapping properties (← flowMembers inBlock fuel true)
      | some .entry =>
          if loose then
            return .sequence properties (← looseElements inBlock fuel)
          else if properties = .unset then failure
          else return .scalar properties "" true
      | _ =>
          if properties = .unset then failure
          else return .scalar properties "" true

/-! ## Documents -/

def directives : Nat → Prolog → Reader Prolog
  | 0, prolog => return prolog
  | fuel + 1, prolog => do
      match ← next with
      | some (.directive directive) =>
          pass
          directives fuel (← prolog.add directive)
      | _ => return prolog

def document : Reader Node := do
  let fuel := (← get).tokens.length + 1
  let prolog ← directives fuel .empty
  if ← passed .documentStart then
    match ← next with
    | none | some (.directive _) | some .documentStart | some .documentEnd =>
        return .empty
    | some _ => node prolog false fuel
  else if prolog = .empty then node prolog false fuel
  else failure

end Reader

/-- The document of a text, or `some none` if nothing is written in it. -/
def Node.ofText? (text : String) : Option (Option Node) := do
  let tokens ← Token.scan text.toList
  if tokens.isEmpty then return none
  let (node, unread) ← Reader.document.run ⟨tokens, .empty⟩
  if (unread.tokens.dropWhile (· == .documentEnd)).isEmpty then
    return some node
  else failure

end Yaml

end VersionedFlags
