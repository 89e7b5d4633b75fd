import VersionedFlags.Yaml.Node
import VersionedFlags.Yaml.Plain

/-!
# JSON values in YAML documents

A document is read along its aliases.  To follow one more alias than its limit
allows is a fault, and so is a value nested too deep, a key that is no scalar
and a tag of the document's own.
-/

namespace VersionedFlags

namespace Yaml

/-- How many collections may be open at once. -/
def depthLimit : Nat := 128

/-- Reads a document; the state is how many more aliases may be followed. -/
abbrev Walk := StateT Nat Option

namespace Node

def hasOwnTag (node : Node) : Bool :=
  node.properties.tag.any fun tag => tag.toList.head? == some '!'

/-- The node that a node stands for. -/
def followed (document : Node) : Node → Walk Node
  | .alias number => do
      let left ← get
      if left = 0 then failure
      set (left - 1)
      document.target? number
  | node => return node

/-- The text of a scalar, whatever its tag. -/
def keyText (document node : Node) : Walk String := do
  match ← document.followed node with
  | .scalar _ text _ => return text
  | _ => failure

/-- The value of a node within `depth` more collections. -/
def value (document : Node) : Nat → Node → Walk Json
  | depth, node => do
      let node ← document.followed node
      if node.hasOwnTag then failure
      match node with
      | .scalar properties text plain => scalarValue? properties.tag text plain
      | .sequence _ elements =>
          match depth with
          | 0 => failure
          | depth + 1 =>
              return .array (← elements.mapM (value document depth))
      | .mapping _ members =>
          match depth with
          | 0 => failure
          | depth + 1 =>
              return .ofMembers (← members.mapM fun (key, node) => do
                return (← document.keyText key, ← value document depth node))
      | .alias _ => failure

/-- The members of a mapping; a place left empty has none. -/
def members (document node : Node) : Walk (List (Node × Node)) := do
  match ← document.followed node with
  | .mapping _ members => return members
  | .scalar _ "" true => return []
  | _ => failure

/-- The values of a mapping within `depth` collections; of a repeated key the
last one stays. -/
def valueMap (document : Node) (depth : Nat) (node : Node) :
    Walk (KeyMap Json) := do
  let members ← document.members node
  let entries ← members.mapM fun (key, node) => do
    return (← document.keyText key, ← document.value depth node)
  return .ofList entries

end Node

end Yaml

end VersionedFlags
