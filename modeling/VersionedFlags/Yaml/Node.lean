import VersionedFlags.KeyMap

/-!
# YAML documents

A document is one node with all that is nested in it.  An alias stands for the
node that carries its number as an anchor.
-/

namespace VersionedFlags

namespace Yaml

structure Properties where
  anchor : Option Nat
  tag : Option String
  deriving DecidableEq, Repr

def Properties.unset : Properties := ⟨none, none⟩

inductive Node where
  | scalar (properties : Properties) (text : String) (plain : Bool)
  | sequence (properties : Properties) (elements : List Node)
  | mapping (properties : Properties) (members : List (Node × Node))
  | alias (number : Nat)
  deriving Repr

namespace Node

/-- What stands where nothing is written. -/
def empty : Node := .scalar .unset "" true

instance : Inhabited Node := ⟨empty⟩

def properties : Node → Properties
  | .scalar properties _ _ => properties
  | .sequence properties _ => properties
  | .mapping properties _ => properties
  | .alias _ => .unset

/-! ## Nodes within nodes -/

mutual

def all : Node → List Node
  | .scalar properties text plain => [.scalar properties text plain]
  | .sequence properties elements =>
      .sequence properties elements :: allElements elements
  | .mapping properties members =>
      .mapping properties members :: allMembers members
  | .alias number => [.alias number]

def allElements : List Node → List Node
  | [] => []
  | element :: rest => all element ++ allElements rest

def allMembers : List (Node × Node) → List Node
  | [] => []
  | (key, value) :: rest => all key ++ all value ++ allMembers rest

end

/-- A collection counts once where it starts and once where it ends. -/
def weight : Node → Nat
  | .scalar .. | .alias _ => 1
  | .sequence .. | .mapping .. => 2

/-- The target of an alias: the last node that carries the number. -/
def target? (document : Node) (number : Nat) : Option Node :=
  document.all.findRev? fun node => node.properties.anchor == some number

def aliasLimit (document : Node) : Nat :=
  100 * document.all.foldl (fun total node => total + weight node) 0

end Node

end Yaml

end VersionedFlags
