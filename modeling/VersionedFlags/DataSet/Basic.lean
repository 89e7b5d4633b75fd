import VersionedFlags.Item.Basic
import VersionedFlags.Kind

/-!
# Data sets

A data set lists the items of the kinds it covers.  Initializing a store with it
replaces those kinds and leaves the others alone.
-/

namespace VersionedFlags

structure DataSet where
  kinds : PerKind (Option (KeyMap Item))
  deriving DecidableEq, Repr

namespace DataSet

def bare : DataSet := ⟨.const none⟩

/-- The data set that covers every kind and has no item. -/
def empty : DataSet := ⟨.const (some .empty)⟩

def items? (data : DataSet) (kind : Kind) : Option (KeyMap Item) :=
  data.kinds.get kind

def get? (data : DataSet) (kind : Kind) (key : String) : Option Item :=
  (data.items? kind).bind fun items => items.get? key

def parts (data : DataSet) : List (Kind × KeyMap Item) :=
  data.kinds.toList.filterMap fun part => part.2.map fun items => (part.1, items)

def count (data : DataSet) : Nat :=
  data.parts.foldl (fun total part => total + part.2.size) 0

def isEmpty (data : DataSet) : Bool := data.count == 0

/-! ## Building -/

/-- A data set in the making covers every kind from the start. -/
structure Builder where
  items : PerKind (KeyMap Item)
  deriving DecidableEq, Repr

namespace Builder

def start : Builder := ⟨.const .empty⟩

def contains (builder : Builder) (kind : Kind) (key : String) : Bool :=
  (builder.items.get kind).contains key

/-- Replaces an item added under the same key. -/
def add (builder : Builder) (kind : Kind) (item : Item) : Builder :=
  ⟨builder.items.modify kind fun items => items.insert item.key item⟩

def addAll (builder : Builder) (kind : Kind) (items : List Item) : Builder :=
  items.foldl (fun builder item => builder.add kind item) builder

/-- Refuses an empty key and a key that was already added. -/
def tryAdd (builder : Builder) (kind : Kind) (item : Item) :
    Except DataError Builder :=
  if item.key = "" then .error .emptyKey
  else if builder.contains kind item.key then
    .error (.duplicateKey kind item.key)
  else .ok (builder.add kind item)

def build (builder : Builder) : DataSet := ⟨builder.items.map some⟩

end Builder

end DataSet

end VersionedFlags
