import VersionedFlags.Cache.Mode
import VersionedFlags.DataSet.Basic

/-!
# Cached entries

A cache keeps the items it has seen, tombstones and known absences included,
and for each kind the live items.  Every write moves the generation on, so a
read that was under way when a write came can be told from a later one.
-/

namespace VersionedFlags

namespace Cache

/-! ## Entries -/

structure Entry (α : Type) where
  value : α
  expires : Option Instant
  deriving DecidableEq, Repr

def Entry.fresh? {α : Type} (entry : Entry α) (now : Instant) : Option α :=
  match entry.expires with
  | none => some entry.value
  | some moment => if now.nanos < moment.nanos then some entry.value else none

/-! ## State -/

/-- The generation and the counts of hits and misses do not wrap around, so they are
those of 64 bit counters as long as each of them counts fewer than `2 ^ 64`. -/
structure State where
  /-- What is stored under a key; `none` inside an entry is a known absence. -/
  items : PerKind (KeyMap (Entry (Option Item)))
  live : PerKind (Option (Entry (KeyMap Item)))
  /-- Until when the store counts as not initialized without asking. -/
  uninitializedUntil : Option Instant
  generation : Nat
  /-- Set once the store is known to be initialized. -/
  latched : Bool
  hits : Nat
  misses : Nat
  deriving DecidableEq, Repr

namespace State

def start : State := ⟨.const .empty, .const none, none, 0, false, 0, 0⟩

/-! ## Lookups -/

def item? (state : State) (now : Instant) (kind : Kind) (key : String) :
    Option (Option Item) :=
  ((state.items.get kind).get? key).bind fun entry => entry.fresh? now

def live? (state : State) (now : Instant) (kind : Kind) :
    Option (KeyMap Item) :=
  (state.live.get kind).bind fun entry => entry.fresh? now

def hit (state : State) : State := { state with hits := state.hits + 1 }

def miss (state : State) : State := { state with misses := state.misses + 1 }

def latch (state : State) : State := { state with latched := true }

/-! ## Recording -/

def setItem (state : State) (kind : Kind) (key : String)
    (entry : Entry (Option Item)) : State :=
  { state with
    items := state.items.modify kind fun items => items.insert key entry }

/-- Records a read that began at generation `seen`, unless a write came since. -/
def fillItem (state : State) (kind : Kind) (key : String)
    (entry : Entry (Option Item)) (seen : Nat) : State :=
  if state.generation = seen then state.setItem kind key entry else state

def fillLive (state : State) (kind : Kind) (entry : Entry (KeyMap Item))
    (seen : Nat) : State :=
  if state.generation = seen then
    { state with live := state.live.set kind (some entry) }
  else state

def advance (state : State) : State :=
  { state with generation := state.generation + 1 }

def dropLive (state : State) (kind : Kind) : State :=
  { state with live := state.live.set kind none }

/-- Records an applied write of the item. -/
def recordWrite (state : State) (kind : Kind) (item : Item)
    (expires : Option Instant) : State :=
  (state.advance.setItem kind item.key ⟨some item, expires⟩).dropLive kind

/-- Drops what a write of someone else may have outdated. -/
def recordLoss (state : State) (kind : Kind) (key : String) : State :=
  dropLive
    { state.advance with
      items := state.items.modify kind fun items => items.erase key }
    kind

def reset (state : State) (data : DataSet) (expires : Option Instant) : State :=
  { state.advance with
    items := data.kinds.map fun items? =>
      (items?.getD .empty).map fun _ item => ⟨some item, expires⟩
    live := data.kinds.map fun items? =>
      items?.map fun items =>
        ⟨items.filter fun _ item => !item.deleted, expires⟩ }

def clear (state : State) : State :=
  { state with items := .const .empty, live := .const none }

end State

end Cache

end VersionedFlags
