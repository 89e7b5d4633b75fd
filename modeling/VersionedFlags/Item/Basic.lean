import VersionedFlags.Json.Basic

/-!
# Versioned items

An item is a payload under a key at a version.  A deleted item keeps its
version, so that a stale write cannot bring the key back.
-/

namespace VersionedFlags

structure Item where
  key : String
  version : UInt64
  deleted : Bool
  data : Json
  deriving DecidableEq, Repr

namespace Item

def live (key : String) (version : UInt64) (data : Json) : Item :=
  ⟨key, version, false, data⟩

def tombstone (key : String) (version : UInt64) : Item :=
  ⟨key, version, true, .null⟩

/-- Only a strictly greater version replaces a stored one. -/
def supersedes (item : Item) : Option UInt64 → Bool
  | none => true
  | some stored => stored < item.version

/-- The item as readers of a store see it. -/
def visible? (item : Item) : Option Item :=
  if item.deleted then none else some item

/-- Items agree when their payloads do and everything else is equal. -/
def same (left right : Item) : Bool :=
  left.key == right.key && left.version == right.version &&
    left.deleted == right.deleted && left.data.same right.data

/-! ## Drafts -/

/-- An item in the making; setters may come in any order and number. -/
structure Draft where
  key : String
  version : UInt64
  deleted : Bool
  data : Json
  deriving DecidableEq, Repr

namespace Draft

def start (key : String) : Draft := ⟨key, 1, false, .object []⟩

def ofItem (item : Item) : Draft :=
  ⟨item.key, item.version, item.deleted, item.data⟩

def setVersion (draft : Draft) (version : UInt64) : Draft :=
  { draft with version := version }

def setDeleted (draft : Draft) (deleted : Bool) : Draft :=
  { draft with deleted := deleted }

def setData (draft : Draft) (data : Json) : Draft :=
  { draft with data := data }

/-- A deleted draft loses its payload. -/
def build (draft : Draft) : Item :=
  if draft.deleted then tombstone draft.key draft.version
  else live draft.key draft.version draft.data

end Draft

end Item

end VersionedFlags
