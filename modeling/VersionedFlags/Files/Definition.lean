import VersionedFlags.DataSet.Basic

/-!
# Definitions in data files

A data file has three sections: full flag definitions, bare values that stand
for a flag serving them to everyone, and segment definitions.  A definition
becomes an item; its payload is the definition with its key filled in.
-/

namespace VersionedFlags

namespace Files

structure Sections where
  flags : KeyMap Json
  flagValues : KeyMap Json
  segments : KeyMap Json
  deriving DecidableEq, Repr

namespace Sections

def empty : Sections := ⟨.empty, .empty, .empty⟩

def names : List String := ["flags", "flagValues", "segments"]

end Sections

/-! ## Items of definitions -/

inductive Flaw where
  | notObject
  | foreignKey
  | badVersion
  | badDeleted
  | data (error : DataError)
  deriving DecidableEq, Repr

def Flaw.message : Flaw → String
  | .notObject => "definition must be an object"
  | .foreignKey => "\"key\" field does not match its map key"
  | .badVersion => "\"version\" must be a non-negative integer"
  | .badDeleted => "\"deleted\" must be a boolean"
  | .data error => error.message

def defaultVersion : UInt64 := 1

def versionOf : Option Json → Except Flaw UInt64
  | none => .ok defaultVersion
  | some (.integer number) =>
      match number.toUInt64? with
      | some version => .ok version
      | none => .error .badVersion
  | some _ => .error .badVersion

def deletedOf : Option Json → Except Flaw Bool
  | none => .ok false
  | some (.bool deleted) => .ok deleted
  | some _ => .error .badDeleted

def withKey (key : String) (members : List (String × Json)) :
    Except Flaw (List (String × Json)) :=
  match Assoc.lookup "key" members with
  | none => .ok (Assoc.insert "key" (.string key) members)
  | some value => if value = .string key then .ok members else .error .foreignKey

def itemOf (key : String) (definition : Json) : Except Flaw Item :=
  match definition with
  | .object members => do
      let members ← withKey key members
      let version ← versionOf (Assoc.lookup "version" members)
      let deleted ← deletedOf (Assoc.lookup "deleted" members)
      return ((((Item.Draft.start key).setVersion version).setDeleted
        deleted).setData (.object members)).build
  | _ => .error .notObject

def flagServing (key : String) (value : Json) : Json :=
  .ofMembers [
    ("key", .string key),
    ("on", .bool true),
    ("variations", .array [value]),
    ("fallthrough", .ofMembers [("variation", .ofWord 0)])]

structure BadDefinition where
  kind : Kind
  key : String
  flaw : Flaw
  deriving DecidableEq, Repr

def itemsOf (kind : Kind) (definitions : List (String × Json)) :
    Except BadDefinition (List (Kind × Item)) :=
  definitions.mapM fun definition =>
    match itemOf definition.1 definition.2 with
    | .ok item => .ok (kind, item)
    | .error flaw => .error ⟨kind, definition.1, flaw⟩

/-- The items of a file: flags, then flag values, then segments. -/
def Sections.items (sections : Sections) :
    Except BadDefinition (List (Kind × Item)) := do
  let flags ← itemsOf .features sections.flags.entries
  let values ←
    itemsOf .features (sections.flagValues.map flagServing).entries
  let segments ← itemsOf .segments sections.segments.entries
  return flags ++ values ++ segments

end Files

end VersionedFlags
