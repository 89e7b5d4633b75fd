import VersionedFlags.DataSet.Basic
import VersionedFlags.Store.Error

/-!
# Calls of a store

Every store, be it a backend or a cache around one, serves the same six calls.
The type of the answer depends on the call.
-/

namespace VersionedFlags

inductive Outcome where
  | applied
  /-- A version as great or greater was stored already. -/
  | superseded
  deriving DecidableEq, Repr

def Outcome.describe : Outcome → String
  | .applied => "Applied"
  | .superseded => "Superseded"

inductive Call where
  /-- Replaces the kinds that the data set covers. -/
  | init (data : DataSet)
  | get (kind : Kind) (key : String)
  | all (kind : Kind)
  /-- Writes an item unless a version as great is stored. -/
  | upsert (kind : Kind) (item : Item)
  | initialized
  | close
  deriving DecidableEq, Repr

namespace Call

/-- A deletion is a write of a tombstone. -/
def delete (kind : Kind) (key : String) (version : UInt64) : Call :=
  .upsert kind (.tombstone key version)

abbrev Answer : Call → Type
  | .init _ => Unit
  | .get _ _ => Option Item
  | .all _ => KeyMap Item
  | .upsert _ _ => Outcome
  | .initialized => Bool
  | .close => Unit

def names : List String :=
  ["init", "get", "all", "upsert", "initialized", "close"]

def name : Call → String
  | .init _ => "init"
  | .get _ _ => "get"
  | .all _ => "all"
  | .upsert _ _ => "upsert"
  | .initialized => "initialized"
  | .close => "close"

abbrev Reply (call : Call) : Type := Except StoreError call.Answer

end Call

end VersionedFlags
