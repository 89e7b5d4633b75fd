import VersionedFlags.Store.Memory
import VersionedFlags.Store.Sqlite.Tables

/-!
# Handles on shared media

A medium is a database in memory or a database file.  Any number of handles
share it, each with its own realm.  An upsert reads the stored version first
and then compares and writes in one step, so writers that come in between are
noticed.
-/

namespace VersionedFlags

inductive Medium where
  | memory (database : MemoryDatabase)
  | sqlite (image : Sqlite.Image)
  deriving DecidableEq, Repr

namespace Medium

/-! ## Operations under a realm -/

def init (medium : Medium) (realm : Realm) (data : DataSet) :
    Except StoreError Medium :=
  match medium with
  | .memory database => .ok (.memory (database.init realm data))
  | .sqlite image => do
      let tables ← (← image.tables).init realm data
      return .sqlite (.intact tables)

def get? (medium : Medium) (realm : Realm) (kind : Kind) (key : String) :
    Except StoreError (Option Item) :=
  match medium with
  | .memory database => .ok (database.get? realm kind key)
  | .sqlite image => do (← image.tables).get? realm kind key

def all (medium : Medium) (realm : Realm) (kind : Kind) :
    Except StoreError (KeyMap Item) :=
  match medium with
  | .memory database => .ok (database.all realm kind)
  | .sqlite image => do (← image.tables).all realm kind

def isInitialized (medium : Medium) (realm : Realm) : Except StoreError Bool :=
  match medium with
  | .memory database => .ok (database.isInitialized realm)
  | .sqlite image => do (← image.tables).isInitialized realm

def advise (medium : Medium) (realm : Realm) (kind : Kind) (item : Item) :
    Except StoreError Bool :=
  match medium with
  | .memory database =>
      .ok (item.supersedes (database.version? realm kind item.key))
  | .sqlite image => do
      let stored ← (← image.tables).version? realm kind item.key
      return item.supersedes stored

/-- The conditional write through a handle that may have been closed since the
stored version was read; only a database file minds. -/
def commit (medium : Medium) (realm : Realm) (closed : Bool) (kind : Kind)
    (item : Item) : Except StoreError (Outcome × Medium) :=
  match medium with
  | .memory database =>
      let (outcome, database) := database.write realm kind item
      .ok (outcome, .memory database)
  | .sqlite image => do
      let version ← Sqlite.Tables.versionCell item
      if closed then .error .closed
      let (outcome, tables) ← (← image.tables).write realm kind item version
      return (outcome, .sqlite (.intact tables))

/-- Deletes everything of every realm, as far as that succeeds. -/
def clear (medium : Medium) : Except StoreError Unit × Medium :=
  match medium with
  | .memory _ => (.ok (), .memory .empty)
  | .sqlite .damaged => (.error .database, medium)
  | .sqlite (.intact tables) =>
      let (result, tables) := tables.clear
      (result, .sqlite (.intact tables))

def mindsClosing (medium : Medium) : Bool :=
  match medium with
  | .memory _ => false
  | .sqlite _ => true

end Medium

/-! ## Handles -/

structure Handle where
  medium : Nat
  realm : Realm
  closed : Bool
  deriving DecidableEq, Repr

structure Cluster where
  media : List Medium
  handles : List Handle
  deriving DecidableEq, Repr

namespace Cluster

def addMedium (cluster : Cluster) (medium : Medium) : Cluster :=
  { cluster with media := cluster.media ++ [medium] }

def addHandle (cluster : Cluster) (medium : Nat) (realm : Realm) : Cluster :=
  { cluster with handles := cluster.handles ++ [⟨medium, realm, false⟩] }

def setMedium (cluster : Cluster) (index : Nat) (medium : Medium) : Cluster :=
  { cluster with media := cluster.media.set index medium }

/-- An unknown handle is as good as a closed one. -/
def handle (cluster : Cluster) (index : Nat) :
    Except StoreError (Handle × Medium) :=
  match cluster.handles[index]? with
  | none => .error .closed
  | some handle =>
      match cluster.media[handle.medium]? with
      | none => .error .closed
      | some medium => .ok (handle, medium)

def openHandle (cluster : Cluster) (index : Nat) :
    Except StoreError (Handle × Medium) := do
  let (handle, medium) ← cluster.handle index
  if handle.closed then .error .closed
  return (handle, medium)

def close (cluster : Cluster) (index : Nat) : Cluster :=
  { cluster with
    handles := cluster.handles.modify index fun handle =>
      { handle with closed := true } }

/-! ## Calls -/

def advise (cluster : Cluster) (index : Nat) (kind : Kind) (item : Item) :
    Except StoreError Bool := do
  let (handle, medium) ← cluster.openHandle index
  medium.advise handle.realm kind item

def commit (cluster : Cluster) (index : Nat) (kind : Kind) (item : Item) :
    Except StoreError Outcome × Cluster :=
  let result := do
    let (handle, medium) ← cluster.handle index
    let (outcome, medium) ← medium.commit handle.realm handle.closed kind item
    return (outcome, cluster.setMedium handle.medium medium)
  match result with
  | .ok (outcome, cluster) => (.ok outcome, cluster)
  | .error error => (.error error, cluster)

def upsert (cluster : Cluster) (index : Nat) (kind : Kind) (item : Item) :
    Except StoreError Outcome × Cluster :=
  match cluster.advise index kind item with
  | .error error => (.error error, cluster)
  | .ok false => (.ok .superseded, cluster)
  | .ok true => cluster.commit index kind item

def init (cluster : Cluster) (index : Nat) (data : DataSet) :
    Except StoreError Unit × Cluster :=
  let result := do
    let (handle, medium) ← cluster.openHandle index
    let medium ← medium.init handle.realm data
    return cluster.setMedium handle.medium medium
  match result with
  | .ok cluster => (.ok (), cluster)
  | .error error => (.error error, cluster)

def serve (cluster : Cluster) (index : Nat) (call : Call) :
    call.Reply × Cluster :=
  match call with
  | .init data => cluster.init index data
  | .get kind key =>
      let reply := do
        let (handle, medium) ← cluster.openHandle index
        medium.get? handle.realm kind key
      (reply, cluster)
  | .all kind =>
      let reply := do
        let (handle, medium) ← cluster.openHandle index
        medium.all handle.realm kind
      (reply, cluster)
  | .upsert kind item => cluster.upsert index kind item
  | .initialized =>
      let reply := do
        let (handle, medium) ← cluster.openHandle index
        medium.isInitialized handle.realm
      (reply, cluster)
  | .close => (.ok (), cluster.close index)

/-- Clears the medium of a handle; a database file is cleared through the
handle itself, which must be open. -/
def clear (cluster : Cluster) (index : Nat) :
    Except StoreError Unit × Cluster :=
  match cluster.handle index with
  | .error error => (.error error, cluster)
  | .ok (handle, medium) =>
      if handle.closed ∧ medium.mindsClosing then (.error .closed, cluster)
      else
        let (result, medium) := medium.clear
        (result, cluster.setMedium handle.medium medium)

end Cluster

end VersionedFlags
