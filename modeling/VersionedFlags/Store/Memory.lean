import VersionedFlags.Realm
import VersionedFlags.Store.Call

/-!
# Databases in memory

A database holds the items of every realm, tombstones included, by the scope
that names their realm and kind, and the markers of initialized realms.
-/

namespace VersionedFlags

structure MemoryDatabase where
  scopes : KeyMap (KeyMap Item)
  markers : KeyMap Unit
  deriving DecidableEq, Repr

namespace MemoryDatabase

def empty : MemoryDatabase := ⟨.empty, .empty⟩

/-! ## Reading -/

def items (database : MemoryDatabase) (realm : Realm) (kind : Kind) :
    KeyMap Item :=
  (database.scopes.get? (realm.scope kind)).getD .empty

/-- What is stored under a key, be it a tombstone. -/
def stored? (database : MemoryDatabase) (realm : Realm) (kind : Kind)
    (key : String) : Option Item :=
  (database.items realm kind).get? key

def get? (database : MemoryDatabase) (realm : Realm) (kind : Kind)
    (key : String) : Option Item :=
  (database.stored? realm kind key).bind Item.visible?

def all (database : MemoryDatabase) (realm : Realm) (kind : Kind) :
    KeyMap Item :=
  (database.items realm kind).filter fun _ item => !item.deleted

def version? (database : MemoryDatabase) (realm : Realm) (kind : Kind)
    (key : String) : Option UInt64 :=
  (database.stored? realm kind key).map Item.version

def isInitialized (database : MemoryDatabase) (realm : Realm) : Bool :=
  database.markers.contains realm.marker

/-! ## Writing -/

def init (database : MemoryDatabase) (realm : Realm) (data : DataSet) :
    MemoryDatabase :=
  let scopes := data.parts.foldl
    (fun scopes part => scopes.insert (realm.scope part.1) part.2)
    database.scopes
  ⟨scopes, database.markers.insert realm.marker ()⟩

def put (database : MemoryDatabase) (realm : Realm) (kind : Kind)
    (item : Item) : MemoryDatabase :=
  let items := (database.items realm kind).insert item.key item
  { database with scopes := database.scopes.insert (realm.scope kind) items }

/-- Compares and writes in one step. -/
def write (database : MemoryDatabase) (realm : Realm) (kind : Kind)
    (item : Item) : Outcome × MemoryDatabase :=
  if item.supersedes (database.version? realm kind item.key) then
    (.applied, database.put realm kind item)
  else (.superseded, database)

end MemoryDatabase

end VersionedFlags
