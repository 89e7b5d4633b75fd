import VersionedFlags.Cache.Progress
import VersionedFlags.Config
import VersionedFlags.Store.Medium

/-!
# Sessions

A session opens any number of stores on shared and private media and works
with them step by step.  A cached store has a probe between its cache and its
backend.  The probe counts calls, refuses some, and runs steps between a
backend's reply and the moment at which the cache sees it.
-/

namespace VersionedFlags

namespace Session

/-! ## Steps -/

inductive Backing where
  | sharedMemory
  | sharedFile
  | ownMemory
  | ownFile
  | lostFile
  deriving DecidableEq, Repr

/-- Writes that come in between the two halves of an upsert, once. -/
structure Rivals where
  store : Nat
  kind : Kind
  items : List Item
  deriving DecidableEq, Repr

structure Opening where
  backing : Backing
  realm : Realm
  cache : Option Cache.Mode
  probed : Bool
  rivals : Option Rivals
  deriving DecidableEq, Repr

namespace Opening

/-- A store with a probe under its cache, if it has one.  Private media are
opened under the standard realm. -/
def direct (backing : Backing) (name : Option String)
    (cache : Option Cache.Mode) (rivals : Option Rivals) : Opening :=
  let realm :=
    match backing with
    | .ownMemory | .ownFile => .standard
    | _ => .ofName? name
  ⟨backing, realm, cache, true, rivals⟩

/-- A store as configured: without a cache if caching is disabled.  A private
database file is opened under the standard realm. -/
def configured (backing : Backing) (name : Option String)
    (cache : Cache.Mode) : Opening :=
  let realm :=
    match backing with
    | .ownFile => .standard
    | _ => .ofName? name
  ⟨backing, realm, if cache.isEnabled then some cache else none, false, none⟩

end Opening

inductive Step where
  | open (opening : Opening)
  | call (store : Nat) (call : Call)
  | bypass (store : Nat) (kind : Kind) (key : String)
  | clear (store : Nat)
  | clearSharedMemory
  | realm (store : Nat)
  | stats (store : Nat)
  | counts (store : Nat)
  | refuse (store : Nat) (calls : List String)
  | during (store : Nat) (call : String) (steps : List Step)
  | advance (nanos : Nat)
  | upsertAll (writes : List (Nat × Kind × Item))
  | dump
  | overwriteRow (row : Sqlite.Row)
  | addMarker (marker : String)
  | dropTable (name : String)
  | createTable (name : String)
  | recordVersion (version : Int)
  | overwriteFile (bytes : ByteArray)
  | invalid (error : DataError)

mutual

def Step.count : Step → Nat
  | .during _ _ steps => countAll steps + 1
  | _ => 1

def countAll : List Step → Nat
  | [] => 0
  | step :: rest => step.count + countAll rest

end

/-! ## Results -/

inductive Failure where
  | store (error : StoreError)
  | data (error : DataError)
  | aborted
  deriving DecidableEq, Repr

inductive Answer where
  | done
  | reply (call : Call) (answer : call.Answer)
  | text (text : String)
  | stats (stats : Option (Nat × Nat × Bool))
  | counts (counts : KeyMap Nat)
  | failures (count : Nat)
  | dump (rows : List Sqlite.Row) (markers : List String) (schema : List Int)

abbrev Result : Type := Except Failure Answer

/-! ## State -/

structure Probe where
  refused : List String
  armed : KeyMap (List Step)
  counts : KeyMap Nat

def Probe.idle : Probe := ⟨[], .empty, .empty⟩

structure Client where
  handle : Nat
  realm : Realm
  cache : Option (Cache.Mode × Cache.State)
  probe : Option Probe
  rivals : Option Rivals

structure World where
  cluster : Cluster
  /-- The stores in the order in which they were opened; opening may fail. -/
  clients : List (Option Client)
  now : Instant
  /-- Results of the steps that ran inside of the current one. -/
  inner : List Result

namespace World

def sharedMemory : Nat := 0

def sharedFile : Nat := 1

/-- Both shared media are empty and the clock stands at one second. -/
def start : World :=
  { cluster := ⟨[.memory .empty, .sqlite .fresh], []⟩
    clients := []
    now := ⟨nanosPerSecond⟩
    inner := [] }

def client? (world : World) (store : Nat) : Option Client :=
  world.clients[store]?.join

def setClient (world : World) (store : Nat) (client : Client) : World :=
  { world with clients := world.clients.set store (some client) }

def modifyClient (world : World) (store : Nat) (change : Client → Client) :
    World :=
  match world.client? store with
  | some client => world.setClient store (change client)
  | none => world

def modifyProbe (world : World) (store : Nat) (change : Probe → Probe) : World :=
  world.modifyClient store fun client =>
    { client with probe := client.probe.map change }

end World

end Session

end VersionedFlags
