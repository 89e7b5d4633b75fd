import VersionedFlags.Cache.Progress
import VersionedFlags.Conformance.Flaw
import VersionedFlags.Store.Medium

/-!
# Test benches

A bench opens stores on one shared medium.  All of them have the flaw under
test, and those that are not opened bare have a cache above it.
-/

namespace VersionedFlags

namespace Conformance

/-- Items that another store writes between the two halves of an upsert. -/
structure Rivals where
  store : Nat
  kind : Kind
  items : List Item
  deriving DecidableEq, Repr

structure Stand where
  handle : Nat
  cache : Option Cache.State
  rivals : Option Rivals
  ownInit : Bool

structure Bench where
  cluster : Cluster
  flaw : Flaw
  mode : Cache.Mode
  stands : List Stand

abbrev Run : Type → Type := StateM Bench

namespace Bench

def start (medium : Medium) (flaw : Flaw) (mode : Cache.Mode) : Bench :=
  ⟨⟨[medium], []⟩, flaw, mode, []⟩

def now : Instant := ⟨nanosPerSecond⟩

def modifyStand (bench : Bench) (store : Nat) (change : Stand → Stand) :
    Bench :=
  { bench with stands := bench.stands.modify store change }

end Bench

/-! ## Opening and clearing -/

def realmFor (flaw : Flaw) (name : Option String) : Realm :=
  match flaw with
  | .realmIgnored | .realmsUnsupported => .standard
  | _ => .ofName? name

def openStand (name : Option String) (rivals : Option Rivals)
    (cached : Bool) : Run Nat := do
  let bench ← get
  let handle := bench.cluster.handles.length
  let stand : Stand := {
    handle
    cache := if cached ∧ bench.mode.isEnabled then some .start else none
    rivals := if bench.flaw = .rivalsIgnored then none else rivals
    ownInit := false }
  set { bench with
    cluster := bench.cluster.addHandle 0 (realmFor bench.flaw name)
    stands := bench.stands ++ [stand] }
  return bench.stands.length

def clearMedium : Run Unit :=
  modify fun bench =>
    if bench.flaw = .clearIgnored then bench
    else
      match bench.cluster.media[0]? with
      | some medium =>
          { bench with cluster := bench.cluster.setMedium 0 medium.clear.2 }
      | none => bench

/-! ## Calls -/

def onCluster {α : Type} (change : Cluster → Except StoreError α × Cluster) :
    Run (Except StoreError α) := do
  let bench ← get
  let (result, cluster) := change bench.cluster
  set { bench with cluster }
  return result

/-- A call below cache and flaw of a store that no rivals wait for. -/
def callPlain (handle : Nat) (call : Call) : Run call.Reply :=
  onCluster fun cluster => cluster.serve handle call

def callRivals (rivals : Rivals) : Run (Except StoreError Unit) := do
  let bench ← get
  match bench.stands[rivals.store]? with
  | none => return .error .closed
  | some stand =>
      Flaw.upsertEach
        (bench.flaw.serve stand.ownInit (callPlain stand.handle))
        (rivals.items.map fun item => (rivals.kind, item))

def upsertBackend (store : Nat) (stand : Stand) (kind : Kind) (item : Item) :
    Run (Except StoreError Outcome) := do
  match (← get).cluster.advise stand.handle kind item, stand.rivals with
  | .ok true, some rivals =>
      modify fun bench =>
        bench.modifyStand store fun stand => { stand with rivals := none }
      match ← callRivals rivals with
      | .error error => return .error error
      | .ok () =>
          onCluster fun cluster => cluster.commit stand.handle kind item
  | _, _ => callPlain stand.handle (.upsert kind item)

def callBackend (store : Nat) (stand : Stand) :
    (call : Call) → Run call.Reply
  | .upsert kind item => upsertBackend store stand kind item
  | call => callPlain stand.handle call

def noteInit (store : Nat) (call : Call) : Run Unit :=
  match call with
  | .init _ =>
      modify fun bench =>
        bench.modifyStand store fun stand => { stand with ownInit := true }
  | _ => pure ()

def callFlawed (store : Nat) (call : Call) : Run call.Reply := do
  let bench ← get
  match bench.stands[store]? with
  | none => return .error .closed
  | some stand =>
      noteInit store call
      bench.flaw.serve stand.ownInit (callBackend store stand) call

def surroundings (store : Nat) : Cache.Surroundings Run where
  now := return Bench.now
  load := return ((← get).stands[store]?.bind Stand.cache).getD .start
  save := fun state =>
    modify fun bench => bench.modifyStand store fun stand =>
      { stand with cache := some state }
  ask := callFlawed store

/-- A call of a store; `none` when it was aborted. -/
def callStand (store : Nat) (call : Call) : Run (Option call.Reply) := do
  let bench ← get
  match bench.stands[store]?.bind Stand.cache with
  | none => return some (← callFlawed store call)
  | some _ => Cache.serve (surroundings store) bench.mode call

end Conformance

end VersionedFlags
