import VersionedFlags.Session.World

/-!
# Running a session

Each step answers or fails, and the session goes on after a failure.  Steps can
run inside of others, through probes and rival writes.  Each of these goes off
once, so the number of steps of the whole session bounds how deep they nest.
-/

namespace VersionedFlags

namespace Session

abbrev Act : Type → Type := ExceptT Failure (StateM World)

/-- What a step may call for inside of itself. -/
structure Nested where
  call : Nat → (call : Call) → Act call.Answer
  step : Step → Act Answer

def refusal {α : Type} (error : StoreError) : Act α := throw (.store error)

def ofReply {α : Type} : Except StoreError α → Act α
  | .ok answer => pure answer
  | .error error => refusal error

/-- Waits for what an action comes to; only an abort goes further. -/
def settled {α : Type} (action : Act α) : Act (Except StoreError α) :=
  tryCatch (Except.ok <$> action) fun
    | .store error => pure (.error error)
    | failure => throw failure

/-- A store that failed to open is as good as closed. -/
def clientOf (store : Nat) : Act Client := do
  match (← get).client? store with
  | some client => return client
  | none => refusal .closed

/-! ## Calls of a backend -/

def onCluster {α : Type} (change : Cluster → Except StoreError α × Cluster) :
    Act α := do
  let (result, cluster) := change (← get).cluster
  modify fun world => { world with cluster }
  ofReply result

/-- The rival writes go off at the first chance; if one of them fails, the
upsert that they came in between is aborted. -/
def runRivals (nested : Nested) (store : Nat) (client : Client) : Act Unit :=
  match client.rivals with
  | none => pure ()
  | some rivals => do
      modify fun world =>
        world.modifyClient store fun client => { client with rivals := none }
      for item in rivals.items do
        match ← settled (nested.call rivals.store (.upsert rivals.kind item)) with
        | .ok _ => pure ()
        | .error _ => throw .aborted

def upsertBackend (nested : Nested) (store : Nat) (kind : Kind) (item : Item) :
    Act Outcome := do
  let client ← clientOf store
  if ← ofReply ((← get).cluster.advise client.handle kind item) then
    runRivals nested store client
    onCluster fun cluster => cluster.commit client.handle kind item
  else return .superseded

def callBackend (nested : Nested) (store : Nat) :
    (call : Call) → Act call.Answer
  | .upsert kind item => upsertBackend nested store kind item
  | call => do
      let client ← clientOf store
      onCluster fun cluster => cluster.serve client.handle call

/-! ## Calls through a probe -/

def Probe.countCall (probe : Probe) (call : Call) : Probe :=
  let count := (probe.counts.get? call.name).getD 0
  { probe with counts := probe.counts.insert call.name (count + 1) }

def Probe.disarm (probe : Probe) (call : Call) : Probe :=
  { probe with armed := probe.armed.erase call.name }

def logged (action : Act Answer) : Act Unit := do
  let result ← (tryCatch (Except.ok <$> action) fun failure =>
    pure (.error failure) : Act Result)
  modify fun world => { world with inner := world.inner ++ [result] }

def callProbe (nested : Nested) (store : Nat) (call : Call) :
    Act call.Answer := do
  match (← clientOf store).probe with
  | none => callBackend nested store call
  | some probe =>
      modify fun world => world.modifyProbe store fun probe =>
        probe.countCall call
      if probe.refused.contains call.name then
        refusal (.refused call.name)
      let reply ← settled (callBackend nested store call)
      if let some probe := (← clientOf store).probe then
        modify fun world => world.modifyProbe store fun probe =>
          probe.disarm call
        for step in (probe.armed.get? call.name).getD [] do
          logged (nested.step step)
      ofReply reply

/-! ## Calls of a store -/

def surroundings (nested : Nested) (store : Nat) : Cache.Surroundings Act where
  now := return (← get).now
  load := do
    match (← clientOf store).cache with
    | some (_, state) => return state
    | none => return .start
  save := fun state =>
    modify fun world => world.modifyClient store fun client =>
      { client with cache := client.cache.map fun cache => (cache.1, state) }
  ask := fun call => settled (callProbe nested store call)

def callStore (nested : Nested) (store : Nat) (call : Call) :
    Act call.Answer := do
  match (← clientOf store).cache with
  | none => callBackend nested store call
  | some (mode, _) =>
      match ← Cache.serve (surroundings nested store) mode call with
      | some reply => ofReply reply
      | none => throw .aborted

/-! ## Opening -/

def migrateFile (medium : Nat) : Act Unit := do
  match (← get).cluster.media[medium]? with
  | some (.sqlite (.intact tables)) =>
      match tables.migrate with
      | .done tables =>
          modify fun world =>
            { world with
              cluster := world.cluster.setMedium medium
                (.sqlite (.intact tables)) }
      | .failed error => refusal error
      | .aborted => throw .aborted
  | _ => refusal .database

def newMedium (medium : Medium) : Act Nat := do
  let index := (← get).cluster.media.length
  modify fun world => { world with cluster := world.cluster.addMedium medium }
  return index

/-- The index of the medium, ready for use. -/
def prepare : Backing → Act Nat
  | .sharedMemory => return World.sharedMemory
  | .ownMemory => newMedium (.memory .empty)
  | .sharedFile => do
      migrateFile World.sharedFile
      return World.sharedFile
  | .ownFile => do
      let medium ← newMedium (.sqlite .fresh)
      migrateFile medium
      return medium
  | .lostFile => refusal .database

def connect (opening : Opening) : Act Client := do
  let medium ← prepare opening.backing
  let handle := (← get).cluster.handles.length
  modify fun world =>
    { world with cluster := world.cluster.addHandle medium opening.realm }
  let probed := opening.probed && opening.cache.isSome
  return {
    handle
    realm := opening.realm
    cache := opening.cache.map fun mode => (mode, .start)
    probe := if probed then some .idle else none
    rivals := opening.rivals }

/-- A store that fails to open takes a number, too. -/
def openStore (opening : Opening) : Act Unit :=
  tryCatch
    (do
      let client ← connect opening
      modify fun world =>
        { world with clients := world.clients ++ [some client] })
    fun failure => do
      modify fun world => { world with clients := world.clients ++ [none] }
      throw failure

/-! ## Steps -/

def onTables {α : Type}
    (change : Sqlite.Tables → Except StoreError (α × Sqlite.Tables)) :
    Act α := do
  match (← get).cluster.media[World.sharedFile]? with
  | some (.sqlite image) =>
      let (value, tables) ← ofReply (image.tables >>= change)
      modify fun world =>
        { world with
          cluster := world.cluster.setMedium World.sharedFile
            (.sqlite (.intact tables)) }
      return value
  | _ => refusal .database

def dumpTables (tables : Sqlite.Tables) :
    Except StoreError (Answer × Sqlite.Tables) := do
  let rows ← tables.items.content
  let markers ← tables.markers.content
  let schema ← tables.schema.content
  let sorted := rows.mergeSort fun a b =>
    a.scope < b.scope || (a.scope == b.scope && a.key ≤ b.key)
  return (.dump sorted markers.keys schema, tables)

def statsOf (client : Client) : Option (Nat × Nat × Bool) :=
  client.cache.map fun cache =>
    (cache.2.hits, cache.2.misses, cache.1.isEnabled)

/-- How many of the writes fail; they come in no certain order. -/
def upsertAll (nested : Nested) (writes : List (Nat × Kind × Item)) :
    Act Nat := do
  let mut failed := 0
  for (store, kind, item) in writes do
    match ← settled (callStore nested store (.upsert kind item)) with
    | .ok _ => pure ()
    | .error _ => failed := failed + 1
  return failed

def changeTables
    (change : Sqlite.Tables → Except StoreError Sqlite.Tables) : Act Answer :=
  onTables fun tables => do return (.done, ← change tables)

def performWith (nested : Nested) : Step → Act Answer
  | .open opening => do
      openStore opening
      return .done
  | .call store call => do
      return .reply call (← callStore nested store call)
  | .bypass store kind key => do
      let item ← callProbe nested store (.get kind key)
      return .reply (.get kind key) item
  | .clear store => do
      let client ← clientOf store
      onCluster fun cluster => cluster.clear client.handle
      return .done
  | .clearSharedMemory => do
      modify fun world =>
        { world with
          cluster := world.cluster.setMedium World.sharedMemory
            (.memory .empty) }
      return .done
  | .realm store => do
      return .text (← clientOf store).realm.name
  | .stats store => do
      return .stats (statsOf (← clientOf store))
  | .counts store => do
      let probe := (← clientOf store).probe.getD .idle
      return .counts probe.counts
  | .refuse store calls => do
      modify fun world => world.modifyProbe store fun probe =>
        { probe with refused := calls }
      return .done
  | .during store call steps => do
      modify fun world => world.modifyProbe store fun probe =>
        { probe with armed := probe.armed.insert call steps }
      return .done
  | .advance nanos => do
      modify fun world => { world with now := ⟨world.now.nanos + nanos⟩ }
      return .done
  | .upsertAll writes => do
      return .failures (← upsertAll nested writes)
  | .dump => onTables dumpTables
  | .overwriteRow row => changeTables fun tables => tables.overwrite row
  | .addMarker marker => changeTables fun tables => tables.mark marker
  | .dropTable name => changeTables fun tables => tables.drop name
  | .createTable name => changeTables fun tables => tables.createForeign name
  | .recordVersion version =>
      changeTables fun tables => tables.recordVersion version
  | .overwriteFile bytes => do
      modify fun world =>
        { world with
          cluster := world.cluster.setMedium World.sharedFile
            (.sqlite (.ofBytes bytes)) }
      return .done
  | .invalid error => throw (.data error)

/-- Runs a step in which others nest at most as deep as given. -/
def nestedTo : Nat → Nested
  | 0 => ⟨fun _ _ => throw .aborted, fun _ => throw .aborted⟩
  | depth + 1 =>
      ⟨callStore (nestedTo depth), performWith (nestedTo depth)⟩

/-! ## Whole sessions -/

/-- The result of a step with the results of those that ran inside of it. -/
def runStep (depth : Nat) (step : Step) (world : World) :
    (Result × List Result) × World :=
  let (result, world) :=
    (performWith (nestedTo depth) step).run.run { world with inner := [] }
  ((result, world.inner), world)

def runSteps (depth : Nat) : List Step → World → List (Result × List Result)
  | [], _ => []
  | step :: rest, world =>
      let (result, world) := runStep depth step world
      result :: runSteps depth rest world

def run (steps : List Step) : List (Result × List Result) :=
  runSteps (countAll steps) steps .start

end Session

end VersionedFlags
