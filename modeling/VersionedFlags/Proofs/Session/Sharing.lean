import VersionedFlags.Proofs.Session.Acting
import VersionedFlags.Proofs.Store.Medium

/-!
# Sharing a backend

Any number of stores share one backend.  An abstract machine serves their calls
from one ledger, and whether the stores share a database in memory or a
database file, every step of a session answers as that machine does.
-/

namespace VersionedFlags

/-- The stores in the order in which they were opened, which of them are closed,
and the ledger that they share. -/
structure Sharing where
  ledger : Ledger
  realms : List Realm
  closed : Nat → Bool

namespace Sharing

open Session

/-- What is done with a shared backend. -/
inductive Use where
  | open (name : Option String)
  | call (store : Nat) (call : Call)
  | clear (store : Nat)

def start : Sharing := ⟨.empty, [], fun _ => false⟩

def IsOpen (sharing : Sharing) (store : Nat) : Prop :=
  store < sharing.realms.length ∧ sharing.closed store = false

def close (sharing : Sharing) (store : Nat) : Sharing :=
  { sharing with
    closed := fun other => decide (other = store) || sharing.closed other }

/-- Closing a store again does nothing; every other call of a store that is not
open is refused. -/
def serve (sharing : Sharing) (store : Nat) (call : Call) : Result × Sharing :=
  match sharing.realms[store]? with
  | none => (.error (.store .closed), sharing)
  | some realm =>
      if call = .close then (.ok (.reply .close ()), sharing.close store)
      else if sharing.closed store then (.error (.store .closed), sharing)
      else
        (.ok (.reply call (sharing.ledger.serve realm call).1),
          { sharing with ledger := (sharing.ledger.serve realm call).2 })

def perform (sharing : Sharing) : Use → Result × Sharing
  | .open name =>
      (.ok .done,
        { sharing with realms := sharing.realms ++ [.ofName? name] })
  | .call store call => sharing.serve store call
  | .clear _ => (.ok .done, { sharing with ledger := .empty })

def run (sharing : Sharing) : List Use → List Result
  | [] => []
  | use :: rest =>
      (sharing.perform use).1 :: run (sharing.perform use).2 rest

/-- What both sorts of backends can store is written, and the backend is cleared
through open stores. -/
def Admits (sharing : Sharing) : List Use → Prop
  | [] => True
  | use :: rest =>
      (match use with
        | .open _ => True
        | .call _ call => call.Kept true ∧ call.Fits
        | .clear store => sharing.IsOpen store) ∧
      Admits (sharing.perform use).2 rest

/-- The step of a session that does this with a medium that sessions share. -/
def step (backing : Backing) : Use → Step
  | .open name => .open (.direct backing name none none)
  | .call store call => .call store call
  | .clear store => .clear store

/-! ## The two backings -/

def backing (file : Bool) : Backing :=
  if file then .sharedFile else .sharedMemory

def index (file : Bool) : Nat :=
  if file then World.sharedFile else World.sharedMemory

def blank (file : Bool) : Medium :=
  if file then .sqlite .fresh else .memory .empty

def client (store : Nat) (realm : Realm) : Client :=
  ⟨store, realm, none, none, none⟩

/-- A world in which a medium is shared as the machine has it.  A file has no
tables until the first store is opened. -/
structure Reflects (file : Bool) (world : World) (sharing : Sharing) : Prop where
  handles : world.cluster.handles = sharing.realms.mapIdx fun store realm =>
    ⟨index file, realm, sharing.closed store⟩
  clients : world.clients = sharing.realms.mapIdx fun store realm =>
    some (client store realm)
  closed : ∀ store, sharing.closed store = true → store < sharing.realms.length
  holds : world.cluster.Holds (index file) file sharing.ledger ∨
    sharing.realms = [] ∧ sharing.ledger = .empty ∧
      world.cluster.media[index file]? = some (blank file)

theorem reflects_start (file : Bool) : Reflects file .start .start where
  handles := rfl
  clients := rfl
  closed := by simp [start]
  holds := .inr ⟨rfl, rfl, by cases file <;> rfl⟩

variable {file : Bool} {world : World} {sharing : Sharing}

theorem Reflects.client? (h : Reflects file world sharing) (store : Nat) :
    world.client? store = sharing.realms[store]?.map (client store) := by
  simp only [World.client?, h.clients, List.getElem?_mapIdx]
  cases sharing.realms[store]? <;> rfl

theorem Reflects.handle? (h : Reflects file world sharing) (store : Nat) :
    world.cluster.handles[store]? = sharing.realms[store]?.map fun realm =>
      ⟨index file, realm, sharing.closed store⟩ := by
  rw [h.handles, List.getElem?_mapIdx]

theorem Reflects.ready (h : Reflects file world sharing) {store : Nat}
    {realm : Realm} (hstore : sharing.realms[store]? = some realm) :
    world.cluster.Holds (index file) file sharing.ledger := by
  rcases h.holds with hholds | ⟨hnone, -⟩
  · exact hholds
  · simp [hnone] at hstore

/-! ## Opening -/

theorem migrateFile_at {medium : Nat} {tables next : Sqlite.Tables}
    (hmedium : world.cluster.media[medium]? = some (.sqlite (.intact tables)))
    (hmigrate : tables.migrate = .done next) :
    (migrateFile medium).at world =
      (.ok (), { world with
        cluster := world.cluster.setMedium medium (.sqlite (.intact next)) }) := by
  simp only [migrateFile, Act.at_bind, Act.at_get, hmedium, hmigrate,
    Act.at_modify]

theorem Reflects.prepare (h : Reflects file world sharing) :
    ∃ cluster, (prepare (backing file)).at world =
        (.ok (index file), { world with cluster }) ∧
      cluster.handles = world.cluster.handles ∧
      cluster.Holds (index file) file sharing.ledger := by
  cases file with
  | false =>
      refine ⟨world.cluster, rfl, rfl, ?_⟩
      rcases h.holds with hholds | ⟨-, hempty, hblank⟩
      · exact hholds
      · exact ⟨.memory .empty, hblank, by rw [hempty]; rfl, rfl⟩
  | true =>
      have hprepare : ∀ {tables next : Sqlite.Tables},
          world.cluster.media[index true]? = some (.sqlite (.intact tables)) →
          tables.migrate = .done next →
          (Session.prepare (backing true)).at world =
            (.ok (index true), { world with
              cluster := world.cluster.setMedium (index true)
                (.sqlite (.intact next)) }) := by
        intro tables next hmedium hmigrate
        have hmigrated : (migrateFile World.sharedFile).at world = _ :=
          migrateFile_at hmedium hmigrate
        simp only [Session.prepare, backing, if_true, Act.at_bind, hmigrated]
        rfl
      rcases h.holds with hholds | ⟨-, hempty, hblank⟩
      · obtain ⟨medium, hmedium, htables, hfile⟩ := id hholds
        match medium, htables, hfile with
        | .sqlite (.intact tables), htables, _ =>
            exact ⟨_, hprepare hmedium (Sqlite.Tables.Holds.migrate htables), rfl,
              hholds.setMedium htables rfl⟩
      · have hlt := (List.getElem?_eq_some_iff.mp hblank).1
        refine ⟨_, hprepare hblank Sqlite.Tables.migrate_unmade, rfl,
          .sqlite (.intact .migrated), by simp [Cluster.setMedium, hlt], ?_, rfl⟩
        rw [hempty]
        exact Sqlite.Tables.holds_migrated

theorem Reflects.open (h : Reflects file world sharing) (nested : Nested)
    (name : Option String) :
    ∃ next, (performWith nested (step (backing file) (.open name))).at world =
        ((sharing.perform (.open name)).1, next) ∧
      Reflects file next (sharing.perform (.open name)).2 ∧
      next.inner = world.inner := by
  obtain ⟨cluster, hprepare, hhandles, hholds⟩ := h.prepare
  have hrealm : (Opening.direct (backing file) name none none).realm =
      .ofName? name := by
    cases file <;> rfl
  have hlength : cluster.handles.length = sharing.realms.length := by
    rw [hhandles, h.handles, List.length_mapIdx]
  have hfree : sharing.closed sharing.realms.length = false := by
    cases hclosed : sharing.closed sharing.realms.length with
    | false => rfl
    | true => exact absurd (h.closed _ hclosed) (Nat.lt_irrefl _)
  refine ⟨{ world with
    cluster := cluster.addHandle (index file) (.ofName? name)
    clients := world.clients ++
      [some (client sharing.realms.length (.ofName? name))] }, ?_, ?_, rfl⟩
  · have hbacking : (Opening.direct (backing file) name none none).backing =
        backing file := rfl
    simp only [step, performWith, openStore, connect, Act.at_bind,
      Act.at_tryCatch, hbacking, hprepare, Act.at_get, Act.at_modify, hrealm,
      hlength]
    rfl
  · refine ⟨?_, ?_, ?_, .inl ?_⟩
    · simp [perform, Cluster.addHandle, hhandles, h.handles, hfree]
    · simp [perform, h.clients]
    · intro store hclosed
      have := h.closed store hclosed
      simp only [perform, List.length_append, List.length_cons, List.length_nil]
      omega
    · obtain ⟨medium, hmedium, hrest⟩ := hholds
      exact ⟨medium, hmedium, hrest⟩

/-! ## Calls -/

theorem Reflects.close (h : Reflects file world sharing) {store : Nat}
    {realm : Realm} (hstore : sharing.realms[store]? = some realm) :
    Reflects file { world with cluster := world.cluster.close store }
      (sharing.close store) where
  handles := by
    refine List.ext_getElem? fun other => ?_
    simp only [Cluster.close, Sharing.close, List.getElem?_modify, h.handle?,
      List.getElem?_mapIdx]
    cases sharing.realms[other]? with
    | none => simp
    | some realm => by_cases hsame : store = other <;> simp [hsame, eq_comm]
  clients := h.clients
  closed := by
    intro other hclosed
    simp only [Sharing.close, Bool.or_eq_true, decide_eq_true_eq] at hclosed
    rcases hclosed with rfl | hclosed
    · exact (List.getElem?_eq_some_iff.mp hstore).1
    · exact h.closed other hclosed
  holds := .inl (h.ready hstore)

theorem Reflects.serve (h : Reflects file world sharing) {store : Nat}
    {realm : Realm} (hstore : sharing.realms[store]? = some realm) {call : Call}
    (hkept : call.Kept true) (hfits : call.Fits) :
    (sharing.serve store call).1 =
        ((world.cluster.serve store call).1.mapError .store).map
          (Answer.reply call) ∧
      Reflects file
        { world with cluster := (world.cluster.serve store call).2 }
        (sharing.serve store call).2 := by
  have hhandle := h.handle? store
  rw [hstore, Option.map_some] at hhandle
  simp only [Sharing.serve, hstore]
  by_cases hclose : call = .close
  · subst hclose
    exact ⟨rfl, h.close hstore⟩
  · rw [if_neg hclose]
    cases hclosed : sharing.closed store with
    | true =>
        rw [hclosed] at hhandle
        rw [Cluster.serve_closed hhandle hclose]
        exact ⟨rfl, h⟩
    | false =>
        rw [hclosed] at hhandle
        rcases (h.ready hstore).serve hhandle hclose hkept.of_file with
          ⟨hreply, hholds, hhandles⟩ | ⟨hlarge, -⟩
        · rw [hreply]
          exact ⟨rfl, hhandles.trans h.handles, h.clients, h.closed,
            .inl hholds⟩
        · exact absurd hfits hlarge

theorem Reflects.call (h : Reflects file world sharing) (nested : Nested)
    (store : Nat) {call : Call} (hkept : call.Kept true) (hfits : call.Fits) :
    ∃ next, (performWith nested (step (backing file) (.call store call))).at
        world = ((sharing.perform (.call store call)).1, next) ∧
      Reflects file next (sharing.perform (.call store call)).2 ∧
      next.inner = world.inner := by
  simp only [step, performWith, perform, Act.at_bind]
  cases hstore : sharing.realms[store]? with
  | none =>
      have hclient : world.client? store = none := by
        rw [h.client?, hstore, Option.map_none]
      refine ⟨world, ?_, ?_, rfl⟩
      · simp only [callStore, Act.at_bind, clientOf_at, hclient, Sharing.serve,
          hstore]
      · simpa only [Sharing.serve, hstore] using h
  | some realm =>
      have hclient : world.client? store = some (client store realm) := by
        rw [h.client?, hstore, Option.map_some]
      obtain ⟨hresult, hreflects⟩ := h.serve hstore hkept hfits
      refine ⟨_, ?_, hreflects, rfl⟩
      rw [callStore_at nested store call hclient rfl rfl, hresult]
      simp only [client]
      cases (world.cluster.serve store call).1 <;> rfl

theorem Reflects.clear (h : Reflects file world sharing) (nested : Nested)
    {store : Nat} (hopen : sharing.IsOpen store) :
    ∃ next, (performWith nested (step (backing file) (.clear store))).at
        world = ((sharing.perform (.clear store)).1, next) ∧
      Reflects file next (sharing.perform (.clear store)).2 ∧
      next.inner = world.inner := by
  obtain ⟨realm, hstore⟩ : ∃ realm, sharing.realms[store]? = some realm :=
    ⟨_, List.getElem?_eq_getElem hopen.1⟩
  have hclient : world.client? store = some (client store realm) := by
    rw [h.client?, hstore, Option.map_some]
  have hhandle := h.handle? store
  rw [hstore, Option.map_some, hopen.2] at hhandle
  obtain ⟨hdone, hholds, hhandles⟩ := (h.ready hstore).clear hhandle
  refine ⟨{ world with cluster := (world.cluster.clear store).2 }, ?_, ?_, rfl⟩
  · simp only [step, performWith, perform, Act.at_bind, clientOf_at, hclient,
      onCluster_at, client, hdone]
    rfl
  · exact ⟨hhandles.trans h.handles, h.clients, h.closed, .inl hholds⟩

/-! ## Whole sessions -/

theorem Reflects.perform (h : Reflects file world sharing) (nested : Nested)
    {use : Use} {rest : List Use} (hadmits : sharing.Admits (use :: rest)) :
    ∃ next, (performWith nested (step (backing file) use)).at world =
        ((sharing.perform use).1, next) ∧
      Reflects file next (sharing.perform use).2 ∧
      next.inner = world.inner := by
  cases use with
  | «open» name => exact h.open nested name
  | call store call => exact h.call nested store hadmits.1.1 hadmits.1.2
  | clear store => exact h.clear nested hadmits.1

theorem runSteps_eq (depth : Nat) {uses : List Use}
    (h : Reflects file world sharing) (hadmits : sharing.Admits uses) :
    runSteps depth (uses.map (step (backing file))) world =
      (sharing.run uses).map fun result => (result, []) := by
  induction uses generalizing world sharing with
  | nil => rfl
  | cons use rest ih =>
      have hfresh : Reflects file { world with inner := [] } sharing :=
        ⟨h.handles, h.clients, h.closed, h.holds⟩
      obtain ⟨next, heq, hnext, hinner⟩ := hfresh.perform (nestedTo depth) hadmits
      have hstep : runStep depth (step (backing file) use) world =
          (((sharing.perform use).1, []), next) := by
        rw [Act.at] at heq
        simp only [runStep, heq, hinner]
      simp only [List.map_cons, runSteps, hstep, Sharing.run, List.map_cons]
      rw [ih hnext hadmits.2]

/-- Stores in memory and stores on a database file are observationally
equivalent: whatever is done with any number of stores that share a backend,
every step answers as the abstract machine does. -/
theorem run_sharedMemory_and_sharedFile {uses : List Use}
    (hadmits : start.Admits uses) :
    Session.run (uses.map (step .sharedMemory)) =
        (start.run uses).map (fun result => (result, [])) ∧
      Session.run (uses.map (step .sharedFile)) =
        (start.run uses).map fun result => (result, []) :=
  ⟨runSteps_eq _ (reflects_start false) hadmits,
    runSteps_eq _ (reflects_start true) hadmits⟩

/-- Two realms on one backend, a tombstone and a call after closing. -/
theorem run_two_realms :
    start.Admits
      [.open none, .open (some "b"), .call 0 (.init .empty),
        .call 1 (.upsert .features (.live "a" 1 (.bool true))),
        .call 1 (.delete .features "a" 2), .call 1 (.get .features "a"),
        .call 0 .close, .call 0 .initialized, .clear 1] ∧
    Session.run ([.open none, .open (some "b"), .call 0 (.init .empty),
        .call 1 (.upsert .features (.live "a" 1 (.bool true))),
        .call 1 (.delete .features "a" 2), .call 1 (.get .features "a"),
        .call 0 .close, .call 0 .initialized, .clear 1].map
          (step .sharedFile)) =
      [(.ok .done, []), (.ok .done, []), (.ok (.reply (.init .empty) ()), []),
        (.ok (.reply (.upsert .features (.live "a" 1 (.bool true)))
          .applied), []),
        (.ok (.reply (.delete .features "a" 2) .applied), []),
        (.ok (.reply (.get .features "a") none), []),
        (.ok (.reply .close ()), []), (.error (.store .closed), []),
        (.ok .done, [])] := by
  have hread : ∀ call : Call, call.Made → (∀ item, ¬ call.Writes item) →
      call.Kept true ∧ call.Fits :=
    fun call hmade hnone => ⟨⟨hmade, fun _ item h => absurd h (hnone item)⟩,
      fun item h => absurd h (hnone item)⟩
  have hupsert : ∀ item : Item, item.version.toNat < 2 ^ 63 →
      Json.parse item.data.text = .ok item.data →
      (Call.upsert .features item).Kept true ∧
        (Call.upsert .features item).Fits := by
    intro item hfits hreads
    refine ⟨⟨trivial, ?_⟩, ?_⟩
    · rintro - item rfl
      exact hreads
    · rintro item rfl
      exact hfits
  have hempty : ∀ item, ¬ (Call.init .empty).Writes item := by
    rintro item ⟨kind, key, hitem⟩
    cases kind <;> cases hitem
  refine ⟨?admits, (run_sharedMemory_and_sharedFile ?admits).2⟩
  exact ⟨trivial, trivial, hread _ (.build .start) hempty,
    hupsert _ (by decide) rfl, hupsert _ (by decide) rfl,
    hread _ trivial fun _ => id, hread _ trivial fun _ => id,
    hread _ trivial fun _ => id, ⟨by decide, rfl⟩, trivial⟩

end Sharing

end VersionedFlags
