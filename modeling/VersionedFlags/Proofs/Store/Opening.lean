import VersionedFlags.Proofs.Session.Acting
import VersionedFlags.Proofs.Store.Isolation
import VersionedFlags.Proofs.Store.Readable

/-!
# Opening stores

A store is opened on a medium by a handle of its own; a database file has to be
brought to the current schema first.  Calls change what is in tables, they neither
create nor drop one, so a medium on which a store was opened once can be opened
again at any later time, and is left as it is then.
-/

namespace VersionedFlags

namespace Sqlite

/-! ## Tables that stay -/

/-- Neither created nor dropped in between. -/
def Table.SameForm {α : Type} : Table α → Table α → Prop
  | .absent, .absent | .foreign, .foreign | .own _, .own _ => True
  | _, _ => False

theorem Table.SameForm.refl {α : Type} (table : Table α) : table.SameForm table := by
  cases table <;> trivial

theorem Table.SameForm.trans {α : Type} {before middle after : Table α}
    (hfirst : before.SameForm middle) (hsecond : middle.SameForm after) :
    before.SameForm after := by
  cases before <;> cases middle <;> cases after <;> trivial

theorem Table.SameForm.absent {α : Type} {after : Table α}
    (h : Table.absent.SameForm after) : after = .absent := by
  cases after <;> trivial

theorem Table.SameForm.own {α : Type} {content : α} {after : Table α}
    (h : (Table.own content).SameForm after) : ∃ next, after = .own next := by
  cases after with
  | own next => exact ⟨next, rfl⟩
  | absent | foreign => cases h

namespace Tables

structure SameSchema (before after : Tables) : Prop where
  items : before.items.SameForm after.items
  markers : before.markers.SameForm after.markers
  schema : after.schema = before.schema
  others : after.others = before.others

variable {before middle after tables next : Tables} {realm : Realm} {kind : Kind}

theorem SameSchema.refl (tables : Tables) : tables.SameSchema tables :=
  ⟨.refl _, .refl _, rfl, rfl⟩

theorem SameSchema.trans (hfirst : before.SameSchema middle)
    (hsecond : middle.SameSchema after) : before.SameSchema after where
  items := hfirst.items.trans hsecond.items
  markers := hfirst.markers.trans hsecond.markers
  schema := hsecond.schema.trans hfirst.schema
  others := hsecond.others.trans hfirst.others

/-- On a file without tables there is nothing to call. -/
theorem SameSchema.unmade (h : unmade.SameSchema after) : after = .unmade := by
  obtain ⟨items, markers, schema, others⟩ := after
  obtain ⟨hitems, hmarkers, hschema, hothers⟩ := h
  cases hitems.absent
  cases hmarkers.absent
  cases hschema
  cases hothers
  rfl

theorem sameSchema_items (h : ∃ rows, tables.items = .own rows)
    (rows : List Row) : tables.SameSchema { tables with items := .own rows } := by
  obtain ⟨found, hitems⟩ := h
  refine ⟨?_, .refl _, rfl, rfl⟩
  rw [hitems]
  trivial

theorem sameSchema_replaceScope {scope : String} {items : List Item}
    (h : tables.replaceScope scope items = .ok next) : tables.SameSchema next := by
  obtain ⟨rows, hrows, h⟩ := exists_of_bind_eq_ok h
  obtain ⟨inserted, -, h⟩ := exists_of_bind_eq_ok h
  cases h
  exact sameSchema_items ⟨rows, Table.eq_own hrows⟩ inserted

theorem sameSchema_foldlM {parts : List (Kind × KeyMap Item)}
    (h : parts.foldlM (fun tables part =>
      tables.replaceScope (realm.scope part.1) part.2.values) tables =
        .ok next) : tables.SameSchema next := by
  induction parts generalizing tables with
  | nil =>
      cases h
      exact .refl _
  | cons part rest ih =>
      rw [List.foldlM_cons] at h
      obtain ⟨middle, hpart, hrest⟩ := exists_of_bind_eq_ok h
      exact (sameSchema_replaceScope hpart).trans (ih hrest)

theorem sameSchema_init {data : DataSet} (h : tables.init realm data = .ok next) :
    tables.SameSchema next := by
  obtain ⟨middle, hparts, h⟩ := exists_of_bind_eq_ok h
  obtain ⟨markers, hmarkers, h⟩ := exists_of_bind_eq_ok h
  cases h
  refine (sameSchema_foldlM hparts).trans ⟨.refl _, ?_, rfl, rfl⟩
  rw [Table.eq_own hmarkers]
  trivial

theorem sameSchema_write {item : Item} {version : Int} {outcome : Outcome}
    (h : tables.write realm kind item version = .ok (outcome, next)) :
    tables.SameSchema next := by
  obtain ⟨rows, hrows, h⟩ := exists_of_bind_eq_ok h
  cases h
  exact sameSchema_items ⟨rows, Table.eq_own hrows⟩ _

theorem sameSchema_clear (tables : Tables) : tables.SameSchema tables.clear.2 := by
  obtain ⟨items, markers, schema, others⟩ := tables
  cases items <;> cases markers <;> exact ⟨trivial, trivial, rfl, rfl⟩

/-! ## The current schema -/

/-- No step of a migration is left to be applied. -/
def Current (tables : Tables) : Prop :=
  ∃ versions, tables.schema = .own versions ∧
    (currentVersion : Int) ≤ versions.max?.getD 0 ∧
    versions.max?.getD 0 < 2 ^ 32 - 1

theorem Current.migrate (h : tables.Current) : tables.migrate = .done tables := by
  obtain ⟨versions, hschema, hcurrent, hlt⟩ := h
  have hpositive : ¬ (versions.max?.getD 0 < 0 ∨ 2 ^ 32 ≤ versions.max?.getD 0) := by
    simp only [currentVersion] at hcurrent
    omega
  have hgreatest : ¬ versions.max?.getD 0 = 2 ^ 32 - 1 := by omega
  unfold Tables.migrate
  simp only [hschema, if_neg hpositive, if_neg hgreatest, if_pos hcurrent]

theorem Current.of_sameSchema (h : before.Current)
    (hsame : before.SameSchema after) : after.Current := by
  obtain ⟨versions, hschema, hversions⟩ := h
  exact ⟨versions, hsame.schema.trans hschema, hversions⟩

theorem mem_insertVersion {version : Int} {versions after : List Int}
    (h : insertVersion version versions = some after) (other : Int) :
    other ∈ after ↔ other = version ∨ other ∈ versions := by
  induction versions generalizing after with
  | nil =>
      cases h
      simp
  | cons first rest ih =>
      simp only [insertVersion] at h
      split at h
      · cases h
        simp
      · split at h
        · cases h
        · obtain ⟨inserted, hinserted, rfl⟩ := Option.map_eq_some_iff.mp h
          rw [List.mem_cons, ih hinserted, List.mem_cons]
          tauto

/-- A version above all that are recorded is the greatest afterwards. -/
theorem max?_insertVersion {version : Int} {versions after : List Int}
    (h : insertVersion version versions = some after)
    (hgreatest : ∀ other ∈ versions, other ≤ version) :
    after.max? = some version := by
  rw [List.max?_eq_some_iff]
  refine ⟨(mem_insertVersion h version).mpr (.inl rfl), fun other hm => ?_⟩
  rcases (mem_insertVersion h other).mp hm with rfl | hm
  · exact le_rfl
  · exact hgreatest other hm

theorem le_of_max? {versions : List Int} {version : Int} (hm : version ∈ versions) :
    version ≤ versions.max?.getD 0 := by
  obtain ⟨greatest, hgreatest⟩ : ∃ greatest, versions.max? = some greatest :=
    Option.isSome_iff_exists.mp (List.isSome_max?_of_mem hm)
  rw [hgreatest]
  exact (List.max?_eq_some_iff.mp hgreatest).2 version hm

/-- What a migration creates: all or nothing. -/
theorem createAll_ok {versions : List Int}
    (h : tables.createAll versions = .ok next) :
    ∃ recorded, insertVersion currentVersion versions = some recorded ∧
      tables.items = .absent ∧ tables.markers = .absent ∧
      tables.others.contains indexName = false ∧
      next = { tables with
        items := .own [], markers := .own .empty, schema := .own recorded } := by
  obtain ⟨items, markers, schema, others⟩ := tables
  cases items with
  | foreign | own => cases h
  | absent =>
      cases markers with
      | foreign | own => cases h
      | absent =>
          simp only [createAll, Table.create, ok_bind] at h
          cases hindex : others.contains indexName with
          | true => simp [hindex] at h
          | false =>
              simp only [hindex, Bool.false_eq_true, if_false] at h
              cases hinsert : insertVersion currentVersion versions with
              | none =>
                  rw [hinsert] at h
                  cases h
              | some recorded =>
                  rw [hinsert] at h
                  cases h
                  exact ⟨recorded, rfl, rfl, rfl, rfl, rfl⟩

theorem current_of_createAll {versions : List Int}
    (hlt : versions.max?.getD 0 < currentVersion)
    (h : tables.createAll versions = .ok next) : next.Current := by
  obtain ⟨recorded, hrecorded, -, -, -, rfl⟩ := createAll_ok h
  have hmax : recorded.max? = some (currentVersion : Int) :=
    max?_insertVersion hrecorded fun other hm => (le_of_max? hm).trans hlt.le
  exact ⟨recorded, rfl, by rw [hmax]; exact le_rfl, by rw [hmax]; decide⟩

/-- A migration that is done leaves nothing to another one. -/
theorem current_of_migrate (h : tables.migrate = .done next) : next.Current := by
  unfold Tables.migrate at h
  split at h
  · cases h
  · split at h
    · rename_i hcreated
      cases h
      exact current_of_createAll (by decide) hcreated
    · cases h
  · rename_i versions hschema
    simp only at h
    split at h
    · cases h
    · split at h
      · cases h
      · split at h
        · cases h
          exact ⟨versions, hschema, ‹_›, by omega⟩
        · split at h
          · rename_i hcreated
            cases h
            exact current_of_createAll (by omega) hcreated
          · cases h

end Tables

end Sqlite

/-! ## Media -/

namespace Medium

open Sqlite

def SameSchema : Medium → Medium → Prop
  | .memory _, .memory _ | .sqlite .damaged, .sqlite .damaged => True
  | .sqlite (.intact before), .sqlite (.intact after) => before.SameSchema after
  | _, _ => False

/-- What opening a store makes of its medium. -/
def prepare (medium : Medium) : Except Session.Failure Medium :=
  match medium with
  | .memory _ => .ok medium
  | .sqlite .damaged => .error (.store .database)
  | .sqlite (.intact tables) =>
      match tables.migrate with
      | .done tables => .ok (.sqlite (.intact tables))
      | .failed error => .error (.store error)
      | .aborted => .error .aborted

/-- Opening a store changes nothing. -/
def Ready : Medium → Prop
  | .memory _ => True
  | .sqlite .damaged => False
  | .sqlite (.intact tables) => tables.Current

variable {before middle after medium next : Medium} {realm : Realm} {kind : Kind}

theorem SameSchema.refl (medium : Medium) : medium.SameSchema medium := by
  match medium with
  | .memory _ | .sqlite .damaged => trivial
  | .sqlite (.intact tables) => exact Tables.SameSchema.refl tables

theorem SameSchema.mindsClosing (h : before.SameSchema after) :
    after.mindsClosing = before.mindsClosing := by
  match before, after, h with
  | .memory _, .memory _, _ => rfl
  | .sqlite .damaged, .sqlite .damaged, _ => rfl
  | .sqlite (.intact _), .sqlite (.intact _), _ => rfl

theorem sameSchema_init {data : DataSet} (h : medium.init realm data = .ok next) :
    medium.SameSchema next := by
  match medium, h with
  | .memory database, h =>
      cases h
      trivial
  | .sqlite .damaged, h => cases h
  | .sqlite (.intact tables), h =>
      simp only [Medium.init, Image.tables, ok_bind] at h
      obtain ⟨tables', hinit, h⟩ := exists_of_bind_eq_ok h
      cases h
      exact Tables.sameSchema_init hinit

theorem sameSchema_commit {closed : Bool} {item : Item} {outcome : Outcome}
    (h : medium.commit realm closed kind item = .ok (outcome, next)) :
    medium.SameSchema next := by
  match medium, h with
  | .memory database, h =>
      cases h
      trivial
  | .sqlite .damaged, h =>
      obtain ⟨version, -, h⟩ := exists_of_bind_eq_ok h
      cases closed <;> cases h
  | .sqlite (.intact tables), h =>
      obtain ⟨tables', rfl, hwrite⟩ := write_of_commit h
      exact Tables.sameSchema_write hwrite

theorem sameSchema_clear (medium : Medium) : medium.SameSchema medium.clear.2 := by
  match medium with
  | .memory _ | .sqlite .damaged => trivial
  | .sqlite (.intact tables) => exact Tables.sameSchema_clear tables

theorem Ready.prepare (h : medium.Ready) : medium.prepare = .ok medium := by
  match medium, h with
  | .memory _, _ => rfl
  | .sqlite (.intact tables), h =>
      simp only [Medium.prepare, Tables.Current.migrate h]

theorem Ready.of_sameSchema (h : before.Ready) (hsame : before.SameSchema after) :
    after.Ready := by
  match before, after, h, hsame with
  | .memory _, .memory _, _, _ => trivial
  | .sqlite (.intact _), .sqlite (.intact _), h, hsame =>
      exact Tables.Current.of_sameSchema h hsame

theorem ready_of_prepare (h : medium.prepare = .ok next) : next.Ready := by
  match medium, h with
  | .memory _, h =>
      cases h
      trivial
  | .sqlite .damaged, h => cases h
  | .sqlite (.intact tables), h =>
      simp only [Medium.prepare] at h
      split at h
      · rename_i hmigrate
        cases h
        exact Tables.current_of_migrate hmigrate
      · cases h
      · cases h

theorem mindsClosing_of_prepare (h : medium.prepare = .ok next) :
    next.mindsClosing = medium.mindsClosing := by
  match medium, h with
  | .memory _, h =>
      cases h
      rfl
  | .sqlite .damaged, h => cases h
  | .sqlite (.intact tables), h =>
      simp only [Medium.prepare] at h
      split at h
      · cases h
        rfl
      · cases h
      · cases h

end Medium

/-! ## Clusters -/

namespace Cluster

/-- Opens a store: the medium is made ready, and there is a new handle on it. -/
def attach (cluster : Cluster) (index : Nat) (realm : Realm) :
    Except Session.Failure Cluster :=
  match cluster.media[index]? with
  | none => .error (.store .database)
  | some medium => do
      let medium ← medium.prepare
      return (cluster.setMedium index medium).addHandle index realm

theorem attach_ok {cluster after : Cluster} {index : Nat} {realm : Realm}
    (h : cluster.attach index realm = .ok after) :
    ∃ medium ready, cluster.media[index]? = some medium ∧
      medium.prepare = .ok ready ∧
      after = (cluster.setMedium index ready).addHandle index realm := by
  unfold attach at h
  split at h
  · cases h
  · rename_i medium hmedium
    obtain ⟨ready, hready, h⟩ := exists_of_bind_eq_ok h
    cases h
    exact ⟨medium, ready, hmedium, hready, rfl⟩

/-- Calls alone, on whatever medium, have made the one of the other. -/
def SameSchemas (before after : Cluster) : Prop :=
  ∀ (index : Nat) (medium : Medium), before.media[index]? = some medium →
    ∃ later : Medium, after.media[index]? = some later ∧ medium.SameSchema later

variable {before middle after cluster next : Cluster} {index : Nat} {realm : Realm}

theorem SameSchemas.refl (cluster : Cluster) : cluster.SameSchemas cluster :=
  fun _ medium hmedium => ⟨medium, hmedium, .refl _⟩

theorem SameSchemas.of_media (h : after.media = before.media) :
    before.SameSchemas after :=
  fun _ medium hmedium => ⟨medium, by rw [h, hmedium], .refl _⟩

theorem sameSchemas_setMedium {place : Nat} {medium later : Medium}
    (hmedium : cluster.media[place]? = some medium)
    (hsame : medium.SameSchema later) :
    cluster.SameSchemas (cluster.setMedium place later) := by
  intro index found hfound
  have hlt := (List.getElem?_eq_some_iff.mp hmedium).1
  by_cases hplace : place = index
  · subst hplace
    rw [hmedium] at hfound
    cases hfound
    exact ⟨later, List.getElem?_set_self hlt, hsame⟩
  · exact ⟨found, by simp only [setMedium, List.getElem?_set_ne hplace, hfound],
      .refl _⟩

theorem sameSchemas_commit (cluster : Cluster) (store : Nat) (kind : Kind)
    (item : Item) : cluster.SameSchemas (cluster.commit store kind item).2 := by
  unfold Cluster.commit
  cases hfound : cluster.handle store with
  | error error => exact .refl _
  | ok found =>
      obtain ⟨handle, medium⟩ := found
      simp only [ok_bind]
      cases hcommit : medium.commit handle.realm handle.closed kind item with
      | error error => exact .refl _
      | ok result =>
          exact sameSchemas_setMedium (handle_cases hfound).2
            (Medium.sameSchema_commit hcommit)

theorem sameSchemas_init (cluster : Cluster) (store : Nat) (data : DataSet) :
    cluster.SameSchemas (cluster.init store data).2 := by
  unfold Cluster.init
  cases hopen : cluster.openHandle store with
  | error error => exact .refl _
  | ok found =>
      obtain ⟨handle, medium⟩ := found
      simp only [ok_bind]
      cases hinit : medium.init handle.realm data with
      | error error => exact .refl _
      | ok later =>
          exact sameSchemas_setMedium (openHandle_cases hopen).2.2.2
            (Medium.sameSchema_init hinit)

theorem sameSchemas_serve (cluster : Cluster) (store : Nat) (call : Call) :
    cluster.SameSchemas (cluster.serve store call).2 := by
  cases call with
  | init data => exact cluster.sameSchemas_init store data
  | upsert kind item =>
      simp only [Cluster.serve, Cluster.upsert]
      split
      · exact .refl _
      · exact .refl _
      · exact cluster.sameSchemas_commit store kind item
  | get _ _ | all _ | initialized => exact .refl _
  | close => exact .of_media rfl

theorem sameSchemas_clear (cluster : Cluster) (store : Nat) :
    cluster.SameSchemas (cluster.clear store).2 := by
  unfold Cluster.clear
  cases hfound : cluster.handle store with
  | error error => exact .refl _
  | ok found =>
      simp only
      split
      · exact .refl _
      · exact sameSchemas_setMedium (handle_cases hfound).2
          (Medium.sameSchema_clear _)

end Cluster

/-! ## Opening a store in a session -/

namespace Session

/-- The medium of a backing that stores share. -/
def Backing.shared? : Backing → Option Nat
  | .sharedMemory => some World.sharedMemory
  | .sharedFile => some World.sharedFile
  | .ownMemory | .ownFile | .lostFile => none

/-- A store that has been opened, with an empty cache. -/
def Opening.client (opening : Opening) (handle : Nat) : Client where
  handle := handle
  realm := opening.realm
  cache := opening.cache.map fun mode => (mode, .start)
  probe := if opening.probed && opening.cache.isSome then some .idle else none
  rivals := opening.rivals

/-- The shared media are a database in memory and a database file. -/
structure World.Furnished (world : World) : Prop where
  memory : ∃ database, world.cluster.media[World.sharedMemory]? =
    some (.memory database)
  file : ∃ image, world.cluster.media[World.sharedFile]? = some (.sqlite image)

theorem furnished_start : World.start.Furnished :=
  ⟨⟨.empty, rfl⟩, ⟨.fresh, rfl⟩⟩

variable {world : World} {opening : Opening} {index : Nat}

theorem prepare_at (h : world.Furnished)
    (hbacking : opening.backing.shared? = some index) :
    ∃ medium, world.cluster.media[index]? = some medium ∧
      (prepare opening.backing).at world =
        match medium.prepare with
        | .ok ready => (.ok index,
            { world with cluster := world.cluster.setMedium index ready })
        | .error failure => (.error failure, world) := by
  cases hcase : opening.backing with
  | ownMemory | ownFile | lostFile =>
      rw [hcase] at hbacking
      cases hbacking
  | sharedMemory =>
      rw [hcase] at hbacking
      cases hbacking
      obtain ⟨database, hmedium⟩ := h.memory
      refine ⟨_, hmedium, ?_⟩
      simp only [Medium.prepare, Cluster.setMedium_self hmedium]
      rfl
  | sharedFile =>
      rw [hcase] at hbacking
      cases hbacking
      obtain ⟨image, hmedium⟩ := h.file
      refine ⟨_, hmedium, ?_⟩
      simp only [Session.prepare, migrateFile, Act.at_bind, Act.at_get, hmedium]
      cases image with
      | damaged => rfl
      | intact tables =>
          simp only [Medium.prepare]
          cases tables.migrate <;> rfl

/-- A session opens a store on a shared medium by attaching a handle, or it fails
and changes nothing but the count of stores. -/
theorem openStore_at (h : world.Furnished)
    (hbacking : opening.backing.shared? = some index) :
    (openStore opening).at world =
      match world.cluster.attach index opening.realm with
      | .ok cluster => (.ok (), { world with
          cluster
          clients := world.clients ++
            [some (opening.client world.cluster.handles.length)] })
      | .error failure =>
          (.error failure, { world with clients := world.clients ++ [none] }) := by
  obtain ⟨medium, hmedium, hprepare⟩ := prepare_at h hbacking
  simp only [openStore, connect, Act.at_tryCatch, Act.at_bind, hprepare,
    Cluster.attach, hmedium]
  cases medium.prepare with
  | ok ready => rfl
  | error failure => rfl

end Session

/-! ## Runs in which stores are opened -/

namespace Schedule

inductive Turn where
  | attach (index : Nat) (realm : Realm)
  | step (step : Step)
  deriving DecidableEq, Repr

def State.turn? (state : State) : Turn → Option State
  | .attach index realm =>
      match state.cluster.attach index realm with
      | .ok cluster => some { state with cluster }
      | .error _ => some state
  | .step step => state.freeStep? step

def State.turns? (state : State) : List Turn → Option State
  | [] => some state
  | turn :: rest => (state.turn? turn).bind fun next => next.turns? rest

variable {state next final : State}

/-- What holds at first and is kept by every turn holds at the end of a run. -/
theorem State.turns?_induction {motive : State → Prop}
    (hturn : ∀ state turn next, motive state → state.turn? turn = some next →
      motive next) {turns : List Turn} (hstate : motive state)
    (h : state.turns? turns = some final) : motive final := by
  induction turns generalizing state with
  | nil =>
      cases h
      exact hstate
  | cons turn rest ih =>
      obtain ⟨next, hnext, hrest⟩ := Option.bind_eq_some_iff.mp h
      exact ih (hturn state turn next hstate hnext) hrest

theorem sameSchemas_enter (state : State) (request : Request) :
    state.cluster.SameSchemas (state.enter request).cluster := by
  obtain ⟨name, operation⟩ := request
  cases operation with
  | clear handle => exact state.cluster.sameSchemas_clear handle
  | serve handle call =>
      cases call with
      | upsert kind item =>
          simp only [State.enter, State.advise]
          split <;> exact .refl _
      | init | get | all | initialized | close =>
          exact state.cluster.sameSchemas_serve handle _

theorem sameSchemas_freeStep {step : Step} (h : state.freeStep? step = some next) :
    state.cluster.SameSchemas next.cluster := by
  cases step with
  | enter request =>
      simp only [State.freeStep?] at h
      split at h
      · cases h
      · cases h
        exact sameSchemas_enter state request
  | finish name =>
      obtain ⟨upsert, -, rfl⟩ := Option.map_eq_some_iff.mp h
      exact state.cluster.sameSchemas_commit _ _ _

end Schedule

end VersionedFlags
