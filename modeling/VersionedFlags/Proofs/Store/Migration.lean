import VersionedFlags.Proofs.Store.Opening

/-!
# Migrations happen once

Whoever opens a database file runs a transaction of several statements: the table
of applied versions is created unless it is there, the greatest of them is read, and
each version above it is applied and recorded.  On a file that only stores have used
every opening succeeds and finds all rows as they were, and no version is applied a
second time.  On any other file a statement may fail, and then the file is left as
it was, however far the transaction came.
-/

namespace VersionedFlags

namespace Sqlite

/-! ## Scripts -/

/-- Statements on the tables of a file.  A failure comes with what the tables were
by then, which only the transaction itself sees. -/
abbrev Script : Type → Type := ExceptT Session.Failure (StateM Tables)

namespace Script

variable {α β : Type}

def on (script : Script α) (tables : Tables) : Except Session.Failure α × Tables :=
  script.run.run tables

def query (read : Tables → Except StoreError α) : Script α := do
  match read (← get) with
  | .ok value => return value
  | .error error => throw (.store error)

def statement (change : Tables → Except StoreError Tables) : Script Unit := do
  set (← query change)

@[simp] theorem on_pure (value : α) (tables : Tables) :
    (pure value : Script α).on tables = (.ok value, tables) :=
  rfl

@[simp] theorem on_bind (script : Script α) (next : α → Script β) (tables : Tables) :
    (script >>= next).on tables =
      match script.on tables with
      | (.ok value, tables) => (next value).on tables
      | (.error failure, tables) => (.error failure, tables) := by
  simp only [on, ExceptT.run_bind, StateT.run_bind]
  rcases StateT.run (ExceptT.run script) tables with ⟨_ | _, _⟩ <;> rfl

@[simp] theorem on_throw (failure : Session.Failure) (tables : Tables) :
    (throw failure : Script α).on tables = (.error failure, tables) :=
  rfl

@[simp] theorem on_query (read : Tables → Except StoreError α) (tables : Tables) :
    (query read).on tables = ((read tables).mapError .store, tables) := by
  have hget : (get : Script Tables).on tables = (.ok tables, tables) := rfl
  rw [query, on_bind, hget]
  simp only
  cases read tables <;> rfl

@[simp] theorem on_statement (change : Tables → Except StoreError Tables)
    (tables : Tables) :
    (statement change).on tables =
      match change tables with
      | .ok next => (.ok (), next)
      | .error error => (.error (.store error), tables) := by
  rw [statement, on_bind, on_query]
  cases change tables <;> rfl

end Script

/-! ## The script of a migration -/

namespace Migration

open Tables Script

def ensureVersions (tables : Tables) : Except StoreError Tables :=
  match tables.schema with
  | .absent => .ok { tables with schema := .own [] }
  | .foreign | .own _ => .ok tables

/-- The greatest version that was applied, as a word of 32 bits. -/
def recorded (tables : Tables) : Except StoreError Nat := do
  let greatest := (← tables.schema.content).max?.getD 0
  if greatest < 0 ∨ 2 ^ 32 ≤ greatest then .error (.integerOutOfRange greatest 0)
  else .ok greatest.toNat

def createItems (tables : Tables) : Except StoreError Tables := do
  return { tables with items := ← tables.items.create [] }

def createMarkers (tables : Tables) : Except StoreError Tables := do
  return { tables with markers := ← tables.markers.create .empty }

def createIndex (tables : Tables) : Except StoreError Tables :=
  if tables.others.contains indexName then .error .database else .ok tables

def record (version : Nat) (tables : Tables) : Except StoreError Tables := do
  match insertVersion version (← tables.schema.content) with
  | some versions => return { tables with schema := .own versions }
  | none => .error .database

/-- Only the first version is known. -/
def apply : Nat → Script Unit
  | 1 => do
      statement createItems
      statement createMarkers
      statement createIndex
  | _ => throw (.store .database)

def applyAll : List Nat → Script Unit
  | [] => pure ()
  | version :: rest => do
      apply version
      statement (record version)
      applyAll rest

def pending (recorded : Nat) : List Nat :=
  List.range' (recorded + 1) (currentVersion - recorded)

/-- Comes to the versions that it has applied. -/
def script : Script (List Nat) := do
  statement ensureVersions
  let recorded ← query recorded
  if recorded + 1 = 2 ^ 32 then throw .aborted
  applyAll (pending recorded)
  return pending recorded

variable {tables : Tables}

/-- The statements of the first version, one after the other, come to what is
created in one go, or one of them fails. -/
theorem on_applyAll_first {versions : List Int}
    (hschema : tables.schema = .own versions) :
    match tables.createAll versions with
    | .ok next => (applyAll [currentVersion]).on tables = (.ok (), next)
    | .error error => ((applyAll [currentVersion]).on tables).1 =
        .error (.store error) := by
  obtain ⟨items, markers, schema, others⟩ := tables
  cases hschema
  simp only [applyAll, currentVersion, apply, on_bind, on_statement, createItems,
    createMarkers, createIndex, record, createAll]
  cases items with
  | foreign | own => rfl
  | absent =>
      cases markers with
      | foreign | own => rfl
      | absent =>
          simp only [Table.create, ok_bind]
          cases hindex : others.contains indexName with
          | true => simp [hindex, pure, Except.pure]
          | false =>
              cases hinsert : insertVersion 1 versions with
              | none => simp [hindex, hinsert, Table.content, pure, Except.pure]
              | some recorded =>
                  simp [hindex, hinsert, Table.content, pure, Except.pure]
                  rfl

theorem on_script_of_foreign (hschema : tables.schema = .foreign) :
    script.on tables = (.error (.store .database), tables) := by
  simp only [script, on_bind, on_statement, ensureVersions, hschema, on_query,
    recorded, Table.content, error_bind]
  rfl

/-- With its table of versions there, the script goes by the greatest of them. -/
theorem on_script_of_own {versions : List Int}
    (hschema : tables.schema = .own versions) :
    script.on tables =
      let greatest := versions.max?.getD 0
      if greatest < 0 ∨ 2 ^ 32 ≤ greatest then
        (.error (.store (.integerOutOfRange greatest 0)), tables)
      else if greatest = 2 ^ 32 - 1 then (.error .aborted, tables)
      else if currentVersion ≤ greatest then (.ok [], tables)
      else
        match (applyAll [currentVersion]).on tables with
        | (.ok (), next) => (.ok [currentVersion], next)
        | (.error failure, working) => (.error failure, working) := by
  simp only [script, on_bind, on_statement, ensureVersions, hschema, on_query,
    recorded, Table.content, ok_bind]
  generalize versions.max?.getD 0 = greatest
  by_cases hrange : greatest < 0 ∨ 2 ^ 32 ≤ greatest
  · simp only [if_pos hrange]
    rfl
  · obtain ⟨recorded, rfl⟩ : ∃ recorded : Nat, greatest = recorded :=
      Int.eq_ofNat_of_zero_le (by omega)
    simp only [if_neg hrange, mapError_ok, Int.toNat_natCast]
    by_cases hlast : recorded + 1 = 2 ^ 32
    · have hgreatest : (recorded : Int) = 2 ^ 32 - 1 := by omega
      simp only [if_pos hlast, if_pos hgreatest, on_bind, on_throw]
    · have hgreatest : ¬ (recorded : Int) = 2 ^ 32 - 1 := by omega
      simp only [if_neg hlast, if_neg hgreatest, on_bind]
      by_cases hcurrent : (currentVersion : Int) ≤ recorded
      · have hnone : pending recorded = [] := by
          simp only [currentVersion] at hcurrent
          simp only [pending, currentVersion, List.range'_eq_nil_iff]
          omega
        simp only [hnone, if_pos hcurrent, applyAll, on_pure]
      · obtain rfl : recorded = 0 := by
          simp only [currentVersion] at hcurrent
          omega
        have hfirst : pending 0 = [currentVersion] := rfl
        simp only [hfirst, if_neg hcurrent, on_pure]
        cases (applyAll [currentVersion]).on tables with
        | mk result next => cases result <;> rfl

/-- Without a table of versions the script starts by creating one. -/
theorem on_script_of_absent (hschema : tables.schema = .absent) :
    script.on tables = script.on { tables with schema := .own [] } := by
  simp only [script, on_bind, on_statement, ensureVersions, hschema]

theorem prepare_of_own {versions : List Int}
    (hschema : tables.schema = .own versions) :
    (Medium.sqlite (.intact tables)).prepare =
      match script.on tables with
      | (.ok _, next) => .ok (.sqlite (.intact next))
      | (.error failure, _) => .error failure := by
  have hfirst := on_applyAll_first hschema
  simp only [Medium.prepare, Tables.migrate, hschema, on_script_of_own hschema]
  generalize versions.max?.getD 0 = greatest
  by_cases hrange : greatest < 0 ∨ 2 ^ 32 ≤ greatest
  · simp only [if_pos hrange]
  · by_cases hlast : greatest = 2 ^ 32 - 1
    · simp only [if_neg hrange, if_pos hlast]
    · by_cases hcurrent : (currentVersion : Int) ≤ greatest
      · simp only [if_neg hrange, if_neg hlast, if_pos hcurrent]
      · simp only [if_neg hrange, if_neg hlast, if_neg hcurrent]
        cases hcreate : tables.createAll versions with
        | ok next =>
            rw [hcreate] at hfirst
            simp only [hfirst]
        | error error =>
            rw [hcreate] at hfirst
            cases hon : (applyAll [currentVersion]).on tables with
            | mk result working =>
                rw [hon] at hfirst
                cases hfirst
                rfl

/-- Opening a store makes of a file what the script does, if it does not fail. -/
theorem prepare_eq_script (tables : Tables) :
    (Medium.sqlite (.intact tables)).prepare =
      match script.on tables with
      | (.ok _, next) => .ok (.sqlite (.intact next))
      | (.error failure, _) => .error failure := by
  cases hschema : tables.schema with
  | foreign =>
      rw [on_script_of_foreign hschema]
      simp only [Medium.prepare, Tables.migrate, hschema]
  | own versions => exact prepare_of_own hschema
  | absent =>
      -- The empty table of versions makes no difference to what comes after it.
      rw [on_script_of_absent hschema, ← prepare_of_own rfl]
      simp only [Medium.prepare, Tables.migrate, hschema]
      rfl

/-- A table of items that is there with no version recorded: it cannot be created,
and by then the table of versions is there. -/
theorem on_script_of_items (hitems : tables.items ≠ .absent)
    (hschema : tables.schema = .absent ∨ tables.schema = .own []) :
    script.on tables =
      (.error (.store .database), { tables with schema := .own [] }) := by
  obtain ⟨items, markers, schema, others⟩ := tables
  rcases hschema with rfl | rfl <;> cases items with
  | absent => exact absurd rfl hitems
  | foreign | own => rfl

end Migration

/-! ## Files that only stores have used -/

def Table.contentOr {α : Type} (table : Table α) (none : α) : α :=
  match table with
  | .own content => content
  | .absent | .foreign => none

namespace Tables

/-- The same rows and markers, and every version up to the current one recorded
once. -/
def opened (tables : Tables) : Tables where
  items := .own (tables.items.contentOr [])
  markers := .own (tables.markers.contentOr .empty)
  schema := .own ((List.range' 1 currentVersion).map Int.ofNat)
  others := tables.others

/-- Nobody has opened the file yet, or nothing is left to be migrated. -/
def Untampered (tables : Tables) : Prop :=
  tables = .unmade ∨ tables.opened = tables

variable {tables before after : Tables}

theorem opened_opened (tables : Tables) : tables.opened.opened = tables.opened :=
  rfl

theorem opened_of_sameSchema (h : before.opened = before)
    (hsame : before.SameSchema after) : after.opened = after := by
  obtain ⟨items, markers, schema, others⟩ := after
  rw [← h] at hsame
  obtain ⟨rows, rfl⟩ := hsame.items.own
  obtain ⟨marks, rfl⟩ := hsame.markers.own
  cases hsame.schema
  rfl

theorem Untampered.of_sameSchema (h : before.Untampered)
    (hsame : before.SameSchema after) : after.Untampered := by
  rcases h with rfl | hopened
  · exact .inl hsame.unmade
  · exact .inr (opened_of_sameSchema hopened hsame)

theorem ne_unmade_of_opened (h : tables.opened = tables) : tables ≠ .unmade := by
  rintro rfl
  cases h

theorem Untampered.unmade_iff (h : before.Untampered)
    (hsame : before.SameSchema after) : after = .unmade ↔ before = .unmade := by
  rcases h with rfl | hopened
  · exact ⟨fun _ => rfl, fun _ => hsame.unmade⟩
  · have hafter := ne_unmade_of_opened (opened_of_sameSchema hopened hsame)
    exact ⟨fun h => absurd h hafter,
      fun h => absurd h (ne_unmade_of_opened hopened)⟩

/-- The script succeeds, and it applies the versions only if nobody has opened the
file before. -/
theorem Untampered.on_script (h : tables.Untampered) :
    Migration.script.on tables =
      (.ok (if tables = .unmade then List.range' 1 currentVersion else []),
        tables.opened) := by
  rcases h with rfl | hopened
  · rfl
  · have hschema : tables.schema = .own [(1 : Int)] := by
      rw [← hopened]
      rfl
    rw [Migration.on_script_of_own hschema, if_neg (ne_unmade_of_opened hopened),
      hopened]
    rfl

end Tables

end Sqlite

/-! ## Runs -/

namespace Schedule

open Sqlite

def Turn.opens (file : Nat) : Turn → Bool
  | .attach index _ => index == file
  | .step _ => false

/-- The versions that opening a store on the medium applies. -/
def applies : Medium → List Nat
  | .sqlite (.intact tables) => (Migration.script.on tables).1.toOption.getD []
  | .memory _ | .sqlite .damaged => []

/-- The versions that are applied to a file in a run, one opening after the other. -/
def State.applied (file : Nat) (state : State) : List Turn → List Nat
  | [] => []
  | turn :: rest =>
      (if turn.opens file then (state.cluster.media[file]?.map applies).getD []
        else []) ++
      match state.turn? turn with
      | some next => next.applied file rest
      | none => []

/-- The tables of a file. -/
def State.Has (state : State) (file : Nat) (tables : Tables) : Prop :=
  state.cluster.media[file]? = some (.sqlite (.intact tables))

variable {state next final : State} {file : Nat} {tables : Tables}

theorem State.Has.attach (h : state.Has file tables) (hfile : tables.Untampered)
    (realm : Realm) :
    state.cluster.attach file realm =
      .ok ((state.cluster.setMedium file
        (.sqlite (.intact tables.opened))).addHandle file realm) := by
  unfold Cluster.attach
  rw [h]
  simp only [Migration.prepare_eq_script, hfile.on_script]
  rfl

/-- Opening a store on another medium leaves the file alone. -/
theorem State.Has.attach_of_ne (h : state.Has file tables) {index : Nat}
    (hne : index ≠ file) {realm : Realm} {cluster : Cluster}
    (hattach : state.cluster.attach index realm = .ok cluster) :
    cluster.media[file]? = some (.sqlite (.intact tables)) := by
  obtain ⟨medium, ready, -, -, rfl⟩ := Cluster.attach_ok hattach
  simp only [Cluster.addHandle, Cluster.setMedium, List.getElem?_set_ne hne]
  exact h

theorem State.Has.turn (h : state.Has file tables) (hfile : tables.Untampered)
    {turn : Turn} (hturn : state.turn? turn = some next) :
    ∃ after, next.Has file after ∧
      if turn.opens file then after = tables.opened
      else tables.SameSchema after := by
  cases turn with
  | step step =>
      obtain ⟨medium, hmedium, hsame⟩ := sameSchemas_freeStep hturn file _ h
      match medium, hsame with
      | .sqlite (.intact after), hsame => exact ⟨after, hmedium, hsame⟩
  | attach index realm =>
      by_cases hindex : index = file
      · subst hindex
        have hlt := (List.getElem?_eq_some_iff.mp h).1
        simp only [State.turn?, h.attach hfile realm] at hturn
        cases hturn
        refine ⟨tables.opened, ?_, ?_⟩
        · unfold State.Has
          simp only [Cluster.addHandle, Cluster.setMedium, List.getElem?_set_self hlt]
        · simp [Turn.opens]
      · refine ⟨tables, ?_, ?_⟩
        · simp only [State.turn?] at hturn
          split at hturn
          · rename_i hattach
            cases hturn
            exact h.attach_of_ne hindex hattach
          · cases hturn
            exact h
        · simp only [Turn.opens, beq_eq_false_iff_ne.mpr hindex, Bool.false_eq_true,
            if_false]
          exact .refl tables

theorem State.Has.turn_untampered (h : state.Has file tables)
    (hfile : tables.Untampered) {turn : Turn} (hturn : state.turn? turn = some next) :
    ∃ after, next.Has file after ∧ after.Untampered := by
  obtain ⟨after, hafter, hturned⟩ := h.turn hfile hturn
  refine ⟨after, hafter, ?_⟩
  split at hturned
  · rw [hturned]
    exact .inr (Tables.opened_opened tables)
  · exact hfile.of_sameSchema hturned

theorem State.Has.turns (h : state.Has file tables) (hfile : tables.Untampered)
    {turns : List Turn} (hrun : state.turns? turns = some final) :
    ∃ after, final.Has file after ∧ after.Untampered :=
  State.turns?_induction
    (motive := fun state => ∃ tables, state.Has file tables ∧ tables.Untampered)
    (fun _ _ _ ⟨_, h, hfile⟩ hturn => h.turn_untampered hfile hturn)
    ⟨tables, h, hfile⟩ hrun

/-- The first opening applies all versions, and no other one applies any. -/
theorem State.Has.applied (h : state.Has file tables) (hfile : tables.Untampered)
    {turns : List Turn} (hrun : state.turns? turns = some final) :
    state.applied file turns =
      if tables = .unmade ∧ turns.any (Turn.opens file) then
        List.range' 1 Tables.currentVersion
      else [] := by
  induction turns generalizing state tables with
  | nil => simp [State.applied]
  | cons turn rest ih =>
      obtain ⟨next, hturn, hrest⟩ := Option.bind_eq_some_iff.mp hrun
      obtain ⟨after, hafter, hturned⟩ := h.turn hfile hturn
      simp only [State.applied, hturn]
      by_cases hopens : turn.opens file = true
      · rw [if_pos hopens] at hturned
        subst hturned
        have hopened := Tables.opened_opened tables
        have hnone : ¬ (tables.opened = .unmade ∧
            rest.any (Turn.opens file) = true) :=
          fun hmade => Tables.ne_unmade_of_opened hopened hmade.1
        have hany : (turn :: rest).any (Turn.opens file) = true := by simp [hopens]
        have hmedium : state.cluster.media[file]? = _ := h
        rw [ih hafter (.inr hopened) hrest, if_neg hnone, if_pos hopens, hmedium]
        simp [applies, hfile.on_script, Except.toOption, hany]
      · rw [if_neg hopens] at hturned
        have hany : (turn :: rest).any (Turn.opens file) =
            rest.any (Turn.opens file) := by simp [hopens]
        rw [ih hafter (hfile.of_sameSchema hturned) hrest]
        simp [hopens, hfile.unmade_iff hturned, hany]

/-- A file that was fresh, after any run of stores on it: whoever opens it next
succeeds and finds all rows and markers as they were and every version recorded
once, and whoever opened it in the run, the versions were applied by the first
opening alone.  On any file, a session opens a store if all statements of the script
succeed, and if one of them fails it leaves the file and all stores as they were. -/
theorem migrates_once_or_fails_whole :
    (∀ (media : List Medium) (file : Nat) (turns : List Turn) (state : State),
      media[file]? = some (.sqlite .fresh) →
      (State.start ⟨media, []⟩).turns? turns = some state →
      (∃ tables, state.cluster.media[file]? = some (.sqlite (.intact tables)) ∧
        ∀ realm, state.cluster.attach file realm =
          .ok ((state.cluster.setMedium file
            (.sqlite (.intact tables.opened))).addHandle file realm)) ∧
      (State.start ⟨media, []⟩).applied file turns =
        if turns.any (Turn.opens file) then List.range' 1 Tables.currentVersion
        else []) ∧
    (∀ (world : Session.World) (opening : Session.Opening) (tables : Tables),
      opening.backing = .sharedFile → world.Furnished →
      world.cluster.media[Session.World.sharedFile]? =
        some (.sqlite (.intact tables)) →
      (Session.openStore opening).at world =
        match Migration.script.on tables with
        | (.ok _, next) => (.ok (), { world with
            cluster := (world.cluster.setMedium Session.World.sharedFile
              (.sqlite (.intact next))).addHandle Session.World.sharedFile
                opening.realm
            clients := world.clients ++
              [some (opening.client world.cluster.handles.length)] })
        | (.error failure, _) => (.error failure,
            { world with clients := world.clients ++ [none] })) ∧
    ∀ tables : Tables, tables.items ≠ .absent →
      tables.schema = .absent ∨ tables.schema = .own [] →
      Migration.script.on tables =
        (.error (.store .database), { tables with schema := .own [] }) := by
  refine ⟨fun media file turns state hfresh hrun => ?_,
    fun world opening tables hbacking hworld hmedium => ?_,
    fun tables => Migration.on_script_of_items⟩
  · have hstart : (State.start ⟨media, []⟩).Has file .unmade := hfresh
    obtain ⟨tables, htables, hfile⟩ := hstart.turns (.inl rfl) hrun
    refine ⟨⟨tables, htables, htables.attach hfile⟩, ?_⟩
    rw [hstart.applied (.inl rfl) hrun]
    simp
  · have hshared : opening.backing.shared? = some Session.World.sharedFile := by
      rw [hbacking]
      rfl
    rw [Session.openStore_at hworld hshared]
    unfold Cluster.attach
    simp only [hmedium, Migration.prepare_eq_script]
    cases Migration.script.on tables with
    | mk result next => cases result <;> rfl

/-- A file opened three times, with a write and a closing in between, and a file that
somebody else has made a table of items in. -/
theorem migrates_once_opened_thrice :
    (∃ state, (State.start ⟨[.sqlite .fresh], []⟩).turns?
        [.attach 0 .standard,
          .step (.enter ⟨0, .serve 0 (.upsert .features (.live "a" 1 .null))⟩),
          .attach 0 ⟨"other"⟩, .step (.finish 0), .step (.enter ⟨1, .serve 1 .close⟩),
          .attach 0 .standard] = some state ∧
      (State.start ⟨[.sqlite .fresh], []⟩).applied 0
        [.attach 0 .standard,
          .step (.enter ⟨0, .serve 0 (.upsert .features (.live "a" 1 .null))⟩),
          .attach 0 ⟨"other"⟩, .step (.finish 0), .step (.enter ⟨1, .serve 1 .close⟩),
          .attach 0 .standard] = [1]) ∧
    ∃ world : Session.World, (Session.openStore
        (.direct .sharedFile none none none)).at world =
          (.error (.store .database), { world with clients := [none] }) ∧
      world.cluster.media[Session.World.sharedFile]? =
        some (.sqlite (.intact { Tables.unmade with items := .foreign })) := by
  obtain ⟨honce, hwhole, hthere⟩ := migrates_once_or_fails_whole
  constructor
  · refine ⟨_, rfl, (honce _ 0 _ _ rfl rfl).2⟩
  · refine ⟨⟨⟨[.memory .empty, .sqlite (.intact { Tables.unmade with
      items := .foreign })], []⟩, [], ⟨0⟩, []⟩, ?_, rfl⟩
    have hopen := hwhole ⟨⟨[.memory .empty, .sqlite (.intact { Tables.unmade with
      items := .foreign })], []⟩, [], ⟨0⟩, []⟩ (.direct .sharedFile none none none)
      { Tables.unmade with items := .foreign } rfl
      ⟨⟨.empty, rfl⟩, ⟨_, rfl⟩⟩ rfl
    rw [hthere _ (by decide) (.inl rfl)] at hopen
    exact hopen

end Schedule

end VersionedFlags
