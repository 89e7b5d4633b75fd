import VersionedFlags.Proofs.Store.Migration

/-!
# Schema versions that a file may record

A file may record any integers as its schema versions.  The greatest of them is read
as a word of 32 bits, and the versions from the one after it up to the current one
are applied.  The greatest word of all has none after it, and that is the one version
at which opening a file is aborted.  Any other file that has its tables is opened or
refused, nobody is ever asked to apply a version that is not known, and whatever
comes of it the file stays as it is.
-/

namespace VersionedFlags

/-- Errors that the database itself reports. -/
def StoreError.OfDatabase : StoreError → Prop
  | .database | .wrongCell _ _ _ | .integerOutOfRange _ _ => True
  | .closed | .versionOutOfRange _ _ | .negativeVersion _ | .refused _
  | .payload _ => False

namespace Sqlite

namespace Migration

open Tables

/-! ## Versions as words -/

def wordOf (value : Int) : Except StoreError UInt32 :=
  if 0 ≤ value ∧ value < 2 ^ 32 then .ok (UInt32.ofNat value.toNat)
  else .error (.integerOutOfRange value 0)

/-- The version after one, if there is a word for it. -/
def next? (version : UInt32) : Option UInt32 :=
  if version.toNat + 1 < 2 ^ 32 then some (UInt32.ofNat (version.toNat + 1))
  else none

def wordsUpTo (last first : UInt32) : List UInt32 :=
  (List.range' first.toNat (last.toNat + 1 - first.toNat)).map UInt32.ofNat

theorem wordOf_of_outside {value : Int} (h : value < 0 ∨ 2 ^ 32 ≤ value) :
    wordOf value = .error (.integerOutOfRange value 0) :=
  if_neg (by omega)

theorem exists_wordOf {value : Int} (h : ¬ (value < 0 ∨ 2 ^ 32 ≤ value)) :
    ∃ word, wordOf value = .ok word ∧ (word.toNat : Int) = value := by
  refine ⟨UInt32.ofNat value.toNat, if_pos (by omega), ?_⟩
  rw [UInt32.toNat_ofNat', Nat.mod_eq_of_lt (by omega)]
  omega

theorem toNat_next? {version after : UInt32} (h : next? version = some after) :
    after.toNat = version.toNat + 1 := by
  unfold next? at h
  split at h
  · cases h
    rw [UInt32.toNat_ofNat', Nat.mod_eq_of_lt (by omega)]
  · cases h

/-- Only the greatest word has none after it. -/
theorem next?_eq_none {version : UInt32} :
    next? version = none ↔ version.toNat = 2 ^ 32 - 1 := by
  have hlt := version.toNat_lt
  unfold next?
  split <;> simp <;> omega

/-- The first version is left to apply if none is recorded; from the current one on
the range starts behind its end and is empty. -/
theorem wordsUpTo_current {current first : UInt32} (h : next? current = some first) :
    wordsUpTo (UInt32.ofNat currentVersion) first =
      if currentVersion ≤ current.toNat then [] else [1] := by
  have hfirst := toNat_next? h
  have hlast : (UInt32.ofNat currentVersion).toNat = currentVersion := rfl
  split
  · rw [wordsUpTo, hlast, Nat.sub_eq_zero_of_le (by omega)]
    rfl
  · have hone : first = 1 := by
      simp only [currentVersion] at *
      rw [← UInt32.toNat_inj, hfirst, show (1 : UInt32).toNat = 1 from rfl]
      omega
    rw [hone]
    rfl

/-! ## Migrating by words -/

inductive Mishap where
  | refused (error : StoreError)
  /-- There are no statements for the version. -/
  | unknown (version : UInt32)
  /-- There is no word for the version after the recorded one. -/
  | overflow
  deriving DecidableEq, Repr

def Mishap.failure : Mishap → Session.Failure
  | .refused error => .store error
  | .unknown _ => .store .database
  | .overflow => .aborted

def applyWord (tables : Tables) (version : UInt32) : Except Mishap Tables :=
  if version = 1 then do
    let tables ← (createItems tables).mapError .refused
    let tables ← (createMarkers tables).mapError .refused
    let tables ← (createIndex tables).mapError .refused
    (record version.toNat tables).mapError .refused
  else .error (.unknown version)

/-- What the transaction of a migration makes of the tables, unless it is rolled
back. -/
def attempt (tables : Tables) : Except Mishap Tables := do
  let tables ← (ensureVersions tables).mapError .refused
  let versions ← tables.schema.content.mapError .refused
  let current ← (wordOf (versions.max?.getD 0)).mapError .refused
  match next? current with
  | none => .error .overflow
  | some first =>
      (wordsUpTo (UInt32.ofNat currentVersion) first).foldlM applyWord tables

variable {tables : Tables}

theorem applyWord_first {versions : List Int}
    (hschema : tables.schema = .own versions) :
    applyWord tables 1 = (tables.createAll versions).mapError .refused := by
  obtain ⟨items, markers, schema, others⟩ := tables
  cases hschema
  simp only [applyWord, if_true, createItems, createMarkers, createIndex, record,
    createAll]
  cases items with
  | foreign | own => rfl
  | absent =>
      cases markers with
      | foreign | own => rfl
      | absent =>
          simp only [Table.create, ok_bind]
          cases hindex : others.contains indexName with
          | true => simp [hindex, pure, Except.pure]
          | false =>
              cases hinsert : insertVersion 1 versions with
              | none =>
                  simp [hindex, hinsert, Table.content, pure, Except.pure,
                    currentVersion]
              | some recorded =>
                  simp [hindex, hinsert, Table.content, pure, Except.pure,
                    currentVersion]

theorem attempt_of_foreign (hschema : tables.schema = .foreign) :
    attempt tables = .error (.refused .database) := by
  simp only [attempt, ensureVersions, hschema, mapError_ok, ok_bind, Table.content,
    mapError_error, error_bind]

theorem attempt_of_absent (hschema : tables.schema = .absent) :
    attempt tables = attempt { tables with schema := .own [] } := by
  simp only [attempt, ensureVersions, hschema]

/-- With its table of versions there, a file is judged by the greatest of them. -/
theorem attempt_of_own {versions : List Int}
    (hschema : tables.schema = .own versions) :
    attempt tables =
      let greatest := versions.max?.getD 0
      if greatest < 0 ∨ 2 ^ 32 ≤ greatest then
        .error (.refused (.integerOutOfRange greatest 0))
      else if greatest = 2 ^ 32 - 1 then .error .overflow
      else if currentVersion ≤ greatest then .ok tables
      else (tables.createAll versions).mapError .refused := by
  simp only [attempt, ensureVersions, hschema, mapError_ok, ok_bind, Table.content]
  generalize versions.max?.getD 0 = greatest
  split
  case isTrue hrange =>
    rw [wordOf_of_outside hrange]
    rfl
  case isFalse hrange =>
    obtain ⟨current, hword, rfl⟩ := exists_wordOf hrange
    rw [hword]
    simp only [mapError_ok, ok_bind]
    cases hnext : next? current with
    | none =>
        have hlast := next?_eq_none.mp hnext
        rw [if_pos (by omega)]
    | some first =>
        have hlast : current.toNat ≠ 2 ^ 32 - 1 := by
          intro h
          rw [next?_eq_none.mpr h] at hnext
          cases hnext
        rw [if_neg (by omega)]
        simp only [wordsUpTo_current hnext, Nat.cast_le]
        split
        · rfl
        · rw [List.foldlM_cons, applyWord_first hschema]
          cases tables.createAll versions <;> rfl

theorem refused_of_createAll {versions : List Int} {mishap : Mishap}
    (h : (tables.createAll versions).mapError Mishap.refused = .error mishap) :
    ∃ error, mishap = .refused error := by
  cases hcreate : tables.createAll versions with
  | ok next =>
      rw [hcreate] at h
      cases h
  | error error =>
      rw [hcreate] at h
      cases h
      exact ⟨error, rfl⟩

/-- No file brings a migration to a version that it has no statements for. -/
theorem attempt_ne_unknown (tables : Tables) (version : UInt32) :
    attempt tables ≠ .error (.unknown version) := by
  have hown : ∀ {tables : Tables} {versions : List Int},
      tables.schema = .own versions → attempt tables ≠ .error (.unknown version) := by
    intro tables versions hschema h
    rw [attempt_of_own hschema] at h
    simp only at h
    split at h
    · cases h
    · split at h
      · cases h
      · split at h
        · cases h
        · obtain ⟨error, herror⟩ := refused_of_createAll h
          cases herror
  cases hschema : tables.schema with
  | foreign =>
      rw [attempt_of_foreign hschema]
      exact nofun
  | absent =>
      rw [attempt_of_absent hschema]
      exact hown rfl
  | own versions => exact hown hschema

theorem prepare_of_attempt_own {versions : List Int}
    (hschema : tables.schema = .own versions) :
    (Medium.sqlite (.intact tables)).prepare =
      match attempt tables with
      | .ok next => .ok (.sqlite (.intact next))
      | .error mishap => .error mishap.failure := by
  simp only [Medium.prepare, Tables.migrate, hschema, attempt_of_own hschema]
  generalize versions.max?.getD 0 = greatest
  by_cases hrange : greatest < 0 ∨ 2 ^ 32 ≤ greatest
  · simp only [if_pos hrange]
    rfl
  · by_cases hlast : greatest = 2 ^ 32 - 1
    · simp only [if_neg hrange, if_pos hlast]
      rfl
    · by_cases hdone : (currentVersion : Int) ≤ greatest
      · simp only [if_neg hrange, if_neg hlast, if_pos hdone]
      · simp only [if_neg hrange, if_neg hlast, if_neg hdone]
        cases tables.createAll versions <;> rfl

/-- What opening a store makes of a file is what the attempt makes of it. -/
theorem prepare_eq_attempt (tables : Tables) :
    (Medium.sqlite (.intact tables)).prepare =
      match attempt tables with
      | .ok next => .ok (.sqlite (.intact next))
      | .error mishap => .error mishap.failure := by
  cases hschema : tables.schema with
  | foreign =>
      rw [attempt_of_foreign hschema]
      simp only [Medium.prepare, Tables.migrate, hschema]
      rfl
  | own versions => exact prepare_of_attempt_own hschema
  | absent =>
      rw [attempt_of_absent hschema, ← prepare_of_attempt_own rfl]
      simp only [Medium.prepare, Tables.migrate, hschema]
      rfl

/-- The tables of items cannot be created a second time. -/
theorem createAll_of_items (hitems : tables.items ≠ .absent) (versions : List Int) :
    tables.createAll versions = .error .database := by
  unfold createAll
  cases htable : tables.items with
  | absent => exact absurd htable hitems
  | foreign | own => rfl

/-- With its tables there, a file is left as it is or the attempt fails. -/
theorem attempt_cases {versions : List Int} (hitems : tables.items ≠ .absent)
    (hschema : tables.schema = .own versions) :
    (attempt tables = .ok tables ∧ currentVersion ≤ versions.max?.getD 0 ∧
      versions.max?.getD 0 < 2 ^ 32 - 1) ∨
    (attempt tables = .error .overflow ∧ versions.max?.getD 0 = 2 ^ 32 - 1) ∨
    ∃ error, attempt tables = .error (.refused error) ∧ error.OfDatabase ∧
      (versions.max?.getD 0 < currentVersion ∨ 2 ^ 32 ≤ versions.max?.getD 0) := by
  have hattempt := attempt_of_own hschema
  rw [createAll_of_items hitems] at hattempt
  simp only at hattempt
  generalize versions.max?.getD 0 = greatest at hattempt ⊢
  have hcurrent : ((currentVersion : Nat) : Int) = 1 := rfl
  by_cases hrange : greatest < 0 ∨ 2 ^ 32 ≤ greatest
  · rw [if_pos hrange] at hattempt
    exact .inr (.inr ⟨_, hattempt, trivial, by omega⟩)
  · by_cases hlast : greatest = 2 ^ 32 - 1
    · rw [if_neg hrange, if_pos hlast] at hattempt
      exact .inr (.inl ⟨hattempt, hlast⟩)
    · by_cases hdone : (currentVersion : Int) ≤ greatest
      · rw [if_neg hrange, if_neg hlast, if_pos hdone] at hattempt
        exact .inl ⟨hattempt, hdone, by omega⟩
      · rw [if_neg hrange, if_neg hlast, if_neg hdone] at hattempt
        exact .inr (.inr ⟨_, hattempt, trivial, .inl (by omega)⟩)

end Migration

end Sqlite

namespace Session

open Sqlite Migration Tables

/-- A file with a table of items, whatever versions it records, never brings opening a
store to a version that is not known, and there is a word for the version after the
greatest recorded one unless that is the last word.  The file stays as it is; opening
it succeeds from the current version on up to the last but one word, it is aborted at
the last word, and otherwise it is refused with an error of the database. -/
theorem opens_below_last_word (world : World) (opening : Opening) {tables : Tables}
    {versions : List Int} (hworld : world.Furnished)
    (hbacking : opening.backing = .sharedFile)
    (hmedium : world.cluster.media[World.sharedFile]? = some (.sqlite (.intact tables)))
    (hitems : tables.items ≠ .absent) (hschema : tables.schema = .own versions) :
    (∀ version, attempt tables ≠ .error (.unknown version)) ∧
    (attempt tables = .error .overflow ↔ versions.max?.getD 0 = 2 ^ 32 - 1) ∧
    ∃ result after, (openStore opening).at world = (result, after) ∧
      (result = match attempt tables with
        | .ok _ => .ok ()
        | .error mishap => .error mishap.failure) ∧
      after.cluster.media = world.cluster.media ∧
      (result = .ok () ↔ currentVersion ≤ versions.max?.getD 0 ∧
        versions.max?.getD 0 < 2 ^ 32 - 1) ∧
      (result = .error .aborted ↔ versions.max?.getD 0 = 2 ^ 32 - 1) ∧
      (versions.max?.getD 0 < currentVersion ∨ 2 ^ 32 ≤ versions.max?.getD 0 →
        ∃ error : StoreError, result = .error (.store error) ∧ error.OfDatabase) := by
  have hshared : opening.backing.shared? = some World.sharedFile := by
    rw [hbacking]
    rfl
  have hself : (world.cluster.setMedium World.sharedFile
      (.sqlite (.intact tables))).media = world.cluster.media := by
    rw [Cluster.setMedium_self hmedium]
  have hcurrent : ((currentVersion : Nat) : Int) = 1 := rfl
  refine ⟨attempt_ne_unknown tables, ?_⟩
  rw [openStore_at hworld hshared]
  simp only [Cluster.attach, hmedium, prepare_eq_attempt]
  rcases attempt_cases hitems hschema with
    ⟨hattempt, hfrom, hbelow⟩ | ⟨hattempt, hlast⟩ | ⟨error, hattempt, herror, hrange⟩
  · rw [hattempt]
    exact ⟨iff_of_false (by simp) (by omega), _, _, rfl, rfl, hself,
      iff_of_true rfl ⟨hfrom, hbelow⟩, iff_of_false (by simp) (by omega),
      fun h => by omega⟩
  · rw [hattempt]
    exact ⟨iff_of_true rfl hlast, _, _, rfl, rfl, rfl,
      iff_of_false (by simp) (by omega), iff_of_true rfl hlast, fun h => by omega⟩
  · rw [hattempt]
    exact ⟨iff_of_false (by simp) (by omega), _, _, rfl, rfl, rfl,
      iff_of_false (by simp) (by omega),
      iff_of_false (by simp [Mishap.failure]) (by omega),
      fun _ => ⟨error, rfl, herror⟩⟩

/-- A world with a file that has its tables and records the versions. -/
def World.recording (versions : List Int) : World where
  cluster := ⟨[.memory .empty, .sqlite (.intact
    ⟨.own [], .own .empty, .own versions, .empty⟩)], []⟩
  clients := []
  now := ⟨nanosPerSecond⟩
  inner := []

/-- The least integer and the last but one word are recorded. -/
theorem opens_recording_extremes :
    let world : World := .recording [-2 ^ 63, 1, 2 ^ 32 - 2]
    world.Furnished ∧ ∃ after,
      (openStore (.direct .sharedFile none none none)).at world = (.ok (), after) ∧
      after.cluster.media = world.cluster.media := by
  intro world
  have hfurnished : world.Furnished := ⟨⟨.empty, rfl⟩, ⟨_, rfl⟩⟩
  obtain ⟨-, -, result, after, hopen, -, hmedia, hok, -⟩ :=
    opens_below_last_word world (.direct .sharedFile none none none) hfurnished rfl rfl
      (by decide) rfl
  have hresult := hok.mpr (by decide)
  exact ⟨hfurnished, after, by rw [hopen, hresult], hmedia⟩

/-- A store cannot be opened on a file that records the greatest word, although it
is up to date. -/
theorem aborted_recording_last_word :
    ([1, 2 ^ 32 - 1] : List Int).max? = some (2 ^ 32 - 1) ∧
      ∃ after, (openStore (.direct .sharedFile none none none)).at
        (.recording [1, 2 ^ 32 - 1]) = (.error .aborted, after) :=
  ⟨by decide, _, rfl⟩

end Session

end VersionedFlags
