import VersionedFlags.Proofs.Fallible
import VersionedFlags.Proofs.Store.Memory
import VersionedFlags.Store.Medium

/-!
# Upserts in one step

An upsert that nothing comes between looks at what is stored, tombstones
included, and stores its item if nothing is or the stored version is lower.
The conditional write of an open handle is such an upsert, whatever happened
since the advisory read, as long as the stored versions are integers of a table.
-/

namespace VersionedFlags

namespace Sqlite

namespace Tables

/-! ## Storing a row -/

/-- Stores a row in the place of the one under its key, or at the end. -/
def stow (row : Row) : List Row → List Row
  | [] => [row]
  | first :: rest =>
      if first.scope = row.scope ∧ first.key = row.key then row :: rest
      else first :: stow row rest

theorem row?_stow (row : Row) (rows : List Row) (scope key : String) :
    row? (stow row rows) scope key =
      if row.scope = scope ∧ row.key = key then some row
      else row? rows scope key := by
  induction rows with
  | nil =>
      by_cases hrow : row.scope = scope ∧ row.key = key
      · simp [stow, row?, hrow]
      · have hmiss : (row.scope == scope && row.key == key) = false := by
          simpa using hrow
        simp [stow, row?, hrow, hmiss]
  | cons first rest ih =>
      simp only [row?] at ih
      by_cases hfirst : first.scope = row.scope ∧ first.key = row.key
      · by_cases hrow : row.scope = scope ∧ row.key = key
        · simp [stow, row?, hfirst, hrow]
        · have hmiss : (row.scope == scope && row.key == key) = false := by
            simpa using hrow
          simp [stow, row?, hfirst, hrow, hmiss]
      · simp only [stow, if_neg hfirst, row?, List.find?_cons]
        cases hhit : first.scope == scope && first.key == key with
        | true =>
            have hplace : first.scope = scope ∧ first.key = key := by
              simpa using hhit
            have hrow : ¬ (row.scope = scope ∧ row.key = key) := by
              rintro ⟨rfl, rfl⟩
              exact hfirst hplace
            simp [hrow]
        | false => exact ih

theorem mem_stow {row other : Row} {rows : List Row}
    (h : other ∈ stow row rows) : other = row ∨ other ∈ rows := by
  induction rows with
  | nil => simpa [stow] using h
  | cons first rest ih =>
      simp only [stow] at h
      split at h
      · rcases List.mem_cons.mp h with rfl | hm
        · exact .inl rfl
        · exact .inr (List.mem_cons_of_mem _ hm)
      · rcases List.mem_cons.mp h with rfl | hm
        · exact .inr List.mem_cons_self
        · exact (ih hm).imp_right (List.mem_cons_of_mem _)

/-- The conditional write stores its row unless one of a version as great is
stored under its key. -/
theorem putRow_eq (row : Row) (version : Int) (rows : List Row) :
    putRow row version rows =
      match row? rows row.scope row.key with
      | none => (.applied, stow row rows)
      | some found =>
          if found.version.ltInteger version then (.applied, stow row rows)
          else (.superseded, rows) := by
  induction rows with
  | nil => rfl
  | cons first rest ih =>
      by_cases hfirst : first.scope = row.scope ∧ first.key = row.key
      · simp [putRow, stow, row?, hfirst]
      · have hmiss : (first.scope == row.scope && first.key == row.key) = false := by
          simpa using hfirst
        simp only [row?] at ih
        simp only [putRow, stow, if_neg hfirst, ih, row?, List.find?_cons, hmiss]
        cases rest.find? fun other =>
            other.scope == row.scope && other.key == row.key with
        | none => rfl
        | some found =>
            cases hlower : found.version.ltInteger version <;> simp [hlower]

/-! ## Tables whose versions are integers -/

def Row.Sound (row : Row) : Prop :=
  ∃ version : Int, row.version = .integer version ∧ version < 2 ^ 63

/-- The table of items is the store's own, and its versions are integers of a
table. -/
def Sound (tables : Tables) : Prop :=
  ∃ rows, tables.items = .own rows ∧ ∀ row ∈ rows, Row.Sound row

/-- Whatever else the versions are, no integer among them is beyond those of a
table. -/
def Ranged (tables : Tables) : Prop :=
  ∀ rows, tables.items = .own rows → ∀ row ∈ rows, ∀ version : Int,
    row.version = .integer version → version < 2 ^ 63

def put (tables : Tables) (realm : Realm) (kind : Kind) (item : Item) :
    Tables :=
  match tables.items with
  | .own rows =>
      let row := rowOf (realm.scope kind) item item.version.toNat
      { tables with items := .own (stow row rows) }
  | .absent | .foreign => tables

variable {tables : Tables}

theorem sound_rowOf (scope : String) {item : Item}
    (hfits : item.version.toNat < 2 ^ 63) :
    Row.Sound (rowOf scope item item.version.toNat) :=
  ⟨item.version.toNat, rfl, by omega⟩

theorem Sound.put (h : tables.Sound) (realm : Realm) (kind : Kind)
    {item : Item} (hfits : item.version.toNat < 2 ^ 63) :
    (tables.put realm kind item).Sound := by
  obtain ⟨rows, hitems, hrows⟩ := h
  refine ⟨stow (rowOf (realm.scope kind) item item.version.toNat) rows,
    by simp [Tables.put, hitems], ?_⟩
  intro row hm
  rcases mem_stow hm with rfl | hm
  · exact sound_rowOf _ hfits
  · exact hrows row hm

theorem Ranged.put (h : tables.Ranged) (realm : Realm) (kind : Kind) {item : Item}
    (hfits : item.version.toNat < 2 ^ 63) : (tables.put realm kind item).Ranged := by
  unfold Tables.put
  cases hitems : tables.items with
  | absent | foreign => exact h
  | own rows =>
      intro stowed hstowed row hm version hversion
      cases hstowed
      rcases mem_stow hm with rfl | hm
      · cases hversion
        omega
      · exact h rows hitems row hm version hversion

/-- A negative version counts as none, and is lower than every version. -/
theorem ltInteger_eq_supersedes {version : Int} (hlt : version < 2 ^ 63)
    (item : Item) :
    (Cell.integer version).ltInteger item.version.toNat =
      item.supersedes (if version < 0 then none
        else some (UInt64.ofNat version.toNat)) := by
  by_cases hneg : version < 0
  · simp only [Cell.ltInteger, if_pos hneg, Item.supersedes, decide_eq_true_eq]
    omega
  · simp only [Cell.ltInteger, if_neg hneg, Item.supersedes,
      UInt64.lt_iff_toNat_lt, UInt64.toNat_ofNat', decide_eq_decide]
    rw [Nat.mod_eq_of_lt (by omega)]
    omega

/-- A version that can be read is that of the row in its place, if there is one. -/
theorem version?_cases {realm : Realm} {kind : Kind} {key : String}
    {stored : Option UInt64} (h : tables.version? realm kind key = .ok stored) :
    ∃ rows, tables.items = .own rows ∧
      (row? rows (realm.scope kind) key = none ∧ stored = none ∨
        ∃ row version, row? rows (realm.scope kind) key = some row ∧
          row.version = .integer version ∧
          stored = if version < 0 then none
            else some (UInt64.ofNat version.toNat)) := by
  obtain ⟨rows, hrows, h⟩ := exists_of_bind_eq_ok h
  refine ⟨rows, ?_, ?_⟩
  · cases hitems : tables.items with
    | own found =>
        rw [hitems] at hrows
        cases hrows
        rfl
    | absent | foreign =>
        rw [hitems] at hrows
        cases hrows
  · cases hfound : row? rows (realm.scope kind) key with
    | none =>
        rw [hfound] at h
        cases h
        exact .inl ⟨rfl, rfl⟩
    | some row =>
        obtain ⟨scope, key', cell, deleted, data⟩ := row
        rw [hfound] at h
        cases cell with
        | integer version =>
            refine .inr ⟨_, version, rfl, rfl, ?_⟩
            by_cases hneg : version < 0
            · simp only [if_pos hneg] at h ⊢
              cases h
              rfl
            · simp only [if_neg hneg] at h ⊢
              cases h
              rfl
        | real | text | blob | null => cases h

/-- Where the version can be read, the conditional write and the comparison
with it agree. -/
theorem Ranged.write (h : tables.Ranged) {realm : Realm} {kind : Kind}
    {key : String} {stored : Option UInt64}
    (hstored : tables.version? realm kind key = .ok stored) :
    (∀ version, stored = some version → version.toNat < 2 ^ 63) ∧
      ∀ item : Item, item.key = key →
        tables.write realm kind item item.version.toNat =
          .ok (if item.supersedes stored then
            (.applied, tables.put realm kind item)
          else (.superseded, tables)) := by
  obtain ⟨rows, hitems, hplace⟩ := version?_cases hstored
  rcases hplace with ⟨hnone, rfl⟩ | ⟨found, version, hsome, hversion, rfl⟩
  · refine ⟨by simp, ?_⟩
    rintro item rfl
    have hrow : row? rows (rowOf (realm.scope kind) item
        item.version.toNat).scope (rowOf (realm.scope kind) item
          item.version.toNat).key = none := hnone
    simp only [Tables.write, hitems, Table.content, ok_bind, putRow_eq,
      hrow, Item.supersedes, Tables.put, if_true]
    rfl
  · have hlt := h rows hitems found (List.mem_of_find?_eq_some hsome) version
      hversion
    constructor
    · intro stored hstored
      split at hstored
      · cases hstored
      · cases hstored
        rw [UInt64.toNat_ofNat', Nat.mod_eq_of_lt (by omega)]
        omega
    · rintro item rfl
      have hrow : row? rows (rowOf (realm.scope kind) item
          item.version.toNat).scope (rowOf (realm.scope kind) item
            item.version.toNat).key = some found := hsome
      simp only [Tables.write, hitems, Table.content, ok_bind, putRow_eq,
        hrow, hversion, ltInteger_eq_supersedes hlt, Tables.put]
      cases item.supersedes (if version < 0 then none
        else some (UInt64.ofNat version.toNat)) with
      | true => rfl
      | false =>
          obtain ⟨items, markers, schema, others⟩ := tables
          cases hitems
          rfl

theorem Sound.ranged (h : tables.Sound) : tables.Ranged := by
  obtain ⟨rows, hitems, hrows⟩ := h
  intro found hfound row hm version hversion
  rw [hitems] at hfound
  cases hfound
  obtain ⟨other, hother, hlt⟩ := hrows row hm
  rw [hversion] at hother
  cases hother
  exact hlt

theorem Sound.exists_version? (h : tables.Sound) (realm : Realm) (kind : Kind)
    (key : String) : ∃ stored, tables.version? realm kind key = .ok stored := by
  obtain ⟨rows, hitems, hrows⟩ := h
  simp only [Tables.version?, hitems, Table.content, ok_bind]
  cases hfound : row? rows (realm.scope kind) key with
  | none => exact ⟨none, rfl⟩
  | some found =>
      obtain ⟨version, hversion, -⟩ :=
        hrows found (List.mem_of_find?_eq_some hfound)
      obtain ⟨scope, key', cell, deleted, data⟩ := found
      cases hversion
      simp only
      split <;> exact ⟨_, rfl⟩

theorem Sound.version? (h : tables.Sound) (realm : Realm) (kind : Kind)
    (key : String) :
    ∃ stored, tables.version? realm kind key = .ok stored ∧
      (∀ version, stored = some version → version.toNat < 2 ^ 63) ∧
      ∀ item : Item, item.key = key →
        tables.write realm kind item item.version.toNat =
          .ok (if item.supersedes stored then
            (.applied, tables.put realm kind item)
          else (.superseded, tables)) := by
  obtain ⟨stored, hstored⟩ := h.exists_version? realm kind key
  exact ⟨stored, hstored, h.ranged.write hstored⟩

theorem Sound.replaceScope (h : tables.Sound) {scope : String}
    {items : List Item} {next : Tables}
    (heq : tables.replaceScope scope items = .ok next) : next.Sound := by
  obtain ⟨rows, hitems, hrows⟩ := h
  simp only [Tables.replaceScope, insertAll, hitems, Table.content, ok_bind] at heq
  obtain ⟨all, heq, hnext⟩ := exists_of_bind_eq_ok heq
  obtain ⟨added, hadded, heq⟩ := exists_of_bind_eq_ok heq
  cases heq
  cases hnext
  refine ⟨_, rfl, fun row hm => ?_⟩
  rcases List.mem_append.mp hm with hm | hm
  · exact hrows row (List.mem_filter.mp hm).1
  · obtain ⟨item, -, hrow⟩ := exists_of_mem_mapM hadded hm
    by_cases hfits : item.version.toNat < 2 ^ 63
    · rw [versionCell, if_pos hfits] at hrow
      cases hrow
      exact sound_rowOf scope hfits
    · rw [versionCell, if_neg hfits] at hrow
      cases hrow

theorem Sound.foldlM_replaceScope (realm : Realm)
    {parts : List (Kind × KeyMap Item)} (h : tables.Sound) {next : Tables}
    (heq : parts.foldlM (fun tables part =>
      tables.replaceScope (realm.scope part.1) part.2.values) tables =
        .ok next) :
    next.Sound := by
  induction parts generalizing tables with
  | nil =>
      cases heq
      exact h
  | cons part rest ih =>
      rw [List.foldlM_cons] at heq
      obtain ⟨middle, hpart, heq⟩ := exists_of_bind_eq_ok heq
      exact ih (h.replaceScope hpart) heq

theorem Sound.init (h : tables.Sound) {realm : Realm} {data : DataSet}
    {next : Tables} (heq : tables.init realm data = .ok next) : next.Sound := by
  obtain ⟨middle, hparts, heq⟩ := exists_of_bind_eq_ok heq
  obtain ⟨rows, hitems, hrows⟩ := h.foldlM_replaceScope realm hparts
  obtain ⟨markers, -, heq⟩ := exists_of_bind_eq_ok heq
  cases heq
  exact ⟨rows, hitems, hrows⟩

theorem Sound.clear (h : tables.Sound) : tables.clear.2.Sound := by
  obtain ⟨rows, hitems, -⟩ := h
  simp only [Tables.clear, hitems, Table.clear]
  cases tables.markers <;> exact ⟨[], rfl, by simp⟩

end Tables

end Sqlite

/-! ## Media -/

namespace Medium

/-- A database in memory, or a file whose stored versions are integers. -/
def Sound : Medium → Prop
  | .memory _ => True
  | .sqlite .damaged => False
  | .sqlite (.intact tables) => tables.Sound

/-- A database in memory, or a file with no version beyond the integers of a
table. -/
def Ranged : Medium → Prop
  | .memory _ | .sqlite .damaged => True
  | .sqlite (.intact tables) => tables.Ranged

/-- The version stored under a key, be it of a tombstone. -/
def version? (medium : Medium) (realm : Realm) (kind : Kind) (key : String) :
    Except StoreError (Option UInt64) :=
  match medium with
  | .memory database => .ok (database.version? realm kind key)
  | .sqlite image => do (← image.tables).version? realm kind key

def put (medium : Medium) (realm : Realm) (kind : Kind) (item : Item) :
    Medium :=
  match medium with
  | .memory database => .memory (database.put realm kind item)
  | .sqlite .damaged => .sqlite .damaged
  | .sqlite (.intact tables) => .sqlite (.intact (tables.put realm kind item))

/-- The upsert that nothing comes between. -/
def upsertAtOnce (medium : Medium) (realm : Realm) (kind : Kind) (item : Item) :
    Except StoreError Outcome × Medium :=
  if medium.mindsClosing ∧ 2 ^ 63 ≤ item.version.toNat then
    (.error (.versionOutOfRange item.version item.key), medium)
  else
    match medium.version? realm kind item.key with
    | .error error => (.error error, medium)
    | .ok stored =>
        if item.supersedes stored then
          (.ok .applied, medium.put realm kind item)
        else (.ok .superseded, medium)

variable {medium : Medium}

theorem eq_of_upsertAtOnce_error {realm : Realm} {kind : Kind} {item : Item}
    {error : StoreError} {next : Medium}
    (h : medium.upsertAtOnce realm kind item = (.error error, next)) :
    next = medium := by
  simp only [upsertAtOnce] at h
  split at h
  · cases h
    rfl
  · split at h
    · cases h
      rfl
    · split at h <;> cases h

@[simp] theorem mindsClosing_put (medium : Medium) (realm : Realm) (kind : Kind)
    (item : Item) : (medium.put realm kind item).mindsClosing = medium.mindsClosing := by
  match medium with
  | .memory database | .sqlite .damaged | .sqlite (.intact tables) => rfl

theorem advise_eq (realm : Realm) (kind : Kind) (item : Item) :
    medium.advise realm kind item = do
      return item.supersedes (← medium.version? realm kind item.key) := by
  cases medium with
  | memory database => rfl
  | sqlite image => cases image <;> rfl

theorem Sound.ranged (h : medium.Sound) : medium.Ranged := by
  match medium, h with
  | .memory database, _ => trivial
  | .sqlite (.intact tables), h => exact Sqlite.Tables.Sound.ranged h

theorem Sound.exists_version? (h : medium.Sound) (realm : Realm) (kind : Kind)
    (key : String) : ∃ stored, medium.version? realm kind key = .ok stored := by
  match medium, h with
  | .memory database, _ => exact ⟨_, rfl⟩
  | .sqlite (.intact tables), h =>
      exact Sqlite.Tables.Sound.exists_version? h realm kind key

theorem Ranged.fits (h : medium.Ranged) {realm : Realm} {kind : Kind}
    {key : String} {stored : Option UInt64}
    (hstored : medium.version? realm kind key = .ok stored)
    (hfile : medium.mindsClosing = true) {version : UInt64}
    (hversion : stored = some version) : version.toNat < 2 ^ 63 := by
  match medium, h with
  | .sqlite .damaged, _ => cases hstored
  | .sqlite (.intact tables), h =>
      exact (Sqlite.Tables.Ranged.write h hstored).1 version hversion

theorem Sound.version? (h : medium.Sound) (realm : Realm) (kind : Kind)
    (key : String) :
    ∃ stored, medium.version? realm kind key = .ok stored ∧
      (medium.mindsClosing = true → ∀ version, stored = some version →
        version.toNat < 2 ^ 63) := by
  obtain ⟨stored, hstored⟩ := h.exists_version? realm kind key
  exact ⟨stored, hstored, fun hfile _ hversion =>
    h.ranged.fits hstored hfile hversion⟩

/-- An item that loses to a stored version fits where that version is stored. -/
theorem Ranged.upsertAtOnce_of_le (h : medium.Ranged) {realm : Realm}
    {kind : Kind} {item : Item} {stored : Option UInt64}
    (hstored : medium.version? realm kind item.key = .ok stored)
    (hloses : item.supersedes stored = false) :
    medium.upsertAtOnce realm kind item = (.ok .superseded, medium) := by
  obtain ⟨version, rfl, hle⟩ : ∃ version, stored = some version ∧
      item.version.toNat ≤ version.toNat := by
    cases stored with
    | none => simp [Item.supersedes] at hloses
    | some version =>
        exact ⟨version, rfl, by
          simpa [Item.supersedes, UInt64.le_iff_toNat_le] using hloses⟩
  have hroom : ¬ (medium.mindsClosing = true ∧
      2 ^ 63 ≤ item.version.toNat) := by
    rintro ⟨hfile, hlarge⟩
    have := h.fits hstored hfile rfl
    omega
  unfold upsertAtOnce
  rw [if_neg hroom, hstored]
  simp [hloses]

/-- What the advisory read finds: it does not fail, and an item that loses then
would lose to an upsert in one step as well. -/
theorem Sound.advise (h : medium.Sound) (realm : Realm) (kind : Kind)
    (item : Item) :
    medium.advise realm kind item = .ok true ∨
      medium.advise realm kind item = .ok false ∧
        medium.upsertAtOnce realm kind item = (.ok .superseded, medium) := by
  obtain ⟨stored, heq⟩ := h.exists_version? realm kind item.key
  rw [advise_eq, heq, ok_bind]
  cases hnewer : item.supersedes stored with
  | true => exact .inl rfl
  | false => exact .inr ⟨rfl, h.ranged.upsertAtOnce_of_le heq hnewer⟩

/-- Where the stored version can be read, the conditional write is an upsert in
one step. -/
theorem Ranged.commit (h : medium.Ranged) {realm : Realm} {kind : Kind}
    {item : Item} {stored : Option UInt64}
    (hstored : medium.version? realm kind item.key = .ok stored) :
    medium.commit realm false kind item =
      match medium.upsertAtOnce realm kind item with
      | (.ok outcome, next) => .ok (outcome, next)
      | (.error error, _) => .error error := by
  match medium, h with
  | .memory database, _ =>
      simp only [Medium.commit, MemoryDatabase.write, upsertAtOnce, mindsClosing,
        Bool.false_eq_true, false_and, if_false, Medium.version?, Medium.put]
      split <;> rfl
  | .sqlite .damaged, _ => cases hstored
  | .sqlite (.intact tables), h =>
      obtain ⟨-, hwrite⟩ := Sqlite.Tables.Ranged.write h hstored
      by_cases hfits : item.version.toNat < 2 ^ 63
      · have hroom : ¬ 2 ^ 63 ≤ item.version.toNat := by omega
        simp only [Medium.commit, Sqlite.Tables.versionCell, if_pos hfits,
          Sqlite.Image.tables, ok_bind, hwrite item rfl, upsertAtOnce, hroom,
          and_false, if_false, Bool.false_eq_true, hstored, Medium.put]
        cases item.supersedes stored <;> rfl
      · have hlarge : 2 ^ 63 ≤ item.version.toNat := by omega
        unfold upsertAtOnce
        rw [if_pos ⟨rfl, hlarge⟩]
        simp only [Medium.commit, Sqlite.Tables.versionCell, if_neg hfits,
          error_bind]

theorem Sound.commit (h : medium.Sound) (realm : Realm) (kind : Kind)
    (item : Item) :
    medium.commit realm false kind item =
      match medium.upsertAtOnce realm kind item with
      | (.ok outcome, next) => .ok (outcome, next)
      | (.error error, _) => .error error := by
  obtain ⟨stored, hstored⟩ := h.exists_version? realm kind item.key
  exact h.ranged.commit hstored

/-! ## What keeps media sound -/

theorem Sound.put (h : medium.Sound) (realm : Realm) (kind : Kind) {item : Item}
    (hfits : medium.mindsClosing = true → item.version.toNat < 2 ^ 63) :
    (medium.put realm kind item).Sound := by
  match medium, h with
  | .memory database, _ => trivial
  | .sqlite (.intact tables), h =>
      exact Sqlite.Tables.Sound.put h realm kind (hfits rfl)

theorem Ranged.put (h : medium.Ranged) (realm : Realm) (kind : Kind) {item : Item}
    (hfits : medium.mindsClosing = true → item.version.toNat < 2 ^ 63) :
    (medium.put realm kind item).Ranged := by
  match medium, h with
  | .memory database, _ | .sqlite .damaged, _ => trivial
  | .sqlite (.intact tables), h =>
      exact Sqlite.Tables.Ranged.put h realm kind (hfits rfl)

theorem Sound.upsertAtOnce (h : medium.Sound) (realm : Realm) (kind : Kind)
    (item : Item) : (medium.upsertAtOnce realm kind item).2.Sound := by
  simp only [Medium.upsertAtOnce]
  split
  · exact h
  · rename_i hroom
    cases medium.version? realm kind item.key with
    | error error => exact h
    | ok stored =>
        simp only
        split
        · exact h.put realm kind fun hfile => by
            have hlarge := mt (And.intro hfile) hroom
            omega
        · exact h

theorem Sound.init (h : medium.Sound) {realm : Realm} {data : DataSet}
    {next : Medium} (heq : medium.init realm data = .ok next) : next.Sound := by
  match medium, h with
  | .memory database, _ =>
      cases heq
      trivial
  | .sqlite (.intact tables), h =>
      simp only [Medium.init, Sqlite.Image.tables, ok_bind] at heq
      obtain ⟨tables', hinit, hnext⟩ := exists_of_bind_eq_ok heq
      cases hnext
      exact Sqlite.Tables.Sound.init h hinit

theorem Sound.clear (h : medium.Sound) : medium.clear.2.Sound := by
  match medium, h with
  | .memory database, _ => trivial
  | .sqlite (.intact tables), h => exact Sqlite.Tables.Sound.clear h

/-! ## What an upsert in one step leaves behind -/

/-- The stored version is the one of the item, and other places are as they
were. -/
theorem version?_put {realm : Realm} {kind : Kind} {item : Item}
    {stored : Option UInt64}
    (hstored : medium.version? realm kind item.key = .ok stored)
    (other : Realm) (part : Kind) (key : String) :
    (medium.put realm kind item).version? other part key =
      if other = realm ∧ part = kind ∧ item.key = key then
        .ok (some item.version)
      else medium.version? other part key := by
  match medium, hstored with
  | .memory database, _ =>
      have hput := Ledger.stored?_put database.ledger realm other kind part
        item key
      rw [← MemoryDatabase.ledger_put] at hput
      simp only [Medium.version?, Medium.put, MemoryDatabase.version?,
        show ∀ database : MemoryDatabase, database.stored? other part key =
          database.ledger.stored? other part key from fun _ => rfl, hput]
      split <;> rfl
  | .sqlite (.intact tables), hstored =>
      obtain ⟨rows, hitems, -⟩ := Sqlite.Tables.version?_cases hstored
      have hplace : (Sqlite.Tables.rowOf (realm.scope kind) item
            item.version.toNat).scope = other.scope part ∧
          (Sqlite.Tables.rowOf (realm.scope kind) item
            item.version.toNat).key = key ↔
          other = realm ∧ part = kind ∧ item.key = key := by
        rw [← and_assoc, eq_comm (a := other), eq_comm (a := part)]
        exact and_congr_left' Realm.scope_inj
      simp only [Medium.version?, Medium.put, Sqlite.Image.tables, ok_bind,
        Sqlite.Tables.version?, Sqlite.Tables.put, hitems, Sqlite.Table.content,
        Sqlite.Tables.row?_stow, hplace]
      by_cases hsame : other = realm ∧ part = kind ∧ item.key = key
      · have hversion : ¬ ((item.version.toNat : Int) < 0) := by omega
        simp only [if_pos hsame, Sqlite.Tables.rowOf, if_neg hversion,
          Int.toNat_natCast, UInt64.ofNat_toNat]
        rfl
      · simp only [if_neg hsame]

theorem Sound.version?_put (h : medium.Sound) (realm other : Realm)
    (kind part : Kind) (item : Item) (key : String) :
    (medium.put realm kind item).version? other part key =
      if other = realm ∧ part = kind ∧ item.key = key then
        .ok (some item.version)
      else medium.version? other part key := by
  obtain ⟨stored, hstored⟩ := h.exists_version? realm kind item.key
  exact Medium.version?_put hstored other part key

end Medium

end VersionedFlags
