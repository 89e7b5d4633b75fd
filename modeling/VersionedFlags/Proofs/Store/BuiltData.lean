import VersionedFlags.Proofs.DataSet.Building
import VersionedFlags.Proofs.Store.Transaction

/-!
# Storing data sets that were built

A database in memory puts the items of a data set under the keys of its maps, a database
file inserts them under their own keys.  These are the same keys in a data set that was
built, so both store the same items, and no row is inserted where there is one already.
A file takes no version that is too great for a table, and then nothing of the data set.
-/

namespace VersionedFlags

namespace Sqlite

/-! ## Insertions without conflict -/

/-- The place of the row that the statement inserts is taken. -/
def Statement.Conflicts (tables : Tables) : Statement → Prop
  | .insert scope item => ∃ rows row, tables.items = .own rows ∧
      Tables.row? rows scope item.key = some row
  | .deleteScope _ | .mark _ => False

/-- No statement that is reached conflicts. -/
def Unopposed (tables : Tables) : List Statement → Prop
  | [] => True
  | statement :: rest => ¬ statement.Conflicts tables ∧
      ∀ next, statement.execute tables = .ok next → Unopposed next rest

namespace Tables

variable {tables : Tables} {rows : List Row} {realm : Realm}
  {listing : List (Kind × List Item)}

theorem unopposed_append {statements rest : List Statement}
    (h : Unopposed tables statements)
    (hrest : ∀ next, statements.foldlM Statement.execute tables = .ok next →
      Unopposed next rest) :
    Unopposed tables (statements ++ rest) := by
  induction statements generalizing tables with
  | nil => exact hrest tables rfl
  | cons statement statements ih =>
      refine ⟨h.1, fun next hnext => ih (h.2 next hnext) fun last hlast => ?_⟩
      apply hrest
      rw [List.foldlM_cons, hnext]
      exact hlast

theorem execute_insert {scope : String} {item : Item} {next : Tables}
    (hitems : tables.items = .own rows)
    (h : Statement.execute tables (.insert scope item) = .ok next) :
    ∃ version, next.items = .own (rows ++ [rowOf scope item version]) := by
  obtain ⟨version, -, h⟩ := exists_of_bind_eq_ok h
  obtain ⟨found, hfound, h⟩ := exists_of_bind_eq_ok h
  rw [hitems] at hfound
  cases hfound
  split at h
  · cases h
  · cases h
    exact ⟨version, rfl⟩

/-- Items of different keys are inserted in a scope where none of the keys is taken. -/
theorem unopposed_insert {scope : String} {items : List Item}
    (hitems : tables.items = .own rows) (hkeys : (items.map Item.key).Nodup)
    (hfree : ∀ item ∈ items, ∀ row ∈ rows, row.place ≠ (scope, item.key)) :
    Unopposed tables (items.map (.insert scope)) := by
  induction items generalizing tables rows with
  | nil => trivial
  | cons item rest ih =>
      rw [List.map_cons, List.nodup_cons] at hkeys
      constructor
      · rintro ⟨found, row, hfound, hrow⟩
        rw [hitems] at hfound
        cases hfound
        rw [row?_eq_none (hfree item List.mem_cons_self)] at hrow
        cases hrow
      · intro next hnext
        obtain ⟨version, hnext⟩ := execute_insert hitems hnext
        refine ih hnext hkeys.2 fun other hm row hrow => ?_
        rcases List.mem_append.mp hrow with hrow | hrow
        · exact hfree other (List.mem_cons_of_mem item hm) row hrow
        · rw [List.mem_singleton.mp hrow]
          intro hplace
          have hsame : item.key = other.key := congrArg Prod.snd hplace
          exact hkeys.1 (hsame ▸ List.mem_map_of_mem hm)

/-- The rows of the scope are deleted first, so only the new items could conflict. -/
theorem unopposed_replace {scope : String} {items : List Item}
    (hkeys : (items.map Item.key).Nodup) :
    Unopposed tables (.deleteScope scope :: items.map (.insert scope)) := by
  refine ⟨id, fun next hnext => ?_⟩
  obtain ⟨rows, -, hnext⟩ := exists_of_bind_eq_ok hnext
  cases hnext
  apply unopposed_insert rfl hkeys
  intro item _ row hm hplace
  have hne := (List.mem_filter.mp hm).2
  rw [bne_iff_ne] at hne
  exact hne (congrArg Prod.fst hplace)

theorem unopposed_initStatements
    (hkeys : ∀ part ∈ listing, (part.2.map Item.key).Nodup) :
    Unopposed tables (initStatements realm listing) := by
  induction listing generalizing tables with
  | nil => exact ⟨id, fun _ _ => trivial⟩
  | cons part rest ih =>
      obtain ⟨hpart, hrest⟩ := List.forall_mem_cons.mp hkeys
      unfold initStatements
      rw [List.flatMap_cons, List.append_assoc]
      exact unopposed_append (unopposed_replace hpart) fun next _ => ih hrest

/-- Two items of one key would conflict. -/
example : (Transaction.begin migrated).run (initStatements .standard
    [(.features, [.live "k" 1 .null, .live "k" 2 .null])]) = (.error .database, migrated) :=
  rfl

end Tables

end Sqlite

/-! ## Both media -/

open Sqlite

/-- What an initialization with the data set makes of a database in memory and of a
database file. -/
structure StoredAlike (realm : Realm) (data : DataSet) (database : MemoryDatabase)
    (tables : Tables) : Prop where
  memory : ∀ kind key,
    (database.init realm data).stored? realm kind key = data.get? kind key
  unopposed : ∀ listing, data.ListedAs listing →
    Unopposed tables (initStatements realm listing)
  /-- The file has a row for each item that memory has, and where memory has it. -/
  file : (∀ kind key item, data.get? kind key = some item →
      item.version.toNat < 2 ^ 63) →
    ∃ next rows, tables.init realm data = .ok next ∧
      (Transaction.begin tables).run (initStatements realm data.listing) =
        (.ok (), next) ∧
      next.items = .own rows ∧
      ∀ kind, Tables.scopeRows (realm.scope kind) rows =
          ((database.init realm data).items realm kind).values.map
            (Tables.itemRow realm kind) ∧
        ∀ key, Tables.row? rows (realm.scope kind) key =
          ((database.init realm data).stored? realm kind key).map
            (Tables.itemRow realm kind)
  refused : (∃ kind key item, data.get? kind key = some item ∧
      2 ^ 63 ≤ item.version.toNat) →
    ∃ kind key item, data.get? kind key = some item ∧
      2 ^ 63 ≤ item.version.toNat ∧
      tables.init realm data = .error (.versionOutOfRange item.version item.key) ∧
      (Transaction.begin tables).run (initStatements realm data.listing) =
        (.error (.versionOutOfRange item.version item.key), tables)

namespace DataSet

variable {data : DataSet} {tables : Tables} {rows : List Row} {markers : KeyMap Unit}

theorem items_memory (database : MemoryDatabase) (realm : Realm) {kind : Kind}
    {items : KeyMap Item} (hitems : data.items? kind = some items) :
    (database.init realm data).items realm kind = items := by
  have hledger := congrArg Ledger.items (database.ledger_init realm data)
  have hstored := congrFun (congrFun hledger realm) kind
  simpa [MemoryDatabase.ledger, Ledger.init, hitems] using hstored

theorem stored?_memory (database : MemoryDatabase) (realm : Realm) {kind : Kind}
    {items : KeyMap Item} (hitems : data.items? kind = some items) (key : String) :
    (database.init realm data).stored? realm kind key = data.get? kind key := by
  rw [MemoryDatabase.stored?, items_memory database realm hitems, DataSet.get?, hitems,
    Option.bind_some]

/-- The rows of every kind are those of the items that memory has. -/
theorem Keyed.rows_file (hkeyed : data.Keyed)
    (hcovers : ∀ kind, ∃ items, data.items? kind = some items) {realm : Realm}
    {next : Tables} (hinit : tables.init realm data = .ok next)
    (database : MemoryDatabase) :
    ∃ rows, next.items = .own rows ∧
      ∀ kind, Tables.scopeRows (realm.scope kind) rows =
          ((database.init realm data).items realm kind).values.map
            (Tables.itemRow realm kind) ∧
        ∀ key, Tables.row? rows (realm.scope kind) key =
          ((database.init realm data).stored? realm kind key).map
            (Tables.itemRow realm kind) := by
  obtain ⟨features, hfeatures⟩ := hcovers .features
  obtain ⟨rows, hrows, -⟩ := Tables.stores_init hinit hfeatures
  refine ⟨rows, hrows, fun kind => ?_⟩
  obtain ⟨items, hitems⟩ := hcovers kind
  obtain ⟨found, hfound, hscope⟩ := Tables.stores_init hinit hitems
  rw [hrows] at hfound
  cases hfound
  simp only [MemoryDatabase.stored?, items_memory database realm hitems]
  exact ⟨hscope, Tables.row?_of_scopeRows hscope (hkeyed.items hitems)⟩

theorem Keyed.storedAlike (hkeyed : data.Keyed)
    (hcovers : ∀ kind, ∃ items, data.items? kind = some items)
    (hitems : tables.items = .own rows) (hmarkers : tables.markers = .own markers)
    (realm : Realm) (database : MemoryDatabase) :
    StoredAlike realm data database tables := by
  have hends : EndsWhole realm data rows tables (tables.initialized markers realm)
      ((Transaction.begin tables).run (initStatements realm data.listing)) :=
    Tables.run_endsWhole hitems hmarkers hkeyed data.listedAs_listing
  rw [Tables.run_listing hkeyed] at hends
  constructor
  · intro kind key
    obtain ⟨items, hkind⟩ := hcovers kind
    exact stored?_memory database realm hkind key
  · exact fun listing hlisting =>
      Tables.unopposed_initStatements (hlisting.nodup_keys hkeyed)
  · intro hfits
    obtain ⟨after, -, hdone⟩ := hends.done hfits
    rw [Tables.run_listing hkeyed]
    cases hinit : tables.init realm data with
    | error error =>
        rw [hinit] at hdone
        cases hdone
    | ok next =>
        obtain ⟨found, hfound, hrows⟩ := hkeyed.rows_file hcovers hinit database
        exact ⟨next, found, rfl, rfl, hfound, hrows⟩
  · intro hlarge
    obtain ⟨kind, key, item, hget, hversion, hrefused⟩ := hends.refused hlarge
    rw [Tables.run_listing hkeyed]
    cases hinit : tables.init realm data with
    | error error =>
        rw [hinit] at hrefused
        cases hrefused
        exact ⟨kind, key, item, hget, hversion, rfl, rfl⟩
    | ok next =>
        rw [hinit] at hrefused
        cases hrefused

/-- Whatever is added to a fresh builder, it has the item given last for each place, a
table that gets its kinds on demand comes to the same, and a database in memory and a
database file store the same items of what is built. -/
theorem built_of_last_given (additions : List Addition) :
    (Builder.start.run additions).2.Faithful (Builder.start.run additions).1 ∧
    empty.receiveAll additions =
      ((Builder.start.run additions).1, (Builder.start.run additions).2.build) ∧
    ∀ (realm : Realm) (database : MemoryDatabase) (tables : Tables) (rows : List Row)
      (markers : KeyMap Unit), tables.items = .own rows → tables.markers = .own markers →
        StoredAlike realm (Builder.start.run additions).2.build database tables := by
  have hfaithful := Builder.run_faithful additions
  refine ⟨hfaithful, Builder.start.receiveAll_build additions, ?_⟩
  intro realm database tables rows markers hitems hmarkers
  exact hfaithful.keyed.storedAlike hfaithful.covers hitems hmarkers realm database

/-- Two additions are refused, one is replaced. -/
def mixedAdditions : List Addition :=
  [.addAll .features [.live "k" 1 .null, .live "k" 2 (.bool true)],
    .tryAdd .features (.live "k" 3 .null), .tryAdd .segments (.live "" 1 .null),
    .tryAdd .segments (.tombstone "k" 4)]

theorem mixedAdditions_stored :
    (Builder.start.run mixedAdditions).1.map Prod.snd =
        [.ok (), .error (.duplicateKey .features "k"), .error .emptyKey, .ok ()] ∧
      ∃ next rows, Cluster.shared.init .standard (Builder.start.run mixedAdditions).2.build =
          .ok next ∧ next.items = .own rows ∧
        Tables.row? rows (Realm.standard.scope .features) "k" =
          some (Tables.itemRow .standard .features (.live "k" 2 (.bool true))) := by
  obtain ⟨hfaithful, -, hstored⟩ := built_of_last_given mixedAdditions
  obtain ⟨hmemory, -, hfile, -⟩ :=
    hstored .standard .empty Cluster.shared _ _ rfl rfl
  have hgiven : (Builder.start.run mixedAdditions).1.given =
      [(.features, .live "k" 1 .null), (.features, .live "k" 2 (.bool true)),
        (.segments, .tombstone "k" 4)] := by decide
  obtain ⟨next, rows, hinit, -, hrows, hsame⟩ := hfile <| by
    intro kind key item hget
    rw [hfaithful.last, hgiven] at hget
    have hm := (mem_of_lastGiven hget).1
    simp only [List.mem_cons, Prod.mk.injEq, List.not_mem_nil, or_false] at hm
    rcases hm with ⟨-, rfl⟩ | ⟨-, rfl⟩ | ⟨-, rfl⟩ <;> decide
  refine ⟨by decide, next, rows, hinit, hrows, ?_⟩
  rw [(hsame .features).2, hmemory, hfaithful.last]
  rfl

/-- One item of a version that is too great for a table. -/
def oversized : List Addition := [.add .features (.live "k" 9223372036854775808 .null)]

theorem oversized_in_memory_only :
    (MemoryDatabase.empty.init .standard (Builder.start.run oversized).2.build).stored?
        .standard .features "k" = some (.live "k" 9223372036854775808 .null) ∧
      Tables.migrated.init .standard (Builder.start.run oversized).2.build =
        .error (.versionOutOfRange 9223372036854775808 "k") := by
  decide

end DataSet

end VersionedFlags
