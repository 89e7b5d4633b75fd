import VersionedFlags.Proofs.Cache.Slot
import VersionedFlags.Proofs.Store.Linearization

/-!
# What an initialization leaves in a medium

Whatever a medium held before, an initialization that succeeds leaves the items
of the data set in it, tombstones included, and nothing else of their kinds.  A
database file keeps payloads as text, so what is read from it later is what that
text gives back.
-/

namespace VersionedFlags

theorem DataSet.parts_nodup (data : DataSet) :
    (data.parts.map Prod.fst).Nodup := by
  obtain ⟨⟨features, segments⟩⟩ := data
  cases features <;> cases segments <;>
    simp [parts, PerKind.toList, PerKind.get, Kind.all]

/-! ## Rows -/

namespace Sqlite

theorem Table.eq_own {α : Type} {table : Table α} {content : α}
    (h : table.content = .ok content) : table = .own content := by
  cases table with
  | own found =>
      cases h
      rfl
  | absent | foreign => cases h

namespace Tables

/-- The rows of a scope. -/
def scopeRows (scope : String) (rows : List Row) : List Row :=
  rows.filter fun row => row.scope == scope

/-- The rows of a kind are those of the items, in the order of their keys. -/
def Stores (tables : Tables) (realm : Realm) (kind : Kind)
    (items : KeyMap Item) : Prop :=
  ∃ rows, tables.items = .own rows ∧
    scopeRows (realm.scope kind) rows = items.values.map (itemRow realm kind)

variable {tables next : Tables} {realm : Realm} {kind : Kind}
  {items : KeyMap Item}

theorem replaceScope_ok {items : List Item}
    (h : tables.replaceScope (realm.scope kind) items = .ok next) :
    ∃ rows, tables.items = .own rows ∧ next.markers = tables.markers ∧
      next.items = .own (replaced rows realm kind items) := by
  obtain ⟨rows, hrows, -⟩ := exists_of_bind_eq_ok h
  have hitems := Table.eq_own hrows
  rcases replaceScope_cases hitems realm kind items with
    ⟨-, heq⟩ | ⟨_, -, -, heq⟩
  · rw [heq] at h
    cases h
    exact ⟨rows, hitems, rfl, rfl⟩
  · rw [heq] at h
    cases h

/-- What replacing the rows of a kind leaves in its scope. -/
theorem scopeRows_replaced (rows : List Row) (realm : Realm) (kind : Kind)
    (items : List Item) :
    scopeRows (realm.scope kind) (replaced rows realm kind items) =
      items.map (itemRow realm kind) := by
  simp [replaced, scopeRows, List.filter_append, List.filter_filter, List.filter_map,
    Function.comp_def, itemRow, rowOf]

/-- Replacing the rows of a kind leaves those of every other scope. -/
theorem scopeRows_replaced_of_ne (rows : List Row) {realm : Realm} {kind : Kind}
    (items : List Item) {scope : String} (hne : scope ≠ realm.scope kind) :
    scopeRows scope (replaced rows realm kind items) = scopeRows scope rows := by
  have hkept : scopeRows scope
      (rows.filter fun row => row.scope != realm.scope kind) =
        scopeRows scope rows := by
    rw [scopeRows, scopeRows, List.filter_filter]
    apply List.filter_congr
    intro row _
    by_cases hrow : row.scope = scope
    · simp [hrow, hne]
    · simp [hrow]
  have hadded : scopeRows scope (items.map (itemRow realm kind)) = [] := by
    simp [scopeRows, itemRow, rowOf, hne.symm]
  rw [← hkept, scopeRows, replaced, List.filter_append]
  exact (congrArg _ hadded).trans (List.append_nil _)

theorem stores_replaceScope
    (h : tables.replaceScope (realm.scope kind) items.values = .ok next) :
    next.Stores realm kind items := by
  obtain ⟨rows, -, -, hnext⟩ := replaceScope_ok h
  exact ⟨_, hnext, scopeRows_replaced rows realm kind items.values⟩

/-- The rows of another kind stay. -/
theorem Stores.replaceScope {other : Kind} {more : KeyMap Item}
    (hstores : tables.Stores realm other more) (hne : kind ≠ other)
    (h : tables.replaceScope (realm.scope kind) items.values = .ok next) :
    next.Stores realm other more := by
  obtain ⟨rows, hitems, -, hnext⟩ := replaceScope_ok h
  obtain ⟨found, hfound, hrows⟩ := hstores
  rw [hitems] at hfound
  cases hfound
  have hscope : realm.scope other ≠ realm.scope kind := fun hsame =>
    hne (Realm.scope_inj.mp hsame).2.symm
  exact ⟨_, hnext,
    (scopeRows_replaced_of_ne rows items.values hscope).trans hrows⟩

theorem Stores.foldlM_replaceScope {parts : List (Kind × KeyMap Item)}
    (hstores : tables.Stores realm kind items)
    (hnot : kind ∉ parts.map Prod.fst)
    (h : parts.foldlM (fun tables part =>
      tables.replaceScope (realm.scope part.1) part.2.values) tables =
        .ok next) :
    next.Stores realm kind items := by
  induction parts generalizing tables with
  | nil =>
      cases h
      exact hstores
  | cons part rest ih =>
      rw [List.map_cons, List.mem_cons, not_or] at hnot
      rw [List.foldlM_cons] at h
      obtain ⟨middle, hpart, h⟩ := exists_of_bind_eq_ok h
      exact ih (hstores.replaceScope (Ne.symm hnot.1) hpart) hnot.2 h

theorem stores_foldlM_replaceScope {parts : List (Kind × KeyMap Item)}
    (hdistinct : (parts.map Prod.fst).Nodup) (hm : (kind, items) ∈ parts)
    (h : parts.foldlM (fun tables part =>
      tables.replaceScope (realm.scope part.1) part.2.values) tables =
        .ok next) :
    next.Stores realm kind items := by
  induction parts generalizing tables with
  | nil => cases hm
  | cons part rest ih =>
      rw [List.map_cons, List.nodup_cons] at hdistinct
      rw [List.foldlM_cons] at h
      obtain ⟨middle, hpart, hrest⟩ := exists_of_bind_eq_ok h
      rcases List.mem_cons.mp hm with rfl | hm
      · exact (stores_replaceScope hpart).foldlM_replaceScope hdistinct.1 hrest
      · exact ih hdistinct.2 hm hrest

theorem stores_init {data : DataSet} (h : tables.init realm data = .ok next)
    (hitems : data.items? kind = some items) : next.Stores realm kind items := by
  obtain ⟨middle, hparts, h⟩ := exists_of_bind_eq_ok h
  obtain ⟨markers, -, h⟩ := exists_of_bind_eq_ok h
  cases h
  have hstores : middle.Stores realm kind items :=
    stores_foldlM_replaceScope data.parts_nodup (DataSet.mem_parts.mpr hitems)
      hparts
  exact hstores

/-! ### When an initialization succeeds -/

def HasItems (tables : Tables) : Prop := ∃ rows, tables.items = .own rows

def HasMarkers (tables : Tables) : Prop := ∃ markers, tables.markers = .own markers

theorem exists_replaceScope :
    (∃ next, tables.replaceScope (realm.scope kind) items.values = .ok next) ↔
      tables.HasItems ∧ ∀ item ∈ items.values, item.version.toNat < 2 ^ 63 := by
  constructor
  · rintro ⟨next, h⟩
    obtain ⟨rows, hitems, -⟩ := replaceScope_ok h
    refine ⟨⟨rows, hitems⟩, ?_⟩
    rcases replaceScope_cases hitems realm kind items.values with
      ⟨hfits, -⟩ | ⟨_, -, -, heq⟩
    · exact hfits
    · rw [heq] at h
      cases h
  · rintro ⟨⟨rows, hitems⟩, hfits⟩
    rcases replaceScope_cases hitems realm kind items.values with
      ⟨-, heq⟩ | ⟨item, hm, hlarge, -⟩
    · exact ⟨_, heq⟩
    · exact absurd (hfits item hm) hlarge

theorem exists_foldlM_replaceScope (realm : Realm)
    {parts : List (Kind × KeyMap Item)} :
    (∃ next, parts.foldlM (fun tables part =>
      tables.replaceScope (realm.scope part.1) part.2.values) tables =
        .ok next) ↔
      (parts = [] ∨ tables.HasItems) ∧
        ∀ part ∈ parts, ∀ item ∈ part.2.values, item.version.toNat < 2 ^ 63 := by
  induction parts generalizing tables with
  | nil => exact ⟨fun _ => ⟨.inl rfl, nofun⟩, fun _ => ⟨tables, rfl⟩⟩
  | cons part rest ih =>
      constructor
      · rintro ⟨next, h⟩
        rw [List.foldlM_cons] at h
        obtain ⟨middle, hpart, hrest⟩ := exists_of_bind_eq_ok h
        obtain ⟨hitems, hfits⟩ := exists_replaceScope.mp ⟨middle, hpart⟩
        exact ⟨.inr hitems, List.forall_mem_cons.mpr
          ⟨hfits, (ih.mp ⟨next, hrest⟩).2⟩⟩
      · rintro ⟨hitems, hfits⟩
        obtain ⟨hpart, hrest⟩ := List.forall_mem_cons.mp hfits
        have hown : tables.HasItems := hitems.resolve_left (by simp)
        obtain ⟨middle, hmiddle⟩ := exists_replaceScope.mpr ⟨hown, hpart⟩
        obtain ⟨rows, -, -, hnext⟩ := replaceScope_ok hmiddle
        obtain ⟨next, hnext⟩ := ih.mpr ⟨.inr ⟨_, hnext⟩, hrest⟩
        exact ⟨next, by rw [List.foldlM_cons, hmiddle, ok_bind, hnext]⟩

theorem foldlM_replaceScope_kept {parts : List (Kind × KeyMap Item)}
    (h : parts.foldlM (fun tables part =>
      tables.replaceScope (realm.scope part.1) part.2.values) tables =
        .ok next) :
    next.markers = tables.markers ∧ (next.HasItems → tables.HasItems) := by
  induction parts generalizing tables with
  | nil =>
      cases h
      exact ⟨rfl, id⟩
  | cons part rest ih =>
      rw [List.foldlM_cons] at h
      obtain ⟨middle, hpart, hrest⟩ := exists_of_bind_eq_ok h
      obtain ⟨rows, hitems, hmarkers, -⟩ := replaceScope_ok hpart
      exact ⟨(ih hrest).1.trans hmarkers, fun _ => ⟨rows, hitems⟩⟩

/-- The tables that an initialization needs are there, and no version of an item
is too great. -/
theorem exists_init {data : DataSet} :
    (∃ next, tables.init realm data = .ok next) ↔
      tables.HasMarkers ∧ (data.parts = [] ∨ tables.HasItems) ∧
        ∀ part ∈ data.parts, ∀ item ∈ part.2.values,
          item.version.toNat < 2 ^ 63 := by
  rw [← exists_foldlM_replaceScope realm]
  constructor
  · rintro ⟨next, h⟩
    obtain ⟨middle, hparts, h⟩ := exists_of_bind_eq_ok h
    obtain ⟨markers, hmarkers, -⟩ := exists_of_bind_eq_ok h
    rw [(foldlM_replaceScope_kept hparts).1] at hmarkers
    exact ⟨⟨markers, Table.eq_own hmarkers⟩, middle, hparts⟩
  · rintro ⟨⟨markers, hmarkers⟩, middle, hparts⟩
    have hkept := (foldlM_replaceScope_kept hparts).1
    exact ⟨_, by
      simp only [Tables.init, hparts, ok_bind, Tables.mark, hkept, hmarkers,
        Table.content]
      rfl⟩

/-- An initialization adds no table that another one needs. -/
theorem exists_init_of_init {data other : DataSet}
    (h : tables.init realm other = .ok next)
    (hnext : ∃ after, next.init realm data = .ok after) :
    ∃ after, tables.init realm data = .ok after := by
  obtain ⟨-, hitems, hfits⟩ := exists_init.mp hnext
  refine exists_init.mpr ⟨(exists_init.mp ⟨next, h⟩).1, hitems.imp_right ?_, hfits⟩
  rintro ⟨rows, hrows⟩
  obtain ⟨middle, hparts, h⟩ := exists_of_bind_eq_ok h
  obtain ⟨markers, -, h⟩ := exists_of_bind_eq_ok h
  cases h
  exact (foldlM_replaceScope_kept hparts).2 ⟨rows, hrows⟩

theorem isInitialized_init {data : DataSet}
    (h : tables.init realm data = .ok next) :
    next.isInitialized realm = .ok true := by
  obtain ⟨middle, -, h⟩ := exists_of_bind_eq_ok h
  obtain ⟨markers, -, h⟩ := exists_of_bind_eq_ok h
  cases h
  simp [Tables.isInitialized, Table.content, pure, Except.pure]

end Tables

end Sqlite

/-! ## Reading back -/

/-- What a medium gives back of a live item: a file has kept the text of its
payload. -/
def Item.recalled (file : Bool) (item : Item) : Except StoreError Item :=
  if file then
    match Json.parse item.data.text with
    | .ok data => .ok { item with data }
    | .error error => .error (.payload error)
  else .ok item

/-- What a medium that stores a kind gives back under a key. -/
def recallOne (file : Bool) (stored : Option Item) :
    Except StoreError (Option Item) :=
  match stored.bind Item.visible? with
  | none => .ok none
  | some item => some <$> item.recalled file

/-- What a medium that stores the items of a kind gives back of them. -/
def recallAll (file : Bool) (items : KeyMap Item) :
    Except StoreError (KeyMap Item) := do
  let live ← (items.filter fun _ item => !item.deleted).values.mapM
    (Item.recalled file)
  return .ofList (live.map fun item => (item.key, item))

variable {items : KeyMap Item}

theorem Assoc.find?_values {entries : List (String × Item)}
    (h : ∀ entry ∈ entries, entry.2.key = entry.1) (key : String) :
    (entries.map Prod.snd).find? (fun item => item.key == key) =
      lookup key entries := by
  induction entries with
  | nil => rfl
  | cons head rest ih =>
      obtain ⟨hhead, hrest⟩ := List.forall_mem_cons.mp h
      by_cases hkey : head.1 = key
      · simp [lookup, hhead, hkey]
      · simp only [List.map_cons, List.find?_cons, hhead, lookup, if_neg hkey,
          beq_eq_false_iff_ne.mpr hkey, ih hrest]

theorem KeyMap.Keyed.find?_values (h : items.Keyed) (key : String) :
    items.values.find? (fun item => item.key == key) = items.get? key :=
  Assoc.find?_values (fun _ hm => h _ _ (mem_entries.mp hm)) key

theorem KeyMap.Keyed.filter (h : items.Keyed) (keep : String → Item → Bool) :
    (items.filter keep).Keyed := by
  intro key item hget
  rw [get?_filter] at hget
  exact h key item (Option.filter_eq_some_iff.mp hget).1

theorem KeyMap.Keyed.ofList_values (h : items.Keyed) :
    KeyMap.ofList (items.values.map fun item => (item.key, item)) = items := by
  apply Sqlite.Tables.ofList_items h.nodup_keys _ h
  intro item
  rw [KeyMap.mem_values]
  constructor
  · rintro ⟨key, hget⟩
    rw [h key item hget]
    exact hget
  · intro hget
    exact ⟨item.key, hget⟩

/-- A database in memory gives back the live items as they are. -/
theorem recallAll_memory (h : items.Keyed) :
    recallAll false items = .ok (items.filter fun _ item => !item.deleted) := by
  have hlive : (items.filter fun _ item => !item.deleted).values.mapM
      (Item.recalled false) =
        .ok ((items.filter fun _ item => !item.deleted).values.map id) :=
    mapM_eq_ok _ id fun item _ => rfl
  rw [recallAll, hlive, ok_bind, List.map_id, (h.filter _).ofList_values]
  rfl

namespace Sqlite

namespace Tables

variable {tables : Tables} {realm : Realm} {kind : Kind}

theorem row?_scopeRows (rows : List Row) (scope key : String) :
    row? rows scope key =
      (scopeRows scope rows).find? fun row => row.key == key := by
  rw [row?, scopeRows, List.find?_filter]
  congr 1
  funext row
  rw [Bool.eq_iff_iff]
  simp

theorem toItem_eq_recalled {item : Item} (hlive : item.deleted = false) :
    Reading.toItem ⟨item.key, item.version.toNat, item.deleted, item.data.text⟩ =
      item.recalled true := by
  have hversion : ¬ ((item.version.toNat : Int) < 0) := by omega
  obtain ⟨key, version, deleted, data⟩ := item
  cases hlive
  simp only [Reading.toItem, if_neg hversion, Item.recalled, if_true,
    Int.toNat_natCast, UInt64.ofNat_toNat]
  cases Json.parse data.text <;> rfl

theorem get?_of_row? {rows : List Row} {key : String} {stored : Option Item}
    (hitems : tables.items = .own rows)
    (hfound : Tables.row? rows (realm.scope kind) key =
      stored.map (itemRow realm kind)) :
    tables.get? realm kind key = recallOne true stored := by
  simp only [Tables.get?, hitems, Table.content, ok_bind, hfound]
  cases stored with
  | none => rfl
  | some item =>
      simp only [Option.map_some, Reading.ofRow_itemRow, ok_bind, recallOne,
        Option.bind_some, Item.visible?]
      cases hdeleted : item.deleted with
      | true => rfl
      | false =>
          have hread := toItem_eq_recalled hdeleted
          rw [hdeleted] at hread
          simp only [Bool.false_eq_true, if_false, hread]
          cases item.recalled true <;> rfl

/-- The rows of keyed items are found by the keys of the map. -/
theorem row?_of_scopeRows {rows : List Row}
    (hrows : scopeRows (realm.scope kind) rows = items.values.map (itemRow realm kind))
    (hkeyed : items.Keyed) (key : String) :
    row? rows (realm.scope kind) key = (items.get? key).map (itemRow realm kind) := by
  rw [row?_scopeRows, hrows, List.find?_map, ← hkeyed.find?_values]
  rfl

theorem Stores.get? (h : tables.Stores realm kind items) (hkeyed : items.Keyed)
    (key : String) :
    tables.get? realm kind key = recallOne true (items.get? key) := by
  obtain ⟨rows, hitems, hrows⟩ := h
  exact get?_of_row? hitems (row?_of_scopeRows hrows hkeyed key)

theorem live_rows (realm : Realm) (kind : Kind) (rows : List Row) :
    (rows.filter fun row =>
      row.scope == realm.scope kind && row.deleted == .integer 0) =
        (scopeRows (realm.scope kind) rows).filter fun row =>
          row.deleted == .integer 0 := by
  rw [scopeRows, List.filter_filter]
  refine List.filter_congr fun row _ => Bool.and_comm _ _

theorem values_filter_live (items : KeyMap Item) :
    (items.filter fun _ item => !item.deleted).values =
      items.values.filter fun item => !item.deleted := by
  simp only [KeyMap.values, KeyMap.filter, List.filter_map]
  rfl

theorem all_of_live_rows {rows : List Row} {live : List Item}
    (hitems : tables.items = .own rows)
    (hrows : (rows.filter fun row =>
      row.scope == realm.scope kind && row.deleted == .integer 0) =
        live.map (itemRow realm kind))
    (hlive : ∀ item ∈ live, item.deleted = false) :
    tables.all realm kind = do
      let items ← live.mapM (Item.recalled true)
      return .ofList (items.map fun item => (item.key, item)) := by
  have hread : (live.map (itemRow realm kind)).mapM Reading.ofRow =
      .ok (live.map fun item =>
        ⟨item.key, item.version.toNat, item.deleted, item.data.text⟩) := by
    rw [List.mapM_map]
    exact mapM_eq_ok _ _ fun item _ => Reading.ofRow_itemRow realm kind item
  have hback : (live.map fun item => (⟨item.key, item.version.toNat,
      item.deleted, item.data.text⟩ : Reading)).mapM Reading.toItem =
        live.mapM (Item.recalled true) := by
    rw [List.mapM_map]
    exact mapM_congr fun item hm => toItem_eq_recalled (hlive item hm)
  simp only [Tables.all, hitems, Table.content, ok_bind, hrows, hread, hback]

theorem Stores.all (h : tables.Stores realm kind items) :
    tables.all realm kind = recallAll true items := by
  obtain ⟨rows, hitems, hrows⟩ := h
  have hlive : (items.values.map (itemRow realm kind)).filter
      (fun row => row.deleted == .integer 0) =
        (items.values.filter fun item => !item.deleted).map
          (itemRow realm kind) := by
    rw [List.filter_map]
    congr 2
    funext item
    cases hdeleted : item.deleted <;> simp [itemRow, rowOf, hdeleted]
  rw [← hrows, ← live_rows] at hlive
  rw [all_of_live_rows hitems hlive, recallAll, values_filter_live]
  intro item hm
  simpa using (List.mem_filter.mp hm).2

end Tables

end Sqlite

/-! ## Media -/

namespace Medium

variable {medium next : Medium} {realm : Realm} {data : DataSet}

/-- The items of a kind are those of the map, tombstones included. -/
def Stores (medium : Medium) (realm : Realm) (kind : Kind)
    (items : KeyMap Item) : Prop :=
  match medium with
  | .memory database => database.items realm kind = items
  | .sqlite .damaged => False
  | .sqlite (.intact tables) => tables.Stores realm kind items

/-- The kinds that a data set covers are stored as it has them. -/
structure Keeps (medium : Medium) (realm : Realm) (data : DataSet) : Prop where
  items : ∀ kind items, data.items? kind = some items →
    medium.Stores realm kind items
  initialized : medium.isInitialized realm = .ok true

theorem keeps_init (h : medium.init realm data = .ok next) :
    next.Keeps realm data := by
  match medium with
  | .memory database =>
      cases h
      have hledger := database.ledger_init realm data
      constructor
      · intro kind items hitems
        have hstored : (database.init realm data).ledger.items realm kind =
            items := by
          simp [hledger, Ledger.init, hitems]
        exact hstored
      · have hmarked : (database.init realm data).ledger.initialized realm =
            true := by
          simp [hledger, Ledger.init]
        exact congrArg Except.ok hmarked
  | .sqlite .damaged => cases h
  | .sqlite (.intact tables) =>
      obtain ⟨found, hfound, h⟩ := exists_of_bind_eq_ok h
      cases hfound
      obtain ⟨after, hinit, h⟩ := exists_of_bind_eq_ok h
      cases h
      exact ⟨fun _ _ => Sqlite.Tables.stores_init hinit,
        Sqlite.Tables.isInitialized_init hinit⟩

theorem exists_init_of_init {other : DataSet}
    (h : medium.init realm other = .ok next)
    (hnext : ∃ after, next.init realm data = .ok after) :
    ∃ after, medium.init realm data = .ok after := by
  match medium with
  | .memory database => exact ⟨_, rfl⟩
  | .sqlite .damaged => cases h
  | .sqlite (.intact tables) =>
      obtain ⟨same, hsame, h⟩ := exists_of_bind_eq_ok h
      cases hsame
      obtain ⟨middle, hinit, h⟩ := exists_of_bind_eq_ok h
      cases h
      obtain ⟨after, hafter⟩ := hnext
      obtain ⟨own, hown, hafter⟩ := exists_of_bind_eq_ok hafter
      cases hown
      obtain ⟨found, hfound, -⟩ := exists_of_bind_eq_ok hafter
      obtain ⟨last, hlast⟩ :=
        Sqlite.Tables.exists_init_of_init hinit ⟨found, hfound⟩
      exact ⟨.sqlite (.intact last), by
        simp only [Medium.init, Sqlite.Image.tables, ok_bind, hlast]
        rfl⟩

theorem Stores.get? {kind : Kind} {items : KeyMap Item}
    (h : medium.Stores realm kind items) (hkeyed : items.Keyed) (key : String) :
    medium.get? realm kind key = recallOne medium.mindsClosing (items.get? key) := by
  match medium, h with
  | .memory database, h =>
      have hstored : (database.items realm kind).get? key = items.get? key := by
        rw [show database.items realm kind = items from h]
      simp only [Medium.get?, MemoryDatabase.get?, MemoryDatabase.stored?, hstored,
        recallOne, Medium.mindsClosing]
      cases (items.get? key).bind Item.visible? <;> rfl
  | .sqlite (.intact tables), h => exact Sqlite.Tables.Stores.get? h hkeyed key

theorem Stores.all {kind : Kind} {items : KeyMap Item}
    (h : medium.Stores realm kind items) (hkeyed : items.Keyed) :
    medium.all realm kind = recallAll medium.mindsClosing items := by
  match medium, h with
  | .memory database, h =>
      have hstored : database.items realm kind = items := h
      rw [mindsClosing, recallAll_memory hkeyed, ← hstored]
      rfl
  | .sqlite (.intact tables), h => exact Sqlite.Tables.Stores.all h

end Medium

/-! ## Clusters -/

/-- What a store that keeps a data set answers to a read. -/
def DataSet.recall (data : DataSet) (file : Bool) :
    (slot : Slot) → Except StoreError slot.call.Answer
  | .item kind key => recallOne file (data.get? kind key)
  | .live kind => recallAll file ((data.items? kind).getD .empty)

namespace Cluster

variable {cluster : Cluster} {store : Nat} {data : DataSet}

/-- The store keeps the items of the data set, and nothing else of the kinds
that it covers. -/
def Keeps (cluster : Cluster) (store : Nat) (data : DataSet) : Prop :=
  ∃ handle medium, cluster.openHandle store = .ok (handle, medium) ∧
    medium.Keeps handle.realm data

/-- Whether what a store gives back has been text in between. -/
def onFile (cluster : Cluster) (store : Nat) : Bool :=
  match cluster.openHandle store with
  | .ok (_, medium) => medium.mindsClosing
  | .error _ => false

theorem openHandle_setMedium {handle : Handle} {medium : Medium}
    (h : cluster.openHandle store = .ok (handle, medium)) (next : Medium) :
    (cluster.setMedium handle.medium next).openHandle store =
      .ok (handle, next) := by
  obtain ⟨-, hhandle, hclosed, hmedium⟩ := openHandle_cases h
  have hlt := (List.getElem?_eq_some_iff.mp hmedium).1
  simp only [openHandle, Cluster.handle, Cluster.setMedium, hhandle,
    List.getElem?_set_self hlt, ok_bind, hclosed]
  rfl

/-- An initialization leaves the data set, or an error and nothing else. -/
theorem init_cases (cluster : Cluster) (store : Nat) (data : DataSet) :
    ((cluster.serve store (.init data)).1 = .ok () ∧
      (cluster.serve store (.init data)).2.Keeps store data) ∨
    ∃ error, cluster.serve store (.init data) = (.error error, cluster) := by
  simp only [Cluster.serve, Cluster.init]
  cases hopen : cluster.openHandle store with
  | error error => exact .inr ⟨error, rfl⟩
  | ok found =>
      obtain ⟨handle, medium⟩ := found
      simp only [ok_bind]
      cases hinit : medium.init handle.realm data with
      | error error => exact .inr ⟨error, rfl⟩
      | ok next =>
          refine .inl ⟨rfl, handle, next, ?_, Medium.keeps_init hinit⟩
          exact openHandle_setMedium hopen next

/-- The store takes the data set when it is initialized with it. -/
def Takes (cluster : Cluster) (store : Nat) (data : DataSet) : Prop :=
  (cluster.serve store (.init data)).1 = .ok ()

instance decidableTakes (cluster : Cluster) (store : Nat) (data : DataSet) :
    Decidable (cluster.Takes store data) :=
  inferInstanceAs (Decidable (_ = _))

theorem Takes.keeps (h : cluster.Takes store data) :
    (cluster.serve store (.init data)).2.Keeps store data := by
  rcases cluster.init_cases store data with ⟨-, hkeeps⟩ | ⟨error, herror⟩
  · exact hkeeps
  · rw [Takes, herror] at h
    cases h

theorem takes_iff :
    cluster.Takes store data ↔
      ∃ handle medium, cluster.openHandle store = .ok (handle, medium) ∧
        ∃ next, medium.init handle.realm data = .ok next := by
  simp only [Takes, Cluster.serve, Cluster.init]
  cases hopen : cluster.openHandle store with
  | error error => simp
  | ok found =>
      obtain ⟨handle, medium⟩ := found
      simp only [ok_bind]
      cases hinit : medium.init handle.realm data with
      | error error => simp [hinit]
      | ok next => simp [hinit]

/-- What a store takes does not depend on what it was initialized with. -/
theorem Takes.of_init {other : DataSet}
    (h : (cluster.serve store (.init other)).2.Takes store data) :
    cluster.Takes store data := by
  rcases cluster.init_cases store other with ⟨hok, -⟩ | ⟨error, herror⟩
  · have htakes : cluster.Takes store other := hok
    obtain ⟨handle, medium, hopen, next, hinit⟩ := takes_iff.mp htakes
    have hafter : (cluster.serve store (.init other)).2 =
        cluster.setMedium handle.medium next := by
      simp only [Cluster.serve, Cluster.init, hopen, ok_bind, hinit]
      rfl
    rw [hafter, takes_iff, openHandle_setMedium hopen next] at h
    obtain ⟨_, _, ⟨⟩, hnext⟩ := h
    exact takes_iff.mpr ⟨handle, medium, hopen,
      Medium.exists_init_of_init hinit hnext⟩
  · rwa [herror] at h

theorem Keeps.serve_slot (h : cluster.Keeps store data) (hkeyed : data.Keyed)
    (hcovers : ∀ kind, ∃ items, data.items? kind = some items) (slot : Slot) :
    (cluster.serve store slot.call).1 =
      data.recall (cluster.onFile store) slot := by
  obtain ⟨handle, medium, hopen, hitems, -⟩ := h
  have hkeys : ∀ kind items, data.items? kind = some items → items.Keyed :=
    fun kind items => hkeyed.items
  cases slot with
  | item kind key =>
      obtain ⟨items, hkind⟩ := hcovers kind
      simp only [Cluster.serve, hopen, ok_bind, onFile, DataSet.recall,
        DataSet.get?, hkind, Option.bind_some]
      exact (hitems kind items hkind).get? (hkeys kind items hkind) key
  | live kind =>
      obtain ⟨items, hkind⟩ := hcovers kind
      simp only [Cluster.serve, hopen, ok_bind, onFile, DataSet.recall, hkind,
        Option.getD_some]
      exact (hitems kind items hkind).all (hkeys kind items hkind)

theorem Keeps.serve_initialized (h : cluster.Keeps store data) :
    (cluster.serve store .initialized).1 = .ok true := by
  obtain ⟨handle, medium, hopen, -, hmarked⟩ := h
  simp only [Cluster.serve, hopen, ok_bind, hmarked]

end Cluster

end VersionedFlags
