import Mathlib.Data.Set.List
import VersionedFlags.Proofs.Fallible
import VersionedFlags.Proofs.Store.Rows

/-!
# Tables as ledgers

The tables of a file hold a ledger when their rows and markers do.  Reading
answers from that ledger, an upsert of an item that a row can give back does
what it should, and initialization either replaces what it should or refuses
because a version is too great for a table.
-/

namespace VersionedFlags

namespace Sqlite

namespace Tables

/-- The tables are those of the current schema, and their content is that of a
ledger. -/
def Holds (tables : Tables) (ledger : Ledger) : Prop :=
  tables.schema = .own [(currentVersion : Int)] ∧
  ∃ rows markers, tables.items = .own rows ∧ tables.markers = .own markers ∧
    Hold rows ledger ∧
    ∀ realm : Realm, markers.contains realm.marker = ledger.initialized realm

theorem holds_migrated : migrated.Holds .empty :=
  ⟨rfl, [], .empty, rfl, rfl, hold_nil, fun _ => rfl⟩

variable {tables : Tables} {ledger : Ledger}

theorem Holds.migrate (h : tables.Holds ledger) :
    tables.migrate = .done tables := by
  obtain ⟨hschema, -⟩ := h
  rw [Tables.migrate, hschema]
  rfl

/-! ## Reading -/

theorem Holds.get? (h : tables.Holds ledger) (realm : Realm) (kind : Kind)
    (key : String) :
    tables.get? realm kind key = .ok (ledger.get? realm kind key) := by
  obtain ⟨-, rows, markers, hitems, -, hrows, -⟩ := h
  simp only [Tables.get?, hitems, Table.content, Ledger.get?, ok_bind,
    hrows.lists.row?]
  cases hstored : ledger.stored? realm kind key with
  | none => rfl
  | some item =>
      simp only [Option.map_some, Reading.ofRow_itemRow]
      cases hdeleted : item.deleted with
      | true =>
          simp [pure, Except.pure, Item.visible?, hdeleted]
      | false =>
          have hread :=
            Reading.toItem_live (hrows.storable realm kind key item hstored) hdeleted
          rw [hdeleted] at hread
          simp [pure, Except.pure, Item.visible?, hdeleted, hread]

theorem Holds.version? (h : tables.Holds ledger) (realm : Realm) (kind : Kind)
    (key : String) :
    tables.version? realm kind key = .ok (ledger.version? realm kind key) := by
  obtain ⟨-, rows, markers, hitems, -, hrows, -⟩ := h
  simp only [Tables.version?, hitems, Table.content, Ledger.version?, ok_bind,
    hrows.lists.row?]
  cases ledger.stored? realm kind key with
  | none => rfl
  | some item =>
      have hversion : ¬ ((item.version.toNat : Int) < 0) := by omega
      simp [itemRow, rowOf, hversion, pure, Except.pure]

theorem Holds.isInitialized (h : tables.Holds ledger) (realm : Realm) :
    tables.isInitialized realm = .ok (ledger.initialized realm) := by
  obtain ⟨-, rows, markers, -, hmarkers, -, hmarked⟩ := h
  simp only [Tables.isInitialized, hmarkers, Table.content, ← hmarked]
  rfl

theorem get?_all {realm : Realm} {kind : Kind} {key : String} {item : Item} :
    (ledger.all realm kind).get? key = some item ↔
      ledger.stored? realm kind key = some item ∧ item.deleted = false := by
  simp [Ledger.all, KeyMap.get?_filter, Option.filter_eq_some_iff,
    Ledger.stored?]

theorem mem_live_rows {rows : List Row} (h : Lists rows ledger) (realm : Realm)
    (kind : Kind) (row : Row) :
    row ∈ rows.filter (fun row =>
        row.scope == realm.scope kind && row.deleted == .integer 0) ↔
      ∃ item, (ledger.all realm kind).get? item.key = some item ∧
        row = itemRow realm kind item := by
  simp only [List.mem_filter, Bool.and_eq_true, beq_iff_eq, get?_all]
  constructor
  · rintro ⟨hm, hscope, hdeleted⟩
    obtain ⟨item, hstored, rfl⟩ := (h.mem_iff realm kind row hscope).mp hm
    refine ⟨item, ⟨hstored, ?_⟩, rfl⟩
    simpa [itemRow, rowOf] using hdeleted
  · rintro ⟨item, ⟨hstored, hdeleted⟩, rfl⟩
    exact ⟨(h.mem_iff realm kind (itemRow realm kind item) rfl).mpr
      ⟨item, hstored, rfl⟩, rfl, by simp [itemRow, rowOf, hdeleted]⟩

theorem exists_live_items {rows : List Row} (h : Lists rows ledger)
    (realm : Realm) (kind : Kind) :
    ∃ items : List Item,
      rows.filter (fun row =>
        row.scope == realm.scope kind && row.deleted == .integer 0) =
          items.map (itemRow realm kind) ∧
      (items.map Item.key).Nodup ∧
      ∀ item, item ∈ items ↔
        (ledger.all realm kind).get? item.key = some item := by
  have hmem := mem_live_rows h realm kind
  have hsub : (rows.filter fun row =>
      row.scope == realm.scope kind && row.deleted == .integer 0).Sublist rows :=
    List.filter_sublist
  have hdistinct := (hsub.map Row.place).nodup h.distinct
  generalize rows.filter (fun row =>
    row.scope == realm.scope kind && row.deleted == .integer 0) = selected
    at hmem hdistinct
  obtain ⟨found, rfl⟩ : selected ∈ Set.range (List.map
      fun item : { item : Item //
        (ledger.all realm kind).get? item.key = some item } =>
          itemRow realm kind item.1) := by
    rw [Set.range_list_map]
    intro row hm
    obtain ⟨item, hitem, rfl⟩ := (hmem row).mp hm
    exact ⟨⟨item, hitem⟩, rfl⟩
  refine ⟨found.map Subtype.val, by simp, ?_, ?_⟩
  · have hplaces : (found.map fun item => item.1.key).map
        (Prod.mk (realm.scope kind)) = (found.map fun item =>
          itemRow realm kind item.1).map Row.place := by
      simp [Row.place, itemRow, rowOf]
    rw [List.map_map]
    exact (hplaces ▸ hdistinct).of_map
  · intro item
    constructor
    · intro hm
      obtain ⟨⟨item, hitem⟩, -, rfl⟩ := List.mem_map.mp hm
      exact hitem
    · intro hitem
      obtain ⟨⟨other, hother⟩, hm, hrow⟩ :=
        List.mem_map.mp ((hmem (itemRow realm kind item)).mpr ⟨item, hitem, rfl⟩)
      have hkey : other.key = item.key := congrArg Row.key hrow
      rw [hkey, hitem] at hother
      cases hother
      exact List.mem_map.mpr ⟨_, hm, rfl⟩

theorem ofList_items {items : List Item} {map : KeyMap Item}
    (hkeys : (items.map Item.key).Nodup)
    (hmem : ∀ item, item ∈ items ↔ map.get? item.key = some item)
    (hmap : ∀ key item, map.get? key = some item → item.key = key) :
    KeyMap.ofList (items.map fun item => (item.key, item)) = map := by
  refine KeyMap.ext_get? fun key => Option.ext fun item => ?_
  rw [KeyMap.get?_ofList (by simpa [List.pairwise_map, List.Nodup] using hkeys)]
  constructor
  · intro hm
    obtain ⟨found, hfound, heq⟩ := List.mem_map.mp hm
    cases heq
    exact (hmem item).mp hfound
  · intro hget
    have hkey := hmap key item hget
    subst hkey
    exact List.mem_map.mpr ⟨item, (hmem item).mpr hget, rfl⟩

theorem Holds.all (h : tables.Holds ledger) (realm : Realm) (kind : Kind) :
    tables.all realm kind = .ok (ledger.all realm kind) := by
  obtain ⟨-, rows, markers, hitems, -, hrows, -⟩ := h
  obtain ⟨items, hselected, hkeys, hmem⟩ := exists_live_items hrows.lists realm kind
  have hrows' : (items.map (itemRow realm kind)).mapM Reading.ofRow =
      .ok (items.map fun item =>
        ⟨item.key, item.version.toNat, item.deleted, item.data.text⟩) := by
    rw [List.mapM_map]
    exact mapM_eq_ok _ _ fun item _ => Reading.ofRow_itemRow realm kind item
  have hitems' : (items.map fun item => (⟨item.key, item.version.toNat,
      item.deleted, item.data.text⟩ : Reading)).mapM Reading.toItem =
        .ok items := by
    rw [List.mapM_map]
    refine (mapM_eq_ok _ id fun item hm => ?_).trans (by simp)
    obtain ⟨hstored, hlive⟩ := get?_all.mp ((hmem item).mp hm)
    exact Reading.toItem_live (hrows.storable realm kind item.key item hstored)
      hlive
  have hmap : ∀ key item, (ledger.all realm kind).get? key = some item →
      item.key = key := fun key item hget =>
    hrows.keyed realm kind key item (get?_all.mp hget).1
  simp only [Tables.all, hitems, Table.content, ok_bind, hselected, hrows',
    hitems']
  exact congrArg Except.ok (ofList_items hkeys hmem hmap)

/-! ## Writing -/

theorem versionCell_of_fits {item : Item} (h : item.version.toNat < 2 ^ 63) :
    versionCell item = .ok (item.version.toNat : Int) :=
  if_pos h

theorem versionCell_of_not_fits {item : Item}
    (h : ¬ item.version.toNat < 2 ^ 63) :
    versionCell item = .error (.versionOutOfRange item.version item.key) :=
  if_neg h

theorem Holds.write (h : tables.Holds ledger) (realm : Realm) (kind : Kind)
    {item : Item} (hitem : item.Storable) :
    ∃ next, tables.write realm kind item item.version.toNat =
        .ok ((ledger.upsert realm kind item).1, next) ∧
      next.Holds (ledger.upsert realm kind item).2 := by
  obtain ⟨hschema, rows, markers, hitems, hmarkers, hrows, hmarked⟩ := h
  obtain ⟨houtcome, hnext⟩ := hrows.putRow realm kind hitem
  have hinit : (ledger.upsert realm kind item).2.initialized =
      ledger.initialized := by
    simp only [Ledger.upsert]
    split <;> rfl
  let next := (putRow (itemRow realm kind item) item.version.toNat rows).2
  refine ⟨{ tables with items := .own next }, ?_, hschema, next, markers, rfl,
    hmarkers, hnext, ?_⟩
  · simp only [Tables.write, hitems, Table.content, ok_bind, ← houtcome]
    rfl
  · rw [hinit]
    exact hmarked

/-- The rows once those of a kind have made place for those of the items. -/
def replaced (rows : List Row) (realm : Realm) (kind : Kind) (items : List Item) :
    List Row :=
  rows.filter (fun row => row.scope != realm.scope kind) ++
    items.map (itemRow realm kind)

theorem mem_replaced {rows : List Row} {realm : Realm} {kind : Kind}
    {items : List Item} {row : Row} :
    row ∈ replaced rows realm kind items ↔
      row ∈ rows ∧ row.scope ≠ realm.scope kind ∨
        row ∈ items.map (itemRow realm kind) := by
  rw [replaced, List.mem_append, List.mem_filter, bne_iff_ne]

theorem nodup_replaceScope {rows : List Row} (h : (rows.map Row.place).Nodup)
    (realm : Realm) (kind : Kind) {items : KeyMap Item} (hkeyed : items.Keyed) :
    ((replaced rows realm kind items.values).map Row.place).Nodup := by
  have hkept := (List.filter_sublist
    (p := fun row : Row => row.scope != realm.scope kind)
    (l := rows)).map Row.place
  rw [replaced, List.map_append, List.nodup_append]
  refine ⟨hkept.nodup h, ?_, ?_⟩
  · rw [List.map_map, List.Nodup, List.pairwise_map]
    have hkeys := List.pairwise_map.mp hkeyed.nodup_keys
    exact hkeys.imp fun hne hplace => hne (congrArg Prod.snd hplace)
  · rintro a ha b hb rfl
    obtain ⟨row, hrow, rfl⟩ := List.mem_map.mp ha
    simp only [List.map_map, List.mem_map, Function.comp_apply] at hb
    obtain ⟨item, -, hplace⟩ := hb
    have hscope := congrArg Prod.fst hplace
    have hne := (List.mem_filter.mp hrow).2
    rw [bne_iff_ne] at hne
    exact hne hscope.symm

theorem Lists.replaceScope {rows : List Row} (h : Lists rows ledger)
    (realm : Realm) (kind : Kind) {items : KeyMap Item}
    (hkeyed : ∀ key item, items.get? key = some item → item.key = key) :
    Lists (replaced rows realm kind items.values)
      (ledger.replace realm kind items) where
  distinct := nodup_replaceScope h.distinct realm kind hkeyed
  mem_iff := by
    intro other part row hscope
    rw [mem_replaced, Ledger.stored?_replace]
    by_cases hplace : other = realm ∧ part = kind
    · obtain ⟨rfl, rfl⟩ := hplace
      simp only [hscope, ne_eq, not_true_eq_false, and_false, false_or,
        List.mem_map, KeyMap.mem_values, and_self, if_true]
      constructor
      · rintro ⟨item, ⟨key, hitem⟩, rfl⟩
        have hkey := hkeyed key item hitem
        exact ⟨item, by rw [← hitem, ← hkey]; rfl, rfl⟩
      · rintro ⟨item, hitem, rfl⟩
        exact ⟨item, ⟨_, hitem⟩, rfl⟩
    · have hne : row.scope ≠ realm.scope kind := by
        rw [hscope, ne_eq, Realm.scope_inj]
        exact hplace
      rw [if_neg hplace, ← h.mem_iff other part row hscope]
      constructor
      · rintro (⟨hm, -⟩ | hm)
        · exact hm
        · obtain ⟨item, -, rfl⟩ := List.mem_map.mp hm
          exact absurd rfl hne
      · exact fun hm => .inl ⟨hm, hne⟩
  keyed := by
    intro other part key item hitem
    rw [Ledger.stored?_replace] at hitem
    split at hitem
    · exact hkeyed key item hitem
    · exact h.keyed other part key item hitem

theorem Hold.replaceScope {rows : List Row} (h : Hold rows ledger)
    (realm : Realm) (kind : Kind) {items : KeyMap Item}
    (hkeyed : ∀ key item, items.get? key = some item → item.key = key)
    (hstorable : ∀ key item, items.get? key = some item → item.Storable) :
    Hold (replaced rows realm kind items.values)
      (ledger.replace realm kind items) := by
  refine (h.lists.replaceScope realm kind hkeyed).hold ?_
  intro other part key item hitem
  rw [Ledger.stored?_replace] at hitem
  split at hitem
  · exact hstorable key item hitem
  · exact h.storable other part key item hitem

theorem insertAll_cases (realm : Realm) (kind : Kind) (rows : List Row)
    (items : List Item) :
    ((∀ item ∈ items, item.version.toNat < 2 ^ 63) ∧
      insertAll (realm.scope kind) rows items =
        .ok (rows ++ items.map (itemRow realm kind))) ∨
    ∃ item ∈ items, ¬ item.version.toNat < 2 ^ 63 ∧
      insertAll (realm.scope kind) rows items =
        .error (.versionOutOfRange item.version item.key) := by
  by_cases hfits : ∀ item ∈ items, item.version.toNat < 2 ^ 63
  · refine .inl ⟨hfits, ?_⟩
    have hcells := mapM_eq_ok
      (fun item => do return rowOf (realm.scope kind) item (← versionCell item))
      (itemRow realm kind) fun item hm => by
        rw [versionCell_of_fits (hfits item hm)]
        rfl
    rw [insertAll, hcells]
    rfl
  · simp only [not_forall] at hfits
    obtain ⟨item, hm, hlarge⟩ := hfits
    obtain ⟨error, herror⟩ := mapM_eq_error
      (fun item => do return rowOf (realm.scope kind) item (← versionCell item))
      hm (by rw [versionCell_of_not_fits hlarge]; rfl)
    obtain ⟨first, hfirst, hrefused⟩ := exists_of_mapM_eq_error herror
    by_cases hfirstFits : first.version.toNat < 2 ^ 63
    · rw [versionCell_of_fits hfirstFits] at hrefused
      cases hrefused
    · rw [versionCell_of_not_fits hfirstFits] at hrefused
      cases hrefused
      refine .inr ⟨first, hfirst, hfirstFits, ?_⟩
      rw [insertAll, herror]
      rfl

/-- The rows of a kind are replaced, or a version that is too great is reported. -/
theorem replaceScope_cases {rows : List Row} (hitems : tables.items = .own rows)
    (realm : Realm) (kind : Kind) (items : List Item) :
    ((∀ item ∈ items, item.version.toNat < 2 ^ 63) ∧
      tables.replaceScope (realm.scope kind) items =
        .ok { tables with items := .own (replaced rows realm kind items) }) ∨
    ∃ item ∈ items, ¬ item.version.toNat < 2 ^ 63 ∧
      tables.replaceScope (realm.scope kind) items =
        .error (.versionOutOfRange item.version item.key) := by
  unfold Tables.replaceScope
  simp only [hitems, Table.content, ok_bind]
  rcases insertAll_cases realm kind
      (rows.filter fun row => row.scope != realm.scope kind) items with
    ⟨hfits, heq⟩ | ⟨item, hm, hlarge, heq⟩
  · rw [heq]
    exact .inl ⟨hfits, rfl⟩
  · rw [heq]
    exact .inr ⟨item, hm, hlarge, rfl⟩

theorem Holds.replaceScope (h : tables.Holds ledger) (realm : Realm)
    (kind : Kind) {items : KeyMap Item}
    (hkeyed : ∀ key item, items.get? key = some item → item.key = key)
    (hreads : ∀ key item, items.get? key = some item →
      Json.parse item.data.text = .ok item.data) :
    (∃ next, tables.replaceScope (realm.scope kind) items.values = .ok next ∧
      next.Holds (ledger.replace realm kind items)) ∨
    ∃ key item, items.get? key = some item ∧
      ¬ item.version.toNat < 2 ^ 63 ∧
      ∃ error, tables.replaceScope (realm.scope kind) items.values =
        .error error := by
  obtain ⟨hschema, rows, markers, hitems, hmarkers, hrows, hmarked⟩ := h
  rcases replaceScope_cases hitems realm kind items.values with
    ⟨hfits, heq⟩ | ⟨item, hm, hlarge, heq⟩
  · rw [heq]
    refine .inl ⟨_, rfl, hschema, _, markers, rfl, hmarkers, ?_, hmarked⟩
    refine hrows.replaceScope realm kind hkeyed fun key item hitem => ?_
    exact ⟨hfits item (KeyMap.mem_values.mpr ⟨key, hitem⟩),
      hreads key item hitem⟩
  · rw [heq]
    obtain ⟨key, hitem⟩ := KeyMap.mem_values.mp hm
    exact .inr ⟨key, item, hitem, hlarge, _, rfl⟩

theorem Holds.foldlM_replaceScope (realm : Realm)
    (parts : List (Kind × KeyMap Item))
    (hkeyed : ∀ part ∈ parts, ∀ key item, part.2.get? key = some item →
      item.key = key)
    (hreads : ∀ part ∈ parts, ∀ key item, part.2.get? key = some item →
      Json.parse item.data.text = .ok item.data)
    (h : tables.Holds ledger) :
    (∃ next, parts.foldlM (fun tables part =>
        tables.replaceScope (realm.scope part.1) part.2.values) tables =
          .ok next ∧
      next.Holds (parts.foldl
        (fun ledger part => ledger.replace realm part.1 part.2) ledger)) ∨
    ∃ part ∈ parts, ∃ key item, part.2.get? key = some item ∧
      ¬ item.version.toNat < 2 ^ 63 ∧
      ∃ error, parts.foldlM (fun tables part =>
        tables.replaceScope (realm.scope part.1) part.2.values) tables =
          .error error := by
  induction parts generalizing tables ledger with
  | nil => exact .inl ⟨tables, rfl, h⟩
  | cons part rest ih =>
      rw [List.foldlM_cons, List.foldl_cons]
      rcases h.replaceScope realm part.1 (hkeyed part List.mem_cons_self)
          (hreads part List.mem_cons_self) with
        ⟨next, heq, hnext⟩ | ⟨key, item, hitem, hlarge, error, heq⟩
      · rw [heq, ok_bind]
        rcases ih (fun part hm => hkeyed part (List.mem_cons_of_mem _ hm))
            (fun part hm => hreads part (List.mem_cons_of_mem _ hm)) hnext with
          hdone | ⟨part, hm, hrefused⟩
        · exact .inl hdone
        · exact .inr ⟨part, List.mem_cons_of_mem _ hm, hrefused⟩
      · rw [heq, error_bind]
        exact .inr ⟨part, List.mem_cons_self, key, item, hitem, hlarge, error,
          rfl⟩

/-- Initialization replaces the covered kinds, or some version is too great for
a table and it fails. -/
theorem Holds.init (h : tables.Holds ledger) (realm : Realm) {data : DataSet}
    (hkeyed : data.Keyed)
    (hreads : ∀ kind key item, data.get? kind key = some item →
      Json.parse item.data.text = .ok item.data) :
    (∃ next, tables.init realm data = .ok next ∧
      next.Holds (ledger.init realm data)) ∨
    ∃ kind key item, data.get? kind key = some item ∧
      ¬ item.version.toNat < 2 ^ 63 ∧
      ∃ error, tables.init realm data = .error error := by
  have hget : ∀ part ∈ data.parts, ∀ key,
      data.get? part.1 key = part.2.get? key := by
    intro part hm key
    rw [DataSet.get?, DataSet.mem_parts.mp hm]
    rfl
  rcases h.foldlM_replaceScope realm data.parts
      (fun part hm key item hitem =>
        hkeyed part.1 key item (by rw [hget part hm, hitem]))
      (fun part hm key item hitem =>
        hreads part.1 key item (by rw [hget part hm, hitem])) with
    ⟨next, heq, hnext⟩ | ⟨part, hm, key, item, hitem, hlarge, error, heq⟩
  · obtain ⟨hschema, rows, markers, hitems, hmarkers, hrows, hmarked⟩ := hnext
    refine .inl ⟨{ next with markers := .own (markers.insert realm.marker ()) },
      ?_, hschema, rows, _, hitems, rfl, ?_, ?_⟩
    · rw [Tables.init, heq, ok_bind, Tables.mark, hmarkers]
      rfl
    · rw [Ledger.init_eq_foldl]
      exact ⟨hrows.distinct, hrows.mem_iff, hrows.keyed, hrows.storable⟩
    · intro other
      simp only [Ledger.init_eq_foldl, Ledger.mark, KeyMap.contains_insert,
        Realm.marker_inj, hmarked, eq_comm]
  · refine .inr ⟨part.1, key, item, by rw [hget part hm, hitem], hlarge, error,
      ?_⟩
    rw [Tables.init, heq, error_bind]

theorem Holds.clear (h : tables.Holds ledger) :
    ∃ next, tables.clear = (.ok (), next) ∧ next.Holds .empty := by
  obtain ⟨hschema, rows, markers, hitems, hmarkers, -, -⟩ := h
  refine ⟨{ tables with items := .own [], markers := .own .empty }, ?_, hschema,
    [], .empty, rfl, rfl, hold_nil, fun _ => rfl⟩
  simp [Tables.clear, hitems, hmarkers, Table.clear]

end Tables

end Sqlite

end VersionedFlags
