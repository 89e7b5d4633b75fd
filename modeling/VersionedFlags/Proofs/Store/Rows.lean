import Mathlib.Data.List.Nodup
import VersionedFlags.Proofs.Realm
import VersionedFlags.Proofs.Store.Ledger
import VersionedFlags.Store.Sqlite.Tables

/-!
# Rows of items

The rows of a table list a ledger when every item has one row and every row in a
scope of a realm is that of an item; they hold it when each item can be read
back from its row besides.  The conditional write replaces the row in its place
or adds one.
-/

namespace VersionedFlags

/-- An item that a row can give back: its version is an integer of a table, and
its payload is read back from its text unchanged. -/
structure Item.Storable (item : Item) : Prop where
  fits : item.version.toNat < 2 ^ 63
  reads : Json.parse item.data.text = .ok item.data

namespace Sqlite

def Row.place (row : Row) : String × String := (row.scope, row.key)

namespace Tables

def itemRow (realm : Realm) (kind : Kind) (item : Item) : Row :=
  rowOf (realm.scope kind) item item.version.toNat

structure Lists (rows : List Row) (ledger : Ledger) : Prop where
  distinct : (rows.map Row.place).Nodup
  mem_iff : ∀ realm kind row, row.scope = realm.scope kind →
    (row ∈ rows ↔ ∃ item, ledger.stored? realm kind row.key = some item ∧
      row = itemRow realm kind item)
  keyed : ∀ realm kind key item,
    ledger.stored? realm kind key = some item → item.key = key

theorem lists_nil : Lists [] .empty where
  distinct := List.nodup_nil
  mem_iff := by simp [Ledger.stored?, Ledger.empty]
  keyed := by simp [Ledger.stored?, Ledger.empty]

structure Hold (rows : List Row) (ledger : Ledger) : Prop where
  distinct : (rows.map Row.place).Nodup
  mem_iff : ∀ realm kind row, row.scope = realm.scope kind →
    (row ∈ rows ↔ ∃ item, ledger.stored? realm kind row.key = some item ∧
      row = itemRow realm kind item)
  keyed : ∀ realm kind key item,
    ledger.stored? realm kind key = some item → item.key = key
  storable : ∀ realm kind key item,
    ledger.stored? realm kind key = some item → item.Storable

theorem Hold.lists {rows : List Row} {ledger : Ledger} (h : Hold rows ledger) :
    Lists rows ledger :=
  ⟨h.distinct, h.mem_iff, h.keyed⟩

theorem Lists.hold {rows : List Row} {ledger : Ledger} (h : Lists rows ledger)
    (hstorable : ∀ realm kind key item,
      ledger.stored? realm kind key = some item → item.Storable) :
    Hold rows ledger :=
  ⟨h.distinct, h.mem_iff, h.keyed, hstorable⟩

theorem hold_nil : Hold [] .empty :=
  lists_nil.hold (by simp [Ledger.stored?, Ledger.empty])

/-! ## Lookups -/

theorem Lists.row? {rows : List Row} {ledger : Ledger} (h : Lists rows ledger)
    (realm : Realm) (kind : Kind) (key : String) :
    row? rows (realm.scope kind) key =
      (ledger.stored? realm kind key).map (itemRow realm kind) := by
  cases hfound : Tables.row? rows (realm.scope kind) key with
  | some row =>
      have hplace : row.scope = realm.scope kind ∧ row.key = key := by
        simpa using List.find?_some hfound
      obtain ⟨item, hitem, hrow⟩ :=
        (h.mem_iff realm kind row hplace.1).mp (List.mem_of_find?_eq_some hfound)
      rw [hplace.2] at hitem
      simp [hitem, hrow]
  | none =>
      cases hitem : ledger.stored? realm kind key with
      | none => rfl
      | some item =>
          have hkey := h.keyed realm kind key item hitem
          have hmem : itemRow realm kind item ∈ rows :=
            (h.mem_iff realm kind (itemRow realm kind item) rfl).mpr
              ⟨item, by simpa [itemRow, rowOf, hkey] using hitem, rfl⟩
          have hother := List.find?_eq_none.mp hfound _ hmem
          simp [itemRow, rowOf, hkey] at hother

theorem Reading.ofRow_itemRow (realm : Realm) (kind : Kind) (item : Item) :
    Reading.ofRow (itemRow realm kind item) =
      .ok ⟨item.key, item.version.toNat, item.deleted, item.data.text⟩ := by
  cases hdeleted : item.deleted <;>
    simp [Reading.ofRow, itemRow, rowOf, hdeleted]

theorem Reading.toItem_live {item : Item} (h : item.Storable)
    (hlive : item.deleted = false) :
    Reading.toItem ⟨item.key, item.version.toNat, item.deleted, item.data.text⟩ =
      .ok item := by
  have hversion : ¬ ((item.version.toNat : Int) < 0) := by omega
  cases item
  cases hlive
  simp [Reading.toItem, hversion, h.reads, Item.live]

/-! ## The conditional write -/

/-- What the conditional write of a row does: it adds the row if its key is
free, and otherwise puts it in the place of a row of a lower version. -/
theorem putRow_cases (row : Row) (version : Int) (rows : List Row) :
    ((∀ other ∈ rows, other.place ≠ row.place) ∧
      putRow row version rows = (.applied, rows ++ [row])) ∨
    ∃ before found after, rows = before ++ found :: after ∧
      found.place = row.place ∧ (∀ other ∈ before, other.place ≠ row.place) ∧
      putRow row version rows =
        if found.version.ltInteger version then
          (.applied, before ++ row :: after)
        else (.superseded, rows) := by
  induction rows with
  | nil => exact .inl ⟨by simp, rfl⟩
  | cons first rest ih =>
      by_cases hfirst : first.scope = row.scope ∧ first.key = row.key
      · refine .inr ⟨[], first, rest, rfl, ?_, by simp, ?_⟩
        · simp [Row.place, hfirst]
        · simp [putRow, hfirst]
      · have hne : first.place ≠ row.place := by
          simpa [Row.place] using hfirst
        rcases ih with ⟨hfree, heq⟩ | ⟨before, found, after, rfl, hplace,
          hbefore, heq⟩
        · refine .inl ⟨?_, ?_⟩
          · intro other hm
            rcases List.mem_cons.mp hm with rfl | hm
            · exact hne
            · exact hfree other hm
          · simp [putRow, hfirst, heq]
        · refine .inr ⟨first :: before, found, after, rfl, hplace, ?_, ?_⟩
          · intro other hm
            rcases List.mem_cons.mp hm with rfl | hm
            · exact hne
            · exact hbefore other hm
          · simp only [putRow, hfirst, if_false, heq]
            split <;> rfl

/-- A write that is applied leaves one row in its place and every other row. -/
theorem putRow_applied {row : Row} {version : Int} {rows : List Row}
    (hdistinct : (rows.map Row.place).Nodup)
    (h : (putRow row version rows).1 = .applied) :
    ((putRow row version rows).2.map Row.place).Nodup ∧
      ∀ other, other ∈ (putRow row version rows).2 ↔
        other = row ∨ other ∈ rows ∧ other.place ≠ row.place := by
  rcases putRow_cases row version rows with
    ⟨hfree, heq⟩ | ⟨before, found, after, rfl, hplace, -, heq⟩
  · rw [heq]
    constructor
    · rw [List.map_append, List.nodup_append]
      refine ⟨hdistinct, by simp, ?_⟩
      intro a ha b hb
      obtain ⟨other, hm, rfl⟩ := List.mem_map.mp ha
      simp only [List.map_cons, List.map_nil, List.mem_singleton] at hb
      exact hb ▸ hfree other hm
    · intro other
      rw [List.mem_append, List.mem_singleton, or_comm]
      exact or_congr_right ⟨fun hm => ⟨hm, hfree other hm⟩, fun hm => hm.1⟩
  · rw [heq] at h ⊢
    split at h
    case isFalse => cases h
    case isTrue hlower =>
    rw [if_pos hlower]
    constructor
    · simpa [hplace] using hdistinct
    · intro other
      rw [List.map_append, List.map_cons, hplace, List.nodup_middle,
        List.nodup_cons, List.mem_append] at hdistinct
      have hothers : ∀ other, other ∈ before ∨ other ∈ after →
          other.place ≠ row.place := by
        intro other hm hsame
        refine hdistinct.1 (hm.imp ?_ ?_) <;>
          exact fun hm => hsame ▸ List.mem_map_of_mem hm
      simp only [List.mem_append, List.mem_cons]
      constructor
      · rintro (hm | rfl | hm)
        · exact .inr ⟨.inl hm, hothers other (.inl hm)⟩
        · exact .inl rfl
        · exact .inr ⟨.inr (.inr hm), hothers other (.inr hm)⟩
      · rintro (rfl | ⟨hm | rfl | hm, hne⟩)
        · exact .inr (.inl rfl)
        · exact .inl hm
        · exact absurd hplace hne
        · exact .inr (.inr hm)

theorem putRow_superseded {row : Row} {version : Int} {rows : List Row}
    (h : (putRow row version rows).1 = .superseded) :
    (putRow row version rows).2 = rows := by
  rcases putRow_cases row version rows with
    ⟨-, heq⟩ | ⟨before, found, after, -, -, -, heq⟩
  · rw [heq] at h
    cases h
  · rw [heq] at h ⊢
    split at h
    · cases h
    · rename_i hlower
      rw [if_neg hlower]

/-- Putting an item under its key: the rows in other places stay, and one row
for the item is there. -/
theorem Lists.put {rows next : List Row} {ledger : Ledger}
    (h : Lists rows ledger) {realm : Realm} {kind : Kind} {item : Item}
    (hdistinct : (next.map Row.place).Nodup)
    (hnext : ∀ row, row ∈ next ↔ row = itemRow realm kind item ∨
      row ∈ rows ∧ row.place ≠ (itemRow realm kind item).place) :
    Lists next (ledger.put realm kind item) where
  distinct := hdistinct
  mem_iff := by
    intro other part row hscope
    rw [hnext, Ledger.stored?_put]
    have hplace : row.place = (itemRow realm kind item).place ↔
        other = realm ∧ part = kind ∧ item.key = row.key := by
      simp only [Row.place, Prod.mk.injEq, hscope, itemRow, rowOf,
        Realm.scope_inj]
      rw [and_assoc, eq_comm (a := row.key)]
    by_cases hsame : row.place = (itemRow realm kind item).place
    · obtain ⟨rfl, rfl, hkey⟩ := hplace.mp hsame
      simp [hsame, hkey]
    · rw [if_neg fun h' => hsame (hplace.mpr h'), ← h.mem_iff other part row hscope]
      constructor
      · rintro (rfl | ⟨hm, -⟩)
        · exact absurd rfl hsame
        · exact hm
      · exact fun hm => .inr ⟨hm, hsame⟩
  keyed := by
    intro other part key found hfound
    rw [Ledger.stored?_put] at hfound
    split at hfound
    · rename_i hkey
      cases hfound
      exact hkey.2.2
    · exact h.keyed other part key found hfound

/-- Whatever versions are stored, a conditional write puts the item or leaves the
rows as they are. -/
theorem Lists.putRow {rows : List Row} {ledger : Ledger}
    (h : Lists rows ledger) (realm : Realm) (kind : Kind) (item : Item)
    (version : Int) :
    (Tables.putRow (itemRow realm kind item) version rows).1 = .applied ∧
        Lists (Tables.putRow (itemRow realm kind item) version rows).2
          (ledger.put realm kind item) ∨
      (Tables.putRow (itemRow realm kind item) version rows).1 = .superseded ∧
        (Tables.putRow (itemRow realm kind item) version rows).2 = rows := by
  cases houtcome :
      (Tables.putRow (itemRow realm kind item) version rows).1 with
  | applied =>
      obtain ⟨hdistinct, hmem⟩ := putRow_applied h.distinct houtcome
      exact .inl ⟨rfl, h.put hdistinct hmem⟩
  | superseded => exact .inr ⟨rfl, putRow_superseded houtcome⟩

theorem storable_put {ledger : Ledger}
    (hstorable : ∀ realm kind key item,
      ledger.stored? realm kind key = some item → item.Storable)
    {realm : Realm} {kind : Kind} {item : Item} (hitem : item.Storable) :
    ∀ other part key found,
      (ledger.put realm kind item).stored? other part key = some found →
        found.Storable := by
  intro other part key found hfound
  rw [Ledger.stored?_put] at hfound
  split at hfound
  · cases hfound
    exact hitem
  · exact hstorable other part key found hfound

theorem Lists.stored_of_mem {rows : List Row} {ledger : Ledger}
    (h : Lists rows ledger) {realm : Realm} {kind : Kind} {item : Item}
    {row : Row} (hm : row ∈ rows)
    (hplace : row.place = (itemRow realm kind item).place) :
    ∃ stored, ledger.stored? realm kind item.key = some stored ∧
      row = itemRow realm kind stored := by
  have hscope : row.scope = realm.scope kind := congrArg Prod.fst hplace
  have hkey : row.key = item.key := congrArg Prod.snd hplace
  obtain ⟨stored, hstored, hrow⟩ := (h.mem_iff realm kind row hscope).mp hm
  exact ⟨stored, hkey ▸ hstored, hrow⟩

theorem ltInteger_itemRow (realm : Realm) (kind : Kind) (stored item : Item) :
    (itemRow realm kind stored).version.ltInteger item.version.toNat =
      item.supersedes (some stored.version) := by
  simp [itemRow, rowOf, Cell.ltInteger, Item.supersedes, UInt64.lt_iff_toNat_lt]

/-- The rows compare as the ledger does. -/
theorem Lists.outcome_putRow {rows : List Row} {ledger : Ledger}
    (h : Lists rows ledger) (realm : Realm) (kind : Kind) (item : Item) :
    (Tables.putRow (itemRow realm kind item) item.version.toNat rows).1 =
      (ledger.upsert realm kind item).1 := by
  rcases putRow_cases (itemRow realm kind item) item.version.toNat rows with
    ⟨hfree, heq⟩ | ⟨before, found, after, hrows, hplace, -, heq⟩
  · have hnone : ledger.stored? realm kind item.key = none := by
      cases hstored : ledger.stored? realm kind item.key with
      | none => rfl
      | some stored =>
          have hkey := h.keyed realm kind item.key stored hstored
          have hm : itemRow realm kind stored ∈ rows :=
            (h.mem_iff realm kind (itemRow realm kind stored) rfl).mpr
              ⟨stored, by simpa [itemRow, rowOf, hkey] using hstored, rfl⟩
          exact absurd (by simp [Row.place, itemRow, rowOf, hkey])
            (hfree _ hm)
    rw [heq]
    simp [Ledger.upsert, Ledger.version?, hnone, Item.supersedes]
  · have hfound : found ∈ rows := by simp [hrows]
    obtain ⟨stored, hstored, rfl⟩ := h.stored_of_mem hfound hplace
    rw [heq]
    simp only [ltInteger_itemRow, Ledger.upsert, Ledger.version?, hstored,
      Option.map_some]
    split <;> rfl

theorem Hold.putRow {rows : List Row} {ledger : Ledger} (h : Hold rows ledger)
    (realm : Realm) (kind : Kind) {item : Item} (hitem : item.Storable) :
    (putRow (itemRow realm kind item) item.version.toNat rows).1 =
        (ledger.upsert realm kind item).1 ∧
      Hold (Tables.putRow (itemRow realm kind item) item.version.toNat rows).2
        (ledger.upsert realm kind item).2 := by
  have houtcome := h.lists.outcome_putRow realm kind item
  refine ⟨houtcome, ?_⟩
  unfold Ledger.upsert at houtcome ⊢
  rcases h.lists.putRow realm kind item item.version.toNat with
    ⟨hdone, hlists⟩ | ⟨hdone, hsame⟩
  · rw [hdone] at houtcome
    split at houtcome
    · rename_i hnewer
      rw [if_pos hnewer]
      exact hlists.hold (storable_put h.storable hitem)
    · cases houtcome
  · rw [hdone] at houtcome
    split at houtcome
    · cases houtcome
    · rename_i hnewer
      rw [if_neg hnewer, hsame]
      exact h

end Tables

end Sqlite

end VersionedFlags
