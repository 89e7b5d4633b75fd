import VersionedFlags.Proofs.Store.RoundTrip
import VersionedFlags.Proofs.Store.Transaction

/-!
# The advisory read and the conditional write agree

An upsert on a database file stops at once if the version it reads first is as
great as its own.  There a negative version counts as none and versions are
compared without their sign, while the statement that writes compares signed
integers, and some versions are too great for it.  On every table of integers an
upsert nevertheless does what the write alone would do, whatever the signs.
-/

namespace VersionedFlags

namespace Sqlite

namespace Tables

/-- The row holds an integer of 64 bits as its version, and anything else in its
other cells. -/
def Row.Signed (row : Row) : Prop :=
  ∃ version : Int, row.version = .integer version ∧
    Cell.isInteger64 version = true

/-- The condition of the writing statement: nothing is stored in the place, or a
lower version is. -/
def admits (rows : List Row) (scope key : String) (version : Int) : Bool :=
  match row? rows scope key with
  | none => true
  | some row => row.version.ltInteger version

variable {tables : Tables} {rows : List Row} {realm : Realm} {kind : Kind}
  {item : Item} {row : Row}

theorem Row.Signed.sound (h : Row.Signed row) : Row.Sound row := by
  obtain ⟨version, hversion, hinteger⟩ := h
  unfold Cell.isInteger64 at hinteger
  simp only [Bool.and_eq_true, decide_eq_true_eq] at hinteger
  exact ⟨version, hversion, hinteger.2⟩

theorem sound_of_signed (hitems : tables.items = .own rows)
    (hsigned : ∀ row ∈ rows, Row.Signed row) : tables.Sound :=
  ⟨rows, hitems, fun row hm => (hsigned row hm).sound⟩

/-- The statement writes when its condition holds. -/
theorem write_eq (hitems : tables.items = .own rows) (realm : Realm) (kind : Kind)
    (item : Item) (version : Int) :
    (tables.write realm kind item version).map Prod.fst =
      .ok (if admits rows (realm.scope kind) item.key version then .applied
        else .superseded) := by
  have hscope : (rowOf (realm.scope kind) item version).scope =
      realm.scope kind := rfl
  have hkey : (rowOf (realm.scope kind) item version).key = item.key := rfl
  unfold Tables.write admits
  simp only [hitems, Table.content, ok_bind, putRow_eq, hscope, hkey]
  cases row? rows (realm.scope kind) item.key with
  | none => rfl
  | some found => cases hlower : found.version.ltInteger version <;> simp [hlower] <;> rfl

/-- The comparison with the version that is read comes out as the condition of
the statement does. -/
theorem supersedes_eq_admits (hsound : tables.Sound)
    (hitems : tables.items = .own rows) {stored : Option UInt64}
    (hstored : tables.version? realm kind item.key = .ok stored) :
    item.supersedes stored =
      admits rows (realm.scope kind) item.key item.version.toNat := by
  have hwrite := (hsound.ranged.write hstored).2 item rfl
  have hcondition := write_eq hitems realm kind item item.version.toNat
  rw [hwrite] at hcondition
  cases hnewer : item.supersedes stored <;>
    cases hadmits : admits rows (realm.scope kind) item.key item.version.toNat <;>
      simp_all [Except.map]

theorem admits_of_negative {scope key : String}
    (hrow : row? rows scope key = some row) {version : Int}
    (hversion : row.version = .integer version) (hnegative : version < 0)
    (written : Nat) : admits rows scope key written = true := by
  unfold admits
  simp only [hrow, hversion, Cell.ltInteger, decide_eq_true_eq]
  omega

/-- A live row with a negative version cannot be read. -/
theorem get?_negative (hitems : tables.items = .own rows)
    (hrow : row? rows (realm.scope kind) item.key = some row) {version : Int}
    (hversion : row.version = .integer version) (hnegative : version < 0)
    (hlive : row.deleted = .integer 0) {data : String}
    (hdata : row.data = .text data) :
    tables.get? realm kind item.key = .error (.negativeVersion item.key) := by
  obtain ⟨hscope, hkey⟩ : row.scope = realm.scope kind ∧ row.key = item.key := by
    simpa using List.find?_some hrow
  obtain ⟨scope, key, _, _, _⟩ := row
  cases hversion
  cases hlive
  cases hdata
  cases hkey
  simp only [Tables.get?, hitems, Table.content, ok_bind, hrow, Reading.ofRow,
    Reading.toItem, if_pos hnegative]
  rfl

/-- A row that has been stored is what a get reads. -/
theorem get?_put (hitems : tables.items = .own rows) (realm : Realm) (kind : Kind)
    (h : item.Legible) :
    (tables.put realm kind item).get? realm kind item.key = .ok (some item) := by
  have hput : (tables.put realm kind item).items =
      .own (stow (itemRow realm kind item) rows) := by
    unfold Tables.put
    rw [hitems]
    rfl
  have hrow : row? (stow (itemRow realm kind item) rows) (realm.scope kind)
      item.key = (some item).map (itemRow realm kind) := by
    rw [row?_stow, if_pos ⟨rfl, rfl⟩]
    rfl
  rw [get?_of_row? hput hrow]
  unfold recallOne Item.visible?
  simp only [Option.bind_some, h.live, Bool.false_eq_true, if_false, h.recalled]
  rfl

end Tables

end Sqlite

/-! ## Upserts through a handle -/

namespace Cluster

open Sqlite

variable {cluster : Cluster} {store : Nat} {handle : Handle} {kind : Kind}
  {item : Item}

section

variable {medium : Medium} {stored : Option UInt64}
  (hopen : cluster.openHandle store = .ok (handle, medium))
  (hranged : medium.Ranged)
  (hstored : medium.version? handle.realm kind item.key = .ok stored)

include hopen hstored

theorem advise_of_version? :
    cluster.advise store kind item = .ok (item.supersedes stored) := by
  unfold Cluster.advise
  simp only [hopen, ok_bind, Medium.advise_eq, hstored]
  rfl

include hranged

/-- Where the stored version can be read, the write through an open handle is an
upsert in one step. -/
theorem commit_of_version? :
    cluster.commit store kind item =
      ((medium.upsertAtOnce handle.realm kind item).1,
        cluster.setMedium handle.medium
          (medium.upsertAtOnce handle.realm kind item).2) := by
  obtain ⟨hhandle, -, hclosed, hmedium⟩ := openHandle_cases hopen
  unfold Cluster.commit
  simp only [hhandle, ok_bind, hclosed, hranged.commit hstored]
  cases honce : medium.upsertAtOnce handle.realm kind item with
  | mk reply next =>
      cases reply with
      | ok outcome => rfl
      | error error =>
          cases Medium.eq_of_upsertAtOnce_error honce
          rw [setMedium_self hmedium]
          rfl

theorem commit_of_supersedes (hnewer : item.supersedes stored = true)
    (hfits : medium.mindsClosing = true → item.version.toNat < 2 ^ 63) :
    cluster.commit store kind item =
      (.ok .applied, cluster.setMedium handle.medium
        (medium.put handle.realm kind item)) := by
  have hroom : ¬ (medium.mindsClosing = true ∧ 2 ^ 63 ≤ item.version.toNat) :=
    fun h => absurd (hfits h.1) (by omega)
  rw [commit_of_version? hopen hranged hstored]
  unfold Medium.upsertAtOnce
  simp only [if_neg hroom, hstored, hnewer, if_true]

/-- Looking first makes no difference. -/
theorem upsert_of_version? :
    cluster.upsert store kind item = cluster.commit store kind item := by
  unfold Cluster.upsert
  rw [advise_of_version? hopen hstored]
  cases hnewer : item.supersedes stored with
  | true => rfl
  | false =>
      obtain ⟨-, -, -, hmedium⟩ := openHandle_cases hopen
      rw [commit_of_version? hopen hranged hstored,
        hranged.upsertAtOnce_of_le hstored hnewer, setMedium_self hmedium]

end

/-- On a table of signed integers the advisory read answers as the condition of the
writing statement does, and an upsert is the write alone: the same reply, the same
rows.  A version that no table has room for is refused either way.  A row with a
negative version gives way to every version that a table has room for, and what could
not be read there can be read afterwards. -/
theorem advice_agrees_with_write {tables : Tables} {rows : List Row}
    (hopen : cluster.openHandle store = .ok (handle, .sqlite (.intact tables)))
    (hitems : tables.items = .own rows)
    (hsigned : ∀ row ∈ rows, Tables.Row.Signed row) (kind : Kind) (item : Item) :
    cluster.serve store (.upsert kind item) = cluster.commit store kind item ∧
      cluster.advise store kind item =
        .ok (Tables.admits rows (handle.realm.scope kind) item.key
          item.version.toNat) ∧
      (2 ^ 63 ≤ item.version.toNat →
        cluster.serve store (.upsert kind item) =
          (.error (.versionOutOfRange item.version item.key), cluster)) ∧
      ∀ row version,
        Tables.row? rows (handle.realm.scope kind) item.key = some row →
        row.version = .integer version → version < 0 →
        (∀ data, row.deleted = .integer 0 → row.data = .text data →
          (cluster.serve store (.get kind item.key)).1 =
            .error (.negativeVersion item.key)) ∧
        (item.version.toNat < 2 ^ 63 →
          (cluster.serve store (.upsert kind item)).1 = .ok .applied ∧
            (item.Legible →
              ((cluster.serve store (.upsert kind item)).2.serve store
                (.get kind item.key)).1 = .ok (some item))) := by
  have hsound := Tables.sound_of_signed hitems hsigned
  have hranged : (Medium.sqlite (.intact tables)).Ranged := hsound.ranged
  obtain ⟨stored, hread⟩ := hsound.exists_version? handle.realm kind item.key
  have hstored : (Medium.sqlite (.intact tables)).version? handle.realm kind
      item.key = .ok stored := hread
  have hcondition := Tables.supersedes_eq_admits hsound hitems hread
  have hserve : cluster.serve store (.upsert kind item) =
      cluster.commit store kind item :=
    upsert_of_version? hopen hranged hstored
  refine ⟨hserve, ?_, ?_, ?_⟩
  · rw [advise_of_version? hopen hstored, hcondition]
  · intro hlarge
    rw [hserve]
    exact commit_too_great (openHandle_cases hopen).1 kind hlarge
  · intro row version hrow hversion hnegative
    constructor
    · intro data hlive hdata
      have hget := Tables.get?_negative hitems hrow hversion hnegative hlive hdata
      simp only [Cluster.serve, hopen, ok_bind, Medium.get?, Image.tables, hget]
    · intro hfits
      have hnewer : item.supersedes stored = true := by
        rw [hcondition, Tables.admits_of_negative hrow hversion hnegative]
      rw [hserve, commit_of_supersedes hopen hranged hstored hnewer fun _ => hfits]
      refine ⟨rfl, fun hlegible => ?_⟩
      have hget := Tables.get?_put hitems handle.realm kind hlegible
      simp only [Cluster.serve, openHandle_setMedium hopen, ok_bind, Medium.put,
        Medium.get?, Image.tables, hget]

/-- A file with a live row of the least version there is. -/
def spoiled : Tables where
  items := .own [⟨Realm.standard.scope .features, edgeItem.key,
    .integer (-9223372036854775808), .integer 0, .text "null"⟩]
  markers := .own .empty
  schema := .own [1]
  others := .empty

theorem spoiled_row_replaced :
    (serve ⟨[.sqlite (.intact spoiled)], [⟨0, .standard, false⟩]⟩ 0
      (.get .features edgeItem.key)).1 = .error (.negativeVersion edgeItem.key) ∧
    ((serve ⟨[.sqlite (.intact spoiled)], [⟨0, .standard, false⟩]⟩ 0
      (.upsert .features edgeItem)).2.serve 0
        (.get .features edgeItem.key)).1 = .ok (some edgeItem) := by
  have hopen : openHandle ⟨[.sqlite (.intact spoiled)], [⟨0, .standard, false⟩]⟩ 0 =
      .ok (⟨0, .standard, false⟩, .sqlite (.intact spoiled)) := rfl
  obtain ⟨-, -, -, hnegative⟩ := advice_agrees_with_write hopen rfl
    (List.forall_mem_singleton.mpr ⟨_, rfl, by decide⟩) .features edgeItem
  obtain ⟨hbefore, hafter⟩ := hnegative _ _ rfl rfl (by decide)
  exact ⟨hbefore _ rfl rfl, (hafter (by decide)).2 legible_edgeItem⟩

end Cluster

end VersionedFlags
