import VersionedFlags.Proofs.Store.Memory
import VersionedFlags.Proofs.Store.Tables
import VersionedFlags.Store.Medium

/-!
# Media as ledgers

Both sorts of media hold ledgers and serve calls through a handle as their
ledgers do.  A database file asks two things of the items that are written: the
payload has to be read back from its text unchanged, which callers see to, and
the version has to fit an integer of a table, which the file itself checks.
-/

namespace VersionedFlags

/-! ## Items of calls -/

namespace Call

def Writes : Call → Item → Prop
  | .init data, item => ∃ kind key, data.get? kind key = some item
  | .upsert _ written, item => item = written
  | _, _ => False

/-- Whether the call may change what is stored, or which handles are open. -/
def alters : Call → Bool
  | .init _ | .upsert _ _ | .close => true
  | .get _ _ | .all _ | .initialized => false

def Made : Call → Prop
  | .init data => data.Made
  | _ => True

/-- The data set of an initialization can be made, and a database file gives
back every written payload unchanged. -/
structure Kept (file : Bool) (call : Call) : Prop where
  made : call.Made
  reads : file = true → ∀ item, call.Writes item →
    Json.parse item.data.text = .ok item.data

theorem Kept.of_file {file : Bool} {call : Call} (h : call.Kept true) :
    call.Kept file :=
  ⟨h.made, fun _ => h.reads rfl⟩

/-- No written version is too great for a table. -/
def Fits (call : Call) : Prop :=
  ∀ item, call.Writes item → item.version.toNat < 2 ^ 63

end Call

/-! ## Media -/

namespace Medium

def Holds : Medium → Ledger → Prop
  | .memory database, ledger => database.ledger = ledger
  | .sqlite .damaged, _ => False
  | .sqlite (.intact tables), ledger => tables.Holds ledger

variable {medium : Medium} {ledger : Ledger}

theorem Holds.get? (h : medium.Holds ledger) (realm : Realm) (kind : Kind)
    (key : String) :
    medium.get? realm kind key = .ok (ledger.get? realm kind key) := by
  match medium, h with
  | .memory database, rfl => rfl
  | .sqlite (.intact tables), h => exact Sqlite.Tables.Holds.get? h realm kind key

theorem Holds.all (h : medium.Holds ledger) (realm : Realm) (kind : Kind) :
    medium.all realm kind = .ok (ledger.all realm kind) := by
  match medium, h with
  | .memory database, rfl => rfl
  | .sqlite (.intact tables), h => exact Sqlite.Tables.Holds.all h realm kind

theorem Holds.isInitialized (h : medium.Holds ledger) (realm : Realm) :
    medium.isInitialized realm = .ok (ledger.initialized realm) := by
  match medium, h with
  | .memory database, rfl => rfl
  | .sqlite (.intact tables), h =>
      exact Sqlite.Tables.Holds.isInitialized h realm

theorem Holds.advise (h : medium.Holds ledger) (realm : Realm) (kind : Kind)
    (item : Item) :
    medium.advise realm kind item =
      .ok (item.supersedes (ledger.version? realm kind item.key)) := by
  match medium, h with
  | .memory database, rfl => rfl
  | .sqlite (.intact tables), h =>
      have hversion := Sqlite.Tables.Holds.version? h realm kind item.key
      simp only [Medium.advise, Sqlite.Image.tables, ok_bind, hversion]
      rfl

theorem Holds.commit (h : medium.Holds ledger) (realm : Realm) (kind : Kind)
    (item : Item) (hreads : medium.mindsClosing = true →
      Json.parse item.data.text = .ok item.data) :
    (∃ next, medium.commit realm false kind item =
        .ok ((ledger.upsert realm kind item).1, next) ∧
      next.Holds (ledger.upsert realm kind item).2 ∧
      next.mindsClosing = medium.mindsClosing) ∨
    ¬ item.version.toNat < 2 ^ 63 ∧
      ∃ error, medium.commit realm false kind item = .error error := by
  match medium, h with
  | .memory database, rfl =>
      have hwrite := database.ledger_write realm kind item
      refine .inl ⟨.memory (database.write realm kind item).2, ?_, ?_, rfl⟩
      · rw [← hwrite]
        rfl
      · rw [← hwrite]
        rfl
  | .sqlite (.intact tables), h =>
      by_cases hfits : item.version.toNat < 2 ^ 63
      · have hitem : item.Storable := ⟨hfits, hreads rfl⟩
        obtain ⟨next, heq, hnext⟩ := Sqlite.Tables.Holds.write h realm kind hitem
        refine .inl ⟨.sqlite (.intact next), ?_, hnext, rfl⟩
        simp only [Medium.commit, Sqlite.Tables.versionCell_of_fits hfits,
          Sqlite.Image.tables, ok_bind, heq]
        rfl
      · refine .inr ⟨hfits, .versionOutOfRange item.version item.key, ?_⟩
        simp only [Medium.commit, Sqlite.Tables.versionCell_of_not_fits hfits,
          error_bind]

theorem Holds.init (h : medium.Holds ledger) (realm : Realm) {data : DataSet}
    (hmade : data.Made)
    (hreads : medium.mindsClosing = true → ∀ kind key item,
      data.get? kind key = some item →
        Json.parse item.data.text = .ok item.data) :
    (∃ next, medium.init realm data = .ok next ∧
      next.Holds (ledger.init realm data) ∧
      next.mindsClosing = medium.mindsClosing) ∨
    ∃ kind key item, data.get? kind key = some item ∧
      ¬ item.version.toNat < 2 ^ 63 ∧
      ∃ error, medium.init realm data = .error error := by
  match medium, h with
  | .memory database, rfl =>
      exact .inl ⟨_, rfl, database.ledger_init realm data, rfl⟩
  | .sqlite (.intact tables), h =>
      rcases Sqlite.Tables.Holds.init h realm hmade.keyed (hreads rfl) with
        ⟨next, heq, hnext⟩ | ⟨kind, key, item, hitem, hlarge, error, heq⟩
      · refine .inl ⟨.sqlite (.intact next), ?_, hnext, rfl⟩
        simp only [Medium.init, Sqlite.Image.tables, ok_bind, heq]
        rfl
      · refine .inr ⟨kind, key, item, hitem, hlarge, error, ?_⟩
        simp only [Medium.init, Sqlite.Image.tables, ok_bind, heq, error_bind]

theorem Holds.clear (h : medium.Holds ledger) :
    ∃ next, medium.clear = (.ok (), next) ∧ next.Holds .empty ∧
      next.mindsClosing = medium.mindsClosing := by
  match medium, h with
  | .memory database, rfl => exact ⟨.memory .empty, rfl, rfl, rfl⟩
  | .sqlite (.intact tables), h =>
      obtain ⟨next, heq, hnext⟩ := Sqlite.Tables.Holds.clear h
      refine ⟨.sqlite (.intact next), ?_, hnext, rfl⟩
      simp only [Medium.clear, heq]

end Medium

/-! ## Clusters -/

namespace Cluster

/-- One of the media holds a ledger. -/
def Holds (cluster : Cluster) (index : Nat) (file : Bool) (ledger : Ledger) :
    Prop :=
  ∃ medium, cluster.media[index]? = some medium ∧ medium.Holds ledger ∧
    medium.mindsClosing = file

variable {cluster : Cluster} {index store : Nat} {realm : Realm} {file : Bool}
  {ledger : Ledger}

theorem openHandle_eq {medium : Medium}
    (hhandle : cluster.handles[store]? = some ⟨index, realm, false⟩)
    (hmedium : cluster.media[index]? = some medium) :
    cluster.openHandle store = .ok (⟨index, realm, false⟩, medium) := by
  simp only [openHandle, handle, hhandle, hmedium, ok_bind]
  rfl

theorem handle_eq {medium : Medium} {closed : Bool}
    (hhandle : cluster.handles[store]? = some ⟨index, realm, closed⟩)
    (hmedium : cluster.media[index]? = some medium) :
    cluster.handle store = .ok (⟨index, realm, closed⟩, medium) := by
  simp only [handle, hhandle, hmedium]

theorem Holds.setMedium (h : cluster.Holds index file ledger) {medium : Medium}
    {next : Ledger} (hholds : medium.Holds next)
    (hfile : medium.mindsClosing = file) :
    (cluster.setMedium index medium).Holds index file next := by
  obtain ⟨old, hold, -⟩ := h
  have hlt := (List.getElem?_eq_some_iff.mp hold).1
  exact ⟨medium, by simp [Cluster.setMedium, hlt], hholds, hfile⟩

/-- A call through an open handle is served as the ledger serves it, or it
writes a version that is too great for a database file. -/
theorem Holds.serve (h : cluster.Holds index file ledger)
    (hhandle : cluster.handles[store]? = some ⟨index, realm, false⟩)
    {call : Call} (hopen : call ≠ .close) (hkept : call.Kept file) :
    ((cluster.serve store call).1 = .ok (ledger.serve realm call).1 ∧
      (cluster.serve store call).2.Holds index file
        (ledger.serve realm call).2 ∧
      (cluster.serve store call).2.handles = cluster.handles) ∨
    ¬ call.Fits ∧ ∃ error, cluster.serve store call = (.error error, cluster) := by
  obtain ⟨medium, hmedium, hholds, rfl⟩ := id h
  have hopened := openHandle_eq hhandle hmedium
  cases call with
  | init data =>
      simp only [Cluster.serve, Cluster.init, hopened, ok_bind]
      rcases hholds.init realm hkept.made
          (fun hfile kind key item hitem =>
            hkept.reads hfile item ⟨kind, key, hitem⟩) with
        ⟨next, heq, hnext, hfile⟩ | ⟨kind, key, item, hitem, hlarge, error, heq⟩
      · rw [heq]
        exact .inl ⟨rfl, h.setMedium hnext hfile, rfl⟩
      · rw [heq]
        exact .inr ⟨fun hfits => hlarge (hfits item ⟨kind, key, hitem⟩), error, rfl⟩
  | get kind key =>
      simp only [Cluster.serve, hopened, ok_bind, hholds.get?]
      exact .inl ⟨rfl, h, trivial⟩
  | all kind =>
      simp only [Cluster.serve, hopened, ok_bind, hholds.all]
      exact .inl ⟨rfl, h, trivial⟩
  | upsert kind item =>
      have hadvise : cluster.advise store kind item =
          .ok (item.supersedes (ledger.version? realm kind item.key)) := by
        simp only [Cluster.advise, hopened, ok_bind, hholds.advise]
      simp only [Cluster.serve, Cluster.upsert, hadvise, Ledger.serve]
      cases hnewer : item.supersedes (ledger.version? realm kind item.key) with
      | false =>
          have hupsert : ledger.upsert realm kind item = (.superseded, ledger) := by
            simp [Ledger.upsert, hnewer]
          rw [hupsert]
          exact .inl ⟨rfl, h, rfl⟩
      | true =>
          simp only [Cluster.commit, handle_eq hhandle hmedium, ok_bind]
          rcases hholds.commit realm kind item
              (fun hfile => hkept.reads hfile item rfl) with
            ⟨next, heq, hnext, hfile⟩ | ⟨hlarge, error, heq⟩
          · rw [heq]
            exact .inl ⟨rfl, h.setMedium hnext hfile, rfl⟩
          · rw [heq]
            exact .inr
              ⟨fun hfits => hlarge (hfits item rfl), error, rfl⟩
  | initialized =>
      simp only [Cluster.serve, hopened, ok_bind, hholds.isInitialized]
      exact .inl ⟨rfl, h, trivial⟩
  | close => exact absurd rfl hopen

theorem serve_of_error {error : StoreError}
    (h : cluster.openHandle store = .error error) {call : Call}
    (hopen : call ≠ .close) :
    cluster.serve store call = (.error error, cluster) := by
  cases call with
  | close => exact absurd rfl hopen
  | _ =>
      simp only [Cluster.serve, Cluster.init, Cluster.upsert, Cluster.advise,
        h, error_bind]

theorem serve_closed
    (hhandle : cluster.handles[store]? = some ⟨index, realm, true⟩) {call : Call}
    (hopen : call ≠ .close) :
    cluster.serve store call = (.error .closed, cluster) := by
  apply serve_of_error _ hopen
  simp only [openHandle, handle, hhandle]
  cases cluster.media[index]? <;> rfl

theorem Holds.clear (h : cluster.Holds index file ledger)
    (hhandle : cluster.handles[store]? = some ⟨index, realm, false⟩) :
    (cluster.clear store).1 = .ok () ∧
      (cluster.clear store).2.Holds index file .empty ∧
      (cluster.clear store).2.handles = cluster.handles := by
  obtain ⟨medium, hmedium, hholds, rfl⟩ := id h
  obtain ⟨next, heq, hnext, hfile⟩ := hholds.clear
  simp only [Cluster.clear, handle_eq hhandle hmedium, Bool.false_eq_true,
    false_and, if_false, heq]
  exact ⟨trivial, h.setMedium hnext hfile, rfl⟩

end Cluster

end VersionedFlags
