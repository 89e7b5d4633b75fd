import VersionedFlags.Proofs.Json.ReadBack
import VersionedFlags.Proofs.Store.Content
import VersionedFlags.Proofs.Store.Shared

/-!
# What a database file can read

A database file prints payloads of any nesting and reads them under a limit.  It
accepts an item whose payload it cannot read back: a get of the item fails from
then on, and so does the listing of its kind.  Nothing else makes a read fail,
whatever handles on the file have done to it.
-/

namespace VersionedFlags

/-! ## Payloads that are read back -/

namespace Item

/-- The payload nests no deeper than the texts that are read. -/
def Shallow (item : Item) : Prop := item.data.depth ≤ Json.depthLimit

/-- The item with what the text of its payload stands for. -/
def reread (item : Item) : Item := { item with data := item.data.reread }

variable {item : Item}

theorem recalled_of_shallow (h : item.Shallow) :
    item.recalled true = .ok item.reread := by
  unfold recalled
  rw [if_pos rfl, (Json.parse_text item.data).1 h]
  rfl

theorem recalled_of_deep (h : ¬ item.Shallow) :
    ∃ error, item.recalled true = .error (.payload error) ∧
      error.cause = .tooDeep := by
  obtain ⟨error, herror, hcause⟩ :=
    (Json.parse_text item.data).2 (Nat.lt_of_not_le h)
  unfold recalled
  rw [if_pos rfl, herror]
  exact ⟨error, rfl, hcause⟩

theorem reread_eq (hcanonical : item.data.Canonical)
    (hdoubles : item.data.WithoutDoubles) : item.reread = item := by
  unfold reread
  rw [Json.reread_eq hcanonical hdoubles]

end Item

/-- The reply is the expected one if what it is made of is shallow, and otherwise
the error that a payload nests too deep. -/
def RepliesIf {α : Type} (shallow : Prop) (expected : α)
    (reply : Except StoreError α) : Prop :=
  (shallow → reply = .ok expected) ∧
    (¬ shallow → ∃ error, reply = .error (.payload error) ∧
      error.cause = .tooDeep)

theorem RepliesIf.congr {α : Type} {p q : Prop} {expected : α}
    {reply : Except StoreError α} (h : RepliesIf p expected reply)
    (hiff : p ↔ q) : RepliesIf q expected reply :=
  ⟨fun hq => h.1 (hiff.mpr hq), fun hn => h.2 fun hp => hn (hiff.mp hp)⟩

theorem repliesIf_recallOne (stored : Option Item) :
    RepliesIf (∀ item, stored.bind Item.visible? = some item → item.Shallow)
      ((stored.bind Item.visible?).map Item.reread) (recallOne true stored) := by
  unfold recallOne
  cases stored.bind Item.visible? with
  | none => exact ⟨fun _ => rfl, fun hn => absurd (by simp) hn⟩
  | some item =>
      constructor
      · intro hshallow
        simp only [Item.recalled_of_shallow (hshallow item rfl)]
        rfl
      · intro hdeep
        have hdeep : ¬ item.Shallow := by simpa using hdeep
        obtain ⟨error, herror, hcause⟩ := Item.recalled_of_deep hdeep
        simp only [herror]
        exact ⟨error, rfl, hcause⟩

theorem repliesIf_mapM_recalled (items : List Item) :
    RepliesIf (∀ item ∈ items, item.Shallow) (items.map Item.reread)
      (items.mapM (Item.recalled true)) := by
  constructor
  · exact fun hshallow =>
      mapM_eq_ok _ _ fun item hm => Item.recalled_of_shallow (hshallow item hm)
  · intro hdeep
    simp only [not_forall] at hdeep
    obtain ⟨item, hm, hdeep⟩ := hdeep
    obtain ⟨error, herror, -⟩ := Item.recalled_of_deep hdeep
    obtain ⟨found, hfound⟩ := mapM_eq_error (Item.recalled true) hm herror
    obtain ⟨other, -, hother⟩ := exists_of_mapM_eq_error hfound
    by_cases hshallow : other.Shallow
    · rw [Item.recalled_of_shallow hshallow] at hother
      cases hother
    · obtain ⟨cause, hsame, hcause⟩ := Item.recalled_of_deep hshallow
      rw [hsame] at hother
      cases hother
      exact ⟨cause, hfound, hcause⟩

/-! ## Tables -/

namespace Sqlite

namespace Tables

variable {tables : Tables} {ledger : Ledger} {rows : List Row}

theorem Lists.get? (h : Lists rows ledger) (hitems : tables.items = .own rows)
    (realm : Realm) (kind : Kind) (key : String) :
    RepliesIf
      (∀ item, ledger.get? realm kind key = some item → item.Shallow)
      ((ledger.get? realm kind key).map Item.reread)
      (tables.get? realm kind key) := by
  rw [get?_of_row? hitems (h.row? realm kind key)]
  exact repliesIf_recallOne _

theorem get?_ledger_all {realm : Realm} {kind : Kind} {key : String}
    {item : Item} :
    (ledger.all realm kind).get? key = some item ↔
      ledger.get? realm kind key = some item := by
  rw [get?_all, Ledger.get?]
  cases ledger.stored? realm kind key with
  | none => simp
  | some stored =>
      cases hdeleted : stored.deleted <;>
        simp [Item.visible?, hdeleted]
      · rintro rfl
        exact hdeleted
      · rintro rfl
        exact hdeleted

theorem ofList_reread {map : KeyMap Item} {live : List Item}
    (hkeys : (live.map Item.key).Nodup)
    (hmem : ∀ item, item ∈ live ↔ map.get? item.key = some item)
    (hmap : map.Keyed) :
    KeyMap.ofList ((live.map Item.reread).map fun item => (item.key, item)) =
      map.map fun _ => Item.reread := by
  apply ofList_items
  · rw [List.map_map]
    exact hkeys
  · intro found
    rw [KeyMap.get?_map, Option.map_eq_some_iff, List.mem_map]
    constructor
    · rintro ⟨item, hm, rfl⟩
      exact ⟨item, (hmem item).mp hm, rfl⟩
    · rintro ⟨item, hget, rfl⟩
      exact ⟨item, (hmem item).mpr hget, rfl⟩
  · intro key found hget
    rw [KeyMap.get?_map, Option.map_eq_some_iff] at hget
    obtain ⟨item, hget, rfl⟩ := hget
    exact hmap key item hget

theorem Lists.all (h : Lists rows ledger) (hitems : tables.items = .own rows)
    (realm : Realm) (kind : Kind) :
    RepliesIf
      (∀ key item, ledger.get? realm kind key = some item → item.Shallow)
      ((ledger.all realm kind).map fun _ => Item.reread)
      (tables.all realm kind) := by
  obtain ⟨live, hrows, hkeys, hmem⟩ := exists_live_items h realm kind
  have hkeyed : (ledger.all realm kind).Keyed := fun key item hget =>
    h.keyed realm kind key item (get?_all.mp hget).1
  have hshallow : (∀ item ∈ live, item.Shallow) ↔
      ∀ key item, ledger.get? realm kind key = some item → item.Shallow := by
    constructor
    · intro hall key item hget
      rw [← get?_ledger_all] at hget
      obtain rfl := hkeyed key item hget
      exact hall item ((hmem item).mpr hget)
    · intro hall item hm
      exact hall item.key item (get?_ledger_all.mp ((hmem item).mp hm))
  rw [all_of_live_rows hitems hrows fun item hm =>
    (get?_all.mp ((hmem item).mp hm)).2]
  obtain ⟨hok, herror⟩ := (repliesIf_mapM_recalled live).congr hshallow
  constructor
  · intro hall
    rw [hok hall, ok_bind, ofList_reread hkeys hmem hkeyed]
    rfl
  · intro hdeep
    obtain ⟨error, heq, hcause⟩ := herror hdeep
    rw [heq]
    exact ⟨error, rfl, hcause⟩

/-! ## What accepted writes leave -/

/-- The tables are those of the current schema, and their rows are those of a
ledger, whether they can be read or not. -/
def Records (tables : Tables) (ledger : Ledger) : Prop :=
  tables.schema = .own [(currentVersion : Int)] ∧ tables.HasMarkers ∧
    ∃ rows, tables.items = .own rows ∧ Lists rows ledger

theorem records_migrated : migrated.Records .empty :=
  ⟨rfl, ⟨_, rfl⟩, [], rfl, lists_nil⟩

theorem Records.migrate (h : tables.Records ledger) :
    tables.migrate = .done tables := by
  obtain ⟨hschema, -⟩ := h
  rw [Tables.migrate, hschema]
  rfl

theorem Records.write (h : tables.Records ledger) {realm : Realm} {kind : Kind}
    {item : Item} {outcome : Outcome} {next : Tables}
    (hwrite : tables.write realm kind item item.version.toNat =
      .ok (outcome, next)) :
    outcome = .applied ∧ next.Records (ledger.put realm kind item) ∨
      outcome = .superseded ∧ next.Records ledger := by
  obtain ⟨hschema, hmarkers, rows, hitems, hrows⟩ := h
  simp only [Tables.write, hitems, Table.content, ok_bind] at hwrite
  cases hwrite
  rcases hrows.putRow realm kind item item.version.toNat with
    ⟨hdone, hnext⟩ | ⟨hdone, hsame⟩
  · exact .inl ⟨hdone, hschema, hmarkers, _, rfl, hnext⟩
  · refine .inr ⟨hdone, hschema, hmarkers, rows, ?_, hrows⟩
    exact congrArg Table.own hsame

theorem Records.replaceScope (h : tables.Records ledger) {realm : Realm}
    {kind : Kind} {items : KeyMap Item} (hkeyed : items.Keyed) {next : Tables}
    (heq : tables.replaceScope (realm.scope kind) items.values = .ok next) :
    next.Records (ledger.replace realm kind items) := by
  obtain ⟨hschema, ⟨markers, hmarkers⟩, rows, hitems, hrows⟩ := h
  obtain ⟨found, hfound, hkept, hnext⟩ := replaceScope_ok heq
  rw [hitems] at hfound
  cases hfound
  refine ⟨?_, ⟨markers, hkept.trans hmarkers⟩, _, hnext,
    hrows.replaceScope realm kind hkeyed⟩
  obtain ⟨rows', hrows', heq⟩ := exists_of_bind_eq_ok heq
  obtain ⟨added, hadded, heq⟩ := exists_of_bind_eq_ok heq
  cases heq
  exact hschema

theorem Records.foldlM_replaceScope (h : tables.Records ledger) {realm : Realm}
    {parts : List (Kind × KeyMap Item)} (hkeyed : ∀ part ∈ parts, part.2.Keyed)
    {next : Tables}
    (heq : parts.foldlM (fun tables part =>
      tables.replaceScope (realm.scope part.1) part.2.values) tables =
        .ok next) :
    next.Records (parts.foldl
      (fun ledger part => ledger.replace realm part.1 part.2) ledger) := by
  induction parts generalizing tables ledger with
  | nil =>
      cases heq
      exact h
  | cons part rest ih =>
      rw [List.foldlM_cons] at heq
      obtain ⟨middle, hpart, heq⟩ := exists_of_bind_eq_ok heq
      rw [List.foldl_cons]
      apply ih (h.replaceScope (hkeyed part List.mem_cons_self) hpart) _ heq
      exact fun part hm => hkeyed part (List.mem_cons_of_mem _ hm)

theorem Records.init (h : tables.Records ledger) {realm : Realm} {data : DataSet}
    (hmade : data.Made) {next : Tables}
    (heq : tables.init realm data = .ok next) :
    next.Records (ledger.init realm data) := by
  obtain ⟨middle, hparts, heq⟩ := exists_of_bind_eq_ok heq
  obtain ⟨hschema, -, rows, hitems, hrows⟩ :=
    h.foldlM_replaceScope hmade.keyed_parts hparts
  obtain ⟨markers, -, heq⟩ := exists_of_bind_eq_ok heq
  cases heq
  rw [Ledger.init_eq_foldl]
  exact ⟨hschema, ⟨_, rfl⟩, rows, hitems, hrows.distinct, hrows.mem_iff,
    hrows.keyed⟩

theorem Records.clear (h : tables.Records ledger) :
    ∃ next, tables.clear = (.ok (), next) ∧ next.Records .empty := by
  obtain ⟨hschema, ⟨markers, hmarkers⟩, rows, hitems, -⟩ := h
  refine ⟨{ tables with items := .own [], markers := .own .empty }, ?_, hschema,
    ⟨_, rfl⟩, [], rfl, lists_nil⟩
  simp [Tables.clear, hitems, hmarkers, Table.clear]

end Tables

end Sqlite

theorem Medium.write_of_commit {tables : Sqlite.Tables} {realm : Realm}
    {closed : Bool} {kind : Kind} {item : Item} {outcome : Outcome}
    {next : Medium}
    (h : (Medium.sqlite (.intact tables)).commit realm closed kind item =
      .ok (outcome, next)) :
    ∃ after, next = .sqlite (.intact after) ∧
      tables.write realm kind item item.version.toNat = .ok (outcome, after) := by
  obtain ⟨version, hversion, h⟩ := exists_of_bind_eq_ok h
  have hcell : version = item.version.toNat := by
    unfold Sqlite.Tables.versionCell at hversion
    split at hversion
    · cases hversion
      rfl
    · cases hversion
  cases closed with
  | true => cases h
  | false =>
      obtain ⟨own, hown, h⟩ := exists_of_bind_eq_ok h
      cases hown
      obtain ⟨⟨found, after⟩, hwrite, h⟩ := exists_of_bind_eq_ok h
      cases h
      exact ⟨after, rfl, hcell ▸ hwrite⟩

/-! ## Handles on one file -/

/-- Opens a store on a medium, which must be a database file that can be brought
to the current schema. -/
def Cluster.connect (cluster : Cluster) (index : Nat) (realm : Realm) : Cluster :=
  match cluster.media[index]? with
  | some (.sqlite (.intact tables)) =>
      match tables.migrate with
      | .done tables =>
          (cluster.setMedium index (.sqlite (.intact tables))).addHandle index realm
      | .failed _ | .aborted => cluster
  | _ => cluster

def Cluster.realmOf (cluster : Cluster) (store : Nat) : Realm :=
  ((cluster.handles[store]?).map Handle.realm).getD .standard

/-- What a ledger of accepted writes becomes by the reply to a call. -/
def Ledger.accept (ledger : Ledger) (realm : Realm) :
    (call : Call) → call.Reply → Ledger
  | .init data, .ok _ => ledger.init realm data
  | .upsert kind item, .ok .applied => ledger.put realm kind item
  | _, _ => ledger

inductive FileUse where
  | connect (realm : Realm)
  | serve (store : Nat) (call : Call)
  /-- The conditional write of an upsert that has read the stored version at some
  earlier moment. -/
  | commit (store : Nat) (kind : Kind) (item : Item)
  | clear (store : Nat)
  deriving DecidableEq, Repr

def FileUse.Made : FileUse → Prop
  | .serve _ call => call.Made
  | _ => True

/-- Handles on one file, and the writes that it has accepted. -/
structure FileState where
  cluster : Cluster
  accepted : Ledger

namespace FileState

/-- Nobody has opened the file yet, and it is empty. -/
def start : FileState := ⟨⟨[.sqlite .fresh], []⟩, .empty⟩

def reply (state : FileState) (store : Nat) (call : Call)
    (result : call.Reply × Cluster) : FileState where
  cluster := result.2
  accepted := state.accepted.accept (state.cluster.realmOf store) call result.1

def perform (state : FileState) : FileUse → FileState
  | .connect realm => { state with cluster := state.cluster.connect 0 realm }
  | .serve store call => state.reply store call (state.cluster.serve store call)
  | .commit store kind item =>
      state.reply store (.upsert kind item) (state.cluster.commit store kind item)
  | .clear store =>
      match state.cluster.clear store with
      | (.ok _, cluster) => ⟨cluster, .empty⟩
      | (.error _, cluster) => { state with cluster }

def run (state : FileState) (uses : List FileUse) : FileState :=
  uses.foldl perform state

/-- The handles are on the file, and the file has rows for the accepted writes
once it has been opened. -/
structure Accounts (state : FileState) : Prop where
  place : ∀ handle ∈ state.cluster.handles, handle.medium = 0
  records : state = start ∨ ∃ tables,
    state.cluster.media[0]? = some (.sqlite (.intact tables)) ∧
      tables.Records state.accepted

theorem accounts_start : start.Accounts where
  place := by
    intro handle hm
    cases hm
  records := .inl rfl

variable {state : FileState}

theorem Accounts.exists_tables (h : state.Accounts) {store : Nat}
    {handle : Handle} {medium : Medium}
    (hfound : state.cluster.handle store = .ok (handle, medium)) :
    ∃ tables, medium = .sqlite (.intact tables) ∧
      tables.Records state.accepted ∧ handle.medium = 0 ∧
      state.cluster.realmOf store = handle.realm := by
  obtain ⟨hhandle, hmedium⟩ := Cluster.handle_cases hfound
  have hzero := h.place handle (List.mem_of_getElem? hhandle)
  have hrealm : state.cluster.realmOf store = handle.realm := by
    unfold Cluster.realmOf
    rw [hhandle]
    rfl
  rcases h.records with rfl | ⟨tables, htables, hrecords⟩
  · cases hhandle
  · rw [hzero, htables] at hmedium
    cases hmedium
    exact ⟨tables, rfl, hrecords, hzero, hrealm⟩

theorem Accounts.media_pos (h : state.Accounts) :
    0 < state.cluster.media.length := by
  rcases h.records with rfl | ⟨tables, htables, -⟩
  · exact Nat.one_pos
  · exact (List.getElem?_eq_some_iff.mp htables).1

theorem Accounts.setTables (h : state.Accounts) {tables : Sqlite.Tables}
    {accepted : Ledger} (hrecords : tables.Records accepted) :
    Accounts ⟨state.cluster.setMedium 0 (.sqlite (.intact tables)), accepted⟩ where
  place := h.place
  records := .inr ⟨tables, by simp [Cluster.setMedium, h.media_pos], hrecords⟩

/-! ### What one use preserves -/

theorem Accounts.connect (h : state.Accounts) (realm : Realm) :
    (state.perform (.connect realm)).Accounts := by
  have hadded : ∀ {tables : Sqlite.Tables}, tables.Records state.accepted →
      Accounts ⟨(state.cluster.setMedium 0 (.sqlite (.intact tables))).addHandle
        0 realm, state.accepted⟩ := by
    intro tables hrecords
    constructor
    · intro handle hm
      rcases List.mem_append.mp hm with hm | hm
      · exact h.place handle hm
      · rw [List.mem_singleton.mp hm]
    · exact .inr ⟨tables,
        by simp [Cluster.addHandle, Cluster.setMedium, h.media_pos], hrecords⟩
  unfold perform Cluster.connect
  rcases h.records with rfl | ⟨tables, htables, hrecords⟩
  · exact hadded Sqlite.Tables.records_migrated
  · simp only [htables, hrecords.migrate]
    exact hadded hrecords

theorem Accounts.commit (h : state.Accounts) (store : Nat) (kind : Kind)
    (item : Item) :
    (state.reply store (.upsert kind item)
      (state.cluster.commit store kind item)).Accounts := by
  unfold Cluster.commit
  cases hfound : state.cluster.handle store with
  | error error => exact h
  | ok found =>
      obtain ⟨handle, medium⟩ := found
      obtain ⟨tables, rfl, hrecords, hzero, hrealm⟩ := h.exists_tables hfound
      simp only [ok_bind]
      cases hcommit : (Medium.sqlite (.intact tables)).commit handle.realm
          handle.closed kind item with
      | error error => exact h
      | ok result =>
          obtain ⟨outcome, next⟩ := result
          obtain ⟨after, rfl, hwrite⟩ := Medium.write_of_commit hcommit
          simp only [ok_bind, reply, hrealm, hzero]
          rcases hrecords.write hwrite with ⟨rfl, hafter⟩ | ⟨rfl, hafter⟩
          · exact h.setTables hafter
          · exact h.setTables hafter

theorem Accounts.init (h : state.Accounts) (store : Nat) {data : DataSet}
    (hmade : data.Made) :
    (state.reply store (.init data) (state.cluster.init store data)).Accounts := by
  unfold Cluster.init
  cases hfound : state.cluster.openHandle store with
  | error error => exact h
  | ok found =>
      obtain ⟨handle, medium⟩ := found
      obtain ⟨hhandle, -⟩ := Cluster.openHandle_cases hfound
      obtain ⟨tables, rfl, hrecords, hzero, hrealm⟩ := h.exists_tables hhandle
      simp only [ok_bind, Medium.init, Sqlite.Image.tables]
      cases hinit : tables.init handle.realm data with
      | error error => exact h
      | ok after =>
          simp only [ok_bind, reply, hrealm, hzero]
          exact h.setTables (hrecords.init hmade hinit)

theorem Accounts.close (h : state.Accounts) (store : Nat) :
    Accounts { state with cluster := state.cluster.close store } := by
  constructor
  · intro handle hm
    obtain ⟨place, hplace⟩ := List.mem_iff_getElem?.mp hm
    simp only [Cluster.close, List.getElem?_modify, Option.map_eq_map,
      Option.map_eq_some_iff] at hplace
    obtain ⟨found, hfound, heq⟩ := hplace
    have hzero := h.place found (List.mem_of_getElem? hfound)
    split at heq
    · rw [← heq]
      exact hzero
    · rw [← heq]
      exact hzero
  · apply h.records.imp_left
    rintro rfl
    simp [start, Cluster.close]

theorem Accounts.serve (h : state.Accounts) (store : Nat) {call : Call}
    (hmade : call.Made) :
    (state.reply store call (state.cluster.serve store call)).Accounts := by
  cases call with
  | init data => exact h.init store hmade
  | upsert kind item =>
      simp only [Cluster.serve, Cluster.upsert]
      split
      · exact h
      · exact h
      · exact h.commit store kind item
  | close => exact h.close store
  | get _ _ | all _ | initialized => exact h

theorem Accounts.clear (h : state.Accounts) (store : Nat) :
    (state.perform (.clear store)).Accounts := by
  simp only [perform, Cluster.clear]
  cases hfound : state.cluster.handle store with
  | error error => exact h
  | ok found =>
      obtain ⟨handle, medium⟩ := found
      obtain ⟨tables, rfl, hrecords, hzero, -⟩ := h.exists_tables hfound
      obtain ⟨after, hclear, hafter⟩ := hrecords.clear
      simp only [Medium.clear, hclear, hzero]
      by_cases hclosed : handle.closed ∧
          (Medium.sqlite (.intact tables)).mindsClosing
      · rw [if_pos hclosed]
        exact h
      · rw [if_neg hclosed]
        exact h.setTables hafter

theorem Accounts.perform (h : state.Accounts) {use : FileUse}
    (hmade : use.Made) : (state.perform use).Accounts := by
  cases use with
  | connect realm => exact h.connect realm
  | serve store call => exact h.serve store hmade
  | commit store kind item => exact h.commit store kind item
  | clear store => exact h.clear store

theorem Accounts.run (h : state.Accounts) {uses : List FileUse}
    (hmade : ∀ use ∈ uses, use.Made) : (state.run uses).Accounts := by
  induction uses generalizing state with
  | nil => exact h
  | cons use rest ih =>
      apply ih (h.perform (hmade use List.mem_cons_self))
      exact fun later hm => hmade later (List.mem_cons_of_mem use hm)

/-! ### Reading -/

theorem Accounts.reads (h : state.Accounts) {store : Nat} {handle : Handle}
    {medium : Medium}
    (hopen : state.cluster.openHandle store = .ok (handle, medium))
    (kind : Kind) :
    (∀ key, RepliesIf
      (∀ item, state.accepted.get? handle.realm kind key = some item →
        item.Shallow)
      ((state.accepted.get? handle.realm kind key).map Item.reread)
      (state.cluster.serve store (.get kind key)).1) ∧
    RepliesIf
      (∀ key item, state.accepted.get? handle.realm kind key = some item →
        item.Shallow)
      ((state.accepted.all handle.realm kind).map fun _ => Item.reread)
      (state.cluster.serve store (.all kind)).1 := by
  obtain ⟨hfound, -⟩ := Cluster.openHandle_cases hopen
  obtain ⟨tables, rfl, hrecords, -⟩ := h.exists_tables hfound
  obtain ⟨-, -, rows, hitems, hrows⟩ := hrecords
  simp only [Cluster.serve, hopen, ok_bind]
  exact ⟨hrows.get? hitems handle.realm kind, hrows.all hitems handle.realm kind⟩

/-- Through a handle that is open after any run on a fresh file, a read is
answered from the writes that the file has accepted, or it fails because one of
the payloads that it has to read nests too deep. -/
theorem run_answers_iff_shallow {uses : List FileUse}
    (hmade : ∀ use ∈ uses, use.Made) {store : Nat} {handle : Handle}
    {medium : Medium}
    (hopen : (start.run uses).cluster.openHandle store = .ok (handle, medium))
    (kind : Kind) :
    (∀ key, RepliesIf
      (∀ item, (start.run uses).accepted.get? handle.realm kind key = some item →
        item.Shallow)
      (((start.run uses).accepted.get? handle.realm kind key).map Item.reread)
      ((start.run uses).cluster.serve store (.get kind key)).1) ∧
    RepliesIf
      (∀ key item,
        (start.run uses).accepted.get? handle.realm kind key = some item →
          item.Shallow)
      (((start.run uses).accepted.all handle.realm kind).map fun _ => Item.reread)
      ((start.run uses).cluster.serve store (.all kind)).1 :=
  (accounts_start.run hmade).reads hopen kind

/-! ### A payload that is too deep -/

/-- A list in a list, and so on. -/
def nested : Nat → Json
  | 0 => .array []
  | depth + 1 => .array [nested depth]

def deepItem : Item := .live "deep" 1 (nested 127)

def plainItem : Item := .live "plain" 1 .null

/-- One handle writes an item with a payload of 128 lists and one without. -/
def deepUses : List FileUse :=
  [.connect .standard, .serve 0 (.upsert .features deepItem),
    .serve 0 (.upsert .features plainItem)]

theorem deepItem_not_shallow : ¬ deepItem.Shallow := by
  unfold Item.Shallow
  decide +kernel

theorem made_deepUses : ∀ use ∈ deepUses, use.Made := by
  simp [deepUses, FileUse.Made, Call.Made]

theorem accepted_deepUses :
    (start.run deepUses).accepted.get? .standard .features "deep" =
        some deepItem ∧
      (start.run deepUses).accepted.get? .standard .features "plain" =
        some plainItem := by
  decide +kernel

theorem openHandle_deepUses :
    ∃ medium, (start.run deepUses).cluster.openHandle 0 =
      .ok (⟨0, .standard, false⟩, medium) :=
  ⟨_, Cluster.openHandle_eq (by decide +kernel)
    (List.getElem?_eq_getElem (by decide +kernel))⟩

theorem run_answers_deepUses :
    ((start.run deepUses).cluster.serve 0 (.get .features "plain")).1 =
        .ok (some plainItem) ∧
      ∃ error, ((start.run deepUses).cluster.serve 0 (.all .features)).1 =
        .error (.payload error) ∧ error.cause = .tooDeep := by
  obtain ⟨medium, hopen⟩ := openHandle_deepUses
  obtain ⟨hdeep, hplain⟩ := accepted_deepUses
  obtain ⟨hget, hall⟩ := run_answers_iff_shallow made_deepUses hopen .features
  constructor
  · rw [(hget "plain").1, hplain]
    · rfl
    · rw [hplain]
      rintro item ⟨⟩
      unfold Item.Shallow
      decide
  · exact hall.2 fun hshallow =>
      deepItem_not_shallow (hshallow "deep" deepItem hdeep)

/-- The write of the one item is applied, and no read of it or of its kind
succeeds any more. -/
theorem run_deepItem_unreadable :
    ((start.run [.connect .standard]).cluster.serve 0
      (.upsert .features deepItem)).1 = .ok .applied ∧
    (∃ error, ((start.run deepUses).cluster.serve 0 (.get .features "deep")).1 =
      .error (.payload error) ∧ error.cause = .tooDeep) ∧
    ∃ error, ((start.run deepUses).cluster.serve 0 (.all .features)).1 =
      .error (.payload error) ∧ error.cause = .tooDeep := by
  obtain ⟨medium, hopen⟩ := openHandle_deepUses
  obtain ⟨hdeep, -⟩ := accepted_deepUses
  obtain ⟨hget, hall⟩ :=
    (accounts_start.run made_deepUses).reads hopen .features
  refine ⟨by decide +kernel, (hget "deep").2 ?_, hall.2 ?_⟩
  · exact fun hshallow => deepItem_not_shallow (hshallow deepItem hdeep)
  · exact fun hshallow => deepItem_not_shallow (hshallow "deep" deepItem hdeep)

end FileState

end VersionedFlags
