import VersionedFlags.Proofs.Store.Content
import VersionedFlags.Proofs.Store.Shared

/-!
# Writes of a database file are whole

An initialization is a transaction of many statements: for each kind that the data
set covers the rows of the kind are deleted and those of its items are inserted,
one by one and in any order, and then the realm is marked.  A version that is too
great for a table can turn up after any number of them.  Then nothing of the file
has changed; otherwise all of the data set is there, and nothing else has changed.
-/

namespace VersionedFlags

namespace Sqlite

/-! ## Statements and transactions -/

inductive Statement where
  | deleteScope (scope : String)
  /-- Places of rows are their primary keys. -/
  | insert (scope : String) (item : Item)
  | mark (marker : String)
  deriving DecidableEq, Repr

def Statement.execute (tables : Tables) : Statement → Except StoreError Tables
  | .deleteScope scope => do
      let rows ← tables.items.content
      return { tables with items := .own (rows.filter fun row => row.scope != scope) }
  | .insert scope item => do
      let version ← Tables.versionCell item
      let rows ← tables.items.content
      match Tables.row? rows scope item.key with
      | some _ => .error .database
      | none =>
          return { tables with
            items := .own (rows ++ [Tables.rowOf scope item version]) }
  | .mark marker => tables.mark marker

/-- The tables as they were committed last, and what the statements since have
made of them. -/
structure Transaction where
  committed : Tables
  working : Tables

namespace Transaction

def begin (tables : Tables) : Transaction := ⟨tables, tables⟩

/-- Executes the statements and commits.  A statement that fails drops the
transaction, which rolls back. -/
def run (transaction : Transaction) :
    List Statement → Except StoreError Unit × Tables
  | [] => (.ok (), transaction.working)
  | statement :: rest =>
      match statement.execute transaction.working with
      | .error error => (.error error, transaction.committed)
      | .ok working => run { transaction with working } rest

/-- However far it came, a transaction that fails leaves what was committed. -/
theorem run_eq (transaction : Transaction) (statements : List Statement) :
    transaction.run statements =
      match statements.foldlM Statement.execute transaction.working with
      | .ok working => (.ok (), working)
      | .error error => (.error error, transaction.committed) := by
  induction statements generalizing transaction with
  | nil => rfl
  | cons statement rest ih =>
      unfold run
      rw [List.foldlM_cons]
      cases statement.execute transaction.working with
      | error error => rfl
      | ok working => exact ih { transaction with working }

end Transaction

/-! ## The transaction of an initialization -/

def initStatements (realm : Realm) (listing : List (Kind × List Item)) :
    List Statement :=
  listing.flatMap (fun part =>
    .deleteScope (realm.scope part.1) ::
      part.2.map (.insert (realm.scope part.1))) ++ [.mark realm.marker]

namespace Tables

def replaceAll (tables : Tables) (realm : Realm)
    (listing : List (Kind × List Item)) : Except StoreError Tables :=
  listing.foldlM
    (fun tables part => tables.replaceScope (realm.scope part.1) part.2) tables

variable {tables : Tables} {rows : List Row} {realm : Realm}
  {listing : List (Kind × List Item)}

theorem row?_eq_none {scope key : String}
    (hfree : ∀ row ∈ rows, row.place ≠ (scope, key)) :
    row? rows scope key = none := by
  apply List.find?_eq_none.mpr
  intro row hm
  have hplace := hfree row hm
  simpa [Row.place] using hplace

theorem insertAll_cons (scope : String) (rows : List Row) (item : Item)
    (rest : List Item) :
    insertAll scope rows (item :: rest) = (versionCell item >>= fun version =>
      insertAll scope (rows ++ [rowOf scope item version]) rest) := by
  unfold insertAll
  rw [List.mapM_cons]
  cases versionCell item with
  | error error => rfl
  | ok version =>
      simp only [ok_bind, List.append_assoc, List.cons_append, List.nil_append]
      cases rest.mapM (fun item => do
          return rowOf scope item (← versionCell item)) with
      | error error => rfl
      | ok added => rfl

/-- Inserting one after the other comes to what inserting all at once does. -/
theorem foldlM_insert {scope : String} {items : List Item}
    (hitems : tables.items = .own rows) (hkeys : (items.map Item.key).Nodup)
    (hfree : ∀ item ∈ items, ∀ row ∈ rows, row.place ≠ (scope, item.key)) :
    (items.map (Statement.insert scope)).foldlM Statement.execute tables = do
      let added ← insertAll scope rows items
      return { tables with items := .own added } := by
  induction items generalizing tables rows with
  | nil =>
      obtain ⟨found, markers, schema, others⟩ := tables
      cases hitems
      simp [insertAll, pure, Except.pure, bind, Except.bind]
  | cons item rest ih =>
      rw [List.map_cons, List.nodup_cons] at hkeys
      have hnone := row?_eq_none (hfree item List.mem_cons_self)
      rw [List.map_cons, List.foldlM_cons, insertAll_cons]
      cases hversion : versionCell item with
      | error error => simp [Statement.execute, hversion]
      | ok version =>
          have hinsert : Statement.execute tables (.insert scope item) =
              .ok { tables with
                items := .own (rows ++ [rowOf scope item version]) } := by
            simp only [Statement.execute, hversion, hitems, Table.content, ok_bind,
              hnone]
            rfl
          rw [hinsert, ok_bind]
          apply ih rfl hkeys.2
          intro other hm row hrow
          rcases List.mem_append.mp hrow with hrow | hrow
          · exact hfree other (List.mem_cons_of_mem item hm) row hrow
          · rw [List.mem_singleton.mp hrow]
            intro hplace
            have hsame : item.key = other.key := congrArg Prod.snd hplace
            exact hkeys.1 (hsame ▸ List.mem_map_of_mem hm)

theorem foldlM_replace {kind : Kind} {items : List Item}
    (hkeys : (items.map Item.key).Nodup) :
    (Statement.deleteScope (realm.scope kind) ::
      items.map (.insert (realm.scope kind))).foldlM Statement.execute tables =
        tables.replaceScope (realm.scope kind) items := by
  rw [List.foldlM_cons]
  unfold Tables.replaceScope
  cases hcontent : tables.items.content with
  | error error => simp [Statement.execute, hcontent]
  | ok rows =>
      simp only [Statement.execute, hcontent, ok_bind]
      apply foldlM_insert rfl hkeys
      intro item _ row hm hplace
      have hne := (List.mem_filter.mp hm).2
      rw [bne_iff_ne] at hne
      exact hne (congrArg Prod.fst hplace)

theorem foldlM_statements
    (hkeys : ∀ part ∈ listing, (part.2.map Item.key).Nodup) :
    (initStatements realm listing).foldlM Statement.execute tables =
      (tables.replaceAll realm listing >>= fun next => next.mark realm.marker) := by
  unfold initStatements
  rw [List.foldlM_append]
  have hmark : ∀ tables : Tables,
      [Statement.mark realm.marker].foldlM Statement.execute tables =
        tables.mark realm.marker := by
    intro tables
    simp [Statement.execute]
  simp only [hmark]
  congr 1
  unfold replaceAll
  induction listing generalizing tables with
  | nil => rfl
  | cons part rest ih =>
      obtain ⟨hpart, hrest⟩ := List.forall_mem_cons.mp hkeys
      rw [List.flatMap_cons, List.foldlM_append, foldlM_replace hpart,
        List.foldlM_cons]
      cases tables.replaceScope (realm.scope part.1) part.2 with
      | error error => rfl
      | ok next => exact ih hrest

/-! ## What the statements come to -/

/-- The rows once those of each listed kind have been replaced. -/
def replacedRows (rows : List Row) (realm : Realm)
    (listing : List (Kind × List Item)) : List Row :=
  listing.foldl (fun rows part => replaced rows realm part.1 part.2) rows

/-- A version that is too great is reported, or the rows are replaced. -/
theorem replaceAll_cases (hitems : tables.items = .own rows) (realm : Realm)
    (listing : List (Kind × List Item)) :
    ((∀ part ∈ listing, ∀ item ∈ part.2, item.version.toNat < 2 ^ 63) ∧
      tables.replaceAll realm listing =
        .ok { tables with items := .own (replacedRows rows realm listing) }) ∨
    ∃ part ∈ listing, ∃ item ∈ part.2, ¬ item.version.toNat < 2 ^ 63 ∧
      tables.replaceAll realm listing =
        .error (.versionOutOfRange item.version item.key) := by
  unfold replaceAll
  induction listing generalizing tables rows with
  | nil =>
      obtain ⟨found, markers, schema, others⟩ := tables
      cases hitems
      exact .inl ⟨by simp, rfl⟩
  | cons part rest ih =>
      rw [List.foldlM_cons]
      rcases replaceScope_cases hitems realm part.1 part.2 with
        ⟨hfits, heq⟩ | ⟨item, hm, hlarge, heq⟩
      · rw [heq, ok_bind, List.forall_mem_cons]
        have hown : ({ tables with
            items := .own (replacedRows rows realm [part]) } : Tables).items =
              .own (replacedRows rows realm [part]) := rfl
        rcases ih hown with ⟨hrest, hdone⟩ | ⟨other, hother, hrefused⟩
        · exact .inl ⟨⟨hfits, hrest⟩, hdone⟩
        · exact .inr ⟨other, List.mem_cons_of_mem _ hother, hrefused⟩
      · rw [heq]
        exact .inr ⟨part, List.mem_cons_self, item, hm, hlarge, rfl⟩

theorem scopeRows_replacedRows_of_ne {scope : String}
    (hne : ∀ part ∈ listing, scope ≠ realm.scope part.1) :
    scopeRows scope (replacedRows rows realm listing) = scopeRows scope rows := by
  unfold replacedRows
  induction listing generalizing rows with
  | nil => rfl
  | cons part rest ih =>
      obtain ⟨hpart, hrest⟩ := List.forall_mem_cons.mp hne
      rw [List.foldl_cons, ih hrest, scopeRows_replaced_of_ne rows part.2 hpart]

theorem scopeRows_replacedRows (hkinds : (listing.map Prod.fst).Nodup)
    {kind : Kind} {items : List Item} (hm : (kind, items) ∈ listing) :
    scopeRows (realm.scope kind) (replacedRows rows realm listing) =
      items.map (itemRow realm kind) := by
  induction listing generalizing rows with
  | nil => cases hm
  | cons part rest ih =>
      rw [List.map_cons, List.nodup_cons] at hkinds
      rcases List.mem_cons.mp hm with rfl | hm
      · have hrest : ∀ part ∈ rest, realm.scope kind ≠ realm.scope part.1 := by
          intro part hpart hsame
          have hkind := (Realm.scope_inj.mp hsame).2
          exact hkinds.1 (List.mem_map.mpr ⟨part, hpart, hkind.symm⟩)
        unfold replacedRows
        rw [List.foldl_cons]
        exact (scopeRows_replacedRows_of_ne hrest).trans
          (scopeRows_replaced rows realm kind items)
      · exact ih hkinds.2 hm

end Tables

end Sqlite

/-! ## Listings of a data set -/

namespace DataSet

/-- The listing has the kinds that the data set covers, and the items of each, in
some order. -/
structure ListedAs (data : DataSet) (listing : List (Kind × List Item)) :
    Prop where
  kinds : (listing.map Prod.fst).Nodup
  covers : ∀ kind items, data.items? kind = some items →
    ∃ listed, (kind, listed) ∈ listing
  items : ∀ part ∈ listing, ∃ items, data.items? part.1 = some items ∧
    part.2.Perm items.values

/-- The order of the keys in a map, kind by kind. -/
def listing (data : DataSet) : List (Kind × List Item) :=
  data.parts.map fun part => (part.1, part.2.values)

theorem listedAs_listing (data : DataSet) : data.ListedAs data.listing where
  kinds := by
    unfold listing
    rw [List.map_map]
    exact data.parts_nodup
  covers := by
    intro kind items hitems
    exact ⟨items.values, List.mem_map.mpr ⟨_, mem_parts.mpr hitems, rfl⟩⟩
  items := by
    intro part hm
    obtain ⟨found, hfound, rfl⟩ := List.mem_map.mp hm
    exact ⟨found.2, mem_parts.mp hfound, .refl _⟩

variable {data : DataSet} {listing : List (Kind × List Item)}

theorem ListedAs.exists_item_iff (h : data.ListedAs listing) (p : Item → Prop) :
    (∃ part ∈ listing, ∃ item ∈ part.2, p item) ↔
      ∃ kind key item, data.get? kind key = some item ∧ p item := by
  constructor
  · rintro ⟨part, hpart, item, hm, hp⟩
    obtain ⟨items, hitems, hperm⟩ := h.items part hpart
    obtain ⟨key, hget⟩ := KeyMap.mem_values.mp (hperm.mem_iff.mp hm)
    refine ⟨part.1, key, item, ?_, hp⟩
    unfold DataSet.get?
    rw [hitems]
    exact hget
  · rintro ⟨kind, key, item, hget, hp⟩
    obtain ⟨items, hitems, hget⟩ := Option.bind_eq_some_iff.mp hget
    obtain ⟨listed, hlisted⟩ := h.covers kind items hitems
    obtain ⟨found, hfound, hperm⟩ := h.items _ hlisted
    rw [hitems] at hfound
    cases hfound
    refine ⟨_, hlisted, item, ?_, hp⟩
    exact hperm.mem_iff.mpr (KeyMap.mem_values.mpr ⟨key, hget⟩)

theorem ListedAs.nodup_keys (h : data.ListedAs listing) (hkeyed : data.Keyed) :
    ∀ part ∈ listing, (part.2.map Item.key).Nodup := by
  intro part hm
  obtain ⟨items, hitems, hperm⟩ := h.items part hm
  rw [(hperm.map Item.key).nodup_iff]
  exact (hkeyed.items hitems).nodup_keys

end DataSet

/-! ## Whole writes -/

namespace Sqlite

/-- The rows of each kind that the data set covers are those of its items,
tombstones included, and the rows of every other scope are as they were. -/
structure Replaces (realm : Realm) (data : DataSet) (before after : List Row) :
    Prop where
  covered : ∀ kind items, data.items? kind = some items →
    (Tables.scopeRows (realm.scope kind) after).Perm
      (items.values.map (Tables.itemRow realm kind))
  others : ∀ scope, (∀ kind items, data.items? kind = some items →
      scope ≠ realm.scope kind) →
    Tables.scopeRows scope after = Tables.scopeRows scope before

/-- How an initialization may end: it reports a version that is too great and
nothing has changed, or there is none and the rows have been replaced. -/
structure EndsWhole {σ : Type} (realm : Realm) (data : DataSet) (rows : List Row)
    (same : σ) (next : List Row → σ) (result : Except StoreError Unit × σ) :
    Prop where
  refused : (∃ kind key item, data.get? kind key = some item ∧
      2 ^ 63 ≤ item.version.toNat) →
    ∃ kind key item, data.get? kind key = some item ∧
      2 ^ 63 ≤ item.version.toNat ∧
      result = (.error (.versionOutOfRange item.version item.key), same)
  done : (∀ kind key item, data.get? kind key = some item →
      item.version.toNat < 2 ^ 63) →
    ∃ after, Replaces realm data rows after ∧ result = (.ok (), next after)

namespace Tables

/-- The tables with other rows, and with the marker of a realm besides those that
were there. -/
def initialized (tables : Tables) (markers : KeyMap Unit) (realm : Realm)
    (rows : List Row) : Tables :=
  { tables with
    items := .own rows, markers := .own (markers.insert realm.marker ()) }

variable {tables : Tables} {rows : List Row} {markers : KeyMap Unit}
  {realm : Realm} {data : DataSet} {listing : List (Kind × List Item)}

theorem replaces_replacedRows (hlisting : data.ListedAs listing) :
    Replaces realm data rows (replacedRows rows realm listing) where
  covered := by
    intro kind items hitems
    obtain ⟨listed, hlisted⟩ := hlisting.covers kind items hitems
    obtain ⟨found, hfound, hperm⟩ := hlisting.items _ hlisted
    rw [hitems] at hfound
    cases hfound
    rw [scopeRows_replacedRows hlisting.kinds hlisted]
    exact hperm.map _
  others := by
    intro scope hscope
    apply scopeRows_replacedRows_of_ne
    intro part hm
    obtain ⟨items, hitems, -⟩ := hlisting.items part hm
    exact hscope part.1 items hitems

/-- The transaction of an initialization is whole, in whatever order the data set
is listed. -/
theorem run_endsWhole (hitems : tables.items = .own rows)
    (hmarkers : tables.markers = .own markers) (hkeyed : data.Keyed)
    (hlisting : data.ListedAs listing) :
    EndsWhole realm data rows tables (tables.initialized markers realm)
      ((Transaction.begin tables).run (initStatements realm listing)) := by
  rw [Transaction.run_eq]
  simp only [Transaction.begin, foldlM_statements (hlisting.nodup_keys hkeyed)]
  rcases replaceAll_cases hitems realm listing with
    ⟨hfits, heq⟩ | ⟨part, hpart, item, hm, hlarge, heq⟩
  · have hmark : (tables.replaceAll realm listing >>= fun next =>
        next.mark realm.marker) =
          .ok (tables.initialized markers realm
            (replacedRows rows realm listing)) := by
      rw [heq, ok_bind]
      unfold Tables.mark
      simp only [hmarkers, Table.content, ok_bind]
      rfl
    rw [hmark]
    constructor
    · intro hlarge
      obtain ⟨part, hpart, item, hm, hlarge⟩ :=
        (hlisting.exists_item_iff fun item => 2 ^ 63 ≤ item.version.toNat).mpr
          hlarge
      exact absurd (hfits part hpart item hm) (by omega)
    · exact fun _ => ⟨_, replaces_replacedRows hlisting, rfl⟩
  · obtain ⟨kind, key, item, hget, hlarge, heq⟩ :=
      (hlisting.exists_item_iff fun item => ¬ item.version.toNat < 2 ^ 63 ∧
        tables.replaceAll realm listing =
          .error (.versionOutOfRange item.version item.key)).mp
        ⟨part, hpart, item, hm, hlarge, heq⟩
    rw [heq, error_bind]
    constructor
    · exact fun _ => ⟨kind, key, item, hget, by omega, rfl⟩
    · intro hfits
      exact absurd (hfits kind key item hget) hlarge

theorem init_eq (tables : Tables) (realm : Realm) (data : DataSet) :
    tables.init realm data =
      (tables.replaceAll realm data.listing >>= fun next =>
        next.mark realm.marker) := by
  unfold Tables.init replaceAll DataSet.listing
  rw [List.foldlM_map]

/-- An initialization is such a transaction. -/
theorem run_listing (hkeyed : data.Keyed) :
    (Transaction.begin tables).run (initStatements realm data.listing) =
      match tables.init realm data with
      | .ok next => (.ok (), next)
      | .error error => (.error error, tables) := by
  rw [Transaction.run_eq, init_eq,
    ← foldlM_statements (data.listedAs_listing.nodup_keys hkeyed)]
  rfl

end Tables

end Sqlite

/-! ## Handles -/

namespace Cluster

open Sqlite

variable {cluster : Cluster} {store : Nat} {handle : Handle} {tables : Tables}
  {rows : List Row} {markers : KeyMap Unit}

theorem serve_init_endsWhole
    (hopen : cluster.openHandle store = .ok (handle, .sqlite (.intact tables)))
    (hitems : tables.items = .own rows) (hmarkers : tables.markers = .own markers)
    {data : DataSet} (hmade : data.Made) :
    EndsWhole handle.realm data rows cluster
      (fun after => cluster.setMedium handle.medium
        (.sqlite (.intact (tables.initialized markers handle.realm after))))
      (cluster.serve store (.init data)) := by
  obtain ⟨hrefused, hdone⟩ : EndsWhole handle.realm data rows tables
      (tables.initialized markers handle.realm) (Transaction.run (.begin tables)
        (initStatements handle.realm data.listing)) :=
    Tables.run_endsWhole hitems hmarkers hmade.keyed data.listedAs_listing
  rw [Tables.run_listing hmade.keyed] at hrefused hdone
  simp only [Cluster.serve, Cluster.init, hopen, ok_bind, Medium.init,
    Image.tables]
  constructor
  · intro hlarge
    obtain ⟨kind, key, item, hget, hversion, heq⟩ := hrefused hlarge
    refine ⟨kind, key, item, hget, hversion, ?_⟩
    cases hinit : tables.init handle.realm data with
    | error error =>
        rw [hinit] at heq
        cases heq
        rfl
    | ok next =>
        rw [hinit] at heq
        cases heq
  · intro hfits
    obtain ⟨after, hafter, heq⟩ := hdone hfits
    refine ⟨after, hafter, ?_⟩
    cases hinit : tables.init handle.realm data with
    | error error =>
        rw [hinit] at heq
        cases heq
    | ok next =>
        rw [hinit] at heq
        cases heq
        rfl

/-- The conditional write of a version that no table has room for is refused, also
when the stored version was read long before. -/
theorem commit_too_great {image : Image}
    (hhandle : cluster.handle store = .ok (handle, .sqlite image)) (kind : Kind)
    {item : Item} (hlarge : 2 ^ 63 ≤ item.version.toNat) :
    cluster.commit store kind item =
      (.error (.versionOutOfRange item.version item.key), cluster) := by
  unfold Cluster.commit
  simp only [hhandle, ok_bind, Medium.commit,
    Tables.versionCell_of_not_fits (Nat.not_lt.mpr hlarge), error_bind]

/-- No stored version is as great, so the first step of the upsert goes on. -/
theorem advise_too_great
    (hopen : cluster.openHandle store = .ok (handle, .sqlite (.intact tables)))
    (hsound : tables.Sound) (kind : Kind) {item : Item}
    (hlarge : 2 ^ 63 ≤ item.version.toNat) :
    cluster.advise store kind item = .ok true := by
  obtain ⟨stored, hstored, hfits, -⟩ :=
    hsound.version? handle.realm kind item.key
  have hnewer : item.supersedes stored = true := by
    unfold Item.supersedes
    cases stored with
    | none => rfl
    | some version =>
        have hversion := hfits version rfl
        simp only [UInt64.lt_iff_toNat_lt, decide_eq_true_eq]
        omega
  unfold Cluster.advise
  simp only [hopen, ok_bind, Medium.advise, Image.tables, hstored, hnewer]
  rfl

/-- The writes of a database file are whole.  An initialization, served in the
order of the keys or run in any other, reports a version that no table has room for
and changes nothing, or it replaces the kinds that the data set covers and marks its
realm.  An upsert of such a version is always refused, whatever happens between its
steps, and changes nothing. -/
theorem file_writes_whole
    (hopen : cluster.openHandle store = .ok (handle, .sqlite (.intact tables)))
    (hitems : tables.items = .own rows)
    (hmarkers : tables.markers = .own markers) :
    (∀ data : DataSet, data.Made →
      EndsWhole handle.realm data rows cluster
        (fun after => cluster.setMedium handle.medium
          (.sqlite (.intact (tables.initialized markers handle.realm after))))
        (cluster.serve store (.init data)) ∧
      ∀ listing, data.ListedAs listing →
        EndsWhole handle.realm data rows tables
          (tables.initialized markers handle.realm)
          ((Transaction.begin tables).run
            (initStatements handle.realm listing))) ∧
    (tables.Sound → ∀ kind item, 2 ^ 63 ≤ item.version.toNat →
      cluster.serve store (.upsert kind item) =
          (.error (.versionOutOfRange item.version item.key), cluster) ∧
        cluster.advise store kind item = .ok true ∧
        ∀ (later : Cluster) (image : Image),
          later.handle store = .ok (handle, .sqlite image) →
            later.commit store kind item =
              (.error (.versionOutOfRange item.version item.key), later)) := by
  constructor
  · intro data hmade
    constructor
    · exact serve_init_endsWhole hopen hitems hmarkers hmade
    · intro listing hlisting
      exact Tables.run_endsWhole hitems hmarkers hmade.keyed hlisting
  · intro hsound kind item hlarge
    have hadvise := advise_too_great hopen hsound kind hlarge
    refine ⟨?_, hadvise, fun later image hlater =>
      commit_too_great hlater kind hlarge⟩
    obtain ⟨hhandle, -⟩ := openHandle_cases hopen
    simp only [Cluster.serve, Cluster.upsert, hadvise]
    exact commit_too_great hhandle kind hlarge

/-- Two realms on one file, both of them initialized. -/
def shared : Tables where
  items := .own [Tables.itemRow .standard .features (.live "k" 1 .null),
    Tables.itemRow ⟨"other"⟩ .segments (.tombstone "k" 2)]
  markers := .own (.ofList [(Realm.standard.marker, ()),
    ((⟨"other"⟩ : Realm).marker, ())])
  schema := .own [1]
  others := .empty

/-- The version of the last item is too great. -/
def overfull : DataSet.Builder :=
  (DataSet.Builder.start.add .features (.live "a" 1 .null)).add .segments
    (.live "b" 9223372036854775808 .null)

theorem shared_writes_whole :
    (∃ error, serve ⟨[.sqlite (.intact shared)], [⟨0, .standard, false⟩]⟩ 0
        (.init overfull.build) =
          (.error error, ⟨[.sqlite (.intact shared)], [⟨0, .standard, false⟩]⟩)) ∧
      serve ⟨[.sqlite (.intact shared)], [⟨0, .standard, false⟩]⟩ 0
        (.upsert .features (.live "k" 9223372036854775808 .null)) =
          (.error (.versionOutOfRange 9223372036854775808 "k"),
            ⟨[.sqlite (.intact shared)], [⟨0, .standard, false⟩]⟩) := by
  have hmade : overfull.build.Made := .build (.add _ _ (.add _ _ .start))
  have hsound : shared.Sound := by
    refine ⟨_, rfl, ?_⟩
    simp only [List.forall_mem_cons]
    exact ⟨⟨1, rfl, by decide⟩, ⟨2, rfl, by decide⟩, by simp⟩
  have hopen : openHandle ⟨[.sqlite (.intact shared)], [⟨0, .standard, false⟩]⟩ 0 =
      .ok (⟨0, .standard, false⟩, .sqlite (.intact shared)) := rfl
  obtain ⟨hinit, hupsert⟩ := file_writes_whole hopen rfl rfl
  constructor
  · obtain ⟨kind, key, item, -, -, heq⟩ := (hinit overfull.build hmade).1.refused
      ⟨.segments, "b", .live "b" 9223372036854775808 .null, by decide, by decide⟩
    exact ⟨_, heq⟩
  · exact (hupsert hsound .features (.live "k" 9223372036854775808 .null)
      (by decide)).1

end Cluster

end VersionedFlags
