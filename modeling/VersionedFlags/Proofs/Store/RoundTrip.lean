import VersionedFlags.Proofs.Store.Readable

/-!
# Items come back from their rows

An item that a database file has accepted is given back equal by a get if its
payload has no doubles and nests no deeper than a text may, whatever else the file
holds.  A listing of its kind has it too, unless some other live row of the kind
cannot be read.
-/

namespace VersionedFlags

/-- A live item whose payload its text gives back unchanged. -/
structure Item.Legible (item : Item) : Prop where
  live : item.deleted = false
  canonical : item.data.Canonical
  doubles : item.data.WithoutDoubles
  shallow : item.Shallow

theorem Item.Legible.recalled {item : Item} (h : item.Legible) :
    item.recalled true = .ok item := by
  rw [recalled_of_shallow h.shallow, reread_eq h.canonical h.doubles]

namespace Sqlite

namespace Tables

/-! ## Rows in places of their own -/

variable {tables next : Tables} {rows : List Row} {realm : Realm} {kind : Kind}
  {item : Item}

theorem row?_of_mem (hdistinct : (rows.map Row.place).Nodup) {row : Row}
    (hm : row ∈ rows) : row? rows row.scope row.key = some row := by
  induction rows with
  | nil => cases hm
  | cons first rest ih =>
      rw [List.map_cons, List.nodup_cons] at hdistinct
      unfold row?
      rcases List.mem_cons.mp hm with rfl | hm
      · simp
      · have hne : first.place ≠ row.place := fun hsame =>
          hdistinct.1 (hsame ▸ List.mem_map_of_mem hm)
        rw [List.find?_cons_of_neg]
        · exact ih hdistinct.2 hm
        · simpa [Row.place] using hne

/-- What is read from a row. -/
def Reading.read (row : Row) : Except StoreError Item :=
  Reading.ofRow row >>= Reading.toItem

theorem Reading.key_ofRow (row : Row) (reading : Reading)
    (h : ofRow row = .ok reading) : reading.key = row.key := by
  unfold ofRow at h
  split at h
  · cases h
    rfl
  all_goals cases h

theorem Reading.deleted_ofRow {row : Row} {reading : Reading}
    (h : ofRow row = .ok reading) (hdeleted : row.deleted = .integer 0) :
    reading.deleted = false := by
  unfold ofRow at h
  rw [hdeleted] at h
  split at h
  · rename_i heq _
    cases heq
    cases h
    rfl
  all_goals cases h

theorem Reading.key_toItem (reading : Reading) (item : Item)
    (h : reading.toItem = .ok item) : item.key = reading.key := by
  unfold toItem at h
  split at h
  · cases h
  · split at h
    · cases h
      rfl
    · cases h

/-- The rows that a listing of the kind reads. -/
def listed (rows : List Row) (realm : Realm) (kind : Kind) : List Row :=
  rows.filter fun row =>
    row.scope == realm.scope kind && row.deleted == .integer 0

theorem mem_listed {row : Row} :
    row ∈ listed rows realm kind ↔
      row ∈ rows ∧ row.scope = realm.scope kind ∧ row.deleted = .integer 0 := by
  unfold listed
  rw [List.mem_filter, Bool.and_eq_true, beq_iff_eq, beq_iff_eq]

theorem all_ok_iff (hitems : tables.items = .own rows) {found : KeyMap Item} :
    tables.all realm kind = .ok found ↔ ∃ readings live,
      (listed rows realm kind).mapM Reading.ofRow = .ok readings ∧
      readings.mapM Reading.toItem = .ok live ∧
      found = .ofList (live.map fun item => (item.key, item)) := by
  unfold Tables.all
  rw [hitems]
  constructor
  · intro h
    obtain ⟨own, hown, h⟩ := exists_of_bind_eq_ok h
    cases hown
    obtain ⟨readings, hreadings, h⟩ := exists_of_bind_eq_ok h
    obtain ⟨live, hlive, h⟩ := exists_of_bind_eq_ok h
    cases h
    exact ⟨readings, live, hreadings, hlive, rfl⟩
  · rintro ⟨readings, live, hreadings, hlive, rfl⟩
    unfold listed at hreadings
    simp only [Table.content, ok_bind, hreadings, hlive]
    rfl

/-- A listing succeeds if each of its rows can be read. -/
theorem exists_all_iff (hitems : tables.items = .own rows) :
    (∃ found, tables.all realm kind = .ok found) ↔
      ∀ row ∈ listed rows realm kind, ∃ item, Reading.read row = .ok item := by
  simp only [all_ok_iff hitems]
  constructor
  · rintro ⟨-, readings, live, hreadings, hlive, -⟩ row hm
    obtain ⟨reading, hreading, hrow⟩ := exists_mem_of_mapM hreadings hm
    obtain ⟨item, -, hitem⟩ := exists_mem_of_mapM hlive hreading
    unfold Reading.read
    exact ⟨item, by rw [hrow, ok_bind, hitem]⟩
  · intro hread
    have hrows : ∀ row ∈ listed rows realm kind, ∃ reading item,
        Reading.ofRow row = .ok reading ∧ reading.toItem = .ok item := by
      intro row hm
      obtain ⟨item, hitem⟩ := hread row hm
      obtain ⟨reading, hreading, hitem⟩ := exists_of_bind_eq_ok hitem
      exact ⟨reading, item, hreading, hitem⟩
    obtain ⟨readings, hreadings⟩ := exists_mapM_eq_ok.mpr fun row hm =>
      (hrows row hm).imp fun reading h => h.choose_spec.1
    have hlive : ∀ reading ∈ readings, ∃ item, reading.toItem = .ok item := by
      intro reading hm
      obtain ⟨row, hrow, hreading⟩ := exists_of_mem_mapM hreadings hm
      obtain ⟨same, item, hsame, hitem⟩ := hrows row hrow
      rw [hreading] at hsame
      cases hsame
      exact ⟨item, hitem⟩
    obtain ⟨live, hlive⟩ := exists_mapM_eq_ok.mpr hlive
    exact ⟨_, readings, live, hreadings, hlive, rfl⟩

theorem nodup_listed_keys (hdistinct : (rows.map Row.place).Nodup) (realm : Realm)
    (kind : Kind) : ((listed rows realm kind).map Row.key).Nodup := by
  have hsub : (listed rows realm kind).Sublist rows := List.filter_sublist
  have hplaces : (listed rows realm kind).map Row.place =
      ((listed rows realm kind).map Row.key).map (Prod.mk (realm.scope kind)) := by
    rw [List.map_map]
    apply List.map_congr_left
    intro row hm
    unfold Row.place
    rw [(mem_listed.mp hm).2.1]
    rfl
  apply List.Nodup.of_map (Prod.mk (realm.scope kind))
  rw [← hplaces]
  exact (hsub.map Row.place).nodup hdistinct

/-- A listing that succeeds has what each of its rows gives back, under the key of
the row. -/
theorem get?_of_all (hitems : tables.items = .own rows)
    (hdistinct : (rows.map Row.place).Nodup) {found : KeyMap Item}
    (h : tables.all realm kind = .ok found) {row : Row}
    (hm : row ∈ listed rows realm kind) (hread : Reading.read row = .ok item) :
    found.get? row.key = some item := by
  obtain ⟨readings, live, hreadings, hlive, rfl⟩ := (all_ok_iff hitems).mp h
  have hkeys : live.map Item.key = (listed rows realm kind).map Row.key := by
    rw [map_eq_of_mapM Reading.key_toItem hlive,
      map_eq_of_mapM Reading.key_ofRow hreadings]
  have hpairwise : (live.map fun item => (item.key, item)).Pairwise
      fun a b => a.1 ≠ b.1 := by
    have hnodup := nodup_listed_keys hdistinct realm kind
    rw [← hkeys, List.Nodup, List.pairwise_map] at hnodup
    rw [List.pairwise_map]
    exact hnodup
  obtain ⟨reading, hreading, hrow⟩ := exists_mem_of_mapM hreadings hm
  obtain ⟨other, hother, hitem⟩ := exists_mem_of_mapM hlive hreading
  unfold Reading.read at hread
  rw [hrow, ok_bind, hitem] at hread
  cases hread
  rw [KeyMap.get?_ofList hpairwise]
  apply List.mem_map.mpr
  refine ⟨item, hother, ?_⟩
  rw [Reading.key_toItem reading item hitem, Reading.key_ofRow row reading hrow]

/-- The row of a key that is listed is what a get of the key reads. -/
theorem exists_get?_iff (hitems : tables.items = .own rows)
    (hdistinct : (rows.map Row.place).Nodup) {row : Row}
    (hm : row ∈ listed rows realm kind) :
    (∃ found, tables.get? realm kind row.key = .ok found) ↔
      ∃ item, Reading.read row = .ok item := by
  obtain ⟨hrows, hscope, hdeleted⟩ := mem_listed.mp hm
  have hrow := row?_of_mem hdistinct hrows
  rw [hscope] at hrow
  simp only [Tables.get?, hitems, Table.content, ok_bind, hrow, Reading.read]
  cases hreading : Reading.ofRow row with
  | error error => simp
  | ok reading =>
      have hlive := Reading.deleted_ofRow hreading hdeleted
      simp only [ok_bind, hlive, Bool.false_eq_true, if_false]
      cases reading.toItem with
      | error error => simp
      | ok item => simp [pure, Except.pure]

/-! ## The row of an item -/

theorem Reading.read_itemRow (h : item.Legible) (realm : Realm) (kind : Kind) :
    read (itemRow realm kind item) = .ok item := by
  unfold read
  rw [ofRow_itemRow, ok_bind, toItem_eq_recalled h.live, h.recalled]

theorem get?_of_mem (hitems : tables.items = .own rows)
    (hdistinct : (rows.map Row.place).Nodup)
    (hm : itemRow realm kind item ∈ rows) (h : item.Legible) :
    tables.get? realm kind item.key = .ok (some item) := by
  have hrow : row? rows (realm.scope kind) item.key =
      (some item).map (itemRow realm kind) := row?_of_mem hdistinct hm
  rw [get?_of_row? hitems hrow]
  unfold recallOne Item.visible?
  simp only [Option.bind_some, h.live, Bool.false_eq_true, if_false, h.recalled]
  rfl

theorem listed_itemRow (hm : itemRow realm kind item ∈ rows) (h : item.Legible) :
    itemRow realm kind item ∈ listed rows realm kind := by
  apply mem_listed.mpr
  refine ⟨hm, rfl, ?_⟩
  unfold itemRow rowOf
  rw [h.live]
  rfl

/-! ## Where a write leaves its row -/

theorem write_mem (hitems : tables.items = .own rows)
    (hdistinct : (rows.map Row.place).Nodup)
    (h : tables.write realm kind item item.version.toNat = .ok (.applied, next)) :
    ∃ after, next.items = .own after ∧ (after.map Row.place).Nodup ∧
      itemRow realm kind item ∈ after := by
  simp only [Tables.write, hitems, Table.content, ok_bind] at h
  obtain ⟨houtcome, rfl⟩ := Prod.mk.inj (Except.ok.inj h)
  obtain ⟨hnodup, hmem⟩ := putRow_applied hdistinct houtcome
  exact ⟨_, rfl, hnodup, (hmem _).mpr (.inl rfl)⟩

theorem foldlM_replaceScope_nodup {parts : List (Kind × KeyMap Item)}
    (hkeyed : ∀ part ∈ parts, part.2.Keyed) (hitems : tables.items = .own rows)
    (hdistinct : (rows.map Row.place).Nodup)
    (h : parts.foldlM (fun tables part =>
      tables.replaceScope (realm.scope part.1) part.2.values) tables =
        .ok next) :
    ∃ after, next.items = .own after ∧ (after.map Row.place).Nodup := by
  induction parts generalizing tables rows with
  | nil =>
      cases h
      exact ⟨rows, hitems, hdistinct⟩
  | cons part rest ih =>
      rw [List.foldlM_cons] at h
      obtain ⟨middle, hpart, h⟩ := exists_of_bind_eq_ok h
      obtain ⟨found, hfound, -, hmiddle⟩ := replaceScope_ok hpart
      rw [hitems] at hfound
      cases hfound
      obtain ⟨hfirst, hrest⟩ := List.forall_mem_cons.mp hkeyed
      exact ih hrest hmiddle (nodup_replaceScope hdistinct realm part.1 hfirst) h

theorem init_mem {data : DataSet} (hmade : data.Made)
    (hitem : data.get? kind item.key = some item)
    (hitems : tables.items = .own rows)
    (hdistinct : (rows.map Row.place).Nodup)
    (h : tables.init realm data = .ok next) :
    ∃ after, next.items = .own after ∧ (after.map Row.place).Nodup ∧
      itemRow realm kind item ∈ after := by
  obtain ⟨items, hkind, hget⟩ := Option.bind_eq_some_iff.mp hitem
  obtain ⟨after, hafter, hrows⟩ := stores_init h hkind
  have hm : itemRow realm kind item ∈ scopeRows (realm.scope kind) after := by
    rw [hrows]
    exact List.mem_map_of_mem (KeyMap.mem_values.mpr ⟨item.key, hget⟩)
  refine ⟨after, hafter, ?_, (List.mem_filter.mp hm).1⟩
  obtain ⟨middle, hparts, h⟩ := exists_of_bind_eq_ok h
  obtain ⟨markers, -, h⟩ := exists_of_bind_eq_ok h
  cases h
  obtain ⟨own, hown, hnodup⟩ :=
    foldlM_replaceScope_nodup hmade.keyed_parts hitems hdistinct hparts
  rw [hafter] at hown
  cases hown
  exact hnodup

end Tables

end Sqlite

/-! ## Handles -/

namespace Cluster

open Sqlite

/-- An open handle in a realm, on a file with rows in places of their own. -/
def HasRows (cluster : Cluster) (store : Nat) (realm : Realm) (rows : List Row) :
    Prop :=
  ∃ handle tables, cluster.openHandle store =
      .ok (handle, .sqlite (.intact tables)) ∧ handle.realm = realm ∧
    tables.items = .own rows ∧ (rows.map Row.place).Nodup

/-- The writes of an item that a store accepts: an upsert, the conditional write
of one that read the stored version earlier, and an initialization. -/
inductive Wrote (cluster : Cluster) (store : Nat) (kind : Kind) (item : Item) :
    Cluster → Prop
  | upsert {after : Cluster} :
      cluster.serve store (.upsert kind item) = (.ok .applied, after) →
        Wrote cluster store kind item after
  | commit {after : Cluster} :
      cluster.commit store kind item = (.ok .applied, after) →
        Wrote cluster store kind item after
  | init {data : DataSet} {after : Cluster} : data.Made →
      data.get? kind item.key = some item →
      cluster.serve store (.init data) = (.ok (), after) →
        Wrote cluster store kind item after

variable {cluster after : Cluster} {store : Nat} {realm : Realm} {rows : List Row}
  {kind : Kind} {item : Item}

theorem HasRows.commit (h : cluster.HasRows store realm rows)
    (hcommit : cluster.commit store kind item = (.ok .applied, after)) :
    ∃ next, after.HasRows store realm next ∧
      Tables.itemRow realm kind item ∈ next := by
  obtain ⟨handle, tables, hopen, rfl, hitems, hdistinct⟩ := h
  obtain ⟨hfound, -⟩ := openHandle_cases hopen
  simp only [Cluster.commit, hfound, ok_bind] at hcommit
  cases hmedium : (Medium.sqlite (.intact tables)).commit handle.realm
      handle.closed kind item with
  | error error =>
      rw [hmedium] at hcommit
      cases hcommit
  | ok result =>
      obtain ⟨outcome, medium⟩ := result
      rw [hmedium] at hcommit
      cases hcommit
      obtain ⟨next, rfl, hwrite⟩ := Medium.write_of_commit hmedium
      obtain ⟨final, hfinal, hnodup, hm⟩ :=
        Tables.write_mem hitems hdistinct hwrite
      exact ⟨final, ⟨handle, next, openHandle_setMedium hopen _, rfl, hfinal,
        hnodup⟩, hm⟩

theorem HasRows.wrote (h : cluster.HasRows store realm rows)
    (hwrote : cluster.Wrote store kind item after) :
    ∃ next, after.HasRows store realm next ∧
      Tables.itemRow realm kind item ∈ next := by
  cases hwrote with
  | upsert hserve =>
      simp only [Cluster.serve, Cluster.upsert] at hserve
      split at hserve
      · cases hserve
      · cases hserve
      · exact h.commit hserve
  | commit hcommit => exact h.commit hcommit
  | init hmade hitem hserve =>
      obtain ⟨handle, tables, hopen, rfl, hitems, hdistinct⟩ := h
      simp only [Cluster.serve, Cluster.init, hopen, ok_bind, Medium.init,
        Image.tables] at hserve
      cases hinit : tables.init handle.realm _ with
      | error error =>
          rw [hinit] at hserve
          cases hserve
      | ok next =>
          rw [hinit] at hserve
          cases hserve
          obtain ⟨final, hfinal, hnodup, hm⟩ :=
            Tables.init_mem hmade hitem hitems hdistinct hinit
          exact ⟨final, ⟨handle, next, openHandle_setMedium hopen _, rfl, hfinal,
            hnodup⟩, hm⟩

/-- After a write of an item that its text gives back, a get returns it.  A listing
of its kind has it under its key as well, if it succeeds, and it does so if and
only if every live item of the kind can be got. -/
theorem legible_read_back (hrows : cluster.HasRows store realm rows)
    (hitem : item.Legible) (hwrote : cluster.Wrote store kind item after) :
    (after.serve store (.get kind item.key)).1 = .ok (some item) ∧
      (∀ found, (after.serve store (.all kind)).1 = .ok found →
        found.get? item.key = some item) ∧
      ∃ next, after.HasRows store realm next ∧
        ((∃ found, (after.serve store (.all kind)).1 = .ok found) ↔
          ∀ row ∈ Tables.listed next realm kind, ∃ found,
            (after.serve store (.get kind row.key)).1 = .ok found) := by
  obtain ⟨next, hnext, hm⟩ := hrows.wrote hwrote
  obtain ⟨handle, tables, hopen, rfl, hitems, hdistinct⟩ := id hnext
  simp only [Cluster.serve, hopen, ok_bind, Medium.get?, Medium.all, Image.tables]
  refine ⟨Tables.get?_of_mem hitems hdistinct hm hitem, ?_, next, hnext, ?_⟩
  · intro found hfound
    exact Tables.get?_of_all hitems hdistinct hfound
      (Tables.listed_itemRow hm hitem) (Tables.Reading.read_itemRow hitem _ _)
  · rw [Tables.exists_all_iff hitems]
    exact forall₂_congr fun row hlisted =>
      (Tables.exists_get?_iff hitems hdistinct hlisted).symm

/-- The greatest version of a table, under the empty key. -/
def edgeItem : Item :=
  .live "" 9223372036854775807 (.object
    [("a", .array [.integer (.ofUInt64 18446744073709551615), .string "\"\n"]),
      ("b", .null)])

theorem legible_edgeItem : edgeItem.Legible where
  live := rfl
  canonical := by
    refine .object (List.pairwise_pair.mpr (by decide)) ?_
    simp only [List.forall_mem_cons]
    refine ⟨.array ?_, .null, by simp⟩
    simp only [List.forall_mem_cons]
    exact ⟨.integer _, .string _, by simp⟩
  doubles := by
    refine .object ?_
    simp only [List.forall_mem_cons]
    refine ⟨.array ?_, .null, by simp⟩
    simp only [List.forall_mem_cons]
    exact ⟨.integer _, .string _, by simp⟩
  shallow := by
    unfold Item.Shallow
    decide

def opened : Cluster := connect ⟨[.sqlite .fresh], []⟩ 0 .standard

theorem hasRows_opened : opened.HasRows 0 .standard [] :=
  ⟨⟨0, .standard, false⟩, .migrated, rfl, rfl, rfl, List.nodup_nil⟩

theorem edgeItem_read_back :
    ((opened.serve 0 (.upsert .features edgeItem)).2.serve 0
      (.get .features "")).1 = .ok (some edgeItem) :=
  (legible_read_back hasRows_opened legible_edgeItem
    (.upsert (Prod.ext (by decide +kernel) rfl))).1

/-- An item that is read back by a get, and not by a listing of its kind. -/
theorem plainItem_unlisted :
    FileState.plainItem.Legible ∧
    ((FileState.start.run (FileState.deepUses.take 2)).cluster.serve 0
      (.upsert .features FileState.plainItem)).1 = .ok .applied ∧
    (FileState.start.run FileState.deepUses).cluster =
      ((FileState.start.run (FileState.deepUses.take 2)).cluster.serve 0
        (.upsert .features FileState.plainItem)).2 ∧
    ∃ error, ((FileState.start.run FileState.deepUses).cluster.serve 0
      (.all .features)).1 = .error (.payload error) := by
  obtain ⟨medium, hopen⟩ := FileState.openHandle_deepUses
  obtain ⟨hdeep, -⟩ := FileState.accepted_deepUses
  obtain ⟨-, hall⟩ := (FileState.accounts_start.run
    FileState.made_deepUses).reads hopen .features
  have hlegible : FileState.plainItem.Legible :=
    ⟨rfl, .null, .null, by unfold Item.Shallow; decide⟩
  refine ⟨hlegible, by decide +kernel, rfl, ?_⟩
  obtain ⟨error, herror, -⟩ := hall.2 fun hshallow =>
    FileState.deepItem_not_shallow (hshallow "deep" FileState.deepItem hdeep)
  exact ⟨error, herror⟩

end Cluster

end VersionedFlags
