import Mathlib.Data.List.Nodup
import VersionedFlags.Files.Loading
import VersionedFlags.Proofs.DataSet
import VersionedFlags.Proofs.Files.Definition

/-!
# Loading is a disjoint union

The files of a load that can be read and parsed are gathered into one data set,
which has an item for every definition.  It is given if the definitions are
accepted and no two of them are for the same place, whatever their order and
that of the files.
-/

namespace VersionedFlags

/-! ## Growing data sets -/

theorem Assoc.length_insert {α : Type*} {key : String} (value : α)
    {entries : List (String × α)} (h : lookup key entries = none) :
    (insert key value entries).length = entries.length + 1 := by
  induction entries with
  | nil => rfl
  | cons head rest ih =>
      obtain ⟨k, old⟩ := head
      have hne : k ≠ key := by
        rintro rfl
        simp [lookup] at h
      simp only [lookup, if_neg hne] at h
      simp only [insert, if_neg hne.symm]
      split
      · rfl
      · rw [List.length_cons, ih h, List.length_cons]

namespace DataSet

theorem count_eq (data : DataSet) :
    data.count = (data.kinds.features.elim 0 KeyMap.size) +
      (data.kinds.segments.elim 0 KeyMap.size) := by
  obtain ⟨⟨features, segments⟩⟩ := data
  cases features <;> cases segments <;>
    simp [count, parts, PerKind.toList, PerKind.get, Kind.all]

theorem ext_items? {left right : DataSet}
    (h : ∀ kind, left.items? kind = right.items? kind) : left = right := by
  obtain ⟨left⟩ := left
  obtain ⟨right⟩ := right
  exact congrArg DataSet.mk (PerKind.ext_get h)

namespace Builder

variable {builder : Builder}

theorem contains_add (builder : Builder) (kind other : Kind) (item : Item)
    (key : String) :
    (builder.add kind item).contains other key =
      (decide ((kind, item.key) = (other, key)) || builder.contains other key) := by
  simp only [contains, add, PerKind.modify, PerKind.get_set]
  by_cases h : kind = other <;> simp [h]

theorem get?_add (builder : Builder) (kind other : Kind) (item : Item)
    (key : String) :
    ((builder.add kind item).items.get other).get? key =
      if (kind, item.key) = (other, key) then some item
      else (builder.items.get other).get? key := by
  simp only [add, PerKind.modify, PerKind.get_set]
  by_cases hkind : kind = other
  · subst hkind
    simp
  · simp [hkind]

theorem count_add {kind : Kind} {item : Item}
    (h : builder.contains kind item.key = false) :
    (builder.add kind item).build.count = builder.build.count + 1 := by
  have hnone : (builder.items.get kind).get? item.key = none := by
    simpa [contains, KeyMap.contains] using h
  have hsize : ((builder.items.get kind).insert item.key item).size =
      (builder.items.get kind).size + 1 := Assoc.length_insert item hnone
  cases kind
  · simp only [count_eq, build, add, PerKind.modify, PerKind.set, PerKind.map,
      Option.elim_some, hsize]
    simp only [PerKind.get]
    omega
  · simp only [count_eq, build, add, PerKind.modify, PerKind.set, PerKind.map,
      Option.elim_some, hsize]
    simp only [PerKind.get]
    omega

end Builder

end DataSet

namespace Files

open DataSet (Builder)

/-! ## Merging items -/

/-- The place of an item listed with its kind. -/
def placeOf (entry : Kind × Item) : Kind × String := (entry.1, entry.2.key)

def addAll (builder : Builder) (entries : List (Kind × Item)) : Builder :=
  entries.foldl (fun builder entry => builder.add entry.1 entry.2) builder

/-- Items with keys, each for a place of its own that the builder has free. -/
structure Disjoint (builder : Builder) (entries : List (Kind × Item)) : Prop where
  keys : ∀ entry ∈ entries, entry.2.key ≠ ""
  free : ∀ entry ∈ entries, builder.contains entry.1 entry.2.key = false
  distinct : (entries.map placeOf).Nodup

variable {builder next : Builder} {path : Path}

theorem merge_eq_ok {entry : Kind × Item} :
    merge path builder entry = .ok next ↔
      entry.2.key ≠ "" ∧ builder.contains entry.1 entry.2.key = false ∧
        next = builder.add entry.1 entry.2 := by
  by_cases hkey : entry.2.key = ""
  · simp [merge, Builder.tryAdd, hkey, Except.mapError]
  · cases hcontains : builder.contains entry.1 entry.2.key <;>
      simp [merge, Builder.tryAdd, hkey, hcontains, Except.mapError, eq_comm]

theorem disjoint_cons {entry : Kind × Item} {rest : List (Kind × Item)} :
    Disjoint builder (entry :: rest) ↔
      entry.2.key ≠ "" ∧ builder.contains entry.1 entry.2.key = false ∧
        Disjoint (builder.add entry.1 entry.2) rest := by
  have hfree : ∀ other : Kind × Item,
      (builder.add entry.1 entry.2).contains other.1 other.2.key = false ↔
        placeOf entry ≠ placeOf other ∧
          builder.contains other.1 other.2.key = false := by
    intro other
    rw [Builder.contains_add, Bool.or_eq_false_iff, decide_eq_false_iff_not]
    rfl
  constructor
  · rintro ⟨hkeys, hfrees, hdistinct⟩
    obtain ⟨hkey, hkeys⟩ := List.forall_mem_cons.mp hkeys
    obtain ⟨hhead, hfrees⟩ := List.forall_mem_cons.mp hfrees
    obtain ⟨hnew, hdistinct⟩ := List.nodup_cons.mp hdistinct
    refine ⟨hkey, hhead, hkeys, fun other hm => (hfree other).mpr ⟨?_, ?_⟩,
      hdistinct⟩
    · intro hsame
      exact hnew (hsame ▸ List.mem_map_of_mem hm)
    · exact hfrees other hm
  · rintro ⟨hkey, hhead, hkeys, hfrees, hdistinct⟩
    refine ⟨List.forall_mem_cons.mpr ⟨hkey, hkeys⟩,
      List.forall_mem_cons.mpr ⟨hhead, fun other hm =>
        ((hfree other).mp (hfrees other hm)).2⟩,
      List.nodup_cons.mpr ⟨?_, hdistinct⟩⟩
    intro hm
    obtain ⟨other, hother, hsame⟩ := List.mem_map.mp hm
    exact ((hfree other).mp (hfrees other hother)).1 hsame.symm

theorem disjoint_nil (builder : Builder) : Disjoint builder [] :=
  ⟨by simp, by simp, List.nodup_nil⟩

theorem disjoint_append {entries more : List (Kind × Item)} :
    Disjoint builder (entries ++ more) ↔
      Disjoint builder entries ∧ Disjoint (addAll builder entries) more := by
  induction entries generalizing builder with
  | nil => simp [disjoint_nil, addAll]
  | cons entry rest ih =>
      rw [List.cons_append, disjoint_cons, disjoint_cons, ih, and_assoc, and_assoc]
      rfl

theorem foldlM_merge {entries : List (Kind × Item)} :
    entries.foldlM (merge path) builder = .ok next ↔
      Disjoint builder entries ∧ next = addAll builder entries := by
  induction entries generalizing builder with
  | nil =>
      simp only [List.foldlM_nil, disjoint_nil, addAll, List.foldl_nil, true_and]
      exact ⟨fun h => by cases h; rfl, fun h => by rw [h]; rfl⟩
  | cons entry rest ih =>
      rw [List.foldlM_cons, disjoint_cons, and_assoc, and_assoc]
      constructor
      · intro h
        obtain ⟨middle, hmerge, hrest⟩ := exists_of_bind_eq_ok h
        obtain ⟨hkey, hfree, rfl⟩ := merge_eq_ok.mp hmerge
        exact ⟨hkey, hfree, ih.mp hrest⟩
      · rintro ⟨hkey, hfree, hrest⟩
        rw [merge_eq_ok.mpr ⟨hkey, hfree, rfl⟩, ok_bind]
        exact ih.mpr hrest

theorem get?_addAll {entries : List (Kind × Item)}
    (h : Disjoint builder entries) (kind : Kind) (key : String) (item : Item) :
    ((addAll builder entries).items.get kind).get? key = some item ↔
      (kind, item) ∈ entries ∧ item.key = key ∨
        (builder.items.get kind).get? key = some item := by
  induction entries generalizing builder with
  | nil => simp [addAll]
  | cons entry rest ih =>
      obtain ⟨part, first⟩ := entry
      obtain ⟨-, hfree, hrest⟩ := disjoint_cons.mp h
      rw [show addAll builder ((part, first) :: rest) =
        addAll (builder.add part first) rest from rfl, ih hrest,
        Builder.get?_add]
      have hnone : (builder.items.get part).get? first.key = none := by
        simpa [Builder.contains, KeyMap.contains] using hfree
      by_cases hplace : (part, first.key) = (kind, key)
      · cases hplace
        simp only [if_true, hnone, Option.some_inj, List.mem_cons, Prod.mk.injEq,
          true_and, reduceCtorEq, or_false]
        constructor
        · rintro (⟨hm, hkey⟩ | rfl)
          · exact ⟨.inr hm, hkey⟩
          · exact ⟨.inl rfl, rfl⟩
        · rintro ⟨rfl | hm, hkey⟩
          · exact .inr rfl
          · exact .inl ⟨hm, hkey⟩
      · rw [if_neg hplace, List.mem_cons]
        have hother : ¬ ((kind, item) = (part, first) ∧ item.key = key) := by
          rintro ⟨hsame, rfl⟩
          cases hsame
          exact hplace rfl
        constructor
        · rintro (⟨hm, hkey⟩ | hold)
          · exact .inl ⟨.inr hm, hkey⟩
          · exact .inr hold
        · rintro (⟨hsame | hm, hkey⟩ | hold)
          · exact absurd ⟨hsame, hkey⟩ hother
          · exact .inl ⟨hm, hkey⟩
          · exact .inr hold

theorem count_addAll {entries : List (Kind × Item)}
    (h : Disjoint builder entries) :
    (addAll builder entries).build.count =
      builder.build.count + entries.length := by
  induction entries generalizing builder with
  | nil => rfl
  | cons entry rest ih =>
      obtain ⟨-, hfree, hrest⟩ := disjoint_cons.mp h
      have hcount := ih hrest
      rw [Builder.count_add hfree] at hcount
      rw [List.length_cons, show addAll builder (entry :: rest) =
        addAll (builder.add entry.1 entry.2) rest from rfl, hcount]
      omega

/-! ## Files -/

/-- The sections of a file, if it can be read and parsed. -/
def sectionsAt (tree : FileTree) (here : Location) (path : Path) :
    Except LoadError Sections := do
  parse path (← (tree.read here path).mapError (.unreadable path))

variable {tree : FileTree} {here : Location}

theorem loadFile_eq (builder : Builder) (path : Path) :
    loadFile tree here builder path = (do
      let items ← itemsOfSections path (← sectionsAt tree here path)
      items.foldlM (merge path) builder) := by
  simp only [loadFile, loadText, sectionsAt, bind_assoc]

theorem reachable_addAll (h : builder.Reachable) (entries : List (Kind × Item)) :
    (addAll builder entries).Reachable := by
  induction entries generalizing builder with
  | nil => exact h
  | cons entry rest ih => exact ih (h.add entry.1 entry.2)

theorem reachable_loadFile (h : builder.Reachable)
    (hfile : loadFile tree here builder path = .ok next) : next.Reachable := by
  rw [loadFile_eq] at hfile
  obtain ⟨sections, -, hfile⟩ := exists_of_bind_eq_ok hfile
  obtain ⟨entries, -, hfile⟩ := exists_of_bind_eq_ok hfile
  obtain ⟨-, rfl⟩ := foldlM_merge.mp hfile
  exact reachable_addAll h entries

theorem itemsOfSections_eq_ok {sections : Sections}
    {entries : List (Kind × Item)} :
    itemsOfSections path sections = .ok entries ↔
      sections.definitions.mapM Definition.entry = .ok entries := by
  rw [itemsOfSections, Sections.items_eq]
  cases sections.definitions.mapM Definition.entry <;> simp [Except.mapError]

/-- The definitions of all files in the order in which they are merged. -/
def definitionsOf (sections : Path → Sections) (paths : List Path) :
    List Definition :=
  paths.flatMap fun path => (sections path).definitions

theorem foldlM_loadFile {paths : List Path} {sections : Path → Sections}
    (h : ∀ path ∈ paths, sectionsAt tree here path = .ok (sections path)) :
    paths.foldlM (loadFile tree here) builder = .ok next ↔
      ∃ entries, (definitionsOf sections paths).mapM Definition.entry =
          .ok entries ∧
        Disjoint builder entries ∧ next = addAll builder entries := by
  induction paths generalizing builder with
  | nil =>
      constructor
      · intro hnext
        cases hnext
        exact ⟨[], rfl, disjoint_nil _, rfl⟩
      · rintro ⟨entries, hentries, -, rfl⟩
        cases hentries
        rfl
  | cons path rest ih =>
      obtain ⟨hpath, hrest⟩ := List.forall_mem_cons.mp h
      have hdefinitions : definitionsOf sections (path :: rest) =
          (sections path).definitions ++ definitionsOf sections rest := rfl
      rw [List.foldlM_cons, hdefinitions, List.mapM_append, loadFile_eq, hpath,
        ok_bind]
      constructor
      · intro hnext
        obtain ⟨middle, hfile, hnext⟩ := exists_of_bind_eq_ok hnext
        obtain ⟨first, hfirst, hfile⟩ := exists_of_bind_eq_ok hfile
        obtain ⟨hdisjoint, rfl⟩ := foldlM_merge.mp hfile
        obtain ⟨more, hmore, hothers, rfl⟩ := (ih hrest).mp hnext
        refine ⟨first ++ more, ?_, disjoint_append.mpr ⟨hdisjoint, hothers⟩, ?_⟩
        · rw [itemsOfSections_eq_ok.mp hfirst, ok_bind, hmore, ok_bind]
          rfl
        · exact (List.foldl_append).symm
      · rintro ⟨entries, hentries, hdisjoint, rfl⟩
        obtain ⟨first, hfirst, hentries⟩ := exists_of_bind_eq_ok hentries
        obtain ⟨more, hmore, hentries⟩ := exists_of_bind_eq_ok hentries
        cases hentries
        obtain ⟨hhead, htail⟩ := disjoint_append.mp hdisjoint
        rw [itemsOfSections_eq_ok.mpr hfirst, ok_bind,
          foldlM_merge.mpr ⟨hhead, rfl⟩, ok_bind]
        exact (ih hrest).mpr ⟨more, hmore, htail, List.foldl_append⟩

/-! ## Entries of definitions -/

/-- The entries of a file are those of its definitions, one for each. -/
abbrev EntriesOf (definitions : List Definition) (entries : List (Kind × Item)) :
    Prop :=
  List.Forall₂ (fun definition entry => definition.entry = .ok entry)
    definitions entries

variable {definitions : List Definition} {entries : List (Kind × Item)}

theorem entriesOf_of_mapM (h : definitions.mapM Definition.entry = .ok entries) :
    EntriesOf definitions entries := by
  induction definitions generalizing entries with
  | nil =>
      cases h
      exact .nil
  | cons definition rest ih =>
      rw [List.mapM_cons] at h
      obtain ⟨entry, hentry, h⟩ := exists_of_bind_eq_ok h
      obtain ⟨others, hothers, h⟩ := exists_of_bind_eq_ok h
      cases h
      exact .cons hentry (ih hothers)

theorem EntriesOf.map_placeOf (h : EntriesOf definitions entries) :
    entries.map placeOf = definitions.map Definition.place := by
  induction h with
  | nil => rfl
  | @cons definition entry _ _ hentry _ ih =>
      obtain ⟨hkind, hitem⟩ := Definition.entry_eq_ok.mp hentry
      have hplace : placeOf entry = definition.place :=
        Prod.ext hkind.symm (key_of_itemOf hitem)
      rw [List.map_cons, List.map_cons, hplace, ih]

theorem EntriesOf.mem (h : EntriesOf definitions entries) (kind : Kind)
    (item : Item) :
    (kind, item) ∈ entries ↔
      ∃ definition ∈ definitions,
        definition.kind = kind ∧ definition.item = .ok item := by
  induction h with
  | nil => simp
  | @cons definition entry _ _ hentry _ ih =>
      obtain ⟨hkind, hitem⟩ := Definition.entry_eq_ok.mp hentry
      obtain ⟨part, found⟩ := entry
      simp only at hkind hitem
      subst hkind
      simp only [List.mem_cons, exists_eq_or_imp, Prod.mk.injEq, ih, hitem,
        Except.ok.injEq]
      rw [eq_comm (a := kind), eq_comm (a := item)]

theorem EntriesOf.disjoint_start (h : EntriesOf definitions entries) :
    Disjoint .start entries ↔
      (∀ definition ∈ definitions, definition.key ≠ "") ∧
        (definitions.map Definition.place).Nodup := by
  have hkeys : (∀ entry ∈ entries, entry.2.key ≠ "") ↔
      ∀ definition ∈ definitions, definition.key ≠ "" := by
    have hplaces : (∀ place ∈ entries.map placeOf, place.2 ≠ "") ↔
        ∀ place ∈ definitions.map Definition.place, place.2 ≠ "" := by
      rw [h.map_placeOf]
    simpa only [List.forall_mem_map, placeOf, Definition.place] using hplaces
  rw [← hkeys, ← h.map_placeOf]
  constructor
  · rintro ⟨hnonempty, -, hdistinct⟩
    exact ⟨hnonempty, hdistinct⟩
  · rintro ⟨hnonempty, hdistinct⟩
    exact ⟨hnonempty, fun entry _ => by
      cases entry.1 <;> rfl, hdistinct⟩

/-! ## The data set of the definitions -/

/-- Accepted definitions with keys, each for a place of its own. -/
structure Admissible (definitions : List Definition) : Prop where
  valid : ∀ definition ∈ definitions, ∃ item, definition.item = .ok item
  keys : ∀ definition ∈ definitions, definition.key ≠ ""
  distinct : (definitions.map Definition.place).Nodup

/-- The data set covers every kind, and at a place it has the item of a
definition for that place. -/
def Gathers (data : DataSet) (definitions : List Definition) : Prop :=
  ∀ kind, ∃ items, data.items? kind = some items ∧
    ∀ key item, items.get? key = some item ↔
      ∃ definition ∈ definitions,
        definition.place = (kind, key) ∧ definition.item = .ok item

variable {data : DataSet}

theorem admissible_perm {others : List Definition}
    (h : others.Perm definitions) : Admissible others ↔ Admissible definitions := by
  have hmono : ∀ {some more : List Definition}, some.Perm more →
      Admissible more → Admissible some := by
    rintro some more hperm ⟨hvalid, hkeys, hdistinct⟩
    exact ⟨fun definition hm => hvalid definition (hperm.subset hm),
      fun definition hm => hkeys definition (hperm.subset hm),
      (hperm.map _).nodup_iff.mpr hdistinct⟩
  exact ⟨hmono h.symm, hmono h⟩

theorem gathers_perm {others : List Definition} (h : others.Perm definitions) :
    Gathers data others ↔ Gathers data definitions := by
  simp only [Gathers, h.mem_iff]

theorem Gathers.unique {other : DataSet} (h : Gathers data definitions)
    (hother : Gathers other definitions) : data = other := by
  refine DataSet.ext_items? fun kind => ?_
  obtain ⟨items, hitems, hget⟩ := h kind
  obtain ⟨more, hmore, hget'⟩ := hother kind
  rw [hitems, hmore]
  refine congrArg some (KeyMap.ext_get? fun key => Option.ext fun item => ?_)
  rw [hget, hget']

theorem Gathers.get? (h : Gathers data definitions) (kind : Kind) (key : String)
    (item : Item) :
    data.get? kind key = some item ↔
      ∃ definition ∈ definitions,
        definition.place = (kind, key) ∧ definition.item = .ok item := by
  obtain ⟨items, hitems, hget⟩ := h kind
  rw [DataSet.get?, hitems, Option.bind_some, hget]

theorem EntriesOf.gathers (h : EntriesOf definitions entries)
    (hdisjoint : Disjoint .start entries) :
    Gathers (addAll .start entries).build definitions := by
  intro kind
  refine ⟨(addAll .start entries).items.get kind, by
    simp [DataSet.items?, Builder.build], fun key item => ?_⟩
  have hstart : (Builder.start.items.get kind).get? key = none := by
    simp [Builder.start]
  rw [get?_addAll hdisjoint, hstart, h.mem]
  simp only [reduceCtorEq, or_false]
  constructor
  · rintro ⟨⟨definition, hm, rfl, hitem⟩, rfl⟩
    exact ⟨definition, hm, Prod.ext rfl (key_of_itemOf hitem).symm, hitem⟩
  · rintro ⟨definition, hm, hplace, hitem⟩
    cases hplace
    exact ⟨⟨definition, hm, rfl, hitem⟩, key_of_itemOf hitem⟩

theorem exists_entries (h : Admissible definitions) :
    ∃ entries, definitions.mapM Definition.entry = .ok entries ∧
      Disjoint .start entries := by
  obtain ⟨hvalid, hkeys, hdistinct⟩ := h
  obtain ⟨entries, hentries⟩ := exists_mapM_eq_ok.mpr fun definition hm => by
    obtain ⟨item, hitem⟩ := hvalid definition hm
    exact ⟨(definition.kind, item), Definition.entry_eq_ok.mpr ⟨rfl, hitem⟩⟩
  exact ⟨entries, hentries,
    (entriesOf_of_mapM hentries).disjoint_start.mpr ⟨hkeys, hdistinct⟩⟩

/-- The entries of definitions are merged if the definitions are admissible, and
the data set is then the one that gathers them. -/
theorem entries_gathered :
    (∃ entries, definitions.mapM Definition.entry = .ok entries ∧
        Disjoint .start entries ∧ data = (addAll .start entries).build) ↔
      Admissible definitions ∧ Gathers data definitions := by
  constructor
  · rintro ⟨entries, hentries, hdisjoint, rfl⟩
    have hof := entriesOf_of_mapM hentries
    obtain ⟨hkeys, hdistinct⟩ := hof.disjoint_start.mp hdisjoint
    refine ⟨⟨fun definition hm => ?_, hkeys, hdistinct⟩, hof.gathers hdisjoint⟩
    obtain ⟨entry, hentry⟩ := exists_mapM_eq_ok.mp ⟨entries, hentries⟩ definition hm
    exact ⟨entry.2, (Definition.entry_eq_ok.mp hentry).2⟩
  · rintro ⟨hadmissible, hgathers⟩
    obtain ⟨entries, hentries, hdisjoint⟩ := exists_entries hadmissible
    -- The data set that is given gathers the same definitions, so it is this one.
    have hmerged := (entriesOf_of_mapM hentries).gathers hdisjoint
    exact ⟨entries, hentries, hdisjoint, hgathers.unique hmerged⟩

section

variable {paths : List Path} {sections : Path → Sections}
  (h : ∀ path ∈ paths, sectionsAt tree here path = .ok (sections path))

include h

theorem load_eq_ok_iff_entries :
    load tree here paths = .ok data ↔
      ∃ entries, (definitionsOf sections paths).mapM Definition.entry =
          .ok entries ∧
        Disjoint .start entries ∧ data = (addAll .start entries).build := by
  constructor
  · intro hload
    obtain ⟨builder, hbuilder, hload⟩ := exists_of_bind_eq_ok hload
    cases hload
    obtain ⟨entries, hentries, hdisjoint, rfl⟩ := (foldlM_loadFile h).mp hbuilder
    exact ⟨entries, hentries, hdisjoint, rfl⟩
  · rintro ⟨entries, hentries, hdisjoint, rfl⟩
    rw [load, (foldlM_loadFile h).mpr ⟨entries, hentries, hdisjoint, rfl⟩]
    rfl

theorem exists_load (hadmissible : Admissible (definitionsOf sections paths)) :
    ∃ data, load tree here paths = .ok data := by
  obtain ⟨entries, hentries, hdisjoint⟩ := exists_entries hadmissible
  exact ⟨_, (load_eq_ok_iff_entries h).mpr ⟨entries, hentries, hdisjoint, rfl⟩⟩

theorem load_eq_ok :
    load tree here paths = .ok data ↔
      Admissible (definitionsOf sections paths) ∧
        Gathers data (definitionsOf sections paths) :=
  (load_eq_ok_iff_entries h).trans entries_gathered

/-- The data set has an item for each definition. -/
theorem count_of_load (hload : load tree here paths = .ok data) :
    data.count = (definitionsOf sections paths).length := by
  obtain ⟨entries, hentries, hdisjoint, rfl⟩ :=
    (load_eq_ok_iff_entries h).mp hload
  rw [count_addAll hdisjoint, (entriesOf_of_mapM hentries).length_eq]
  exact Nat.zero_add _

end

theorem exists_sectionsAt {paths : List Path}
    (h : paths.foldlM (loadFile tree here) builder = .ok next) :
    ∀ path ∈ paths, ∃ sections, sectionsAt tree here path = .ok sections := by
  induction paths generalizing builder with
  | nil => simp
  | cons path rest ih =>
      rw [List.foldlM_cons, loadFile_eq] at h
      obtain ⟨middle, hfile, hrest⟩ := exists_of_bind_eq_ok h
      obtain ⟨sections, hsections, -⟩ := exists_of_bind_eq_ok hfile
      exact List.forall_mem_cons.mpr ⟨⟨sections, hsections⟩, ih hrest⟩

/-- Every file of a load that succeeds can be read and parsed. -/
theorem exists_sections_of_load {paths : List Path}
    (hload : load tree here paths = .ok data) :
    ∃ sections : Path → Sections,
      ∀ path ∈ paths, sectionsAt tree here path = .ok (sections path) := by
  obtain ⟨builder, hbuilder, -⟩ := exists_of_bind_eq_ok hload
  have : Nonempty Sections := ⟨.empty⟩
  have hread := exists_sectionsAt hbuilder
  choose! sections hsections using hread
  exact ⟨sections, hsections⟩

theorem covers_of_load {paths : List Path}
    (hload : load tree here paths = .ok data) (kind : Kind) :
    ∃ items, data.items? kind = some items := by
  obtain ⟨sections, h⟩ := exists_sections_of_load hload
  obtain ⟨items, hitems, -⟩ := ((load_eq_ok h).mp hload).2 kind
  exact ⟨items, hitems⟩

theorem keyed_of_load {paths : List Path}
    (hload : load tree here paths = .ok data) : data.Keyed := by
  intro kind key item hget
  obtain ⟨sections, h⟩ := exists_sections_of_load hload
  obtain ⟨definition, -, hplace, hitem⟩ :=
    (((load_eq_ok h).mp hload).2.get? kind key item).mp hget
  cases hplace
  exact key_of_itemOf hitem

theorem valid_definitionsOf {paths : List Path} {sections : Path → Sections} :
    (∀ definition ∈ definitionsOf sections paths,
      ∃ item, definition.item = .ok item) ↔
        ∀ path ∈ paths, (sections path).IsValid := by
  simp only [Sections.isValid_iff, definitionsOf, List.forall_mem_flatMap]

/-- Files that can be read and parsed are gathered into one data set if their
flags and segments are accepted, no key is empty and no place is defined
twice.  The order of the files is of no account. -/
theorem load_disjoint_union {paths : List Path} {sections : Path → Sections}
    (h : ∀ path ∈ paths, sectionsAt tree here path = .ok (sections path)) :
    ((∃ data, load tree here paths = .ok data) ↔
      (∀ path ∈ paths, (sections path).IsValid) ∧
      (∀ definition ∈ definitionsOf sections paths, definition.key ≠ "") ∧
      ((definitionsOf sections paths).map Definition.place).Nodup) ∧
    (∀ data, load tree here paths = .ok data →
      (∀ kind, ∃ items, data.items? kind = some items) ∧
      (∀ kind key item, data.get? kind key = some item ↔
        ∃ definition ∈ definitionsOf sections paths,
          definition.place = (kind, key) ∧ definition.item = .ok item) ∧
      data.count = (definitionsOf sections paths).length) ∧
    load tree here [] = .ok .empty ∧
    ∀ other, other.Perm paths → ∀ data,
      load tree here other = .ok data ↔ load tree here paths = .ok data := by
  refine ⟨?_, ?_, rfl, ?_⟩
  · rw [← valid_definitionsOf]
    constructor
    · rintro ⟨data, hload⟩
      obtain ⟨⟨hvalid, hkeys, hdistinct⟩, -⟩ := (load_eq_ok h).mp hload
      exact ⟨hvalid, hkeys, hdistinct⟩
    · rintro ⟨hvalid, hkeys, hdistinct⟩
      exact exists_load h ⟨hvalid, hkeys, hdistinct⟩
  · intro data hload
    have hgathers := ((load_eq_ok h).mp hload).2
    refine ⟨fun kind => ?_, hgathers.get?, count_of_load h hload⟩
    obtain ⟨items, hitems, -⟩ := hgathers kind
    exact ⟨items, hitems⟩
  · intro other hperm data
    have hdefinitions : (definitionsOf sections other).Perm
        (definitionsOf sections paths) := hperm.flatMap_right _
    rw [load_eq_ok h, load_eq_ok fun path hm => h path (hperm.subset hm),
      admissible_perm hdefinitions, gathers_perm hdefinitions]

/-- A file with a segment and one with a flag value. -/
def segmentAndValue : FileTree :=
  (FileTree.empty.put ["f"]
    (.file "\x7b\"segments\":\x7b\"a\":\x7b\x7d\x7d\x7d".toUTF8)).put
      ["g"] (.file "\x7b\"flagValues\":\x7b\"b\":1\x7d\x7d".toUTF8)

theorem load_segmentAndValue :
    ∃ sections : Path → Sections,
      (∀ path ∈ [⟨"/f"⟩, ⟨"/g"⟩],
        sectionsAt segmentAndValue [] path = .ok (sections path)) ∧
      ∃ data, load segmentAndValue [] [⟨"/f"⟩, ⟨"/g"⟩] = .ok data ∧
        data.count = 2 ∧
        load segmentAndValue [] [⟨"/g"⟩, ⟨"/f"⟩] = .ok data := by
  have hread : ∀ path ∈ [⟨"/f"⟩, ⟨"/g"⟩], ∃ sections,
      sectionsAt segmentAndValue [] path = .ok sections := by
    have hf : (sectionsAt segmentAndValue [] ⟨"/f"⟩).isOk = true := by decide +kernel
    have hg : (sectionsAt segmentAndValue [] ⟨"/g"⟩).isOk = true := by decide +kernel
    simp only [List.forall_mem_cons, List.not_mem_nil, false_imp_iff,
      implies_true, and_true]
    exact ⟨exists_of_isOk hf, exists_of_isOk hg⟩
  have : Nonempty Sections := ⟨.empty⟩
  choose! sections hsections using hread
  obtain ⟨-, -, -, hperm⟩ := load_disjoint_union hsections
  have hcount : (load segmentAndValue [] [⟨"/f"⟩, ⟨"/g"⟩]).map DataSet.count =
      .ok 2 := by decide +kernel
  cases hload : load segmentAndValue [] [⟨"/f"⟩, ⟨"/g"⟩] with
  | error error =>
      rw [hload] at hcount
      cases hcount
  | ok data =>
      rw [hload] at hcount
      exact ⟨sections, hsections, data, rfl, Except.ok.inj hcount,
        (hperm _ (.swap ..) data).mpr hload⟩

end Files

end VersionedFlags
