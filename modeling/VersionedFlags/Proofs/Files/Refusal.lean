import VersionedFlags.Proofs.Files.Items

/-!
# Which fault refuses a load

A load is refused if some file has a problem, and it reports the problem of the first
such file.  A file has to be read, then parsed, then all its definitions have to be
accepted, and only then is looked at their keys: the first that is empty or that an
earlier file or section has already defined.
-/

namespace VersionedFlags

namespace DataSet

namespace Builder

/-- The places at which the builder has items. -/
def Occupies (builder : Builder) (taken : List (Kind × String)) : Prop :=
  ∀ kind key, builder.contains kind key = true ↔ (kind, key) ∈ taken

theorem occupies_start : start.Occupies [] := by
  intro kind key
  cases kind <;> simp [start, contains, PerKind.const, PerKind.get, KeyMap.contains]

theorem Occupies.add {builder : Builder} {taken : List (Kind × String)}
    (h : builder.Occupies taken) (kind : Kind) (item : Item) :
    (builder.add kind item).Occupies (taken ++ [(kind, item.key)]) := by
  intro other key
  rw [contains_add, Bool.or_eq_true, decide_eq_true_eq, h, List.mem_append,
    List.mem_singleton, or_comm, eq_comm]

end Builder

end DataSet

namespace Files

open DataSet (Builder)

/-! ## Keys that clash -/

/-- Keys that are not empty, each for a place that is neither taken nor met before. -/
structure Fresh (taken places : List (Kind × String)) : Prop where
  keys : ∀ place ∈ places, place.2 ≠ ""
  free : ∀ place ∈ places, place ∉ taken
  distinct : places.Nodup

/-- What refuses the item for a place, in the file at the path. -/
inductive Clashes (path : Path) (taken : List (Kind × String)) :
    Kind × String → LoadError → Prop
  | emptyKey (kind : Kind) :
      Clashes path taken (kind, "") (.invalidItem path ⟨kind, "", .data .emptyKey⟩)
  | duplicate {kind : Kind} {key : String} (hkey : key ≠ "") (h : (kind, key) ∈ taken) :
      Clashes path taken (kind, key) (.duplicateKey path kind key)

variable {builder next : Builder} {taken : List (Kind × String)} {path : Path}
  {error : LoadError}

theorem clashes_iff {kind : Kind} {key : String} :
    Clashes path taken (kind, key) error ↔
      key = "" ∧ error = .invalidItem path ⟨kind, "", .data .emptyKey⟩ ∨
        key ≠ "" ∧ (kind, key) ∈ taken ∧ error = .duplicateKey path kind key := by
  constructor
  · rintro (_ | ⟨hkey, h⟩)
    · exact .inl ⟨rfl, rfl⟩
    · exact .inr ⟨hkey, h, rfl⟩
  · rintro (⟨rfl, rfl⟩ | ⟨hkey, h, rfl⟩)
    · exact .emptyKey kind
    · exact .duplicate hkey h

theorem merge_eq_error (h : builder.Occupies taken) {entry : Kind × Item} :
    merge path builder entry = .error error ↔
      Clashes path taken (placeOf entry) error := by
  obtain ⟨kind, item⟩ := entry
  rw [placeOf, clashes_iff, ← h]
  by_cases hkey : item.key = ""
  · simp [merge, Builder.tryAdd, hkey, Except.mapError, @eq_comm _ error]
  · cases hcontains : builder.contains kind item.key <;>
      simp [merge, Builder.tryAdd, hkey, hcontains, Except.mapError, @eq_comm _ error]

theorem disjoint_iff_fresh (h : builder.Occupies taken)
    {entries : List (Kind × Item)} :
    Disjoint builder entries ↔ Fresh taken (entries.map placeOf) := by
  have hfree : ∀ entry : Kind × Item,
      builder.contains entry.1 entry.2.key = false ↔ placeOf entry ∉ taken := by
    intro entry
    rw [placeOf, ← h, Bool.not_eq_true]
  constructor
  · rintro ⟨hkeys, hfrees, hdistinct⟩
    refine ⟨List.forall_mem_map.mpr hkeys, List.forall_mem_map.mpr ?_, hdistinct⟩
    exact fun entry hm => (hfree entry).mp (hfrees entry hm)
  · rintro ⟨hkeys, hfrees, hdistinct⟩
    have hmem : ∀ entry ∈ entries, placeOf entry ∈ entries.map placeOf :=
      fun entry hm => List.mem_map_of_mem hm
    exact ⟨fun entry hm => hkeys (placeOf entry) (hmem entry hm),
      fun entry hm => (hfree entry).mpr (hfrees (placeOf entry) (hmem entry hm)),
      hdistinct⟩

theorem occupies_addAll (h : builder.Occupies taken) (entries : List (Kind × Item)) :
    (addAll builder entries).Occupies (taken ++ entries.map placeOf) := by
  induction entries generalizing builder taken with
  | nil => simpa [addAll] using h
  | cons entry rest ih =>
      have hrest := ih (h.add entry.1 entry.2)
      rw [List.append_assoc] at hrest
      exact hrest

/-- Items are merged up to the first one that clashes with those before it. -/
theorem foldlM_merge_eq_error (h : builder.Occupies taken)
    {entries : List (Kind × Item)} :
    entries.foldlM (merge path) builder = .error error ↔
      ∃ before place after, entries.map placeOf = before ++ place :: after ∧
        Fresh taken before ∧ Clashes path (taken ++ before) place error := by
  rw [foldlM_eq_error_iff]
  constructor
  · rintro ⟨before, entry, after, middle, rfl, hbefore, hentry⟩
    obtain ⟨hdisjoint, rfl⟩ := foldlM_merge.mp hbefore
    exact ⟨before.map placeOf, placeOf entry, after.map placeOf, by simp,
      (disjoint_iff_fresh h).mp hdisjoint,
      (merge_eq_error (occupies_addAll h before)).mp hentry⟩
  · rintro ⟨places, place, more, hplaces, hfresh, hclash⟩
    obtain ⟨before, rest, rfl, rfl, hrest⟩ := List.map_eq_append_iff.mp hplaces
    obtain ⟨entry, after, rfl, rfl, -⟩ := List.map_eq_cons_iff.mp hrest
    exact ⟨before, entry, after, addAll builder before, rfl,
      foldlM_merge.mpr ⟨(disjoint_iff_fresh h).mpr hfresh, rfl⟩,
      (merge_eq_error (occupies_addAll h before)).mpr hclash⟩

/-! ## Problems of a file -/

/-- The places of the definitions in the order in which they become items. -/
def Sections.places (sections : Sections) : List (Kind × String) :=
  sections.definitions.map Definition.place

/-- The problem of a file, when files before it have defined what is taken. -/
inductive Problem (tree : FileTree) (here : Location)
    (taken : List (Kind × String)) (path : Path) : LoadError → Prop
  | unreadable {fault : Fault} (h : tree.read here path = .error fault) :
      Problem tree here taken path (.unreadable path fault)
  | unparsable {text : String} {fault : TextFault}
      (hread : tree.read here path = .ok text)
      (h : sectionsOfText (.ofPath path) text = .error fault) :
      Problem tree here taken path (.unparsable path fault)
  | invalid {sections : Sections} {before after : List Definition}
      {definition : Definition} {flaw : Flaw}
      (hsections : sectionsAt tree here path = .ok sections)
      (hsplit : sections.definitions = before ++ definition :: after)
      (hbefore : ∀ earlier ∈ before, IsValid earlier.key earlier.value)
      (h : Fails definition.key definition.value flaw) :
      Problem tree here taken path
        (.invalidItem path ⟨definition.kind, definition.key, flaw⟩)
  | clashing {sections : Sections} {before after : List (Kind × String)}
      {place : Kind × String} {error : LoadError}
      (hsections : sectionsAt tree here path = .ok sections)
      (hvalid : sections.IsValid)
      (hsplit : sections.places = before ++ place :: after)
      (hbefore : Fresh taken before)
      (h : Clashes path (taken ++ before) place error) :
      Problem tree here taken path error

variable {tree : FileTree} {here : Location} {sections : Sections}

theorem sectionsAt_eq_error :
    sectionsAt tree here path = .error error ↔
      (∃ fault, tree.read here path = .error fault ∧
        error = .unreadable path fault) ∨
      ∃ text fault, tree.read here path = .ok text ∧
        sectionsOfText (.ofPath path) text = .error fault ∧
        error = .unparsable path fault := by
  unfold sectionsAt parse
  cases tree.read here path with
  | error fault => simp [@eq_comm _ error]
  | ok text =>
      simp only [mapError_ok, ok_bind, reduceCtorEq, false_and, exists_false,
        Except.ok.injEq, false_or]
      cases hparse : sectionsOfText (.ofPath path) text <;>
        simp [hparse, @eq_comm _ error]

theorem map_placeOf_of_items {entries : List (Kind × Item)}
    (h : itemsOfSections path sections = .ok entries) :
    entries.map placeOf = sections.places :=
  (entriesOf_of_mapM (itemsOfSections_eq_ok.mp h)).map_placeOf

/-- A file is refused with its problem. -/
theorem loadFile_eq_error (h : builder.Occupies taken) :
    loadFile tree here builder path = .error error ↔
      Problem tree here taken path error := by
  rw [loadFile_eq]
  constructor
  · intro herror
    cases hsections : sectionsAt tree here path with
    | error found =>
        rw [hsections] at herror
        cases herror
        rcases sectionsAt_eq_error.mp hsections with
          ⟨fault, hread, rfl⟩ | ⟨text, fault, hread, htext, rfl⟩
        · exact .unreadable hread
        · exact .unparsable hread htext
    | ok sections =>
        rw [hsections, ok_bind] at herror
        cases hitems : itemsOfSections path sections with
        | error found =>
            rw [hitems] at herror
            cases herror
            obtain ⟨before, definition, after, flaw, hsplit, hbefore, hfails, rfl⟩ :=
              itemsOfSections_eq_error.mp hitems
            exact .invalid hsections hsplit hbefore hfails
        | ok entries =>
            rw [hitems, ok_bind] at herror
            obtain ⟨before, place, after, hsplit, hbefore, hclash⟩ :=
              (foldlM_merge_eq_error h).mp herror
            rw [map_placeOf_of_items hitems] at hsplit
            exact .clashing hsections (exists_itemsOfSections.mp ⟨entries, hitems⟩)
              hsplit hbefore hclash
  · intro hproblem
    cases hproblem with
    | unreadable hread =>
        rw [sectionsAt_eq_error.mpr (.inl ⟨_, hread, rfl⟩), error_bind]
    | unparsable hread htext =>
        rw [sectionsAt_eq_error.mpr (.inr ⟨_, _, hread, htext, rfl⟩), error_bind]
    | invalid hsections hsplit hbefore hfails =>
        rw [hsections, ok_bind, itemsOfSections_eq_error.mpr
          ⟨_, _, _, _, hsplit, hbefore, hfails, rfl⟩, error_bind]
    | clashing hsections hvalid hsplit hbefore hclash =>
        obtain ⟨entries, hitems⟩ : ∃ entries, itemsOfSections path _ = .ok entries :=
          exists_itemsOfSections.mpr hvalid
        rw [← map_placeOf_of_items hitems] at hsplit
        rw [hsections, ok_bind, hitems, ok_bind]
        exact (foldlM_merge_eq_error h).mpr ⟨_, _, _, hsplit, hbefore, hclash⟩

/-! ## Problems of a load -/

/-- The places that a file defines, as far as it can be read and parsed. -/
def placesAt (tree : FileTree) (here : Location) (path : Path) :
    List (Kind × String) :=
  match sectionsAt tree here path with
  | .ok sections => sections.places
  | .error _ => []

/-- The problem of a file of a load, given the files before it. -/
abbrev ProblemBehind (tree : FileTree) (here : Location) (before : List Path)
    (path : Path) (error : LoadError) : Prop :=
  Problem tree here (before.flatMap (placesAt tree here)) path error

theorem occupies_loadFile (h : builder.Occupies taken)
    (hfile : loadFile tree here builder path = .ok next) :
    next.Occupies (taken ++ placesAt tree here path) := by
  rw [loadFile_eq] at hfile
  obtain ⟨sections, hsections, hfile⟩ := exists_of_bind_eq_ok hfile
  obtain ⟨entries, hitems, hfile⟩ := exists_of_bind_eq_ok hfile
  obtain ⟨-, rfl⟩ := foldlM_merge.mp hfile
  have hplaces : placesAt tree here path = entries.map placeOf := by
    simp only [placesAt, hsections, map_placeOf_of_items hitems]
  rw [hplaces]
  exact occupies_addAll h entries

theorem occupies_foldlM (h : builder.Occupies taken) {paths : List Path}
    (hload : paths.foldlM (loadFile tree here) builder = .ok next) :
    next.Occupies (taken ++ paths.flatMap (placesAt tree here)) := by
  induction paths generalizing builder taken with
  | nil =>
      cases hload
      simpa using h
  | cons path rest ih =>
      rw [List.foldlM_cons] at hload
      obtain ⟨middle, hfile, hrest⟩ := exists_of_bind_eq_ok hload
      have hnext := ih (occupies_loadFile h hfile) hrest
      rw [List.append_assoc] at hnext
      exact hnext

theorem loadFile_behind {before : List Path}
    (h : before.foldlM (loadFile tree here) .start = .ok builder) :
    loadFile tree here builder path = .error error ↔
      ProblemBehind tree here before path error :=
  loadFile_eq_error (occupies_foldlM Builder.occupies_start h)

/-- All files are merged unless one of them has a problem. -/
theorem exists_foldlM_iff {paths : List Path} :
    (∃ builder, paths.foldlM (loadFile tree here) .start = .ok builder) ↔
      ∀ before path after, paths = before ++ path :: after →
        ∀ error, ¬ ProblemBehind tree here before path error := by
  constructor
  · rintro ⟨builder, hload⟩ before path after rfl error hproblem
    rw [List.foldlM_append] at hload
    obtain ⟨middle, hbefore, hload⟩ := exists_of_bind_eq_ok hload
    rw [List.foldlM_cons, (loadFile_behind hbefore).mpr hproblem] at hload
    cases hload
  · intro hnone
    cases hload : paths.foldlM (loadFile tree here) .start with
    | ok builder => exact ⟨builder, rfl⟩
    | error error =>
        obtain ⟨before, path, after, middle, hpaths, hbefore, hpath⟩ :=
          foldlM_eq_error_iff.mp hload
        exact absurd ((loadFile_behind hbefore).mp hpath)
          (hnone before path after hpaths error)

theorem load_eq_error {paths : List Path} :
    load tree here paths = .error error ↔
      paths.foldlM (loadFile tree here) .start = .error error := by
  unfold load
  cases paths.foldlM (loadFile tree here) .start with
  | error found => simp
  | ok builder => simp [pure, Except.pure]

/-- A load fails if some file has a problem, given the files before it, and it
reports the problem of the first file that has one. -/
theorem load_reports_first_problem (tree : FileTree) (here : Location)
    (paths : List Path) :
    ((∃ error, load tree here paths = .error error) ↔
      ∃ before path after error, paths = before ++ path :: after ∧
        ProblemBehind tree here before path error) ∧
    (∀ error, load tree here paths = .error error ↔
      ∃ before path after, paths = before ++ path :: after ∧
        (∀ first other rest, before = first ++ other :: rest →
          ∀ error, ¬ ProblemBehind tree here first other error) ∧
        ProblemBehind tree here before path error) ∧
    (Flaw.data .emptyKey).message = "item key must not be empty" := by
  have hfirst : ∀ error, load tree here paths = .error error ↔
      ∃ before path after, paths = before ++ path :: after ∧
        (∀ first other rest, before = first ++ other :: rest →
          ∀ error, ¬ ProblemBehind tree here first other error) ∧
        ProblemBehind tree here before path error := by
    intro error
    rw [load_eq_error, foldlM_eq_error_iff]
    constructor
    · rintro ⟨before, path, after, middle, hpaths, hbefore, hpath⟩
      exact ⟨before, path, after, hpaths, exists_foldlM_iff.mp ⟨middle, hbefore⟩,
        (loadFile_behind hbefore).mp hpath⟩
    · rintro ⟨before, path, after, hpaths, hnone, hproblem⟩
      obtain ⟨middle, hbefore⟩ := exists_foldlM_iff.mpr hnone
      exact ⟨before, path, after, middle, hpaths, hbefore,
        (loadFile_behind hbefore).mpr hproblem⟩
  refine ⟨⟨?_, ?_⟩, hfirst, rfl⟩
  · rintro ⟨error, hload⟩
    obtain ⟨before, path, after, hpaths, -, hproblem⟩ := (hfirst error).mp hload
    exact ⟨before, path, after, error, hpaths, hproblem⟩
  · rintro ⟨before, path, after, error, hpaths, hproblem⟩
    cases hload : paths.foldlM (loadFile tree here) .start with
    | error found => exact ⟨found, load_eq_error.mpr hload⟩
    | ok builder =>
        exact absurd hproblem
          (exists_foldlM_iff.mp ⟨builder, hload⟩ before path after hpaths error)

end Files

end VersionedFlags
