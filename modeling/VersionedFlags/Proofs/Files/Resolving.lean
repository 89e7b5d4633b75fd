import VersionedFlags.Files.Watching
import VersionedFlags.Proofs.Files.PathOrder
import VersionedFlags.Proofs.Files.Walking

/-!
# What paths are watched as

A path is watched as the entry that it names: the canonical path of the directory with
the name in it.  How the path is spelled does not matter.  A path of dots and slashes
alone has no name; it is watched as the current directory.
-/

namespace VersionedFlags

namespace Files

open FileTree (pathOf Sound)
open Files.Path (Proper isSpare bare ofSegments)

/-! ## Directories of paths -/

/-- The path of the directory that holds what a path names, as it is written. -/
def Path.directory? (path : Path) : Option Path :=
  path.parent?.map fun parent => if parent.text = "" then ⟨"."⟩ else parent

theorem text_pathOf_ne_empty (location : Location) : (pathOf location).text ≠ "" := by
  by_cases hne : location = []
  · rw [hne]
    decide
  · rw [FileTree.text_pathOf hne]
    simp

/-- The segments in front of a name without those that are spare at their end, or else
the current directory. -/
def directorySegments (front : List String) : List String :=
  if bare front = [] then ["."] else bare front

variable {tree : FileTree} {here location : Location} {path resolved : Path}
  {first name : String} {front spares : List String}

theorem cons_bare (h : first ≠ "") (front : List String) :
    first :: bare front = directorySegments (first :: front) := by
  have happend : bare (first :: front) =
      if bare front = [] then bare [first] else first :: bare front :=
    Path.bare_append [first] front
  rw [directorySegments, happend]
  by_cases hfront : bare front = []
  · simp only [hfront, if_true]
    by_cases hfirst : isSpare first
    · obtain rfl : first = "." := (Path.isSpare_iff.mp hfirst).resolve_left h
      rw [Path.bare_of_spare (List.forall_mem_singleton.mpr hfirst), if_pos rfl]
    · have hkept : bare [first] = [first] := Path.bare_concat [] hfirst
      rw [hkept, if_neg (by simp)]
  · simp [hfront]

theorem plain_directorySegments (h : ∀ segment ∈ front, Path.Plain segment) :
    ∀ segment ∈ directorySegments front, Path.Plain segment := by
  unfold directorySegments
  split
  · exact List.forall_mem_singleton.mpr (by simp [Path.Plain])
  · intro segment hm
    exact h segment ((List.rdropWhile_prefix _ front).subset hm)

/-- The directory of a relative path, by its segments. -/
theorem exists_directory?_relative (hpath : ¬ path.isAbsolute)
    (hsegments : path.segments = front ++ name :: spares)
    (hname : Path.component? name = some (.name name))
    (hspares : ∀ segment ∈ spares, isSpare segment) :
    ∃ directory, path.directory? = some directory ∧
      directory.segments = directorySegments front ∧ ¬ directory.isAbsolute ∧
      directory.text ≠ "" := by
  have hkept := Path.not_isSpare_of_component hname
  cases front with
  | nil =>
      have hne : name ≠ "" := fun hempty => hkept (Path.isSpare_iff.mpr (.inl hempty))
      refine ⟨⟨"."⟩, ?_, rfl, Path.not_isAbsolute_of_cons rfl (by decide), by decide⟩
      rw [Path.directory?, Path.parent?_of_spare hsegments hspares, if_neg hne]
      rfl
  | cons first front =>
      have hfirst : first ≠ "" := by
        rintro rfl
        exact hpath (Path.isAbsolute_iff.mpr ⟨_, by simp, hsegments⟩)
      have hplain := plain_directorySegments fun segment hm =>
        Path.plain_of_mem_segments (hsegments ▸ List.mem_append_left _ hm)
      rw [← cons_bare hfirst] at hplain ⊢
      have hdirectory : (ofSegments (first :: bare front)).segments = first :: bare front :=
        Path.segments_ofSegments (List.cons_ne_nil _ _) (by simp [hfirst]) hplain
      have hempty := Path.text_ne_empty_of_cons hdirectory hfirst
      refine ⟨_, ?_, hdirectory, Path.not_isAbsolute_of_cons hdirectory hfirst, hempty⟩
      rw [Path.directory?, Path.parent?_eq_some hsegments hkept hspares, Option.map_some,
        if_neg hempty]

/-- The directory of an absolute path is its parent. -/
theorem parent?_of_isAbsolute {directory : Path} (hpath : path.isAbsolute)
    (hname : path.fileName? = some name) (hdirectory : path.directory? = some directory) :
    path.parent? = some directory := by
  obtain ⟨rest, -, hrest⟩ := Path.isAbsolute_iff.mp hpath
  obtain ⟨front, spares, hsegments, hcomponent, hspares⟩ :=
    Path.exists_front_of_fileName? hname
  have hkept := Path.not_isSpare_of_component hcomponent
  cases front with
  | nil =>
      rw [hsegments] at hrest
      exact absurd (Path.isSpare_iff.mpr (.inl (List.cons.inj hrest).1)) hkept
  | cons first front =>
      obtain rfl : first = "" := by
        rw [hsegments] at hrest
        exact (List.cons.inj hrest).1
      have hparent := Path.parent?_eq_some hsegments hkept hspares
      have hempty : (ofSegments ("" :: bare front)).text ≠ "" := text_pathOf_ne_empty _
      rw [Path.directory?, hparent, Option.map_some, if_neg hempty,
        Option.some.injEq] at hdirectory
      rw [hparent, hdirectory]

theorem exists_directory? (hname : path.fileName? = some name) :
    ∃ directory, path.directory? = some directory := by
  obtain ⟨front, spares, hsegments, hcomponent, hspares⟩ :=
    Path.exists_front_of_fileName? hname
  have hkept := Path.not_isSpare_of_component hcomponent
  cases front with
  | nil =>
      have hne : name ≠ "" := fun hempty => hkept (Path.isSpare_iff.mpr (.inl hempty))
      exact ⟨_, by rw [Path.directory?, Path.parent?_of_spare hsegments hspares,
        if_neg hne]; rfl⟩
  | cons first front =>
      exact ⟨_, by rw [Path.directory?, Path.parent?_eq_some hsegments hkept hspares]; rfl⟩

/-! ## Resolving -/

theorem canonical_congr {other : Path}
    (h : tree.locate here path = tree.locate here other) :
    tree.canonical here path = tree.canonical here other := by
  rw [FileTree.canonical, FileTree.canonical, h]

theorem locate_dot {dot : Path} (hhere : tree.at? here = some .directory)
    (h : dot.segments = ["."]) :
    tree.locate here dot = .ok here := by
  have hnul : '\x00' ∉ dot.text.toList := by
    rw [Path.mem_text_iff (by decide), h]
    decide
  refine FileTree.locate_eq_ok.mpr ⟨hnul, Path.text_ne_empty_of_cons h (by decide), ?_⟩
  rw [FileTree.startOf_of_relative (Path.not_isAbsolute_of_cons h (by decide)), h]
  exact .step (.spare hhere (Path.isSpare_iff.mpr (.inr rfl))) .done

section Sound

variable (hsound : tree.Sound) (hhere : tree.at? here = some .directory)

include hsound hhere

/-- Joined to the current directory, a relative path has its name and a directory that
leads where its own does. -/
theorem exists_parent?_join (hpath : ¬ path.isAbsolute)
    (hsegments : path.segments = front ++ name :: spares)
    (hname : Path.component? name = some (.name name))
    (hspares : ∀ segment ∈ spares, isSpare segment) {directory : Path}
    (hdirectory : path.directory? = some directory) :
    ∃ parent, ((pathOf here).join path).parent? = some parent ∧
      ((pathOf here).join path).fileName? = some name ∧
      tree.locate here parent = tree.locate here directory := by
  have hkept := Path.not_isSpare_of_component hname
  have hproper := hsound.proper hhere
  obtain ⟨_, hsame, hspelled, hrelative, hempty⟩ :=
    exists_directory?_relative hpath hsegments hname hspares
  rw [hdirectory, Option.some.injEq] at hsame
  subst hsame
  have hjoined : ((pathOf here).join path).segments =
      "" :: ((here ++ front) ++ name :: spares) := by
    rw [FileTree.segments_join hproper hpath, hsegments, List.append_assoc]
  have hbare : bare (here ++ front) = here ++ bare front := by
    rw [Path.bare_append, Path.bare_of_proper hproper]
    split
    · rename_i hfront
      rw [hfront, List.append_nil]
    · rfl
  refine ⟨_, Path.parent?_eq_some hjoined hkept hspares, ?_, ?_⟩
  · rw [Path.fileName?_eq_some hjoined hkept hspares, hname]
    rfl
  · rw [hbare]
    by_cases hfront : bare front = []
    · rw [directorySegments, if_pos hfront] at hspelled
      rw [locate_dot hhere hspelled, hfront, List.append_nil]
      exact hsound.locate_pathOf hhere (FileTree.clear_of_directory hhere)
    · rw [directorySegments, if_neg hfront] at hspelled
      have hplain : ∀ segment ∈ "" :: (here ++ bare front), Path.Plain segment := by
        refine List.forall_mem_cons.mpr ⟨by simp [Path.Plain], ?_⟩
        refine List.forall_mem_append.mpr ⟨fun name hm => (hproper name hm).plain, ?_⟩
        rw [← hspelled]
        exact fun segment => Path.plain_of_mem_segments
      refine hsound.locate_join hhere hrelative hempty ?_
      rw [hspelled]
      exact Path.segments_ofSegments (List.cons_ne_nil _ _) (by simp [hfront]) hplain

/-- A path with a file name is watched as the name in the directory of the path. -/
theorem resolve_of_fileName? {directory : Path} (hname : path.fileName? = some name)
    (hdirectory : path.directory? = some directory) :
    resolve tree here path =
      match tree.canonical here directory with
      | .ok found => .ok (found.join ⟨name⟩)
      | .error fault => .error (.unresolvable path fault) := by
  have hparent : ∃ parent, ((pathOf here).join path).parent? = some parent ∧
      ((pathOf here).join path).fileName? = some name ∧
      tree.locate here parent = tree.locate here directory := by
    by_cases hpath : path.isAbsolute
    · rw [FileTree.join_of_isAbsolute hpath]
      exact ⟨directory, parent?_of_isAbsolute hpath hname hdirectory, hname, rfl⟩
    · obtain ⟨front, spares, hsegments, hcomponent, hspares⟩ :=
        Path.exists_front_of_fileName? hname
      exact exists_parent?_join hsound hhere hpath hsegments hcomponent hspares hdirectory
  obtain ⟨parent, hparent, hjoined, hlocate⟩ := hparent
  cases hfound : tree.canonical here directory <;>
    simp only [resolve, hparent, hjoined, canonical_congr hlocate, hfound]

/-- A path without a file name that is watched is one of dots and slashes, and it is
watched as the current directory. -/
theorem resolve_nameless (hname : path.fileName? = none)
    (h : resolve tree here path = .ok resolved) :
    (∀ segment ∈ path.segments, isSpare segment) ∧
      ∃ location name, here = location ++ [name] ∧ resolved = pathOf here := by
  have hproper := hsound.proper hhere
  have hrelative : ¬ path.isAbsolute := by
    intro hpath
    simp [resolve, FileTree.join_of_isAbsolute hpath, hname] at h
  have hjoined := FileTree.segments_join hproper hrelative
  rcases Path.exists_last_kept path.segments with hspares |
    ⟨front, last, spares, hsegments, hlast, hspares⟩
  · refine ⟨hspares, ?_⟩
    rcases List.eq_nil_or_concat' here with rfl | ⟨location, name, rfl⟩
    · have hparent := Path.parent?_of_spare hjoined (by simpa using hspares)
      simp [resolve, hparent] at h
    · refine ⟨location, name, rfl, ?_⟩
      have hname := hproper name (by simp)
      have hlocation : ∀ name ∈ location, Proper name := fun name hm =>
        hproper name (List.mem_append_left _ hm)
      have hheld := hsound.held _ _ _ hhere
      rw [List.append_assoc, List.singleton_append] at hjoined
      have hfile := Path.fileName?_eq_some hjoined hname.not_isSpare hspares
      have hparent : ((pathOf (location ++ [name])).join path).parent? =
          some (pathOf location) := by
        rw [Path.parent?_eq_some hjoined hname.not_isSpare hspares,
          Path.bare_of_proper hlocation]
        rfl
      rw [hname.component] at hfile
      have hcanonical := @Sound.canonical_pathOf tree (location ++ [name]) location hsound _
        hheld (FileTree.clear_of_directory hheld)
      simp only [resolve, hparent, hfile, Option.bind_some, Path.nameOf?, hcanonical,
        FileTree.join_name hlocation hname, Except.ok.injEq] at h
      exact h.symm
  · rw [Path.fileName?_eq_bind hsegments hlast hspares] at hname
    rw [hsegments, ← List.append_assoc] at hjoined
    have hfile := Path.fileName?_eq_some hjoined hlast hspares
    rw [hname] at hfile
    simp [resolve, hfile] at h

theorem resolve_pathOf {entry : Entry} (hentry : tree.at? location = some entry)
    (hclear : tree.Clear location) (hname : Proper name) :
    resolve tree here (pathOf (location ++ [name])) =
      .ok (pathOf (location ++ [name])) := by
  have hproper := hsound.proper hentry
  have hempty := text_pathOf_ne_empty location
  have hdirectory : (pathOf (location ++ [name])).directory? = some (pathOf location) := by
    rw [Path.directory?, FileTree.parent?_pathOf hproper hname, Option.map_some,
      if_neg hempty]
  rw [resolve_of_fileName? hsound hhere (FileTree.fileName?_pathOf hproper hname)
    hdirectory, hsound.canonical_pathOf hentry hclear]
  exact congrArg Except.ok (FileTree.join_name hproper hname)

/-- A path that is watched is watched at a name in a location that is no link. -/
theorem exists_location (h : resolve tree here path = .ok resolved) :
    ∃ location name entry, tree.at? location = some entry ∧ tree.Clear location ∧
      Proper name ∧ resolved = pathOf (location ++ [name]) ∧
      ∀ own, path.fileName? = some own → own = name := by
  cases hname : path.fileName? with
  | none =>
      obtain ⟨-, location, name, rfl, rfl⟩ := resolve_nameless hsound hhere hname h
      have hheld := hsound.held _ _ _ hhere
      exact ⟨location, name, .directory, hheld, FileTree.clear_of_directory hheld,
        hsound.proper hhere name (by simp), rfl, nofun⟩
  | some name =>
      obtain ⟨directory, hdirectory⟩ := exists_directory? hname
      obtain ⟨front, spares, hsegments, hcomponent, -⟩ :=
        Path.exists_front_of_fileName? hname
      have hproper := Path.proper_of_segments hsegments hcomponent
      rw [resolve_of_fileName? hsound hhere hname hdirectory] at h
      cases hcanonical : tree.canonical here directory with
      | error fault => simp [hcanonical] at h
      | ok found =>
          obtain ⟨location, entry, hlocate, hentry, rfl⟩ :=
            FileTree.canonical_eq_ok.mp hcanonical
          simp only [hcanonical, Except.ok.injEq,
            FileTree.join_name (hsound.proper hentry) hproper] at h
          exact ⟨location, name, entry, hentry, hsound.clear_of_locate hhere hlocate,
            hproper, h.symm, fun own hown => (Option.some.inj hown).symm⟩

/-! ## Spellings of an entry -/

theorem isAbsolute_join : ((pathOf here).join path).isAbsolute := by
  by_cases hpath : path.isAbsolute
  · rwa [FileTree.join_of_isAbsolute hpath]
  · exact Path.isAbsolute_iff.mpr ⟨_, by simp [Path.segments_ne_nil],
      FileTree.segments_join (hsound.proper hhere) hpath⟩

end Sound

/-- As it is written or made absolute, the path is a name in a directory that has the
canonical path. -/
def Spells (tree : FileTree) (here : Location) (path directory : Path) (name : String) :
    Prop :=
  ∃ form ∈ [path, (pathOf here).join path], form.fileName? = some name ∧
    ∃ own, form.directory? = some own ∧ tree.canonical here own = .ok directory

theorem resolve_of_spells (hsound : tree.Sound) (hhere : tree.at? here = some .directory)
    {directory : Path} (h : Spells tree here path directory name) :
    resolve tree here path = .ok (directory.join ⟨name⟩) := by
  obtain ⟨form, hm, hname, own, hown, hcanonical⟩ := h
  rcases List.mem_cons.mp hm with rfl | hm
  · rw [resolve_of_fileName? hsound hhere hname hown, hcanonical]
  · obtain rfl := List.mem_singleton.mp hm
    have hparent := parent?_of_isAbsolute (isAbsolute_join hsound hhere) hname hown
    simp only [resolve, hparent, hname, hcanonical]

/-! ## Watch lists -/

variable {files : List Path} {watch : WatchList}

theorem create_eq_ok (h : WatchList.create tree here files = .ok watch) :
    ∃ found, files.mapM (resolve tree here) = .ok found ∧ watch = .ofFiles found := by
  obtain ⟨found, hfound, h⟩ := exists_of_bind_eq_ok h
  cases h
  exact ⟨found, hfound, rfl⟩

theorem mem_found {found : List Path} (hfound : files.mapM (resolve tree here) = .ok found) :
    resolved ∈ found ↔ ∃ file ∈ files, resolve tree here file = .ok resolved := by
  constructor
  · exact exists_of_mem_mapM hfound
  · rintro ⟨file, hm, hresolve⟩
    obtain ⟨other, hother, hsame⟩ := exists_mem_of_mapM hfound hm
    rw [hresolve] at hsame
    cases hsame
    exact hother

theorem mem_files (h : WatchList.create tree here files = .ok watch) :
    resolved ∈ watch.files ↔ ∃ file ∈ files, resolve tree here file = .ok resolved := by
  obtain ⟨found, hfound, rfl⟩ := create_eq_ok h
  rw [WatchList.ofFiles, List.mem_eraseDups, mem_found hfound]

theorem mem_parents {found : List Path} (hfound : files.mapM (resolve tree here) = .ok found)
    {directory : Path} :
    directory ∈ found.filterMap Path.parent? ↔ ∃ file ∈ files, ∃ resolved,
      resolve tree here file = .ok resolved ∧ resolved.parent? = some directory := by
  simp only [List.mem_filterMap, mem_found hfound]
  constructor
  · rintro ⟨resolved, ⟨file, hfile, hresolve⟩, hparent⟩
    exact ⟨file, hfile, resolved, hresolve, hparent⟩
  · rintro ⟨file, hfile, resolved, hresolve, hparent⟩
    exact ⟨resolved, ⟨file, hfile, hresolve⟩, hparent⟩

/-- The directory of a path that is watched has one spelling. -/
theorem exists_location_of_parent (hsound : tree.Sound)
    (hhere : tree.at? here = some .directory) {directory : Path}
    (hresolve : resolve tree here path = .ok resolved)
    (hparent : resolved.parent? = some directory) :
    ∃ location, (∀ name ∈ location, Proper name) ∧ directory = pathOf location := by
  obtain ⟨location, name, entry, hentry, -, hname, rfl, -⟩ :=
    exists_location hsound hhere hresolve
  have hproper := hsound.proper hentry
  rw [FileTree.parent?_pathOf hproper hname, Option.some.injEq] at hparent
  exact ⟨location, hproper, hparent.symm⟩

theorem mem_directories (hsound : tree.Sound) (hhere : tree.at? here = some .directory)
    (h : WatchList.create tree here files = .ok watch) {directory : Path} :
    directory ∈ watch.directories ↔ ∃ file ∈ files, ∃ resolved,
      resolve tree here file = .ok resolved ∧ resolved.parent? = some directory := by
  obtain ⟨found, hfound, rfl⟩ := create_eq_ok h
  have hone : ∀ directory ∈ found.filterMap Path.parent?,
      ∀ other ∈ found.filterMap Path.parent?,
        directory.components = other.components → directory = other := by
    intro directory hm other hother hsame
    obtain ⟨_, -, _, hresolve, hparent⟩ := (mem_parents hfound).mp hm
    obtain ⟨location, hproper, rfl⟩ :=
      exists_location_of_parent hsound hhere hresolve hparent
    obtain ⟨_, -, _, hresolve, hparent⟩ := (mem_parents hfound).mp hother
    obtain ⟨another, hanother, rfl⟩ :=
      exists_location_of_parent hsound hhere hresolve hparent
    rw [FileTree.eq_of_components hproper hanother hsame]
  rw [WatchList.ofFiles, Path.mem_inOrder hone, mem_parents hfound]

theorem isRelevant_iff {event : Event} :
    watch.isRelevant event = true ↔ event.change ≠ .other ∧
      ∃ changed ∈ event.paths, ∃ resolved ∈ watch.files,
        changed.components = resolved.components := by
  simp [WatchList.isRelevant, WatchList.contains, Path.same]

theorem ordered_directories (h : WatchList.create tree here files = .ok watch) :
    watch.directories.Pairwise (· < ·) := by
  obtain ⟨found, -, rfl⟩ := create_eq_ok h
  exact Path.ordered_inOrder _

/-- Every path that is watched is known by an absolute path, which is the canonical path
of a directory with a name in it and is watched as itself.  The name is that of the
path, unless the path is one of dots and slashes alone.  Paths that spell the same name
in the same directory are the same to the watch; the directories of all files are
watched, each once, and a change matters to the watch by the components of its paths. -/
theorem resolve_identifies_entries (hsound : tree.Sound)
    (hhere : tree.at? here = some .directory) :
    (∀ path resolved, resolve tree here path = .ok resolved →
      resolved.isAbsolute ∧
      (∃ directory, resolved.parent? = some directory ∧
        tree.canonical here directory = .ok directory) ∧
      (∀ name, path.fileName? = some name → resolved.fileName? = some name) ∧
      (path.fileName? = none →
        (∀ segment ∈ path.segments, segment = "" ∨ segment = ".") ∧
          resolved = pathOf here) ∧
      resolve tree here resolved = .ok resolved) ∧
    (∀ path other directory name, Spells tree here path directory name →
      Spells tree here other directory name →
      resolve tree here path = resolve tree here other) ∧
    ∀ files watch, WatchList.create tree here files = .ok watch →
      (watch.directories.map Path.components).Nodup ∧
      (∀ directory, directory ∈ watch.directories ↔ ∃ file ∈ files, ∃ resolved,
        resolve tree here file = .ok resolved ∧ resolved.parent? = some directory) ∧
      ∀ event, watch.isRelevant event = true ↔
        event.change ∈ [.create, .modify, .remove] ∧
          ∃ changed ∈ event.paths, ∃ file ∈ files, ∃ resolved,
            resolve tree here file = .ok resolved ∧
              changed.components = resolved.components := by
  refine ⟨fun path resolved h => ?_, fun path other directory name h hother => ?_,
    fun files watch h => ⟨?_, fun _ => mem_directories hsound hhere h, fun event => ?_⟩⟩
  · obtain ⟨location, name, entry, hentry, hclear, hname, rfl, hown⟩ :=
      exists_location hsound hhere h
    have hproper := hsound.proper hentry
    refine ⟨FileTree.isAbsolute_pathOf (Path.proper_concat hproper hname), ⟨pathOf location,
      FileTree.parent?_pathOf hproper hname, hsound.canonical_pathOf hentry hclear⟩,
      fun own hfile => ?_, fun hnone => ?_, resolve_pathOf hsound hhere hentry hclear hname⟩
    · rw [hown own hfile]
      exact FileTree.fileName?_pathOf hproper hname
    · obtain ⟨hspares, _, _, -, hresolved⟩ := resolve_nameless hsound hhere hnone h
      exact ⟨fun segment hm => Path.isSpare_iff.mp (hspares segment hm), hresolved⟩
  · rw [resolve_of_spells hsound hhere h, resolve_of_spells hsound hhere hother]
  · exact List.pairwise_map.mpr ((ordered_directories h).imp Path.ne_of_lt)
  · have hchange : event.change ≠ .other ↔ event.change ∈ [.create, .modify, .remove] := by
      cases event.change <;> decide
    simp only [isRelevant_iff, hchange, mem_files h]
    constructor
    · rintro ⟨hkind, changed, hm, resolved, ⟨file, hfile, hresolve⟩, hsame⟩
      exact ⟨hkind, changed, hm, file, hfile, resolved, hresolve, hsame⟩
    · rintro ⟨hkind, changed, hm, file, hfile, resolved, hresolve, hsame⟩
      exact ⟨hkind, changed, hm, resolved, ⟨file, hfile, hresolve⟩, hsame⟩

/-- A directory and a file in it, with a link to each beside the directory. -/
def linkedTree : FileTree :=
  ((((FileTree.empty.put ["work"] .directory).put ["work", "data"] .directory).put
    ["work", "data", "real.json"] (.file "\x7b\x7d".toUTF8)).put
    ["work", "link"] (.link ⟨"data"⟩)).put
    ["work", "f.json"] (.link ⟨"data/real.json"⟩)

theorem sound_linkedTree : linkedTree.Sound := by
  refine @Sound.put _ ["work"] ?_ "f.json" _ (by decide +kernel) (by decide +kernel)
    (by decide +kernel)
  refine @Sound.put _ ["work"] ?_ "link" _ (by decide +kernel) (by decide +kernel)
    (by decide +kernel)
  refine @Sound.put _ ["work", "data"] ?_ "real.json" _ (by decide +kernel)
    (by decide +kernel) (by decide +kernel)
  refine @Sound.put _ ["work"] ?_ "data" _ (by decide +kernel) (by decide +kernel)
    (by decide +kernel)
  exact @Sound.put _ [] FileTree.sound_empty "work" _ (by decide +kernel)
    (by decide +kernel) (by decide +kernel)

theorem resolve_through_link :
    linkedTree.at? ["work"] = some .directory ∧
    resolve linkedTree ["work"] ⟨"./link//real.json"⟩ = .ok ⟨"/work/data/real.json"⟩ ∧
    resolve linkedTree ["work"] ⟨"/work/data/real.json"⟩ = .ok ⟨"/work/data/real.json"⟩ ∧
    resolve linkedTree ["work"] ⟨"data/../link/./real.json/"⟩ =
      resolve linkedTree ["work"] ⟨"./link//real.json"⟩ ∧
    ∃ watch, WatchList.create linkedTree ["work"]
        [⟨"./link//real.json"⟩, ⟨"/work/data/other.json"⟩] = .ok watch ∧
      watch.directories = [⟨"/work/data"⟩] ∧
      watch.isRelevant ⟨.modify, [⟨"/work//data/real.json"⟩]⟩ = true := by
  have hhere : linkedTree.at? ["work"] = some .directory := by decide +kernel
  have hresolve : resolve linkedTree ["work"] ⟨"./link//real.json"⟩ =
      .ok ⟨"/work/data/real.json"⟩ := by
    decide +kernel
  have hspells : ∀ path ∈ [Path.mk "data/../link/./real.json/", ⟨"./link//real.json"⟩],
      Spells linkedTree ["work"] path ⟨"/work/data"⟩ "real.json" := by
    refine List.forall_mem_cons.mpr ⟨?_, List.forall_mem_singleton.mpr ?_⟩
    · exact ⟨_, List.mem_cons_self, by decide +kernel, ⟨"data/../link"⟩, by decide +kernel,
        by decide +kernel⟩
    · exact ⟨_, List.mem_cons_self, by decide +kernel, ⟨"./link"⟩, by decide +kernel,
        by decide +kernel⟩
  have hcreate : WatchList.create linkedTree ["work"]
      [⟨"./link//real.json"⟩, ⟨"/work/data/other.json"⟩] =
        .ok ⟨[⟨"/work/data/real.json"⟩, ⟨"/work/data/other.json"⟩], [⟨"/work/data"⟩]⟩ := by
    decide +kernel
  obtain ⟨hall, hsame, hwatch⟩ := resolve_identifies_entries sound_linkedTree hhere
  obtain ⟨-, -, -, -, hagain⟩ := hall _ _ hresolve
  obtain ⟨-, -, hrelevant⟩ := hwatch _ _ hcreate
  refine ⟨hhere, hresolve, hagain, hsame _ _ _ _ (hspells _ List.mem_cons_self)
    (hspells _ (List.mem_cons_of_mem _ List.mem_cons_self)), _, hcreate, rfl, ?_⟩
  exact (hrelevant _).mpr ⟨by decide, _, List.mem_cons_self, _, List.mem_cons_self, _,
    hresolve, by decide +kernel⟩

/-- A dot has no file name, and yet it is watched, by the name of the current
directory. -/
theorem resolve_dot :
    linkedTree.Sound ∧ linkedTree.at? ["work"] = some .directory ∧
      Path.fileName? ⟨"."⟩ = none ∧
      resolve linkedTree ["work"] ⟨"."⟩ = .ok ⟨"/work"⟩ ∧
      Path.fileName? ⟨"/work"⟩ = some "work" :=
  ⟨sound_linkedTree, by decide +kernel, by decide +kernel, by decide +kernel,
    by decide +kernel⟩

end Files

end VersionedFlags
