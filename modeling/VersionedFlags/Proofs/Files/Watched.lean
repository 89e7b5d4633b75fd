import VersionedFlags.Proofs.Files.Resolving

/-!
# What is read and what is watched

A file is read through every link on its path, the last one included.  What is watched
is the entry that the path names, in the directory to which the rest of the path leads.
Both are the same file unless that entry is itself a link.
-/

namespace VersionedFlags

namespace Files

open FileTree (pathOf Sound Leads linkLimit startOf)
open Files.Path (isSpare bare ofSegments)

variable {tree : FileTree} {here start holder location : Location} {path : Path}
  {name text : String} {front spares : List String} {links : Nat} {content : ByteArray}

/-! ## Parents -/

/-- The parent of a path starts where the path does and leads where the segments in
front of the name lead. -/
theorem exists_parent? (hsegments : path.segments = front ++ name :: spares)
    (hname : Path.component? name = some (.name name))
    (hspares : ∀ segment ∈ spares, isSpare segment)
    (hstart : tree.at? start = some .directory)
    (hfront : Leads tree links start front holder) :
    ∃ parent, path.parent? = some parent ∧ Leads tree links start parent.segments holder ∧
      (∀ segment ∈ parent.segments, segment = "" ∨ segment ∈ path.segments) ∧
      (parent.isAbsolute ↔ path.isAbsolute) := by
  have hkept := Path.not_isSpare_of_component hname
  have hroot : isSpare "" := Path.isSpare_iff.mpr (.inl rfl)
  cases front with
  | nil =>
      have hne : name ≠ "" := fun hempty => hkept (Path.isSpare_iff.mpr (.inl hempty))
      cases hfront
      refine ⟨⟨""⟩, ?_, .step (.spare hstart hroot) .done,
        List.forall_mem_singleton.mpr (.inl rfl), ?_⟩
      · rw [Path.parent?_of_spare hsegments hspares, if_neg hne]
      · exact iff_of_false (by decide +kernel) (Path.not_isAbsolute_of_cons hsegments hne)
  | cons first front =>
      obtain ⟨others, hothers, hsparesBehind⟩ := Path.exists_bare_append front
      have hleads : Leads tree links start (first :: bare front) holder := by
        rw [hothers] at hfront
        exact Leads.without_spare hfront hsparesBehind
      have hm : ∀ segment ∈ first :: bare front, segment ∈ path.segments := by
        intro segment hm
        rw [hsegments, hothers]
        exact List.mem_append_left _ (List.mem_append_left _ hm)
      refine ⟨_, Path.parent?_eq_some hsegments hkept hspares, ?_⟩
      by_cases hempty : first :: bare front = [""]
      · have hparent : (ofSegments [""]).segments = ["", ""] := FileTree.segments_root
        obtain rfl := (List.cons.inj hempty).1
        rw [hempty] at hleads ⊢
        rw [hparent]
        cases @Leads.without_spare _ _ _ _ [] _ hleads (List.forall_mem_singleton.mpr hroot)
        refine ⟨.step (.spare hstart hroot) (.step (.spare hstart hroot) .done), by simp, ?_⟩
        exact iff_of_true (Path.isAbsolute_iff.mpr ⟨[""], by simp, hparent⟩)
          (Path.isAbsolute_iff.mpr ⟨_, by simp, hsegments⟩)
      · have hparent : (ofSegments (first :: bare front)).segments = first :: bare front :=
          Path.segments_ofSegments (List.cons_ne_nil _ _) hempty fun segment hsegment =>
            Path.plain_of_mem_segments (hm segment hsegment)
        rw [hparent]
        refine ⟨hleads, fun segment hsegment => .inr (hm segment hsegment), ?_⟩
        by_cases hfirst : first = ""
        · subst hfirst
          exact iff_of_true (Path.isAbsolute_iff.mpr ⟨_, by simpa using hempty, hparent⟩)
            (Path.isAbsolute_iff.mpr ⟨_, by simp, hsegments⟩)
        · exact iff_of_false (Path.not_isAbsolute_of_cons hparent hfirst)
            (Path.not_isAbsolute_of_cons hsegments hfirst)

/-! ## The entry of a path -/

theorem directory_startOf (hhere : tree.at? here = some .directory) :
    tree.at? (startOf here path) = some .directory := by
  unfold startOf
  split
  · exact FileTree.at?_root tree
  · exact hhere

section Entry

variable (hhere : tree.at? here = some .directory)
  (hsegments : path.segments = front ++ name :: spares)
  (hname : Path.component? name = some (.name name))
  (hspares : ∀ segment ∈ spares, isSpare segment)
  (hfront : Leads tree linkLimit (startOf here path) front holder)

include hhere hsegments hname hspares hfront

theorem entryOf_eq_ok : tree.entryOf here path = .ok (holder ++ [name]) := by
  obtain ⟨parent, hparent, hleads, -, -⟩ :=
    exists_parent? hsegments hname hspares (directory_startOf hhere) hfront
  have hfile := Path.fileName?_eq_bind hsegments (Path.not_isSpare_of_component hname)
    hspares
  rw [hname] at hfile
  simp only [FileTree.entryOf, hparent, hfile, Option.bind_some, Path.nameOf?,
    FileTree.walk_eq_ok.mpr hleads]
  rfl

/-- The directory of a path is where the segments in front of the name lead. -/
theorem exists_directory (hnul : '\x00' ∉ path.text.toList) :
    ∃ directory, path.directory? = some directory ∧
      tree.locate here directory = .ok holder := by
  obtain ⟨parent, hparent, hleads, hm, habsolute⟩ :=
    exists_parent? hsegments hname hspares (directory_startOf hhere) hfront
  have hdirectory : path.directory? =
      some (if parent.text = "" then ⟨"."⟩ else parent) := by
    rw [Path.directory?, hparent, Option.map_some]
  refine ⟨_, hdirectory, ?_⟩
  split
  · rename_i hempty
    have hrelative : ¬ path.isAbsolute := fun hpath =>
      Path.text_ne_empty (habsolute.mpr hpath) hempty
    have hsegment : parent.segments = [""] := by
      rw [Path.segments, hempty]
      rfl
    rw [FileTree.startOf_of_relative hrelative, hsegment] at hleads
    rw [hleads.of_spare (List.forall_mem_singleton.mpr (Path.isSpare_iff.mpr (.inl rfl)))]
    exact locate_dot hhere rfl
  · rename_i hempty
    have hstart : startOf here parent = startOf here path := by
      simp only [startOf, habsolute]
    refine FileTree.locate_eq_ok.mpr ⟨?_, hempty, by rwa [hstart]⟩
    rw [Path.mem_text_iff (by decide)] at hnul ⊢
    rintro ⟨segment, hsegment, hzero⟩
    rcases hm segment hsegment with rfl | hsegment
    · simp at hzero
    · exact hnul ⟨segment, hsegment, hzero⟩

/-- A path is watched as the entry that it names. -/
theorem resolve_eq_ok (hsound : tree.Sound) (hnul : '\x00' ∉ path.text.toList)
    (hholder : tree.at? holder = some .directory) :
    resolve tree here path = .ok (pathOf (holder ++ [name])) := by
  obtain ⟨directory, hdirectory, hlocate⟩ :=
    exists_directory hhere hsegments hname hspares hfront hnul
  have hcanonical : tree.canonical here directory = .ok (pathOf holder) :=
    FileTree.canonical_eq_ok.mpr ⟨holder, .directory, hlocate, hholder, rfl⟩
  have hfile : path.fileName? = some name := by
    rw [Path.fileName?_eq_bind hsegments (Path.not_isSpare_of_component hname) hspares,
      hname]
    rfl
  rw [resolve_of_fileName? hsound hhere hfile hdirectory, hcanonical]
  exact congrArg Except.ok (FileTree.join_name (hsound.proper hholder)
    (Path.proper_of_segments hsegments hname))

end Entry

/-! ## Files -/

/-- The last name on the way to a file is an entry of a directory: the file itself, if it
is not a link. -/
theorem exists_last_name (hsound : tree.Sound) (hhere : tree.at? here = some .directory)
    (hlocate : tree.locate here path = .ok location)
    (hfile : tree.at? location = some (.file content)) :
    ∃ front name spares holder, path.segments = front ++ name :: spares ∧
      Path.component? name = some (.name name) ∧
      (∀ segment ∈ spares, isSpare segment) ∧
      Leads tree linkLimit (startOf here path) front holder ∧
      tree.at? holder = some .directory ∧
      (tree.Clear (holder ++ [name]) → location = holder ++ [name]) := by
  have hnotDirectory : tree.at? location ≠ some .directory := by
    rw [hfile]
    exact nofun
  obtain ⟨-, -, hleads⟩ := FileTree.locate_eq_ok.mp hlocate
  rcases Path.exists_last_kept path.segments with hspares |
    ⟨front, last, spares, hsegments, hlast, hspares⟩
  · rw [hleads.of_spare hspares] at hnotDirectory
    exact absurd (directory_startOf hhere) hnotDirectory
  · rw [hsegments, List.append_cons] at hleads
    obtain ⟨holder, fewer, hfront, hleads⟩ := (hleads.without_spare hspares).split
    cases hleads with
    | step hmove hrest =>
        cases hmove with
        | spare _ hspare => exact absurd hspare hlast
        | up hholder =>
            cases hrest
            exact absurd (hsound.dropLast hholder) hnotDirectory
        | name hholder hname =>
            cases hrest
            obtain rfl := Path.component?_eq_name hname
            exact ⟨front, last, spares, holder, hsegments, hname, hspares, hfront, hholder,
              fun _ => rfl⟩
        | link hholder hname _ htarget =>
            obtain rfl := Path.component?_eq_name hname
            exact ⟨front, last, spares, holder, hsegments, hname, hspares, hfront, hholder,
              fun hclear => absurd htarget (hclear _)⟩

/-- A file is read as the text that it holds, if its path is not too long. -/
theorem read_eq_ok (hlocate : tree.locate here path = .ok location)
    (hfile : tree.at? location = some (.file content)) :
    tree.read here path = .ok text ↔
      path.text.utf8ByteSize < FileTree.pathLimit ∧
        String.fromUTF8? content = some text := by
  obtain ⟨hnul, -, -⟩ := FileTree.locate_eq_ok.mp hlocate
  have hnul : path.text.toList.contains '\x00' = false := by
    simpa using hnul
  rw [FileTree.read, hnul, hlocate]
  simp only [ok_bind, hfile]
  by_cases hlong : FileTree.pathLimit ≤ path.text.utf8ByteSize
  · simp [hlong, Nat.not_lt.mpr hlong]
  · cases String.fromUTF8? content <;> simp [hlong, Nat.not_le.mp hlong, pure, Except.pure]

theorem create_singleton {file directory : Path}
    (hresolve : resolve tree here path = .ok file)
    (hparent : file.parent? = some directory) :
    WatchList.create tree here [path] = .ok ⟨[file], [directory]⟩ := by
  have hfiles : WatchList.ofFiles [file] = ⟨[file], [directory]⟩ := by
    rw [WatchList.ofFiles, List.filterMap_cons_some hparent, List.filterMap_nil]
    rfl
  rw [WatchList.create, List.mapM_cons, List.mapM_nil, hresolve, ← hfiles]
  rfl

/-- What a path that leads to a file is read as is the text of that file.  The watch of
the path covers the entry that the path names.  It covers the file, with its directory
and every change of it by its canonical path, exactly if that entry is not a link. -/
theorem watches_what_is_read (hsound : tree.Sound)
    (hhere : tree.at? here = some .directory)
    (hlocate : tree.locate here path = .ok location)
    (hfile : tree.at? location = some (.file content)) :
    tree.canonical here path = .ok (pathOf location) ∧
    (∀ text, tree.read here path = .ok text ↔
      path.text.utf8ByteSize < FileTree.pathLimit ∧
        String.fromUTF8? content = some text) ∧
    ∃ entry watch,
      tree.entryOf here path = .ok entry ∧
      WatchList.create tree here [path] = .ok watch ∧
      watch.files = [pathOf entry] ∧ watch.directories = [pathOf entry.dropLast] ∧
      (((∃ directory ∈ watch.directories,
          (pathOf location).parent? = some directory) ∧
        watch.isRelevant ⟨.modify, [pathOf location]⟩ = true) ↔
          ∀ target, tree.at? entry ≠ some (.link target)) := by
  obtain ⟨front, name, spares, holder, hsegments, hname, hspares, hfront, hholder,
    hentry⟩ := exists_last_name hsound hhere hlocate hfile
  obtain ⟨hnul, -, -⟩ := FileTree.locate_eq_ok.mp hlocate
  have hproper := hsound.proper hholder
  have hproperName := Path.proper_of_segments hsegments hname
  have hparent := FileTree.parent?_pathOf hproper hproperName
  have hcreate := create_singleton
    (resolve_eq_ok hhere hsegments hname hspares hfront hsound hnul hholder) hparent
  refine ⟨FileTree.canonical_eq_ok.mpr ⟨location, _, hlocate, hfile, rfl⟩,
    fun text => read_eq_ok hlocate hfile, holder ++ [name], _,
    entryOf_eq_ok hhere hsegments hname hspares hfront, hcreate, rfl, ?_, ?_,
    fun hclear => ?_⟩
  · rw [List.dropLast_concat]
  · rintro ⟨-, hrelevant⟩
    obtain ⟨-, changed, hchanged, resolved, hresolved, hsame⟩ :=
      isRelevant_iff.mp hrelevant
    rw [List.mem_singleton.mp hchanged, List.mem_singleton.mp hresolved] at hsame
    rw [← FileTree.eq_of_components (hsound.proper hfile)
      (Path.proper_concat hproper hproperName) hsame]
    exact hsound.clear_of_locate hhere hlocate
  · rw [hentry hclear]
    refine ⟨⟨_, List.mem_singleton_self _, hparent⟩, isRelevant_iff.mpr ⟨nofun, ?_⟩⟩
    exact ⟨_, List.mem_singleton_self _, _, List.mem_singleton_self _, rfl⟩

theorem watches_through_link :
    linkedTree.Sound ∧ linkedTree.at? ["work"] = some .directory ∧
    linkedTree.locate ["work"] ⟨"link/real.json"⟩ = .ok ["work", "data", "real.json"] ∧
    ∃ watch, WatchList.create linkedTree ["work"] [⟨"link/real.json"⟩] = .ok watch ∧
      watch.files = [⟨"/work/data/real.json"⟩] ∧ watch.directories = [⟨"/work/data"⟩] ∧
      watch.isRelevant ⟨.modify, [⟨"/work/data/real.json"⟩]⟩ = true := by
  have hhere : linkedTree.at? ["work"] = some .directory := by decide +kernel
  have hlocate : linkedTree.locate ["work"] ⟨"link/real.json"⟩ =
      .ok ["work", "data", "real.json"] := by
    decide +kernel
  have hfile : linkedTree.at? ["work", "data", "real.json"] =
      some (.file "\x7b\x7d".toUTF8) := by
    decide +kernel
  have hentry : linkedTree.entryOf ["work"] ⟨"link/real.json"⟩ =
      .ok ["work", "data", "real.json"] := by
    decide +kernel
  obtain ⟨-, -, entry, watch, hsame, hcreate, hfiles, hdirectories, hcovers⟩ :=
    watches_what_is_read sound_linkedTree hhere hlocate hfile
  rw [hentry, Except.ok.injEq] at hsame
  subst hsame
  have hclear : linkedTree.Clear ["work", "data", "real.json"] := by
    intro target hlink
    rw [hfile] at hlink
    cases hlink
  exact ⟨sound_linkedTree, hhere, hlocate, watch, hcreate, hfiles, hdirectories,
    (hcovers.mpr hclear).2⟩

/-- Through a link to the file itself, another file is read than the one that is
watched, and its changes are not noticed. -/
theorem misses_behind_link :
    linkedTree.Sound ∧ linkedTree.at? ["work"] = some .directory ∧
    linkedTree.read ["work"] ⟨"f.json"⟩ = .ok "\x7b\x7d" ∧
    linkedTree.canonical ["work"] ⟨"f.json"⟩ = .ok ⟨"/work/data/real.json"⟩ ∧
    WatchList.create linkedTree ["work"] [⟨"f.json"⟩] =
      .ok ⟨[⟨"/work/f.json"⟩], [⟨"/work"⟩]⟩ ∧
    WatchList.isRelevant ⟨[⟨"/work/f.json"⟩], [⟨"/work"⟩]⟩
      ⟨.modify, [⟨"/work/data/real.json"⟩]⟩ = false :=
  ⟨sound_linkedTree, by decide +kernel, by decide +kernel, by decide +kernel,
    by decide +kernel, by decide +kernel⟩

end Files

end VersionedFlags
