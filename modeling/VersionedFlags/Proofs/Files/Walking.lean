import VersionedFlags.Proofs.Fallible
import VersionedFlags.Proofs.Files.Path

/-!
# Where paths lead

A walk along a path is a chain of single moves, and it can be split at any segment.  In
a sound tree, where every entry is held by a directory, a path that leads somewhere ends
at a location whose own path is free of links and dots and leads there again.
-/

namespace VersionedFlags

namespace Files

namespace FileTree

open Files.Path (Proper isSpare)

/-! ## Moves -/

/-- The entry at the location is not a symbolic link. -/
def Clear (tree : FileTree) (location : Location) : Prop :=
  ∀ target, tree.at? location ≠ some (.link target)

/-- What one segment does in a directory: how many links may still be followed, where it
leads and the segments of a link that come before those that are left. -/
inductive Move (tree : FileTree) (here : Location) (segment : String) :
    Nat → Nat → Location → List String → Prop
  | spare {links : Nat} (hhere : tree.at? here = some .directory)
      (hspare : isSpare segment) : Move tree here segment links links here []
  | up {links : Nat} (hhere : tree.at? here = some .directory)
      (hup : Path.component? segment = some .up) :
      Move tree here segment links links here.dropLast []
  | name {links : Nat} {name : String} (hhere : tree.at? here = some .directory)
      (hname : Path.component? segment = some (.name name))
      (hshort : name.utf8ByteSize ≤ nameLimit) (hclear : tree.Clear (here ++ [name])) :
      Move tree here segment links links (here ++ [name]) []
  | link {links : Nat} {name : String} {target : Path}
      (hhere : tree.at? here = some .directory)
      (hname : Path.component? segment = some (.name name))
      (hshort : name.utf8ByteSize ≤ nameLimit)
      (htarget : tree.at? (here ++ [name]) = some (.link target)) :
      Move tree here segment (links + 1) links (startOf here target) target.segments

/-- With so many links to follow at most, segments lead from a location to another. -/
inductive Leads (tree : FileTree) : Nat → Location → List String → Location → Prop
  | done {links : Nat} {here : Location} : Leads tree links here [] here
  | step {links fewer : Nat} {here next final : Location} {segment : String}
      {more rest : List String} (hmove : Move tree here segment links fewer next more)
      (hrest : Leads tree fewer next (more ++ rest) final) :
      Leads tree links here (segment :: rest) final

/-- How a walk goes on behind a link. -/
def onward (tree : FileTree) : Nat → Location → List String → Except Fault Location
  | 0 => fun _ _ => .error .tooManyLinks
  | links + 1 => tree.walk links

theorem walk_eq (tree : FileTree) (links : Nat) :
    tree.walk links = tree.steps (tree.onward links) := by
  cases links <;> rfl

variable {tree : FileTree} {links fewer : Nat} {here next final location : Location}
  {segment : String} {segments front back more rest : List String} {path : Path}

theorem walk_nil : tree.walk links here [] = .ok here := by
  rw [walk_eq]
  rfl

theorem walk_cons (h : Move tree here segment links fewer next more) :
    tree.walk links here (segment :: rest) = tree.walk fewer next (more ++ rest) := by
  rw [walk_eq, steps]
  cases h with
  | spare hhere hspare =>
      simp only [hhere, Path.component?_of_isSpare hspare, walk_eq, List.nil_append]
  | up hhere hup => simp only [hhere, hup, walk_eq, List.nil_append]
  | name hhere hname hshort hclear =>
      simp only [hhere, hname, Nat.not_lt.mpr hshort, if_false]
      split
      · rename_i target htarget
        exact absurd htarget (hclear target)
      · rw [walk_eq]
        rfl
  | link hhere hname hshort htarget =>
      simp only [hhere, hname, Nat.not_lt.mpr hshort, if_false, htarget]
      rfl

theorem leads_of_steps
    (hfollow : ∀ start segments final, tree.onward links start segments = .ok final →
      ∃ fewer, links = fewer + 1 ∧ Leads tree fewer start segments final)
    (h : tree.steps (tree.onward links) here segments = .ok final) :
    Leads tree links here segments final := by
  induction segments generalizing here with
  | nil =>
      cases h
      exact .done
  | cons segment rest ih =>
      unfold steps at h
      split at h
      case h_4 hhere =>
        split at h
        · rename_i hup
          exact .step (.up hhere hup) (ih h)
        · rename_i name hname
          split at h
          · cases h
          · rename_i hlong
            have hshort := Nat.not_lt.mp hlong
            split at h
            · rename_i target htarget
              obtain ⟨fewer, rfl, hrest⟩ := hfollow _ _ _ h
              exact .step (.link hhere hname hshort htarget) hrest
            · rename_i hclear
              exact .step (.name hhere hname hshort hclear) (ih h)
        · rename_i hup hname
          refine .step (.spare hhere ?_) (ih h)
          rcases Path.component?_cases segment with hnone | hother | hother
          · exact Option.isNone_iff_eq_none.mpr hnone
          · exact absurd hother hup
          · exact absurd hother (hname _)
      all_goals cases h

/-- A walk that succeeds is a chain of moves. -/
theorem walk_eq_ok :
    tree.walk links here segments = .ok final ↔ Leads tree links here segments final := by
  constructor
  · intro h
    induction links generalizing here segments final with
    | zero =>
        rw [walk_eq] at h
        exact leads_of_steps nofun h
    | succ links ih =>
        rw [walk_eq] at h
        exact leads_of_steps (fun _ _ _ hrest => ⟨links, rfl, ih hrest⟩) h
  · intro h
    induction h with
    | done => exact walk_nil
    | step hmove _ ih => rw [walk_cons hmove, ih]

/-- Segments lead on from where those before them have led. -/
theorem Leads.split (h : Leads tree links here (front ++ back) final) :
    ∃ middle fewer, Leads tree links here front middle ∧
      Leads tree fewer middle back final := by
  generalize hsegments : front ++ back = segments at h
  induction h generalizing front with
  | @done links here =>
      obtain ⟨rfl, rfl⟩ := List.append_eq_nil_iff.mp hsegments
      exact ⟨here, links, .done, .done⟩
  | @step links _ here _ _ segment more rest hmove hrest ih =>
      cases front with
      | nil =>
          rw [List.nil_append] at hsegments
          rw [hsegments]
          exact ⟨here, links, .done, .step hmove hrest⟩
      | cons first front =>
          cases hsegments
          obtain ⟨middle, fewer, hfront, hback⟩ := ih (List.append_assoc _ _ _)
          exact ⟨middle, fewer, .step hmove hfront, hback⟩

/-- Segments that are spare lead nowhere else. -/
theorem Leads.of_spare (h : Leads tree links here segments final)
    (hspare : ∀ segment ∈ segments, isSpare segment) : final = here := by
  induction h with
  | done => rfl
  | step hmove _ ih =>
      obtain ⟨hfirst, hrest⟩ := List.forall_mem_cons.mp hspare
      cases hmove with
      | spare => exact ih hrest
      | up _ hup => exact absurd hfirst (Path.not_isSpare_of_component hup)
      | name _ hname | link _ hname =>
          exact absurd hfirst (Path.not_isSpare_of_component hname)

/-- Spare segments at the end are of no account. -/
theorem Leads.without_spare (h : Leads tree links here (front ++ back) final)
    (hspare : ∀ segment ∈ back, isSpare segment) : Leads tree links here front final := by
  obtain ⟨middle, fewer, hfront, hback⟩ := h.split
  rwa [hback.of_spare hspare]

/-! ## Sound trees -/

/-- A name that an entry may have. -/
structure EntryName (name : String) : Prop extends Proper name where
  noNul : '\x00' ∉ name.toList
  short : name.utf8ByteSize ≤ nameLimit

instance (name : String) : Decidable (EntryName name) :=
  decidable_of_iff (Path.component? name = some (.name name) ∧ '/' ∉ name.toList ∧
      '\x00' ∉ name.toList ∧ name.utf8ByteSize ≤ nameLimit)
    ⟨fun ⟨hname, hplain, hnul, hshort⟩ => ⟨⟨hname, hplain⟩, hnul, hshort⟩,
      fun h => ⟨h.component, h.plain, h.noNul, h.short⟩⟩

/-- Every entry has a proper name and is held by a directory. -/
structure Sound (tree : FileTree) : Prop where
  named : ∀ location entry, tree.at? location = some entry →
    ∀ name ∈ location, EntryName name
  held : ∀ location name entry, tree.at? (location ++ [name]) = some entry →
    tree.at? location = some .directory

theorem at?_root (tree : FileTree) : tree.at? [] = some .directory := rfl

theorem Sound.proper (h : tree.Sound) {entry : Entry}
    (hlocation : tree.at? location = some entry) :
    ∀ name ∈ location, Proper name := fun name hm =>
  (h.named location entry hlocation name hm).toProper

/-- What holds an entry, directly or not, is a directory. -/
theorem Sound.directory (h : tree.Sound) {names : List String} {entry : Entry}
    (hentry : tree.at? (location ++ names) = some entry)
    (hdirectory : names = [] → entry = .directory) :
    tree.at? location = some .directory := by
  induction names using List.reverseRecOn generalizing entry with
  | nil =>
      rw [List.append_nil] at hentry
      rw [hentry, hdirectory rfl]
  | append_singleton names last ih =>
      rw [← List.append_assoc] at hentry
      exact ih (h.held _ _ _ hentry) fun _ => rfl

theorem Sound.dropLast (h : tree.Sound) (hhere : tree.at? here = some .directory) :
    tree.at? here.dropLast = some .directory := by
  rcases List.eq_nil_or_concat' here with rfl | ⟨front, last, rfl⟩
  · rfl
  · rw [List.dropLast_concat]
    exact h.held _ _ _ hhere

theorem clear_of_directory (h : tree.at? location = some .directory) :
    tree.Clear location := by
  intro target hlink
  rw [h] at hlink
  cases hlink

/-- The names of a directory lead to it, whatever comes after them. -/
theorem Sound.walk_names (h : tree.Sound) (names : List String)
    (hdirectory : tree.at? (here ++ names) = some .directory) (rest : List String) :
    tree.walk links here (names ++ rest) = tree.walk links (here ++ names) rest := by
  induction names generalizing here with
  | nil => rw [List.append_nil, List.nil_append]
  | cons name names ih =>
      have hnext : tree.at? (here ++ [name] ++ names) = some .directory := by
        simpa using hdirectory
      have hhere := h.directory hdirectory fun _ => rfl
      have hname := h.named _ _ hdirectory name (by simp)
      have hclear := clear_of_directory (h.directory hnext fun _ => rfl)
      rw [List.cons_append, walk_cons (.name hhere hname.component hname.short hclear),
        List.nil_append, ih hnext]
      simp

theorem sound_empty : empty.Sound where
  named := by
    intro location entry hentry name hm
    by_cases hroot : location = []
    · rw [hroot] at hm
      cases hm
    · simp [at?, hroot, empty] at hentry
  held := by
    intro location name entry hentry
    simp [at?, empty] at hentry

theorem at?_put (tree : FileTree) (location other : Location) (entry : Entry) :
    (tree.put location entry).at? other =
      if other = [] then some .directory
      else if other = location then some entry else tree.at? other := by
  unfold at? put remove
  split
  · rfl
  · split
    · rename_i hsame
      simp [hsame]
    · rename_i hother
      have hne : ¬ location = other := fun h => hother h.symm
      have hkept : ∀ e : Location × Entry, e.1 = other → e.1 ≠ location := by
        rintro e rfl
        exact hother
      simp only [List.find?_cons, beq_eq_false_iff_ne.mpr hne, List.find?_filter]
      congr 2
      funext e
      by_cases he : e.1 = other
      · simp [he, hother]
      · simp [he]

/-- What is put into a directory, in the place of no other, leaves the tree sound. -/
theorem Sound.put (h : tree.Sound) {name : String} {entry : Entry}
    (hheld : tree.at? location = some .directory) (hname : EntryName name)
    (hfree : tree.at? (location ++ [name]) ≠ some .directory) :
    (tree.put (location ++ [name]) entry).Sound where
  named := by
    intro other found hfound
    rw [at?_put] at hfound
    split at hfound
    · rename_i hroot
      rw [hroot]
      exact nofun
    · split at hfound
      · rename_i hsame
        rw [hsame]
        exact List.forall_mem_append.mpr
          ⟨h.named _ _ hheld, List.forall_mem_singleton.mpr hname⟩
      · exact h.named _ _ hfound
  held := by
    intro other last found hfound
    have hother : tree.at? other = some .directory := by
      rw [at?_put, if_neg (by simp)] at hfound
      split at hfound
      · rename_i hsame
        rw [(List.append_inj' hsame rfl).1]
        exact hheld
      · exact h.held _ _ _ hfound
    rw [at?_put]
    split
    · rfl
    · split
      · rename_i hsame
        exact absurd (hsame ▸ hother) hfree
      · exact hother

/-- The path of a directory leads to it, whatever comes after it. -/
theorem Sound.walk_root (h : tree.Sound)
    (hdirectory : tree.at? location = some .directory) (rest : List String) :
    tree.walk links [] ("" :: (location ++ rest)) = tree.walk links location rest := by
  have hnames := @walk_names tree links [] h location hdirectory rest
  rwa [walk_cons (.spare (at?_root tree) (Path.isSpare_iff.mpr (.inl rfl)))]

theorem startOf_of_isAbsolute (h : path.isAbsolute) : startOf here path = [] := if_pos h

theorem startOf_of_relative (h : ¬ path.isAbsolute) : startOf here path = here := if_neg h

theorem clear_startOf (hhere : tree.at? here = some .directory) :
    tree.Clear (startOf here path) := by
  unfold startOf
  split
  · exact clear_of_directory (at?_root tree)
  · exact clear_of_directory hhere

/-- No path ends at a link. -/
theorem Leads.clear (hsound : tree.Sound) (h : Leads tree links here segments final)
    (hhere : tree.Clear here) : tree.Clear final := by
  induction h with
  | done => exact hhere
  | step hmove _ ih =>
      cases hmove with
      | spare => exact ih hhere
      | up hdirectory => exact ih (clear_of_directory (hsound.dropLast hdirectory))
      | name _ _ _ hclear => exact ih hclear
      | link hdirectory => exact ih (clear_startOf hdirectory)

/-! ## Canonical paths -/

theorem noNul_pathOf (h : ∀ name ∈ location, EntryName name) :
    '\x00' ∉ (pathOf location).text.toList := by
  have hproper : ∀ name ∈ location, Proper name := fun name hm => (h name hm).toProper
  rw [Path.mem_text_iff (by decide)]
  rintro ⟨segment, hm, hnul⟩
  by_cases hne : location = []
  · rw [hne, segments_root] at hm
    simp only [List.mem_cons, List.not_mem_nil, or_false, or_self] at hm
    rw [hm] at hnul
    simp at hnul
  · rw [segments_pathOf hproper hne] at hm
    rcases List.mem_cons.mp hm with rfl | hm
    · simp at hnul
    · exact (h segment hm).noNul hnul

theorem locate_eq_ok :
    tree.locate here path = .ok location ↔
      '\x00' ∉ path.text.toList ∧ path.text ≠ "" ∧
        Leads tree linkLimit (startOf here path) path.segments location := by
  rw [locate, ← walk_eq_ok]
  simp only [List.contains_eq_mem, decide_eq_true_eq]
  split
  · simp_all
  · split <;> simp_all

/-- A location that is no link is where its own path leads. -/
theorem Sound.locate_pathOf (h : tree.Sound) {entry : Entry}
    (hentry : tree.at? location = some entry) (hclear : tree.Clear location) :
    tree.locate here (pathOf location) = .ok location := by
  have hproper := h.proper hentry
  have habsolute := isAbsolute_pathOf hproper
  refine locate_eq_ok.mpr ⟨noNul_pathOf (h.named location entry hentry),
    Path.text_ne_empty habsolute, ?_⟩
  rw [startOf_of_isAbsolute habsolute]
  rcases List.eq_nil_or_concat' location with rfl | ⟨front, last, rfl⟩
  · have hspare : isSpare "" := Path.isSpare_iff.mpr (.inl rfl)
    rw [segments_root]
    exact .step (.spare (at?_root tree) hspare) (.step (.spare (at?_root tree) hspare) .done)
  · have hfront := h.held _ _ _ hentry
    have hlast := h.named _ _ hentry last (by simp)
    rw [segments_pathOf hproper (by simp), ← walk_eq_ok, h.walk_root hfront, walk_eq_ok]
    exact .step (.name hfront hlast.component hlast.short hclear) .done

theorem canonical_eq_ok {directory : Path} :
    tree.canonical here path = .ok directory ↔
      ∃ location entry, tree.locate here path = .ok location ∧
        tree.at? location = some entry ∧ directory = pathOf location := by
  rw [canonical]
  cases hlocate : tree.locate here path with
  | error fault => simp
  | ok location =>
      rw [ok_bind]
      cases hentry : tree.at? location with
      | none => simp [hentry]
      | some entry =>
          simp only [Except.ok.injEq, exists_and_left, existsAndEq, true_and, hentry]
          simp [pure, Except.pure, eq_comm]

theorem Sound.canonical_pathOf (h : tree.Sound) {entry : Entry}
    (hentry : tree.at? location = some entry) (hclear : tree.Clear location) :
    tree.canonical here (pathOf location) = .ok (pathOf location) :=
  canonical_eq_ok.mpr ⟨location, entry, h.locate_pathOf hentry hclear, hentry, rfl⟩

theorem Sound.clear_of_locate (h : tree.Sound) (hhere : tree.at? here = some .directory)
    (hlocate : tree.locate here path = .ok location) : tree.Clear location := by
  obtain ⟨-, -, hleads⟩ := locate_eq_ok.mp hlocate
  exact hleads.clear h (clear_startOf hhere)

/-- Joined to the path of a directory, a path has a zero byte only where it had one. -/
theorem Sound.nul_mem_iff (h : tree.Sound) (hhere : tree.at? here = some .directory)
    {absolute : Path} (hsegments : absolute.segments = "" :: (here ++ path.segments)) :
    '\x00' ∈ absolute.text.toList ↔ '\x00' ∈ path.text.toList := by
  rw [Path.mem_text_iff (by decide), Path.mem_text_iff (by decide), hsegments]
  constructor
  · rintro ⟨segment, hm, hnul⟩
    rcases List.mem_cons.mp hm with rfl | hm
    · simp at hnul
    · rcases List.mem_append.mp hm with hm | hm
      · exact absurd hnul (h.named _ _ hhere segment hm).noNul
      · exact ⟨segment, hm, hnul⟩
  · rintro ⟨segment, hm, hnul⟩
    exact ⟨segment, by simp [hm], hnul⟩

/-- A relative path leads from the current directory where it leads when it is joined to
the path of that directory. -/
theorem Sound.locate_join (h : tree.Sound) (hhere : tree.at? here = some .directory)
    {absolute : Path} (hrelative : ¬ path.isAbsolute) (hne : path.text ≠ "")
    (hsegments : absolute.segments = "" :: (here ++ path.segments)) :
    tree.locate here absolute = tree.locate here path := by
  have habsolute : absolute.isAbsolute :=
    Path.isAbsolute_iff.mpr ⟨_, by simp [Path.segments_ne_nil], hsegments⟩
  have hwalk : tree.walk linkLimit (startOf here absolute) absolute.segments =
      tree.walk linkLimit (startOf here path) path.segments := by
    rw [startOf_of_isAbsolute habsolute, startOf_of_relative hrelative, hsegments,
      h.walk_root hhere]
  simp only [locate, List.contains_eq_mem, h.nul_mem_iff hhere hsegments, hne,
    Path.text_ne_empty habsolute, hwalk]

end FileTree

end Files

end VersionedFlags
