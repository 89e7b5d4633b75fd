import Mathlib.Data.List.DropRight
import VersionedFlags.Files.FileTree

/-!
# Segments of paths

A path is read through its segments, the texts between its slashes.  Those that name
nothing at its end are of no account: its file name and its parent are what is left.
-/

namespace VersionedFlags

namespace Files

namespace Path

/-! ## Segments of texts -/

/-- A segment has no slash. -/
def Plain (segment : String) : Prop := '/' ∉ segment.toList

theorem split_ne_nil (text : List Char) : split text ≠ [] := by
  cases text with
  | nil => simp [split]
  | cons c rest =>
      unfold split
      split
      · simp
      · split <;> simp

theorem split_cons {c : Char} (h : c ≠ '/') {rest segment : List Char}
    {more : List (List Char)} (hrest : split rest = segment :: more) :
    split (c :: rest) = (c :: segment) :: more := by
  rw [split, if_neg h, hrest]

theorem split_slash (rest : List Char) : split ('/' :: rest) = [] :: split rest := by
  rw [split, if_pos rfl]

theorem split_append (text rest : List Char) :
    split (text ++ '/' :: rest) = split text ++ split rest := by
  induction text with
  | nil => exact split_slash rest
  | cons c more ih =>
      by_cases hslash : c = '/'
      · rw [hslash, List.cons_append, split_slash, split_slash, ih, List.cons_append]
      · obtain ⟨segment, others, hmore⟩ := List.exists_cons_of_ne_nil (split_ne_nil more)
        rw [hmore] at ih
        rw [List.cons_append, split_cons hslash ih, split_cons hslash hmore]
        rfl

theorem split_of_not_mem {text : List Char} (h : '/' ∉ text) : split text = [text] := by
  induction text with
  | nil => rfl
  | cons c more ih =>
      have hc : c ≠ '/' := fun heq => h (heq ▸ List.mem_cons_self)
      exact split_cons hc (ih fun hm => h (List.mem_cons_of_mem _ hm))

theorem not_mem_of_mem_split {text segment : List Char} (h : segment ∈ split text) :
    '/' ∉ segment := by
  induction text generalizing segment with
  | nil => simp_all [split]
  | cons c more ih =>
      by_cases hslash : c = '/'
      · rw [hslash, split_slash] at h
        rcases List.mem_cons.mp h with rfl | h
        · simp
        · exact ih h
      · obtain ⟨first, others, hmore⟩ := List.exists_cons_of_ne_nil (split_ne_nil more)
        rw [split_cons hslash hmore] at h
        rw [hmore] at ih
        rcases List.mem_cons.mp h with rfl | h
        · simpa [Ne.symm hslash] using ih List.mem_cons_self
        · exact ih (List.mem_cons_of_mem _ h)

theorem mem_split_iff {text : List Char} {c : Char} (hc : c ≠ '/') :
    (∃ segment ∈ split text, c ∈ segment) ↔ c ∈ text := by
  induction text with
  | nil => simp [split]
  | cons d more ih =>
      by_cases hslash : d = '/'
      · simp [hslash, split_slash, ih, hc]
      · obtain ⟨first, others, hmore⟩ := List.exists_cons_of_ne_nil (split_ne_nil more)
        rw [split_cons hslash hmore, List.mem_cons, ← ih, hmore]
        simp [or_assoc]

theorem split_intercalate {texts : List (List Char)} (hne : texts ≠ [])
    (h : ∀ text ∈ texts, '/' ∉ text) : split (List.intercalate ['/'] texts) = texts := by
  induction texts with
  | nil => exact absurd rfl hne
  | cons first rest ih =>
      have hfirst := split_of_not_mem (h first List.mem_cons_self)
      cases rest with
      | nil => simpa using hfirst
      | cons second rest =>
          have hrest := ih (List.cons_ne_nil _ _) fun text hm =>
            h text (List.mem_cons_of_mem _ hm)
          have htext : List.intercalate ['/'] (first :: second :: rest) =
              first ++ '/' :: List.intercalate ['/'] (second :: rest) := by
            simp [List.intercalate]
          rw [htext, split_append, hfirst, hrest]
          rfl

/-! ## Segments of paths -/

variable {path : Path} {first : String} {rest : List String}

theorem segments_ne_nil (path : Path) : path.segments ≠ [] := by
  simp [segments, split_ne_nil]

theorem plain_of_mem_segments {segment : String} (h : segment ∈ path.segments) :
    Plain segment := by
  obtain ⟨text, htext, rfl⟩ := List.mem_map.mp h
  rw [Plain, String.toList_ofList]
  exact not_mem_of_mem_split htext

theorem mem_text_iff {c : Char} (hc : c ≠ '/') :
    c ∈ path.text.toList ↔ ∃ segment ∈ path.segments, c ∈ segment.toList := by
  rw [← mem_split_iff hc, segments]
  simp only [List.mem_map, exists_exists_and_eq_and, String.toList_ofList]

theorem segments_ofSegments {segments : List String} (hne : segments ≠ [])
    (hroot : segments ≠ [""]) (h : ∀ segment ∈ segments, Plain segment) :
    (ofSegments segments).segments = segments := by
  have htexts : ∀ text ∈ segments.map String.toList, '/' ∉ text :=
    List.forall_mem_map.mpr h
  rw [ofSegments, if_neg hroot, Path.segments, String.toList_intercalate]
  change (split (List.intercalate ['/'] _)).map String.ofList = segments
  rw [split_intercalate (by simpa using hne) htexts, List.map_map]
  have hid : String.ofList ∘ String.toList = id := funext fun _ => String.ofList_toList
  rw [hid, List.map_id]

theorem isAbsolute_iff : path.isAbsolute = true ↔
    ∃ rest, rest ≠ [] ∧ path.segments = "" :: rest := by
  rw [isAbsolute, String.startsWith_string_iff, segments]
  change ['/'] <+: path.text.toList ↔ _
  cases htext : path.text.toList with
  | nil => simp [split]
  | cons c rest =>
      by_cases hslash : c = '/'
      · subst hslash
        simp [split_slash, split_ne_nil]
      · obtain ⟨segment, more, hrest⟩ := List.exists_cons_of_ne_nil (split_ne_nil rest)
        rw [split_cons hslash hrest]
        simp [Ne.symm hslash]

theorem not_isAbsolute_of_cons (h : path.segments = first :: rest) (hfirst : first ≠ "") :
    ¬ path.isAbsolute := by
  rw [isAbsolute_iff, h]
  rintro ⟨_, -, hrest⟩
  exact hfirst (List.cons.inj hrest).1

theorem text_ne_empty_of_cons (h : path.segments = first :: rest) (hfirst : first ≠ "") :
    path.text ≠ "" := by
  intro hempty
  rw [segments, hempty] at h
  exact hfirst (List.cons.inj h).1.symm

theorem text_ne_empty (h : path.isAbsolute) : path.text ≠ "" := by
  obtain ⟨rest, hne, hsegments⟩ := isAbsolute_iff.mp h
  intro hempty
  rw [segments, hempty] at hsegments
  cases hsegments
  exact hne rfl

/-! ## Segments at the end -/

/-- Whether a segment names nothing. -/
def isSpare (segment : String) : Bool := (component? segment).isNone

theorem isSpare_iff {segment : String} :
    isSpare segment ↔ segment = "" ∨ segment = "." := by
  unfold isSpare component?
  split
  · simp_all
  · split <;> simp_all

theorem component?_of_isSpare {segment : String} (h : isSpare segment) :
    component? segment = none :=
  Option.isNone_iff_eq_none.mp h

theorem component?_cases (segment : String) :
    component? segment = none ∨ component? segment = some .up ∨
      component? segment = some (.name segment) := by
  unfold component?
  split
  · exact .inl rfl
  · split
    · exact .inr (.inl rfl)
    · exact .inr (.inr rfl)

/-- Every list of segments ends in some that are spare, behind one that is not. -/
theorem exists_last_kept (segments : List String) :
    (∀ segment ∈ segments, isSpare segment) ∨
      ∃ front last spares, segments = front ++ last :: spares ∧ ¬ isSpare last ∧
        ∀ segment ∈ spares, isSpare segment := by
  induction segments with
  | nil => exact .inl nofun
  | cons first rest ih =>
      rcases ih with hspare | ⟨front, last, spares, rfl, hlast, hspares⟩
      · by_cases hfirst : isSpare first
        · exact .inl (List.forall_mem_cons.mpr ⟨hfirst, hspare⟩)
        · exact .inr ⟨[], first, rest, rfl, hfirst, hspare⟩
      · exact .inr ⟨first :: front, last, spares, rfl, hlast, hspares⟩

/-- The segments without those at the end that are spare. -/
def bare (segments : List String) : List String := segments.rdropWhile isSpare

theorem bare_of_spare {segments : List String}
    (h : ∀ segment ∈ segments, isSpare segment) : bare segments = [] :=
  List.rdropWhile_eq_nil_iff.mpr h

theorem bare_concat (segments : List String) {last : String} (h : ¬ isSpare last) :
    bare (segments ++ [last]) = segments ++ [last] :=
  List.rdropWhile_concat_neg _ _ _ h

theorem bare_append (front back : List String) :
    bare (front ++ back) = if bare back = [] then bare front else front ++ bare back := by
  simp only [bare, List.rdropWhile, List.reverse_append, List.dropWhile_append,
    List.isEmpty_iff, List.reverse_eq_nil_iff]
  split <;> simp

theorem bare_append_spare (front : List String) {spares : List String}
    (h : ∀ segment ∈ spares, isSpare segment) : bare (front ++ spares) = bare front := by
  rw [bare_append, if_pos (bare_of_spare h)]

theorem exists_bare_append (segments : List String) :
    ∃ spares, segments = bare segments ++ spares ∧ ∀ segment ∈ spares, isSpare segment := by
  rcases exists_last_kept segments with hspares |
    ⟨front, last, spares, rfl, hlast, hspares⟩
  · exact ⟨segments, by rw [bare_of_spare hspares, List.nil_append], hspares⟩
  · refine ⟨spares, ?_, hspares⟩
    rw [List.append_cons, bare_append_spare _ hspares, bare_concat _ hlast]

/-- The first segment stays in any case. -/
theorem trim_concat (reversed : List String) (first : String) :
    trim (reversed ++ [first]) = (bare reversed.reverse).reverse ++ [first] := by
  rw [bare, List.rdropWhile, List.reverse_reverse, List.reverse_reverse]
  induction reversed with
  | nil => rfl
  | cons segment rest ih =>
      rw [List.cons_append, trim]
      · rw [ih, List.dropWhile_cons]
        unfold isSpare
        split <;> rfl
      · simp

variable {front spares : List String} {last : String}

theorem trim_segments (h : path.segments = first :: rest) :
    trim path.segments.reverse = (bare rest).reverse ++ [first] := by
  rw [h, List.reverse_cons, trim_concat, List.reverse_reverse]

/-- A path whose segments are spare behind the first has no directory of its own. -/
theorem parent?_of_spare (h : path.segments = first :: spares)
    (hspares : ∀ segment ∈ spares, isSpare segment) :
    path.parent? = if first = "" then none else some ⟨""⟩ := by
  rw [parent?, trim_segments h, bare_of_spare hspares]
  rfl

theorem parent?_eq_some (h : path.segments = first :: (front ++ last :: spares))
    (hlast : ¬ isSpare last) (hspares : ∀ segment ∈ spares, isSpare segment) :
    path.parent? = some (ofSegments (first :: bare front)) := by
  have hbare : bare (front ++ last :: spares) = front ++ [last] := by
    rw [List.append_cons, bare_append_spare _ hspares, bare_concat front hlast]
  have htrim : trim (front.reverse ++ [first]) = (bare front).reverse ++ [first] := by
    rw [trim_concat, List.reverse_reverse]
  rw [parent?, trim_segments h, hbare, List.reverse_append]
  simp [htrim]

/-! ## File names -/

/-- The name that a component is. -/
def nameOf? : Component → Option String
  | .name text => some text
  | _ => none

theorem fileName?_eq (path : Path) :
    path.fileName? = path.components.getLast?.bind nameOf? := by
  rw [fileName?]
  cases path.components.getLast? with
  | none => rfl
  | some component => cases component <;> rfl

theorem components_eq (h : path.segments = first :: rest) :
    path.components =
      (start? first rest.isEmpty).toList ++ rest.filterMap component? := by
  rw [components, h]

theorem filterMap_of_spare (h : ∀ segment ∈ spares, isSpare segment) :
    spares.filterMap component? = [] :=
  List.filterMap_eq_nil_iff.mpr fun segment hm => component?_of_isSpare (h segment hm)

theorem fileName?_of_spare (h : path.segments = first :: spares)
    (hspares : ∀ segment ∈ spares, isSpare segment) :
    path.fileName? = (component? first).bind nameOf? := by
  rw [fileName?_eq, components_eq h, filterMap_of_spare hspares, List.append_nil]
  unfold start?
  split
  · rename_i hempty
    rw [component?_of_isSpare (isSpare_iff.mpr (.inl hempty))]
    split <;> rfl
  · split
    · rename_i hdot
      rw [component?_of_isSpare (isSpare_iff.mpr (.inr hdot))]
      rfl
    · cases component? first <;> rfl

theorem fileName?_eq_some (h : path.segments = first :: (front ++ last :: spares))
    (hlast : ¬ isSpare last) (hspares : ∀ segment ∈ spares, isSpare segment) :
    path.fileName? = (component? last).bind nameOf? := by
  have hcomponent : ∃ component, component? last = some component :=
    Option.ne_none_iff_exists'.mp fun hnone => hlast (Option.isNone_iff_eq_none.mpr hnone)
  obtain ⟨component, hcomponent⟩ := hcomponent
  rw [fileName?_eq, components_eq h]
  simp [filterMap_of_spare hspares, hcomponent]

theorem fileName?_eq_bind (h : path.segments = front ++ last :: spares)
    (hlast : ¬ isSpare last) (hspares : ∀ segment ∈ spares, isSpare segment) :
    path.fileName? = (component? last).bind nameOf? := by
  cases front with
  | nil => exact fileName?_of_spare h hspares
  | cons first front => exact fileName?_eq_some h hlast hspares

theorem fileName?_eq_none (h : ∀ segment ∈ path.segments, isSpare segment) :
    path.fileName? = none := by
  obtain ⟨first, rest, hsegments⟩ := List.exists_cons_of_ne_nil path.segments_ne_nil
  rw [hsegments] at h
  obtain ⟨hfirst, hrest⟩ := List.forall_mem_cons.mp h
  rw [fileName?_of_spare hsegments hrest, component?_of_isSpare hfirst]
  rfl

/-- A file name is the last segment that is not spare. -/
theorem exists_front_of_fileName? {name : String} (h : path.fileName? = some name) :
    ∃ front spares, path.segments = front ++ name :: spares ∧
      component? name = some (.name name) ∧ ∀ segment ∈ spares, isSpare segment := by
  rcases exists_last_kept path.segments with hspare | ⟨front, last, spares, hsegments,
    hlast, hspares⟩
  · rw [fileName?_eq_none hspare] at h
    cases h
  · rw [fileName?_eq_bind hsegments hlast hspares] at h
    rcases component?_cases last with hnone | hup | hname
    · rw [hnone] at h
      cases h
    · rw [hup] at h
      cases h
    · rw [hname] at h
      cases h
      exact ⟨front, spares, hsegments, hname, hspares⟩

/-! ## Names -/

/-- A segment that is a name. -/
structure Proper (name : String) : Prop where
  component : component? name = some (.name name)
  plain : Plain name

variable {name : String} {names : List String}

theorem component?_eq_name {segment : String} (h : component? segment = some (.name name)) :
    segment = name := by
  rcases component?_cases segment with hnone | hup | hname
  · rw [hnone] at h
    cases h
  · rw [hup] at h
    cases h
  · rw [hname] at h
    cases h
    rfl

theorem not_isSpare_of_component {segment : String} {component : Component}
    (h : component? segment = some component) : ¬ isSpare segment := by
  simp [isSpare, h]

theorem proper_of_segments {front spares : List String}
    (h : path.segments = front ++ name :: spares)
    (hname : component? name = some (.name name)) : Proper name :=
  ⟨hname, plain_of_mem_segments (h ▸ List.mem_append_right front List.mem_cons_self)⟩

theorem proper_concat (h : ∀ name ∈ names, Proper name) (hname : Proper name) :
    ∀ other ∈ names ++ [name], Proper other :=
  List.forall_mem_append.mpr ⟨h, List.forall_mem_singleton.mpr hname⟩

theorem Proper.not_isSpare (h : Proper name) : ¬ isSpare name :=
  not_isSpare_of_component h.component

theorem Proper.ne_empty (h : Proper name) : name ≠ "" := fun hempty =>
  h.not_isSpare (isSpare_iff.mpr (.inl hempty))

theorem bare_of_proper (h : ∀ name ∈ names, Proper name) : bare names = names := by
  induction names using List.reverseRecOn with
  | nil => rfl
  | append_singleton names last _ =>
      exact bare_concat names (h last (by simp)).not_isSpare

theorem filterMap_of_proper (h : ∀ name ∈ names, Proper name) :
    names.filterMap component? = names.map .name := by
  induction names with
  | nil => rfl
  | cons first rest ih =>
      obtain ⟨hfirst, hrest⟩ := List.forall_mem_cons.mp h
      rw [List.filterMap_cons, hfirst.component, ih hrest, List.map_cons]

theorem segments_empty : (Path.mk "").segments = [""] := rfl

theorem endsWith_slash (h : path.text.endsWith "/" = true) :
    path.segments.getLast? = some "" := by
  have hsuffix : ['/'] <:+ path.text.toList := by
    rwa [String.endsWith_eq_endsWith_toSlice, String.Slice.endsWith_string_iff,
      String.copy_toSlice] at h
  obtain ⟨text, htext⟩ := hsuffix
  have hsplit : split path.text.toList = split text ++ [[]] := by
    rw [← htext, split_append]
    rfl
  simp [segments, hsplit]

end Path

/-! ## Paths of locations -/

namespace FileTree

open Files.Path (Proper)

variable {here location : Location} {path : Path} {name : String}

theorem segments_pathOf (h : ∀ name ∈ location, Proper name) (hne : location ≠ []) :
    (pathOf location).segments = "" :: location := by
  refine Path.segments_ofSegments (List.cons_ne_nil _ _) (by simpa using hne) ?_
  refine List.forall_mem_cons.mpr ⟨by simp [Path.Plain], fun name hm => (h name hm).plain⟩

theorem segments_root : (pathOf []).segments = ["", ""] := rfl

theorem isAbsolute_pathOf (h : ∀ name ∈ location, Proper name) :
    (pathOf location).isAbsolute = true := by
  rw [Path.isAbsolute_iff]
  by_cases hne : location = []
  · exact ⟨[""], by simp, by rw [hne, segments_root]⟩
  · exact ⟨location, hne, segments_pathOf h hne⟩

theorem components_pathOf (h : ∀ name ∈ location, Proper name) :
    (pathOf location).components = .root :: location.map .name := by
  by_cases hne : location = []
  · rw [hne]
    rfl
  · rw [Path.components_eq (segments_pathOf h hne), Path.filterMap_of_proper h]
    simp [Path.start?, hne]

theorem eq_of_components {other : Location} (h : ∀ name ∈ location, Proper name)
    (hother : ∀ name ∈ other, Proper name)
    (hsame : (pathOf location).components = (pathOf other).components) :
    location = other := by
  rw [components_pathOf h, components_pathOf hother] at hsame
  have hinjective : Function.Injective Component.name := fun _ _ => Component.name.inj
  exact List.map_injective_iff.mpr hinjective (List.cons.inj hsame).2

theorem parent?_pathOf (h : ∀ name ∈ location, Proper name) (hname : Proper name) :
    (pathOf (location ++ [name])).parent? = some (pathOf location) := by
  have hall : ∀ other ∈ location ++ [name], Proper other :=
    List.forall_mem_append.mpr ⟨h, List.forall_mem_singleton.mpr hname⟩
  have hsegments := segments_pathOf hall (by simp)
  rw [Path.parent?_eq_some hsegments hname.not_isSpare nofun, Path.bare_of_proper h]
  rfl

theorem fileName?_pathOf (h : ∀ name ∈ location, Proper name) (hname : Proper name) :
    (pathOf (location ++ [name])).fileName? = some name := by
  have hall : ∀ other ∈ location ++ [name], Proper other :=
    List.forall_mem_append.mpr ⟨h, List.forall_mem_singleton.mpr hname⟩
  have hsegments := segments_pathOf hall (by simp)
  rw [Path.fileName?_eq_some hsegments hname.not_isSpare nofun, hname.component]
  rfl

theorem text_pathOf (hne : location ≠ []) :
    (pathOf location).text = "/" ++ "/".intercalate location := by
  have hroot : ("" :: location) ≠ [""] := by simpa using hne
  rw [pathOf, Path.ofSegments, if_neg hroot, String.intercalate_cons_of_ne_nil hne]
  simp

theorem endsWith_pathOf (h : ∀ name ∈ location, Proper name) (hne : location ≠ []) :
    (pathOf location).text.endsWith "/" = false := by
  rw [Bool.eq_false_iff]
  intro hends
  have hlast := Path.endsWith_slash hends
  rw [segments_pathOf h hne, List.getLast?_cons_of_ne_nil hne] at hlast
  exact (h "" (List.mem_of_getLast? hlast)).ne_empty rfl

theorem join_root (hpath : ¬ path.isAbsolute) :
    (pathOf []).join path = ⟨"/" ++ path.text⟩ := by
  have hends : (pathOf []).text.endsWith "/" = true := by
    rw [String.endsWith_eq_endsWith_toSlice, String.Slice.endsWith_string_iff,
      String.copy_toSlice]
    exact List.suffix_refl _
  have hempty : (pathOf []).text ≠ "" := by decide
  rw [Path.join, if_neg (by simp [hpath, hempty]), if_pos hends]
  rfl

theorem join_below (h : ∀ name ∈ here, Proper name) (hne : here ≠ [])
    (hpath : ¬ path.isAbsolute) :
    (pathOf here).join path = ⟨(pathOf here).text ++ "/" ++ path.text⟩ := by
  have hempty : (pathOf here).text ≠ "" := by
    rw [text_pathOf hne]
    simp
  rw [Path.join, if_neg (by simp [hpath, hempty]), endsWith_pathOf h hne]
  rfl

/-- A relative path goes on from the directory it is joined to. -/
theorem segments_join (h : ∀ name ∈ here, Proper name) (hpath : ¬ path.isAbsolute) :
    ((pathOf here).join path).segments = "" :: (here ++ path.segments) := by
  have hsplit : ∀ text : String, (Path.mk (text ++ "/" ++ path.text)).segments =
      (Path.mk text).segments ++ path.segments := by
    intro text
    rw [Path.segments, Path.segments, Path.segments, ← List.map_append,
      ← Path.split_append]
    simp
  by_cases hne : here = []
  · subst hne
    have hroot := hsplit ""
    rw [String.empty_append, Path.segments_empty] at hroot
    rw [join_root hpath, hroot]
    rfl
  · rw [join_below h hne hpath, hsplit, segments_pathOf h hne]
    rfl

theorem join_of_isAbsolute (h : path.isAbsolute) : (pathOf here).join path = path := by
  rw [Path.join, if_pos (.inl h)]

theorem not_isAbsolute_of_proper (h : Proper name) : ¬ (Path.mk name).isAbsolute := by
  rw [Path.isAbsolute_iff]
  rintro ⟨rest, hne, hsegments⟩
  rw [Path.segments, Path.split_of_not_mem h.plain] at hsegments
  simp_all

theorem join_name (h : ∀ name ∈ location, Proper name) (hname : Proper name) :
    (pathOf location).join ⟨name⟩ = pathOf (location ++ [name]) := by
  have hpath := not_isAbsolute_of_proper hname
  have htext : pathOf (location ++ [name]) =
      ⟨"/" ++ "/".intercalate (location ++ [name])⟩ :=
    congrArg Path.mk (text_pathOf (by simp))
  rw [htext]
  by_cases hne : location = []
  · subst hne
    rw [join_root hpath]
    simp
  · rw [join_below h hne hpath, text_pathOf hne,
      String.intercalate_append_of_ne_nil hne (by simp)]
    simp [String.append_assoc]

end FileTree

end Files

end VersionedFlags
