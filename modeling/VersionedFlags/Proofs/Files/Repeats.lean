import Mathlib.Data.List.Perm.Basic
import VersionedFlags.Proofs.Files.Document
import VersionedFlags.Proofs.Files.Loading

/-!
# Places that are defined more than once

A place that two sections define, of one file or of two, refuses the load.  Within one
section the last definition of a place stands, and those before it are of no account:
they may be invalid, and the load succeeds all the same.
-/

namespace VersionedFlags

namespace Files

open Json (settledMembers)

/-! ## Definitions as they are written -/

def kindOf (name : String) : Kind := if name = "segments" then .segments else .features

/-- The definition that a member of the section with the name is. -/
def definitionOf (name : String) (member : String × Json) : Definition :=
  .ofEntry (kindOf name) (member.1,
    if name = "flagValues" then flagServing member.1 member.2 else member.2)

/-- The definitions of a section in the order in which they are written. -/
def definitionsIn (name : String) (part : Json) : List Definition :=
  match part with
  | .object members =>
      if name ∈ Sections.names then (settledMembers members).map (definitionOf name)
      else []
  | _ => []

/-- The sections of a document, each as its definitions. -/
def blocks (doc : Json) : List (List Definition) :=
  (sectionsIn doc).map fun part => definitionsIn part.1 part.2

/-- The definitions that no later one for the same place replaces. -/
def standing : List Definition → List Definition
  | [] => []
  | definition :: rest =>
      if definition.place ∈ rest.map Definition.place then standing rest
      else definition :: standing rest

theorem place_definitionOf (name : String) (member : String × Json) :
    (definitionOf name member).place = (kindOf name, member.1) := rfl

/-! ## Definitions that stand -/

variable {block : List Definition} {definition : Definition}

theorem mem_places_standing {place : Kind × String} :
    place ∈ (standing block).map Definition.place ↔
      place ∈ block.map Definition.place := by
  induction block with
  | nil => rfl
  | cons first rest ih =>
      unfold standing
      split
      · rename_i hlater
        rw [ih, List.map_cons, List.mem_cons]
        constructor
        · exact .inr
        · rintro (rfl | hm)
          · exact hlater
          · exact hm
      · rw [List.map_cons, List.map_cons, List.mem_cons, List.mem_cons, ih]

theorem nodup_standing (block : List Definition) :
    ((standing block).map Definition.place).Nodup := by
  induction block with
  | nil => exact List.nodup_nil
  | cons first rest ih =>
      unfold standing
      split
      · exact ih
      · rename_i hlast
        rw [List.map_cons]
        exact List.nodup_cons.mpr ⟨fun hm => hlast (mem_places_standing.mp hm), ih⟩

theorem standing_of_nodup (h : (block.map Definition.place).Nodup) :
    standing block = block := by
  induction block with
  | nil => rfl
  | cons first rest ih =>
      obtain ⟨hnew, hrest⟩ := List.nodup_cons.mp h
      rw [standing, if_neg hnew, ih hrest]

theorem map_place (name : String) (members : List (String × Json)) :
    (members.map (definitionOf name)).map Definition.place =
      (members.map Prod.fst).map fun key => (kindOf name, key) := by
  simp only [List.map_map]
  rfl

theorem place_mem_iff {name key : String} {members : List (String × Json)} :
    (kindOf name, key) ∈ (members.map (definitionOf name)).map Definition.place ↔
      key ∈ members.map Prod.fst := by
  rw [map_place]
  simp

theorem lookup_reverse_eq_none {key : String} {members : List (String × Json)} :
    Assoc.lookup key members.reverse = none ↔ key ∉ members.map Prod.fst := by
  rw [Assoc.lookup_eq_none, List.map_reverse, List.mem_reverse]

/-- The last entry of a key is not the first one if there is a later one. -/
theorem lookup_reverse_cons_of_mem {key : String} {rest : List (String × Json)}
    (h : key ∈ rest.map Prod.fst) (value : Json) (other : String) :
    Assoc.lookup other ((key, value) :: rest).reverse =
      Assoc.lookup other rest.reverse := by
  rw [List.reverse_cons, Assoc.lookup_append]
  cases hfound : Assoc.lookup other rest.reverse with
  | some found => rfl
  | none =>
      have hne : key ≠ other := by
        rintro rfl
        exact lookup_reverse_eq_none.mp hfound h
      simp [Assoc.lookup, hne]

theorem lookup_reverse_cons_of_not_mem {key : String} {rest : List (String × Json)}
    (h : key ∉ rest.map Prod.fst) (value : Json) (other : String) :
    Assoc.lookup other ((key, value) :: rest).reverse =
      if key = other then some value else Assoc.lookup other rest.reverse := by
  have hnone := lookup_reverse_eq_none.mpr h
  rw [List.reverse_cons, Assoc.lookup_append]
  by_cases hsame : key = other
  · subst hsame
    simp [Assoc.lookup, hnone]
  · simp [Assoc.lookup, hsame]

/-- Of the members of one name the last one stands. -/
theorem mem_standing {name : String} {members : List (String × Json)} :
    definition ∈ standing (members.map (definitionOf name)) ↔
      ∃ member, Assoc.lookup member.1 members.reverse = some member.2 ∧
        definitionOf name member = definition := by
  induction members with
  | nil => simp [standing, Assoc.lookup]
  | cons head rest ih =>
      obtain ⟨key, value⟩ := head
      rw [List.map_cons, standing, place_definitionOf]
      simp only [place_mem_iff]
      split
      · rename_i hlater
        simp only [lookup_reverse_cons_of_mem hlater, ih]
      · rename_i hlast
        simp only [lookup_reverse_cons_of_not_mem hlast, List.mem_cons, ih]
        constructor
        · rintro (rfl | ⟨member, hfound, rfl⟩)
          · exact ⟨(key, value), if_pos rfl, rfl⟩
          · have hne : key ≠ member.1 := by
              intro heq
              rw [← heq, lookup_reverse_eq_none.mpr hlast] at hfound
              cases hfound
            exact ⟨member, by rw [if_neg hne, hfound], rfl⟩
        · rintro ⟨⟨other, found⟩, hfound, rfl⟩
          split at hfound
          · rename_i hsame
            cases hsame
            cases hfound
            exact .inl rfl
          · exact .inr ⟨(other, found), hfound, rfl⟩

/-- The definitions of a map are those of its members that stand. -/
theorem map_entries_perm (name : String) (members : List (String × Json)) :
    ((KeyMap.ofList members).entries.map (definitionOf name)).Perm
      (standing (members.map (definitionOf name))) := by
  have hentries : (((KeyMap.ofList members).entries.map (definitionOf name)).map
      Definition.place).Nodup := by
    rw [map_place]
    refine List.Nodup.map (fun _ _ h => (Prod.mk.inj h).2) ?_
    exact Assoc.nodup_keys (KeyMap.ofList members).ordered
  refine (List.perm_ext_iff_of_nodup hentries.of_map
    (nodup_standing _).of_map).mpr fun definition => ?_
  rw [mem_standing, List.mem_map]
  simp only [← KeyMap.get?_ofList_eq, ← KeyMap.mem_entries]

/-! ## Definitions of a document -/

/-- The parts of different names, taken in the order of names, are all the parts. -/
theorem flatMap_lookup_perm {α : Type*} {β : Type*} (f : String → α → List β)
    {names : List String} (hnames : names.Nodup) {parts : List (String × α)}
    (hdistinct : (parts.map Prod.fst).Nodup)
    (hknown : ∀ part ∈ parts, part.1 ∈ names) :
    (names.flatMap fun name => (Assoc.lookup name parts).elim [] (f name)).Perm
      (parts.flatMap fun part => f part.1 part.2) := by
  induction parts generalizing names with
  | nil => simp [Assoc.lookup]
  | cons part rest ih =>
      obtain ⟨own, value⟩ := part
      obtain ⟨hnew, hrest⟩ := List.nodup_cons.mp hdistinct
      obtain ⟨hown, hknown⟩ := List.forall_mem_cons.mp hknown
      have hothers : ∀ name ∈ names.erase own, own ≠ name := by
        rintro name hm rfl
        exact (hnames.mem_erase_iff.mp hm).1 rfl
      have htail := ih (hnames.erase own) hrest fun part hm =>
        hnames.mem_erase_iff.mpr
          ⟨fun heq => hnew (List.mem_map.mpr ⟨part, hm, heq⟩), hknown part hm⟩
      refine ((List.perm_cons_erase hown).flatMap_right _).trans ?_
      rw [List.flatMap_cons, List.flatMap_cons]
      have hsame : (names.erase own).flatMap (fun name =>
          (Assoc.lookup name ((own, value) :: rest)).elim [] (f name)) =
            (names.erase own).flatMap fun name =>
              (Assoc.lookup name rest).elim [] (f name) :=
        List.flatMap_congr fun name hm => by simp [Assoc.lookup, hothers name hm]
      rw [hsame]
      simp only [Assoc.lookup, if_true, Option.elim_some]
      exact htail.append_left _

theorem definitions_eq (doc : Json) :
    (sectionsOf doc).definitions = Sections.names.flatMap fun name =>
      (mapNamed name (sectionsIn doc)).entries.map (definitionOf name) := by
  simp only [Sections.definitions, sectionsOf, Sections.names, List.flatMap_cons,
    List.flatMap_nil, List.append_nil, List.append_assoc, KeyMap.map, List.map_map]
  rfl

/-- A data file has the definitions of its document that stand in their section. -/
theorem definitions_perm {doc : Json} (h : Accepted doc) :
    (sectionsOf doc).definitions.Perm ((blocks doc).flatMap standing) := by
  have hstanding : ∀ name ∈ Sections.names,
      ((mapNamed name (sectionsIn doc)).entries.map (definitionOf name)).Perm
        ((Assoc.lookup name (sectionsIn doc)).elim [] fun part =>
          standing (definitionsIn name part)) := by
    intro name hname
    unfold mapNamed
    cases hpart : Assoc.lookup name (sectionsIn doc) with
    | none => rfl
    | some part =>
        have hm := (Assoc.mem_iff_lookup_of_nodup h.distinct).mpr hpart
        obtain ⟨members, hmembers⟩ := h.objects _ hm
        simp only at hmembers
        subst hmembers
        simp only [Option.elim_some, definitionsIn, if_pos hname]
        exact map_entries_perm name _
  rw [definitions_eq, blocks, List.flatMap_map]
  refine (List.Perm.flatMap_left _ hstanding).trans ?_
  exact flatMap_lookup_perm (fun name part => standing (definitionsIn name part))
    (by decide) h.distinct h.known

/-! ## Definitions of all files -/

/-- The sections of all files as they are written, file by file. -/
def blocksOf (docs : Path → Json) (paths : List Path) : List (List Definition) :=
  paths.flatMap fun path => blocks (docs path)

/-- Sections that define no place in common. -/
def Apart (block other : List Definition) : Prop :=
  ∀ place ∈ block.map Definition.place, place ∉ other.map Definition.place

instance (block other : List Definition) : Decidable (Apart block other) :=
  inferInstanceAs (Decidable (∀ place ∈ block.map Definition.place,
    place ∉ other.map Definition.place))

theorem definitionsOf_perm {docs : Path → Json} {paths : List Path}
    (h : ∀ path ∈ paths, Accepted (docs path)) :
    (definitionsOf (fun path => sectionsOf (docs path)) paths).Perm
      ((blocksOf docs paths).flatMap standing) := by
  rw [definitionsOf, blocksOf, List.flatMap_assoc]
  exact List.Perm.flatMap_left _ fun path hm => definitions_perm (h path hm)

theorem nodup_flatMap_standing {blocks : List (List Definition)} :
    ((blocks.flatMap standing).map Definition.place).Nodup ↔ blocks.Pairwise Apart := by
  rw [List.map_flatMap, List.nodup_flatMap]
  constructor
  · rintro ⟨-, hdisjoint⟩
    refine hdisjoint.imp fun hapart place hm hother => ?_
    exact hapart (mem_places_standing.mpr hm) (mem_places_standing.mpr hother)
  · intro hapart
    refine ⟨fun block _ => nodup_standing block, hapart.imp fun h place hm hother => ?_⟩
    exact h place (mem_places_standing.mp hm) (mem_places_standing.mp hother)

theorem flatMap_standing {blocks : List (List Definition)}
    (h : ∀ block ∈ blocks, (block.map Definition.place).Nodup) :
    blocks.flatMap standing = blocks.flatten := by
  rw [List.flatMap_congr fun block hm => standing_of_nodup (h block hm)]
  exact List.flatMap_id'

/-! ## Loading JSON files -/

/-- The document that a file at a path holds. -/
def Holds (tree : FileTree) (here : Location) (path : Path) (doc : Json) : Prop :=
  ∃ text, tree.read here path = .ok text ∧ Json.parseWritten text = .ok doc

variable {tree : FileTree} {here : Location} {paths : List Path} {data : DataSet}

theorem Holds.unique {path : Path} {doc other : Json} (h : Holds tree here path doc)
    (hother : Holds tree here path other) : doc = other := by
  obtain ⟨text, hread, hdoc⟩ := h
  obtain ⟨same, hsame, hother⟩ := hother
  rw [hread] at hsame
  cases hsame
  rw [hdoc] at hother
  exact Except.ok.inj hother

theorem sectionsAt_json {path : Path} {sections : Sections}
    (hjson : Format.ofPath path = .json) :
    sectionsAt tree here path = .ok sections ↔
      ∃ doc, Holds tree here path doc ∧ Accepted doc ∧ sections = sectionsOf doc := by
  constructor
  · intro h
    obtain ⟨text, hread, h⟩ := exists_of_bind_eq_ok h
    obtain ⟨doc, hdoc, haccepted, rfl⟩ := (parse_json_eq_ok hjson).mp h
    refine ⟨doc, ⟨text, ?_, hdoc⟩, haccepted, rfl⟩
    cases hfound : tree.read here path with
    | error fault => simp [hfound] at hread
    | ok found => simpa [hfound] using hread
  · rintro ⟨doc, ⟨text, hread, hdoc⟩, haccepted, rfl⟩
    rw [sectionsAt, hread]
    exact (parse_json_eq_ok hjson).mpr ⟨doc, hdoc, haccepted, rfl⟩

theorem load_json_eq_ok (hjson : ∀ path ∈ paths, Format.ofPath path = .json) :
    load tree here paths = .ok data ↔
      ∃ docs : Path → Json,
        (∀ path ∈ paths, Holds tree here path (docs path) ∧ Accepted (docs path)) ∧
        Admissible ((blocksOf docs paths).flatMap standing) ∧
        Gathers data ((blocksOf docs paths).flatMap standing) := by
  have hgathered : ∀ docs : Path → Json,
      (∀ path ∈ paths, Holds tree here path (docs path) ∧ Accepted (docs path)) →
      (load tree here paths = .ok data ↔
        Admissible ((blocksOf docs paths).flatMap standing) ∧
        Gathers data ((blocksOf docs paths).flatMap standing)) := by
    intro docs hdocs
    have hperm := definitionsOf_perm fun path hm => (hdocs path hm).2
    rw [← admissible_perm hperm, ← gathers_perm hperm]
    refine load_eq_ok fun path hm => (sectionsAt_json (hjson path hm)).mpr ?_
    exact ⟨docs path, (hdocs path hm).1, (hdocs path hm).2, rfl⟩
  constructor
  · intro hload
    obtain ⟨sections, hsections⟩ := exists_sections_of_load hload
    have hdocs : ∀ path ∈ paths, ∃ doc, Holds tree here path doc ∧ Accepted doc := by
      intro path hm
      obtain ⟨doc, hdoc, haccepted, -⟩ :=
        (sectionsAt_json (hjson path hm)).mp (hsections path hm)
      exact ⟨doc, hdoc, haccepted⟩
    choose! docs hdocs using hdocs
    exact ⟨docs, hdocs, (hgathered docs hdocs).mp hload⟩
  · rintro ⟨docs, hdocs, hloaded⟩
    exact (hgathered docs hdocs).mpr hloaded

theorem blocksOf_congr {docs others : Path → Json}
    (h : ∀ path ∈ paths, docs path = others path) :
    blocksOf docs paths = blocksOf others paths :=
  List.flatMap_congr fun path hm => by rw [h path hm]

/-- A load of JSON files is refused if two sections define a place, and so if any two
definitions are for one place and no section repeats a name.  A section that repeats
one is not refused for it: the load gathers the last definition of each name, and it
succeeds if those are admissible, whatever they replace. -/
theorem load_keeps_last_of_section
    (hjson : ∀ path ∈ paths, Format.ofPath path = .json) :
    (∀ docs : Path → Json, (∀ path ∈ paths, Holds tree here path (docs path)) →
      (¬ (blocksOf docs paths).Pairwise Apart →
        ∃ error, load tree here paths = .error error) ∧
      ((∀ block ∈ blocksOf docs paths, (block.map Definition.place).Nodup) →
        ¬ ((blocksOf docs paths).flatten.map Definition.place).Nodup →
        ∃ error, load tree here paths = .error error)) ∧
    ∀ data, load tree here paths = .ok data ↔
      ∃ docs : Path → Json,
        (∀ path ∈ paths, Holds tree here path (docs path) ∧ Accepted (docs path)) ∧
        Admissible ((blocksOf docs paths).flatMap standing) ∧
        Gathers data ((blocksOf docs paths).flatMap standing) := by
  refine ⟨fun docs hdocs => ?_, fun _ => load_json_eq_ok hjson⟩
  have hrefused : ¬ (blocksOf docs paths).Pairwise Apart →
      ∃ error, load tree here paths = .error error := by
    intro hrepeated
    cases hload : load tree here paths with
    | error error => exact ⟨error, rfl⟩
    | ok data =>
        obtain ⟨others, hothers, hadmissible, -⟩ := (load_json_eq_ok hjson).mp hload
        have hsame : blocksOf docs paths = blocksOf others paths :=
          blocksOf_congr fun path hm => (hdocs path hm).unique (hothers path hm).1
        rw [hsame] at hrepeated
        exact absurd (nodup_flatMap_standing.mp hadmissible.distinct) hrepeated
  refine ⟨hrefused, fun hblocks hrepeated => hrefused fun hapart => hrepeated ?_⟩
  rw [← flatMap_standing hblocks]
  exact nodup_flatMap_standing.mpr hapart

def repeatedText : String :=
  "\x7b\"flags\":\x7b\"a\":\x7b\"version\":1\x7d," ++
    "\"a\":\x7b\"version\":2\x7d\x7d\x7d"

def valueText : String := "\x7b\"flagValues\":\x7b\"a\":1\x7d\x7d"

/-- A file that has a flag twice in its section of flags, and one that has it again as
a flag value. -/
def repeatedFlag : FileTree :=
  (FileTree.empty.put ["f.json"] (.file repeatedText.toUTF8)).put
    ["g.json"] (.file valueText.toUTF8)

def repeatedFlagDoc (path : Path) : Json :=
  if path = ⟨"/f.json"⟩ then
    .object [("flags", .object [("a", .object [("version", .ofWord 1)]),
      ("a", .object [("version", .ofWord 2)])])]
  else .object [("flagValues", .object [("a", .ofWord 1)])]

theorem holds_repeatedText :
    Holds repeatedFlag [] ⟨"/f.json"⟩ (repeatedFlagDoc ⟨"/f.json"⟩) :=
  ⟨repeatedText, by decide +kernel, by decide +kernel⟩

theorem holds_valueText :
    Holds repeatedFlag [] ⟨"/g.json"⟩ (repeatedFlagDoc ⟨"/g.json"⟩) :=
  ⟨valueText, by decide +kernel, by decide +kernel⟩

theorem load_flag_of_two_files :
    (∀ path ∈ [⟨"/f.json"⟩, ⟨"/g.json"⟩], Format.ofPath path = .json) ∧
      ∃ error, load repeatedFlag [] [⟨"/f.json"⟩, ⟨"/g.json"⟩] = .error error := by
  have hjson : ∀ path ∈ [⟨"/f.json"⟩, ⟨"/g.json"⟩], Format.ofPath path = .json := by
    decide +kernel
  have hdocs : ∀ path ∈ [⟨"/f.json"⟩, ⟨"/g.json"⟩],
      Holds repeatedFlag [] path (repeatedFlagDoc path) :=
    List.forall_mem_cons.mpr ⟨holds_repeatedText,
      List.forall_mem_singleton.mpr holds_valueText⟩
  exact ⟨hjson, ((load_keeps_last_of_section hjson).1 repeatedFlagDoc hdocs).1
    (by decide +kernel)⟩

/-- A flag that is defined twice in one section does not refuse the load; the last
definition silently replaces the first. -/
theorem load_repeated_flag :
    Format.ofPath ⟨"/f.json"⟩ = .json ∧
      Holds repeatedFlag [] ⟨"/f.json"⟩ (repeatedFlagDoc ⟨"/f.json"⟩) ∧
      ¬ ((blocksOf repeatedFlagDoc [⟨"/f.json"⟩]).flatten.map Definition.place).Nodup ∧
      ∃ data, load repeatedFlag [] [⟨"/f.json"⟩] = .ok data ∧
        ((data.get? .features "a").map Item.version == some 2) = true :=
  ⟨by decide +kernel, holds_repeatedText, by decide +kernel,
    exists_of_any_toOption (by decide +kernel)⟩

end Files

end VersionedFlags
