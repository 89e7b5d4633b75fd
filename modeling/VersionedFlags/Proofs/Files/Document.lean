import VersionedFlags.Files.Loading
import VersionedFlags.Proofs.Json.Documents
import VersionedFlags.Proofs.KeyMap

/-!
# Documents that are data files

The sections of a document are the members of an object, or the elements of a list in
the order of the names of sections.  A document is a data file if each section is an
object under a name of its own, and the file has for each section a map of its members.
-/

namespace VersionedFlags

namespace Files

open Json (Unread Stop Listed Named ReadsList ReadsObject behindColon mapField IsMap
  settledMembers)

/-! ## Sections of a document -/

/-- The sections of a document with their names, as they are written. -/
def sectionsIn : Json → List (String × Json)
  | .object members => members
  | .array elements => Sections.names.zip elements
  | _ => []

/-- A document that is a data file. -/
structure Accepted (doc : Json) : Prop where
  container : (∃ members, doc = .object members) ∨
    ∃ elements, doc = .array elements ∧ elements.length ≤ Sections.names.length
  known : ∀ part ∈ sectionsIn doc, part.1 ∈ Sections.names
  distinct : ((sectionsIn doc).map Prod.fst).Nodup
  objects : ∀ part ∈ sectionsIn doc, ∃ members, part.2 = .object members

def mapNamed (name : String) (parts : List (String × Json)) : KeyMap Json :=
  match Assoc.lookup name parts with
  | some (.object members) => .ofList (settledMembers members)
  | _ => .empty

/-- The sections that a document stands for; those that it leaves out are empty. -/
def sectionsOf (doc : Json) : Sections :=
  ⟨mapNamed "flags" (sectionsIn doc), mapNamed "flagValues" (sectionsIn doc),
    mapNamed "segments" (sectionsIn doc)⟩

/-! ## Fields of a file -/

namespace Sections

namespace Fields

def get? (fields : Fields) (name : String) : Option (KeyMap Json) :=
  if name = "flags" then fields.flags
  else if name = "flagValues" then fields.flagValues
  else if name = "segments" then fields.segments
  else none

def set (fields : Fields) (name : String) (map : KeyMap Json) : Fields :=
  if name = "flags" then { fields with flags := some map }
  else if name = "flagValues" then { fields with flagValues := some map }
  else if name = "segments" then { fields with segments := some map }
  else fields

/-- Takes a section whose name is known and that is not there yet. -/
def put? (fields : Fields) (part : String × KeyMap Json) : Option Fields :=
  if part.1 ∈ names ∧ fields.get? part.1 = none then some (fields.set part.1 part.2)
  else none

theorem mem_names {name : String} :
    name ∈ names ↔ name = "flags" ∨ name = "flagValues" ∨ name = "segments" := by
  simp [names]

theorem get?_set (fields : Fields) {name : String} (h : name ∈ names)
    (map : KeyMap Json) (other : String) :
    (fields.set name map).get? other =
      if name = other then some map else fields.get? other := by
  rcases mem_names.mp h with rfl | rfl | rfl <;> grind [set, get?]

theorem ext_get? {fields others : Fields}
    (h : ∀ name, fields.get? name = others.get? name) : fields = others := by
  have hflags := h "flags"
  have hvalues := h "flagValues"
  have hsegments := h "segments"
  simp only [get?] at hflags hvalues hsegments
  cases fields
  cases others
  simp_all

theorem put?_eq_some {fields next : Fields} {name : String} {map : KeyMap Json} :
    fields.put? (name, map) = some next ↔
      name ∈ names ∧ fields.get? name = none ∧ fields.set name map = next := by
  simp [put?, and_assoc]

theorem section?_eq_ok {limit : Nat} {name : String}
    {present found : Option (KeyMap Json)} {input rest : Unread} :
    (section? limit name present input = .ok (found, rest)) ↔
      present = none ∧ ∃ map, behindColon (mapField limit) input = .ok (map, rest) ∧
        found = some map := by
  cases present with
  | some map => simp [section?]
  | none =>
      have hread : section? limit name none input =
          behindColon (mapField limit) input >>= fun found =>
            .ok (some found.1, found.2) := by
        simp only [section?, behindColon, bind_assoc]
        rfl
      simp only [hread, true_and]
      constructor
      · intro h
        obtain ⟨⟨map, left⟩, hmap, h⟩ := exists_of_bind_eq_ok h
        cases h
        exact ⟨map, hmap, rfl⟩
      · rintro ⟨map, hmap, rfl⟩
        rw [hmap, ok_bind]

theorem member_eq_ok {limit : Nat} {fields next : Fields} {name : String}
    {input rest : Unread} :
    member limit fields name input = .ok (next, rest) ↔
      ∃ map, behindColon (mapField limit) input = .ok (map, rest) ∧
        fields.put? (name, map) = some next := by
  have hfield : ∀ (present : Option (KeyMap Json))
      (wrap : Option (KeyMap Json) → Fields),
      (section? limit name present input >>= fun found =>
        .ok (wrap found.1, found.2)) = Except.ok (next, rest) ↔
      present = none ∧ ∃ map, behindColon (mapField limit) input = .ok (map, rest) ∧
        wrap (some map) = next := by
    intro present wrap
    constructor
    · intro h
      obtain ⟨⟨found, left⟩, hfound, h⟩ := exists_of_bind_eq_ok h
      cases h
      obtain ⟨hnone, map, hmap, rfl⟩ := section?_eq_ok.mp hfound
      exact ⟨hnone, map, hmap, rfl⟩
    · rintro ⟨hnone, map, hmap, rfl⟩
      rw [section?_eq_ok.mpr ⟨hnone, map, hmap, rfl⟩, ok_bind]
  simp only [put?_eq_some]
  unfold member
  split
  · refine (hfield fields.flags fun map => { fields with flags := map }).trans ?_
    simp [mem_names, get?, set, and_left_comm]
  · refine (hfield fields.flagValues fun map =>
      { fields with flagValues := map }).trans ?_
    simp [mem_names, get?, set, and_left_comm]
  · refine (hfield fields.segments fun map =>
      { fields with segments := map }).trans ?_
    simp [mem_names, get?, set, and_left_comm]
  · simp_all [mem_names]

/-- Sections are taken as long as each has a known name of its own. -/
theorem foldlM_put? {parts : List (String × KeyMap Json)} {fields final : Fields} :
    parts.foldlM put? fields = some final ↔
      (∀ part ∈ parts, part.1 ∈ names ∧ fields.get? part.1 = none) ∧
      (parts.map Prod.fst).Nodup ∧
      ∀ name, final.get? name = (Assoc.lookup name parts).or (fields.get? name) := by
  induction parts generalizing fields with
  | nil =>
      simp only [List.foldlM_nil, Assoc.lookup, Option.none_or]
      constructor
      · intro h
        cases h
        simp
      · rintro ⟨-, -, h⟩
        rw [ext_get? h]
        rfl
  | cons part rest ih =>
      obtain ⟨name, map⟩ := part
      have hfree : name ∈ names → ∀ other,
          (fields.set name map).get? other = none ↔
            name ≠ other ∧ fields.get? other = none := by
        intro hknown other
        rw [get?_set _ hknown]
        split <;> simp_all
      have hlookup : name ∈ names → name ∉ rest.map Prod.fst → ∀ other,
          (Assoc.lookup other rest).or ((fields.set name map).get? other) =
            (Assoc.lookup other ((name, map) :: rest)).or (fields.get? other) := by
        intro hknown hnew other
        rw [get?_set _ hknown]
        by_cases hsame : name = other
        · subst hsame
          simp [Assoc.lookup, Assoc.lookup_eq_none.mpr hnew]
        · simp [Assoc.lookup, hsame]
      rw [List.foldlM_cons]
      constructor
      · intro h
        obtain ⟨next, hput, hrest⟩ := Option.bind_eq_some_iff.mp h
        obtain ⟨hknown, hnone, rfl⟩ := put?_eq_some.mp hput
        obtain ⟨hparts, hdistinct, hget⟩ := ih.mp hrest
        simp only [hfree hknown] at hparts
        have hnew : name ∉ rest.map Prod.fst := by
          intro hm
          obtain ⟨part, hpart, hsame⟩ := List.mem_map.mp hm
          exact (hparts part hpart).2.1 hsame.symm
        refine ⟨List.forall_mem_cons.mpr ⟨⟨hknown, hnone⟩, fun part hm =>
            ⟨(hparts part hm).1, (hparts part hm).2.2⟩⟩,
          List.nodup_cons.mpr ⟨hnew, hdistinct⟩, fun other => ?_⟩
        rw [hget, hlookup hknown hnew]
      · rintro ⟨hparts, hdistinct, hget⟩
        obtain ⟨⟨hknown, hnone⟩, hparts⟩ := List.forall_mem_cons.mp hparts
        obtain ⟨hnew, hdistinct⟩ := List.nodup_cons.mp hdistinct
        refine Option.bind_eq_some_iff.mpr
          ⟨fields.set name map, put?_eq_some.mpr ⟨hknown, hnone, rfl⟩, ih.mpr
            ⟨fun part hm => ⟨(hparts part hm).1, ?_⟩, hdistinct, fun other => ?_⟩⟩
        · refine (hfree hknown part.1).mpr ⟨?_, (hparts part hm).2⟩
          intro hsame
          exact hnew (List.mem_map.mpr ⟨part, hm, hsame.symm⟩)
        · rw [hget, hlookup hknown hnew]

theorem get?_unset (name : String) : unset.get? name = none := by
  simp [get?, unset]

def ofParts (parts : List (String × KeyMap Json)) : Fields :=
  ⟨Assoc.lookup "flags" parts, Assoc.lookup "flagValues" parts,
    Assoc.lookup "segments" parts⟩

theorem get?_ofParts {parts : List (String × KeyMap Json)}
    (h : ∀ part ∈ parts, part.1 ∈ names) (name : String) :
    (ofParts parts).get? name = Assoc.lookup name parts := by
  by_cases hname : name ∈ names
  · rcases mem_names.mp hname with rfl | rfl | rfl <;> rfl
  · have hnone : Assoc.lookup name parts = none := by
      refine Assoc.lookup_eq_none.mpr fun hm => ?_
      obtain ⟨part, hpart, rfl⟩ := List.mem_map.mp hm
      exact hname (h part hpart)
    rw [hnone]
    simp only [mem_names, not_or] at hname
    simp [get?, hname]

end Fields

/-- The sections of a file by their names, each empty if it is not given. -/
def ofParts (parts : List (String × KeyMap Json)) : Sections :=
  (Fields.ofParts parts).toSections

theorem ofObject_eq_ok {limit : Nat} {input rest : Unread} {sections : Sections} :
    ofObject limit input = .ok (sections, rest) ↔
      ∃ parts, Named (behindColon (mapField limit)) true input parts rest ∧
        (∀ part ∈ parts, part.1 ∈ names) ∧ (parts.map Prod.fst).Nodup ∧
        sections = ofParts parts := by
  have hshrinks : Json.Shrinks (behindColon (mapField limit)) :=
    Json.shrinks_behindColon
      ((Json.interprets_mapField limit).shrinks (Json.shrinks_written limit))
  have hmember : ∀ fields name input next rest,
      Fields.member limit fields name input = .ok (next, rest) ↔
        ∃ map, behindColon (mapField limit) input = .ok (map, rest) ∧
          fields.put? (name, map) = some next := fun _ _ _ _ _ => Fields.member_eq_ok
  have hfields : ∀ final, Json.members .kept true (Fields.member limit)
      (input.length + 1) true .unset input = .ok (final, rest) ↔
        ∃ parts, Named (behindColon (mapField limit)) true input parts rest ∧
          (∀ part ∈ parts, part.1 ∈ names) ∧ (parts.map Prod.fst).Nodup ∧
          ∀ name, final.get? name = Assoc.lookup name parts := by
    intro final
    rw [Json.members_eq_ok Fields.put? hmember hshrinks]
    simp only [Fields.foldlM_put?, Fields.get?_unset, and_true, Option.or_none]
  constructor
  · intro h
    obtain ⟨⟨final, left⟩, hfinal, h⟩ := exists_of_bind_eq_ok h
    cases h
    obtain ⟨parts, hnamed, hknown, hdistinct, hget⟩ := (hfields final).mp hfinal
    refine ⟨parts, hnamed, hknown, hdistinct, congrArg Fields.toSections ?_⟩
    exact Fields.ext_get? fun name => by rw [hget, Fields.get?_ofParts hknown]
  · rintro ⟨parts, hnamed, hknown, hdistinct, rfl⟩
    have hfinal := (hfields (.ofParts parts)).mpr
      ⟨parts, hnamed, hknown, hdistinct, Fields.get?_ofParts hknown⟩
    rw [ofObject, hfinal, ok_bind]
    rfl

/-! ## Lists of sections -/

theorem listed_of_ofList {limit : Nat} {input left rest : Unread}
    {sections : Sections} (h : ofList limit input = .ok (sections, left))
    (hclose : Json.closeList left = .ok rest) :
    ∃ maps left, Listed (mapField limit) true input maps left ∧
      Json.closeList left = .ok rest ∧ maps.length ≤ names.length ∧
      sections = ofParts (names.zip maps) := by
  obtain ⟨⟨flags, afterFlags⟩, hflags, h⟩ := exists_of_bind_eq_ok h
  rcases Json.listField?_cases hflags with ⟨rfl, hend⟩ | ⟨flags, _, rfl, hnext, hflags⟩
  · cases h
    exact ⟨[], left, .done hend, hclose, by simp, rfl⟩
  obtain ⟨⟨values, afterValues⟩, hvalues, h⟩ := exists_of_bind_eq_ok h
  rcases Json.listField?_cases hvalues with
    ⟨rfl, hend⟩ | ⟨values, _, rfl, hnextValue, hvalues⟩
  · cases h
    exact ⟨[flags], left, .more hnext hflags (.done hend), hclose, by simp [names],
      rfl⟩
  obtain ⟨⟨segments, afterSegments⟩, hsegments, h⟩ := exists_of_bind_eq_ok h
  cases h
  rcases Json.listField?_cases hsegments with
    ⟨rfl, hend⟩ | ⟨segments, _, rfl, hnextSegment, hsegments⟩
  · exact ⟨[flags, values], left,
      .more hnext hflags (.more hnextValue hvalues (.done hend)), hclose,
      by simp [names], rfl⟩
  · obtain ⟨bracket, hend, hclose⟩ := Json.closeList_eq_ok.mp hclose
    exact ⟨[flags, values, segments], bracket, .more hnext hflags
      (.more hnextValue hvalues (.more hnextSegment hsegments (.done hend))), hclose,
      by simp [names], rfl⟩

theorem ofList_of_listed {limit : Nat} {input left rest : Unread}
    {maps : List (KeyMap Json)} (hlisted : Listed (mapField limit) true input maps left)
    (hclose : Json.closeList left = .ok rest) (hlength : maps.length ≤ names.length) :
    ∃ left, ofList limit input = .ok (ofParts (names.zip maps), left) ∧
      Json.closeList left = .ok rest := by
  cases hlisted with
  | done hend =>
      have hflags := Json.listField?_none (mapField limit) hend
      exact ⟨left, by simp only [ofList, hflags, ok_bind]; rfl, hclose⟩
  | more hnext hflags hlisted =>
      have hflags := Json.listField?_some hnext hflags
      cases hlisted with
      | done hend =>
          have hvalues := Json.listField?_none (mapField limit) hend
          exact ⟨left, by simp only [ofList, hflags, hvalues, ok_bind]; rfl, hclose⟩
      | more hnext hvalues hlisted =>
          have hvalues := Json.listField?_some hnext hvalues
          cases hlisted with
          | done hend =>
              have hsegments := Json.listField?_none (mapField limit) hend
              refine ⟨left, ?_, hclose⟩
              simp only [ofList, hflags, hvalues, hsegments, ok_bind]
              rfl
          | more hnext hsegments hlisted =>
              have hsegments := Json.listField?_some hnext hsegments
              cases hlisted with
              | done hend =>
                  -- The end of the list is left to its bracket.
                  refine ⟨_, ?_, Json.closeList_eq_ok.mpr ⟨left, hend, hclose⟩⟩
                  simp only [ofList, hflags, hvalues, hsegments, ok_bind]
                  rfl
              | more =>
                  simp only [List.length_cons, names, List.length_nil] at hlength
                  omega

theorem ofList_eq_ok {limit : Nat} {input rest : Unread} {sections : Sections} :
    (∃ left, ofList limit input = .ok (sections, left) ∧
        Json.closeList left = .ok rest) ↔
      ∃ maps left, Listed (mapField limit) true input maps left ∧
        Json.closeList left = .ok rest ∧ maps.length ≤ names.length ∧
        sections = ofParts (names.zip maps) := by
  constructor
  · rintro ⟨left, h, hclose⟩
    exact listed_of_ofList h hclose
  · rintro ⟨maps, left, hlisted, hclose, hlength, rfl⟩
    exact ofList_of_listed hlisted hclose hlength

end Sections

/-! ## Whole files -/

theorem record_eq_ok {limit : Nat} {input rest : Unread} {sections : Sections} :
    Json.record "struct FileData" Sections.ofList Sections.ofObject (limit + 1) input =
        .ok (sections, rest) ↔
      (∃ maps, ReadsList (mapField limit) input maps rest ∧
        maps.length ≤ Sections.names.length ∧
        sections = .ofParts (Sections.names.zip maps)) ∨
      ∃ parts, ReadsObject (mapField limit) input parts rest ∧
        (∀ part ∈ parts, part.1 ∈ Sections.names) ∧ (parts.map Prod.fst).Nodup ∧
        sections = .ofParts parts := by
  rw [Json.record_eq_ok]
  constructor
  · rintro (⟨inner, left, hstart, hinner, hclose⟩ |
      ⟨inner, left, hstart, hinner, hclose⟩)
    · obtain ⟨maps, left, hlisted, hclose, hlength, rfl⟩ :=
        Sections.ofList_eq_ok.mp ⟨left, hinner, hclose⟩
      exact .inl ⟨maps, ⟨inner, left, hstart, hlisted, hclose⟩, hlength, rfl⟩
    · obtain ⟨parts, hnamed, hknown, hdistinct, rfl⟩ :=
        Sections.ofObject_eq_ok.mp hinner
      exact .inr ⟨parts, ⟨inner, left, hstart, hnamed, hclose⟩, hknown, hdistinct, rfl⟩
  · rintro (⟨maps, ⟨inner, left, hstart, hlisted, hclose⟩, hlength, rfl⟩ |
      ⟨parts, ⟨inner, left, hstart, hnamed, hclose⟩, hknown, hdistinct, rfl⟩)
    · obtain ⟨left, hinner, hclose⟩ :=
        Sections.ofList_eq_ok.mpr ⟨maps, left, hlisted, hclose, hlength, rfl⟩
      exact .inl ⟨inner, left, hstart, hinner, hclose⟩
    · exact .inr ⟨inner, left, hstart,
        Sections.ofObject_eq_ok.mpr ⟨parts, hnamed, hknown, hdistinct, rfl⟩, hclose⟩

/-- Sections as they are written, each with the map that stands for it. -/
abbrev Mapped (parts : List (String × Json)) (maps : List (String × KeyMap Json)) :
    Prop :=
  List.Forall₂ (fun part map => part.1 = map.1 ∧ IsMap part.2 map.2) parts maps

variable {parts : List (String × Json)} {maps : List (String × KeyMap Json)}

theorem Mapped.names_eq (h : Mapped parts maps) :
    maps.map Prod.fst = parts.map Prod.fst := by
  induction h with
  | nil => rfl
  | cons hpart _ ih => rw [List.map_cons, List.map_cons, hpart.1, ih]

theorem Mapped.lookup (h : Mapped parts maps) (name : String) :
    (Assoc.lookup name maps).getD .empty = mapNamed name parts := by
  induction h with
  | nil => rfl
  | @cons part map _ _ hpart _ ih =>
      obtain ⟨own, value⟩ := part
      obtain ⟨same, found⟩ := map
      obtain ⟨rfl, members, rfl, rfl⟩ := hpart
      by_cases hsame : own = name <;> simp_all [Assoc.lookup, mapNamed]

theorem Mapped.zip {docs : List Json} {maps : List (KeyMap Json)}
    (h : List.Forall₂ IsMap docs maps) (names : List String) :
    Mapped (names.zip docs) (names.zip maps) := by
  induction h generalizing names with
  | nil => simp [Mapped]
  | cons hmap _ ih =>
      cases names with
      | nil => exact .nil
      | cons name names => exact .cons ⟨rfl, hmap⟩ (ih names)

theorem Mapped.sections (h : Mapped parts maps) :
    Sections.ofParts maps = ⟨mapNamed "flags" parts, mapNamed "flagValues" parts,
      mapNamed "segments" parts⟩ := by
  simp only [Sections.ofParts, Sections.Fields.toSections, Sections.Fields.ofParts,
    h.lookup]

theorem exists_forall₂ {α β : Type*} {r : α → β → Prop} {list : List α} :
    (∃ others, List.Forall₂ r list others) ↔ ∀ a ∈ list, ∃ b, r a b := by
  constructor
  · rintro ⟨others, h⟩
    induction h with
    | nil => simp
    | cons hab _ ih => exact List.forall_mem_cons.mpr ⟨⟨_, hab⟩, ih⟩
  · intro h
    induction list with
    | nil => exact ⟨[], .nil⟩
    | cons a rest ih =>
        obtain ⟨⟨b, hb⟩, hrest⟩ := List.forall_mem_cons.mp h
        obtain ⟨others, hothers⟩ := ih hrest
        exact ⟨b :: others, .cons hb hothers⟩

theorem exists_isMap {doc : Json} :
    (∃ map, IsMap doc map) ↔ ∃ members, doc = .object members := by
  constructor
  · rintro ⟨_, members, rfl, -⟩
    exact ⟨members, rfl⟩
  · rintro ⟨members, rfl⟩
    exact ⟨_, members, rfl, rfl⟩

theorem exists_mapped :
    (∃ maps, Mapped parts maps) ↔
      ∀ part ∈ parts, ∃ members, part.2 = .object members := by
  have hpart : ∀ part : String × Json,
      (∃ map : String × KeyMap Json, part.1 = map.1 ∧ IsMap part.2 map.2) ↔
        ∃ members, part.2 = .object members := by
    intro part
    rw [← exists_isMap]
    constructor
    · rintro ⟨map, -, hmap⟩
      exact ⟨map.2, hmap⟩
    · rintro ⟨map, hmap⟩
      exact ⟨(part.1, map), rfl, hmap⟩
  simp only [Mapped, exists_forall₂, hpart]

/-- A list takes its names from the first names of sections. -/
theorem names_zip_sublist {α β : Type*} (names : List α) (docs : List β) :
    ((names.zip docs).map Prod.fst).Sublist names := by
  induction names generalizing docs with
  | nil => simp
  | cons name names ih =>
      cases docs with
      | nil => simp
      | cons doc docs => exact (ih docs).cons_cons name

theorem accepted_list {docs : List Json} :
    Accepted (.array docs) ↔ docs.length ≤ Sections.names.length ∧
      ∀ doc ∈ docs, ∃ members, doc = .object members := by
  constructor
  · intro h
    have hlength : docs.length ≤ Sections.names.length := by
      rcases h.container with ⟨_, hdoc⟩ | ⟨_, hdoc, hlength⟩
      · cases hdoc
      · cases hdoc
        exact hlength
    refine ⟨hlength, fun doc hm => ?_⟩
    rw [← List.map_snd_zip hlength] at hm
    obtain ⟨part, hpart, rfl⟩ := List.mem_map.mp hm
    exact h.objects part hpart
  · rintro ⟨hlength, hobjects⟩
    refine ⟨.inr ⟨docs, rfl, hlength⟩, fun part hm => (List.of_mem_zip hm).1,
      (names_zip_sublist _ docs).nodup (by decide), fun part hm => ?_⟩
    exact hobjects part.2 (List.of_mem_zip hm).2

theorem accepted_object {members : List (String × Json)} :
    Accepted (.object members) ↔ (∀ part ∈ members, part.1 ∈ Sections.names) ∧
      (members.map Prod.fst).Nodup ∧
      ∀ part ∈ members, ∃ inner, part.2 = .object inner := by
  constructor
  · rintro ⟨-, hknown, hdistinct, hobjects⟩
    exact ⟨hknown, hdistinct, hobjects⟩
  · rintro ⟨hknown, hdistinct, hobjects⟩
    exact ⟨.inl ⟨members, rfl⟩, hknown, hdistinct, hobjects⟩

/-- A list is accepted if its elements stand for maps, one for each name at most. -/
theorem standsFor_list {docs : List Json} {sections : Sections} :
    (∃ maps, List.Forall₂ IsMap docs maps ∧ maps.length ≤ Sections.names.length ∧
        sections = .ofParts (Sections.names.zip maps)) ↔
      Accepted (.array docs) ∧ sections = sectionsOf (.array docs) := by
  simp only [accepted_list, ← exists_isMap, ← exists_forall₂]
  constructor
  · rintro ⟨maps, hall, hlength, rfl⟩
    rw [← hall.length_eq] at hlength
    exact ⟨⟨hlength, maps, hall⟩, (Mapped.zip hall _).sections⟩
  · rintro ⟨⟨hlength, maps, hall⟩, rfl⟩
    rw [hall.length_eq] at hlength
    exact ⟨maps, hall, hlength, (Mapped.zip hall _).sections.symm⟩

/-- An object is accepted if its members stand for maps with known names of their
own. -/
theorem standsFor_object {sections : Sections} :
    (∃ maps, Mapped parts maps ∧ (∀ map ∈ maps, map.1 ∈ Sections.names) ∧
        (maps.map Prod.fst).Nodup ∧ sections = .ofParts maps) ↔
      Accepted (.object parts) ∧ sections = sectionsOf (.object parts) := by
  simp only [accepted_object, ← exists_mapped, ← List.forall_mem_map (f := Prod.fst)]
  constructor
  · rintro ⟨maps, hmapped, hknown, hdistinct, rfl⟩
    rw [hmapped.names_eq] at hknown hdistinct
    exact ⟨⟨hknown, hdistinct, maps, hmapped⟩, hmapped.sections⟩
  · rintro ⟨⟨hknown, hdistinct, maps, hmapped⟩, rfl⟩
    rw [← hmapped.names_eq] at hknown hdistinct
    exact ⟨maps, hmapped, hknown, hdistinct, hmapped.sections.symm⟩

theorem not_accepted_of_isScalar {doc : Json} (h : doc.IsScalar) : ¬ Accepted doc := by
  intro haccepted
  rcases haccepted.container with ⟨members, rfl⟩ | ⟨elements, rfl, -⟩
  · exact h
  · exact h

theorem record_zero {input : Unread} (found : Sections × Unread) :
    Json.record "struct FileData" Sections.ofList Sections.ofObject 0 input ≠
      .ok found := by
  unfold Json.record
  split <;> exact nofun

/-- A text is read as sections if its document is a data file. -/
theorem interprets_record (limit : Nat) :
    Json.Interprets
      (Json.record "struct FileData" Sections.ofList Sections.ofObject limit)
      (Json.written limit) fun doc sections =>
        Accepted doc ∧ sections = sectionsOf doc := by
  intro input sections rest
  cases limit with
  | zero =>
      constructor
      · intro h
        exact absurd h (record_zero _)
      · rintro ⟨doc, h, haccepted, -⟩
        exact absurd haccepted (not_accepted_of_isScalar (Json.isScalar_of_value h))
  | succ limit =>
      have hmap := Json.interprets_mapField limit
      rw [record_eq_ok]
      simp only [Json.written_succ_eq_ok, hmap.list, hmap.object]
      constructor
      · rintro (⟨maps, ⟨docs, hdocs, hall⟩, h⟩ | ⟨maps, ⟨parts, hparts, hall⟩, h⟩)
        · exact ⟨_, .inr (.inl ⟨docs, hdocs, rfl⟩), standsFor_list.mp ⟨maps, hall, h⟩⟩
        · exact ⟨_, .inr (.inr ⟨parts, hparts, rfl⟩),
            standsFor_object.mp ⟨maps, hall, h⟩⟩
      · rintro ⟨_, h | ⟨docs, hdocs, rfl⟩ | ⟨parts, hparts, rfl⟩, hstands⟩
        · exact absurd hstands.1
            (not_accepted_of_isScalar (Json.isScalar_of_value h))
        · obtain ⟨maps, hall, h⟩ := standsFor_list.mpr hstands
          exact .inl ⟨maps, ⟨docs, hdocs, hall⟩, h⟩
        · obtain ⟨maps, hall, h⟩ := standsFor_object.mpr hstands
          exact .inr ⟨maps, ⟨parts, hparts, hall⟩, h⟩

/-- A text is parsed as sections if its document is a data file, and the sections are
those of the document. -/
theorem ofJsonText_eq_ok {text : String} {sections : Sections} :
    Sections.ofJsonText text = .ok sections ↔
      ∃ doc, Json.parseWritten text = .ok doc ∧
        Accepted doc ∧ sections = sectionsOf doc :=
  (interprets_record Json.depthLimit).text

theorem parse_json_eq_ok {path : Path} (hjson : Format.ofPath path = .json)
    {text : String} {sections : Sections} :
    parse path text = .ok sections ↔
      ∃ doc, Json.parseWritten text = .ok doc ∧
        Accepted doc ∧ sections = sectionsOf doc := by
  rw [← ofJsonText_eq_ok, parse, hjson, sectionsOfText]
  cases Sections.ofJsonText text <;> simp

end Files

end VersionedFlags
