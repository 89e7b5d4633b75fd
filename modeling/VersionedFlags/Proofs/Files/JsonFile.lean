import VersionedFlags.Proofs.Files.Document
import VersionedFlags.Proofs.Json.Grammar

/-!
# JSON data files

Which documents are JSON data files, and what each section of such a file has.  The
text of the document does not matter: blanks and escapes stand for nothing more.
-/

namespace VersionedFlags

namespace Files

open Json (Denotes SpelledText)

/-! ## Accepted documents -/

/-- A path whose extension is not one of YAML's, in letters of any case. -/
def NotYaml (path : Path) : Prop :=
  ∀ extension, path.extension? = some extension →
    extension.toLower ≠ "yaml" ∧ extension.toLower ≠ "yml"

theorem NotYaml.ofPath {path : Path} (h : NotYaml path) : Format.ofPath path = .json := by
  unfold Format.ofPath
  split
  · rename_i hyaml
    obtain ⟨extension, hextension, hlower⟩ := Option.map_eq_some_iff.mp hyaml
    exact absurd hlower (h extension hextension).1
  · rename_i hyml
    obtain ⟨extension, hextension, hlower⟩ := Option.map_eq_some_iff.mp hyml
    exact absurd hlower (h extension hextension).2
  · rfl

theorem accepted_iff {doc : Json} :
    Accepted doc ↔
      (∃ members, doc = .object members ∧ (members.map Prod.fst).Nodup ∧
        ∀ part ∈ members, part.1 ∈ Sections.names ∧
          ∃ inner, part.2 = .object inner) ∨
      ∃ elements, doc = .array elements ∧ elements.length ≤ 3 ∧
        ∀ part ∈ elements, ∃ inner, part = .object inner := by
  cases doc with
  | object members =>
      simp only [accepted_object, Json.object.injEq, exists_eq_left', reduceCtorEq,
        false_and, exists_false, or_false, forall_and]
      tauto
  | array elements =>
      simp only [accepted_list, Json.array.injEq, exists_eq_left', reduceCtorEq,
        false_and, exists_false, false_or]
      rfl
  | _ =>
      simp only [reduceCtorEq, false_and, exists_false, or_false, iff_false]
      exact not_accepted_of_isScalar trivial

/-! ## Sections of a file -/

/-- The map of a section is empty if the document has no such section; otherwise it
has, for each key, what the last member of that name denotes. -/
def Fills (doc : Json) (name : String) (map : KeyMap Json) : Prop :=
  (Assoc.lookup name (sectionsIn doc) = none → map = .empty) ∧
  ∀ members, Assoc.lookup name (sectionsIn doc) = some (.object members) →
    ∀ key, Option.Rel Denotes (Assoc.lookup key members.reverse) (map.get? key)

theorem fills_mapNamed (doc : Json) (name : String) :
    Fills doc name (mapNamed name (sectionsIn doc)) := by
  constructor
  · intro hnone
    rw [mapNamed, hnone]
  · intro members hsome key
    rw [mapNamed, hsome]
    simp only [Json.get?_ofList_settledMembers]
    cases Assoc.lookup key members.reverse with
    | none => exact .none
    | some doc => exact .some (Json.denotes_settled doc)

theorem parse_eq_error {path : Path} {text : String} {error : LoadError}
    (h : parse path text = .error error) : ∃ fault, error = .unparsable path fault := by
  unfold parse at h
  cases hsections : sectionsOfText (.ofPath path) text with
  | ok sections => simp [hsections] at h
  | error fault =>
      rw [hsections] at h
      cases h
      exact ⟨fault, rfl⟩

/-- The text of a document is a data file if the document is an object of sections
under names of their own, or a list of at most three sections.  Every section is an
object; those that are left out are empty.  Any other document is refused for its
path. -/
theorem parse_document {path : Path} (hpath : NotYaml path) {doc : Json} {text : String}
    (htext : SpelledText doc text) (hdepth : doc.depth ≤ 127) :
    ((∃ sections, parse path text = .ok sections) ↔
      (∃ members, doc = .object members ∧ (members.map Prod.fst).Nodup ∧
        ∀ part ∈ members, part.1 ∈ ["flags", "flagValues", "segments"] ∧
          ∃ inner, part.2 = .object inner) ∨
      ∃ elements, doc = .array elements ∧ elements.length ≤ 3 ∧
        ∀ part ∈ elements, ∃ inner, part = .object inner) ∧
    (∀ sections, parse path text = .ok sections →
      Fills doc "flags" sections.flags ∧ Fills doc "flagValues" sections.flagValues ∧
        Fills doc "segments" sections.segments) ∧
    ∀ error, parse path text = .error error →
      ∃ fault, error = .unparsable path fault := by
  have hwritten := htext.parseWritten hdepth
  have hparse : ∀ sections, parse path text = .ok sections ↔
      Accepted doc ∧ sections = sectionsOf doc := by
    intro sections
    rw [parse_json_eq_ok hpath.ofPath, hwritten]
    simp only [Except.ok.injEq, exists_eq_left']
  refine ⟨?_, ?_, fun _ => parse_eq_error⟩
  · simp only [hparse, exists_and_left, exists_eq, and_true]
    exact accepted_iff
  · intro sections h
    obtain ⟨-, rfl⟩ := (hparse sections).mp h
    exact ⟨fills_mapNamed doc _, fills_mapNamed doc _, fills_mapNamed doc _⟩

/-- A document that has a flag value twice, the last time a list. -/
def twiceDoc : Json :=
  .object [("flagValues", .object [("a", .null), ("a", .array [.ofWord 1])])]

theorem withoutDoubles_twiceDoc : twiceDoc.WithoutDoubles := by
  refine .object (List.forall_mem_singleton.mpr (.object ?_))
  refine List.forall_mem_cons.mpr ⟨.null, List.forall_mem_singleton.mpr (.array ?_)⟩
  exact List.forall_mem_singleton.mpr (.integer _)

theorem parse_twiceDoc :
    NotYaml ⟨"/f.json"⟩ ∧ SpelledText twiceDoc twiceDoc.text ∧ twiceDoc.depth ≤ 127 ∧
      ∃ sections, parse ⟨"/f.json"⟩ twiceDoc.text = .ok sections ∧
        Fills twiceDoc "flagValues" sections.flagValues := by
  have hpath : NotYaml ⟨"/f.json"⟩ := by
    intro extension hextension
    have hjson : Path.extension? ⟨"/f.json"⟩ = some "json" := by decide +kernel
    rw [hjson] at hextension
    cases hextension
    decide +kernel
  have htext := Json.spelledText_text withoutDoubles_twiceDoc
  have hdepth : twiceDoc.depth ≤ 127 := by decide
  obtain ⟨haccepted, hfills, -⟩ := parse_document hpath htext hdepth
  obtain ⟨sections, hsections⟩ := haccepted.mpr (.inl ⟨_, rfl, by decide, by simp⟩)
  exact ⟨hpath, htext, hdepth, sections, hsections, (hfills sections hsections).2.1⟩

end Files

end VersionedFlags
