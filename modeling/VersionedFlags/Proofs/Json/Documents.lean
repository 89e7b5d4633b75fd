import Mathlib.Data.List.Forall2
import VersionedFlags.Proofs.Json.Containers

/-!
# Documents as they are written

A document has the members of each object in the order of the text, with those that
repeat a name.  A value keeps the last member of each name, and so does a map.
-/

namespace VersionedFlags

namespace Json

variable {α : Type} {first : Bool} {input rest : Unread}

/-! ## Scalars -/

def IsScalar : Json → Prop
  | .array _ | .object _ => False
  | _ => True

theorem isScalar_of_scaled {negative : Bool} {significand : Nat} {exponent : Int}
    {v : Json} (h : scaled negative significand exponent = some v) : IsScalar v := by
  obtain ⟨x, -, h⟩ := Option.bind_eq_some_iff.mp h
  obtain ⟨y, -, h⟩ := Option.bind_eq_some_iff.mp h
  cases h
  trivial

theorem isScalar_of_numeral {literal : Numeral} {v : Json}
    (h : literal.value rest = .ok v) : IsScalar v := by
  unfold Numeral.value at h
  simp only at h
  split at h
  · split at h
    · split at h
      · rename_i hscaled
        cases h
        exact isScalar_of_scaled hscaled
      · cases h
    · split at h
      · split at h <;> cases h
        trivial
      · split at h <;> cases h
        trivial
  · split at h
    · cases h
      trivial
    · split at h
      · rename_i hscaled
        cases h
        exact isScalar_of_scaled hscaled
      · cases h

theorem value_zero_list {inner : Unread} (h : skipBlanks input = '[' :: inner)
    (found : Json × Unread) : value 0 input ≠ .ok found := by
  unfold value
  simp [h]

theorem value_zero_object {inner : Unread} (h : skipBlanks input = '\x7b' :: inner)
    (found : Json × Unread) : value 0 input ≠ .ok found := by
  unfold value
  simp [h]

theorem isScalar_of_value {v : Json} (h : value 0 input = .ok (v, rest)) :
    IsScalar v := by
  have hword : ∀ (read : Json) {expected behind : List Char}, IsScalar read →
      (do return (read, ← word expected behind)) = Except.ok (v, rest) →
      IsScalar v := by
    intro read expected behind hread h
    obtain ⟨left, -, h⟩ := exists_of_bind_eq_ok h
    cases h
    exact hread
  unfold value at h
  split at h
  · cases h
  · exact hword .null trivial h
  · exact hword (.bool true) trivial h
  · exact hword (.bool false) trivial h
  · obtain ⟨⟨text, left⟩, -, h⟩ := exists_of_bind_eq_ok h
    cases h
    trivial
  · cases h
  · cases h
  · split at h
    · obtain ⟨⟨literal, behind⟩, -, h⟩ := exists_of_bind_eq_ok h
      obtain ⟨found, hfound, h⟩ := exists_of_bind_eq_ok h
      cases h
      exact isScalar_of_numeral hfound
    · cases h

/-! ## Readers that interpret documents -/

/-- Reads a document with the members of its objects as they are written. -/
def written : Nat → Unread → Except Stop (Json × Unread)
  | 0 => value 0
  | limit + 1 => container (written limit) .array .object (value 0)

theorem shrinks_written (limit : Nat) : Shrinks (written limit) := by
  induction limit with
  | zero => exact shrinks_scalar
  | succ limit ih => exact shrinks_container ih shrinks_scalar

/-- A reader accepts the documents that stand for a value, and gives that value. -/
def Interprets (read : Unread → Except Stop (α × Unread))
    (document : Unread → Except Stop (Json × Unread)) (stands : Json → α → Prop) :
    Prop :=
  ∀ input value rest, read input = .ok (value, rest) ↔
    ∃ doc, document input = .ok (doc, rest) ∧ stands doc value

section

variable {read : Unread → Except Stop (α × Unread)}
  {document : Unread → Except Stop (Json × Unread)} {stands : Json → α → Prop}
  (h : Interprets read document stands)

include h

theorem Interprets.behindColon :
    Interprets (Json.behindColon read) (Json.behindColon document) stands := by
  intro input value rest
  unfold Json.behindColon
  cases colon input with
  | error stop => simp
  | ok behind => exact h behind value rest

theorem Interprets.shrinks (hdocument : Shrinks document) : Shrinks read := by
  intro input value rest hread
  obtain ⟨doc, hdoc, -⟩ := (h input value rest).mp hread
  exact hdocument hdoc

theorem Interprets.listed {values : List α} :
    Listed read first input values rest ↔
      ∃ docs, Listed document first input docs rest ∧
        List.Forall₂ stands docs values := by
  constructor
  · intro hlisted
    induction hlisted with
    | done hnext => exact ⟨[], .done hnext, .nil⟩
    | more hnext hvalue _ ih =>
        obtain ⟨doc, hdoc, hstands⟩ := (h _ _ _).mp hvalue
        obtain ⟨docs, hdocs, hall⟩ := ih
        exact ⟨doc :: docs, .more hnext hdoc hdocs, .cons hstands hall⟩
  · rintro ⟨docs, hdocs, hall⟩
    induction hdocs generalizing values with
    | done hnext =>
        cases hall
        exact .done hnext
    | more hnext hdoc _ ih =>
        cases hall with
        | cons hstands hall =>
            exact .more hnext ((h _ _ _).mpr ⟨_, hdoc, hstands⟩) (ih hall)

theorem Interprets.named {members : List (String × α)} :
    Named read first input members rest ↔
      ∃ docs, Named document first input docs rest ∧
        List.Forall₂ (fun doc member => doc.1 = member.1 ∧ stands doc.2 member.2)
          docs members := by
  constructor
  · intro hnamed
    induction hnamed with
    | done hnext => exact ⟨[], .done hnext, .nil⟩
    | more hnext hname hvalue _ ih =>
        obtain ⟨doc, hdoc, hstands⟩ := (h _ _ _).mp hvalue
        obtain ⟨docs, hdocs, hall⟩ := ih
        exact ⟨(_, doc) :: docs, .more hnext hname hdoc hdocs,
          .cons ⟨rfl, hstands⟩ hall⟩
  · rintro ⟨docs, hdocs, hall⟩
    induction hdocs generalizing members with
    | done hnext =>
        cases hall
        exact .done hnext
    | more hnext hname hdoc _ ih =>
        cases hall with
        | cons hstands hall =>
            obtain ⟨hsame, hstands⟩ := hstands
            simp only at hsame hstands
            subst hsame
            exact .more hnext hname ((h _ _ _).mpr ⟨_, hdoc, hstands⟩) (ih hall)

theorem Interprets.list {values : List α} :
    ReadsList read input values rest ↔
      ∃ docs, ReadsList document input docs rest ∧ List.Forall₂ stands docs values := by
  constructor
  · rintro ⟨inner, left, hstart, hlisted, hclose⟩
    obtain ⟨docs, hdocs, hall⟩ := h.listed.mp hlisted
    exact ⟨docs, ⟨inner, left, hstart, hdocs, hclose⟩, hall⟩
  · rintro ⟨docs, ⟨inner, left, hstart, hdocs, hclose⟩, hall⟩
    exact ⟨inner, left, hstart, h.listed.mpr ⟨docs, hdocs, hall⟩, hclose⟩

theorem Interprets.object {members : List (String × α)} :
    ReadsObject read input members rest ↔
      ∃ docs, ReadsObject document input docs rest ∧
        List.Forall₂ (fun doc member => doc.1 = member.1 ∧ stands doc.2 member.2)
          docs members := by
  constructor
  · rintro ⟨inner, left, hstart, hnamed, hclose⟩
    obtain ⟨docs, hdocs, hall⟩ := h.behindColon.named.mp hnamed
    exact ⟨docs, ⟨inner, left, hstart, hdocs, hclose⟩, hall⟩
  · rintro ⟨docs, ⟨inner, left, hstart, hdocs, hclose⟩, hall⟩
    exact ⟨inner, left, hstart, h.behindColon.named.mpr ⟨docs, hdocs, hall⟩, hclose⟩

end

/-! ## Values and maps -/

mutual

/-- The value of a document: of the members of one name the last one stays. -/
def settled : Json → Json
  | .array elements => .array (settledElements elements)
  | .object members => ofMembers (settledMembers members)
  | value => value

def settledElements : List Json → List Json
  | [] => []
  | element :: rest => settled element :: settledElements rest

def settledMembers : List (String × Json) → List (String × Json)
  | [] => []
  | (name, value) :: rest => (name, settled value) :: settledMembers rest

end

theorem IsScalar.settled {v : Json} (h : IsScalar v) : settled v = v := by
  cases v with
  | array | object => exact h.elim
  | _ => rfl

theorem forall₂_settled {docs values : List Json} :
    List.Forall₂ (fun doc value => value = settled doc) docs values ↔
      values = settledElements docs := by
  induction docs generalizing values with
  | nil => simp [settledElements]
  | cons doc docs ih =>
      simp only [List.forall₂_cons_left_iff, ih, settledElements]
      constructor
      · rintro ⟨_, _, rfl, rfl, rfl⟩
        rfl
      · rintro rfl
        exact ⟨_, _, rfl, rfl, rfl⟩

theorem forall₂_settledMembers {docs members : List (String × Json)} :
    List.Forall₂ (fun doc member => doc.1 = member.1 ∧ member.2 = settled doc.2)
        docs members ↔ members = settledMembers docs := by
  induction docs generalizing members with
  | nil => simp [settledMembers]
  | cons doc docs ih =>
      obtain ⟨name, doc⟩ := doc
      simp only [List.forall₂_cons_left_iff, ih, settledMembers]
      constructor
      · rintro ⟨⟨_, _⟩, _, ⟨rfl, rfl⟩, rfl, rfl⟩
        rfl
      · rintro rfl
        exact ⟨_, _, ⟨rfl, rfl⟩, rfl, rfl⟩

theorem value_succ_eq_ok {limit : Nat} {v : Json} :
    value (limit + 1) input = .ok (v, rest) ↔
      value 0 input = .ok (v, rest) ∨
      (∃ values, ReadsList (value limit) input values rest ∧ .array values = v) ∨
      ∃ members, ReadsObject (value limit) input members rest ∧
        ofMembers members = v := by
  rw [value_succ]
  exact container_eq_ok (shrinks_value limit) (fun _ _ => value_zero_list)
    fun _ _ => value_zero_object

theorem written_succ_eq_ok {limit : Nat} {doc : Json} :
    written (limit + 1) input = .ok (doc, rest) ↔
      value 0 input = .ok (doc, rest) ∨
      (∃ docs, ReadsList (written limit) input docs rest ∧ .array docs = doc) ∨
      ∃ members, ReadsObject (written limit) input members rest ∧
        .object members = doc :=
  container_eq_ok (shrinks_written limit) (fun _ _ => value_zero_list)
    fun _ _ => value_zero_object

/-- Reading a value is reading a document and settling what stays of it. -/
theorem interprets_value (limit : Nat) :
    Interprets (value limit) (written limit) fun doc v => v = settled doc := by
  have hscalar : ∀ {input rest : Unread} {v : Json}, value 0 input = .ok (v, rest) →
      settled v = v := fun h => (isScalar_of_value h).settled
  induction limit with
  | zero =>
      intro input v rest
      constructor
      · intro h
        exact ⟨v, h, (hscalar h).symm⟩
      · rintro ⟨doc, h, rfl⟩
        rw [hscalar h]
        exact h
  | succ limit ih =>
      intro input v rest
      simp only [value_succ_eq_ok, written_succ_eq_ok, ih.list, ih.object,
        forall₂_settled, forall₂_settledMembers]
      constructor
      · rintro (h | ⟨_, ⟨docs, hdocs, rfl⟩, rfl⟩ | ⟨_, ⟨docs, hdocs, rfl⟩, rfl⟩)
        · exact ⟨v, .inl h, (hscalar h).symm⟩
        · exact ⟨.array docs, .inr (.inl ⟨docs, hdocs, rfl⟩), rfl⟩
        · exact ⟨.object docs, .inr (.inr ⟨docs, hdocs, rfl⟩), rfl⟩
      · rintro ⟨doc, h | ⟨docs, hdocs, rfl⟩ | ⟨docs, hdocs, rfl⟩, rfl⟩
        · rw [hscalar h]
          exact .inl h
        · exact .inr (.inl ⟨_, ⟨docs, hdocs, rfl⟩, rfl⟩)
        · exact .inr (.inr ⟨_, ⟨docs, hdocs, rfl⟩, rfl⟩)

theorem within_eq_ok {leaving : Unread → Unread} {close : Unread → Except Stop Unread}
    {inner : Except Stop (α × Unread)} {value : α} :
    within leaving close inner = .ok (value, rest) ↔
      ∃ left, inner = .ok (value, left) ∧ close left = .ok rest := by
  unfold within
  cases inner with
  | error stop => simp
  | ok found =>
      obtain ⟨result, left⟩ := found
      cases hclose : close left <;> simp [hclose, Except.map]

/-- A record is read from a list or from an object. -/
theorem record_eq_ok {wanted : String}
    {ofList ofObject : Nat → Unread → Except Stop (α × Unread)} {limit : Nat}
    {found : α} :
    record wanted ofList ofObject (limit + 1) input = .ok (found, rest) ↔
      (∃ inner left, skipBlanks input = '[' :: inner ∧
        ofList limit inner = .ok (found, left) ∧ closeList left = .ok rest) ∨
      ∃ inner left, skipBlanks input = '\x7b' :: inner ∧
        ofObject limit inner = .ok (found, left) ∧ closeObject left = .ok rest := by
  unfold record
  constructor
  · intro h
    split at h
    · cases h
    · rename_i inner hstart
      obtain ⟨left, hinner, hclose⟩ := within_eq_ok.mp h
      exact .inl ⟨inner, left, hstart, hinner, hclose⟩
    · rename_i inner hstart
      obtain ⟨left, hinner, hclose⟩ := within_eq_ok.mp h
      exact .inr ⟨inner, left, hstart, hinner, hclose⟩
    · cases h
  · rintro (⟨inner, left, hstart, hinner, hclose⟩ |
      ⟨inner, left, hstart, hinner, hclose⟩)
    · simp only [hstart]
      exact within_eq_ok.mpr ⟨left, hinner, hclose⟩
    · simp only [hstart]
      exact within_eq_ok.mpr ⟨left, hinner, hclose⟩

/-- A map of the values that stand for the members of an object. -/
def IsMap (doc : Json) (map : KeyMap Json) : Prop :=
  ∃ members, doc = .object members ∧ map = .ofList (settledMembers members)

theorem mapField_zero (found : KeyMap Json × Unread) :
    mapField 0 input ≠ .ok found := by
  unfold mapField
  split <;> exact nofun

theorem mapField_succ_eq_ok {limit : Nat} {map : KeyMap Json} :
    mapField (limit + 1) input = .ok (map, rest) ↔
      ∃ members, ReadsObject (value limit) input members rest ∧
        map = .ofList members := by
  have hmembers : ∀ {inner left : Unread} {map : KeyMap Json},
      members .kept true
          (folded (fun (map : KeyMap Json) name field => map.insert name field)
            (value limit)) (inner.length + 1) true .empty inner = .ok (map, left) ↔
        ∃ members, Named (behindColon (value limit)) true inner members left ∧
          .ofList members = map := members_folded (shrinks_value limit)
  unfold mapField
  constructor
  · intro h
    split at h
    · cases h
    · rename_i inner hstart
      obtain ⟨left, hinner, hclose⟩ := within_eq_ok.mp h
      obtain ⟨members, hnamed, rfl⟩ := hmembers.mp hinner
      exact ⟨members, ⟨inner, left, hstart, hnamed, hclose⟩, rfl⟩
    · cases h
  · rintro ⟨members, ⟨inner, left, hstart, hnamed, hclose⟩, rfl⟩
    simp only [hstart]
    exact within_eq_ok.mpr ⟨left, hmembers.mpr ⟨members, hnamed, rfl⟩, hclose⟩

/-- Only an object is read as a map. -/
theorem interprets_mapField (limit : Nat) :
    Interprets (mapField limit) (written limit) IsMap := by
  intro input map rest
  cases limit with
  | zero =>
      constructor
      · intro h
        exact absurd h (mapField_zero _)
      · rintro ⟨doc, h, members, rfl, -⟩
        exact (isScalar_of_value h).elim
  | succ limit =>
      simp only [mapField_succ_eq_ok, written_succ_eq_ok,
        (interprets_value limit).object, forall₂_settledMembers]
      constructor
      · rintro ⟨_, ⟨docs, hdocs, rfl⟩, rfl⟩
        exact ⟨_, .inr (.inr ⟨docs, hdocs, rfl⟩), docs, rfl, rfl⟩
      · rintro ⟨_, h | ⟨_, -, rfl⟩ | ⟨docs, hdocs, rfl⟩, members, hdoc, rfl⟩
        · rw [hdoc] at h
          exact (isScalar_of_value h).elim
        · cases hdoc
        · cases hdoc
          exact ⟨_, ⟨docs, hdocs, rfl⟩, rfl⟩

/-! ## Whole texts -/

def parseWritten (text : String) : Except Error Json :=
  document (written depthLimit) text

theorem document_eq_ok {read : Unread → Except Stop (α × Unread)} {text : String}
    {value : α} :
    document read text = .ok value ↔
      ∃ rest, read text.toList = .ok (value, rest) ∧ skipBlanks rest = [] := by
  unfold document
  cases read text.toList with
  | error stop => simp
  | ok found =>
      obtain ⟨result, rest⟩ := found
      cases hblanks : skipBlanks rest <;> simp [hblanks]

/-- A reader of whole texts gives what the document of the text stands for. -/
theorem Interprets.text {read : Unread → Except Stop (α × Unread)}
    {stands : Json → α → Prop} (h : Interprets read (written depthLimit) stands)
    {text : String} {value : α} :
    Json.document read text = .ok value ↔
      ∃ doc, parseWritten text = .ok doc ∧ stands doc value := by
  simp only [parseWritten, document_eq_ok]
  constructor
  · rintro ⟨rest, hread, hblanks⟩
    obtain ⟨doc, hdoc, hstands⟩ := (h _ _ _).mp hread
    exact ⟨doc, ⟨rest, hdoc, hblanks⟩, hstands⟩
  · rintro ⟨doc, ⟨rest, hdoc, hblanks⟩, hstands⟩
    exact ⟨rest, (h _ _ _).mpr ⟨doc, hdoc, hstands⟩, hblanks⟩

/-- A value is parsed from a text just as its document is. -/
theorem parse_eq_ok {text : String} {v : Json} :
    parse text = .ok v ↔ ∃ doc, parseWritten text = .ok doc ∧ v = settled doc :=
  (interprets_value depthLimit).text

end Json

end VersionedFlags
