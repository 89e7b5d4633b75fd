import VersionedFlags.Proofs.Item.Entries
import VersionedFlags.Proofs.Json.Ignored

/-!
# Items round-trip through their texts

How an item may be written is stated apart from the reader: as an object of its entries
in any order, with well formed members of other names among them, or as a list of its
fields, in both cases with blanks wherever a text may have them.  Every such text is
read as the item, and what the item prints is one of them.
-/

namespace VersionedFlags

namespace Item

open Json (Unread Stop Blank EndsNumber Listing Titled behindColon blank_nil)

/-! ## Texts of entries -/

namespace Entry

/-- The name of the member that says it. -/
def name : Entry → String
  | .key _ => "key"
  | .version _ => "version"
  | .deleted _ => "deleted"
  | .data _ => "data"
  | .other name => name

def reader (depth : Nat) : Entry → Unread → Except Stop (Entry × Unread)
  | .key _ => said .key Json.stringField
  | .version _ => said .version Json.wordField
  | .deleted _ => said .deleted Json.boolField
  | .data _ => said .data (Json.value depth)
  | .other name => said (fun _ => .other name) skipValue

end Entry

def fieldNames : List String := ["key", "version", "deleted", "data"]

/-- The text of the value of an entry.  A payload may be written as any document that
denotes it; with the object or the list of the item around it the document has to be
within the limit on nesting. -/
inductive Body : Entry → List Char → Prop
  | key {key : String} {text : List Char} (h : Json.SpelledString key text) :
      Body (.key key) text
  | version (version : UInt64) :
      Body (.version version) (Nat.toDigits 10 version.toNat)
  | deleted (deleted : Bool) : Body (.deleted deleted) (Json.bool deleted).chars
  | data {payload doc : Json} {text : List Char} (hdenotes : Json.Denotes doc payload)
      (h : Json.Spelled doc text) (hdepth : Json.depth doc < Json.depthLimit) :
      Body (.data payload) text
  | other {name : String} {text : List Char} (hname : name ∉ fieldNames)
      (h : Json.WellFormed text) : Body (.other name) text

inductive SpelledEntry : Entry → List Char → Prop
  | named {entry : Entry} {spelled before after body : List Char}
      (hname : Json.SpelledString entry.name spelled) (hbefore : Blank before)
      (hafter : Blank after) (h : Body entry body) :
      SpelledEntry entry (spelled ++ before ++ ':' :: after ++ body)

/-- The text of an object whose members are the entries, with blanks around it. -/
def SpelledObject (entries : List Entry) (text : String) : Prop :=
  ∃ before inner after, Blank before ∧ Listing SpelledEntry entries inner ∧
    Blank after ∧ text.toList = before ++ '\x7b' :: inner ++ '\x7d' :: after

def SpelledList (entries : List Entry) (text : String) : Prop :=
  ∃ before inner after, Blank before ∧ Listing Body entries inner ∧
    Blank after ∧ text.toList = before ++ '[' :: inner ++ ']' :: after

/-! ## Reading the value of an entry -/

variable {entry : Entry} {body before : List Char} {rest : Unread}

theorem stringField_spelled {text : String} (h : Json.SpelledString text body)
    (hbefore : Blank before) (rest : Unread) :
    Json.stringField (before ++ (body ++ rest)) = .ok (text, rest) := by
  obtain ⟨chars, hchars, rfl⟩ := h
  have hread := hchars.read [] rest
  have hskip : Json.skipBlanks ('"' :: (chars ++ '"' :: rest)) =
      '"' :: (chars ++ '"' :: rest) := Json.skipBlanks_cons rfl _
  rw [List.reverse_nil, List.nil_append, String.ofList_toList] at hread
  unfold Json.stringField
  rw [hbefore.skip]
  simp only [List.cons_append, List.append_assoc, List.nil_append, hskip, hread]

theorem boolField_chars (flag : Bool) (hbefore : Blank before) (rest : Unread) :
    Json.boolField (before ++ ((Json.bool flag).chars ++ rest)) = .ok (flag, rest) := by
  unfold Json.boolField
  rw [hbefore.skip]
  cases flag <;>
    simp [Json.chars, Json.skipBlanks, Json.isBlank, Json.word, pure, Except.pure]

theorem toUInt64?_ofUInt64 (word : UInt64) :
    (WordInt.ofUInt64 word).toUInt64? = some word := by
  simp [WordInt.toUInt64?, WordInt.ofUInt64]

theorem integerChars_ofUInt64 (word : UInt64) :
    Json.integerChars (WordInt.ofUInt64 word).value = Nat.toDigits 10 word.toNat :=
  if_neg (show ¬ (word.toNat : Int) < 0 by omega)

theorem wordField_digits (word : UInt64) (hbefore : Blank before)
    (hrest : EndsNumber rest) :
    Json.wordField (before ++ (Nat.toDigits 10 word.toNat ++ rest)) =
      .ok (word, rest) := by
  have hnumber := Json.number_integerChars (.ofUInt64 word) hrest
  rw [integerChars_ofUInt64] at hnumber
  obtain ⟨c, more, heq, hstart⟩ := Json.startsNumber_of_number hnumber
  -- A field of a word takes the two steps of a number apart.
  obtain ⟨⟨literal, left⟩, hliteral, hnumber⟩ := exists_of_bind_eq_ok hnumber
  obtain ⟨value, hvalue, hnumber⟩ := exists_of_bind_eq_ok hnumber
  cases hnumber
  have hskip := Json.skipBlanks_cons hstart.isBlank more
  unfold Json.wordField
  rw [hbefore.skip, heq, hskip]
  rw [heq] at hliteral
  have hnumeral : c = '-' ∨ Json.isDigit c = true := hstart
  simp only [if_pos hnumeral, hliteral, ok_bind, hvalue, toUInt64?_ofUInt64]
  rfl

theorem skipValue_wellFormed (h : Json.WellFormed body) (hbefore : Blank before)
    (hrest : EndsNumber rest) :
    skipValue (before ++ (body ++ rest)) = .ok ((), rest) := by
  unfold skipValue
  rw [Json.skip_blank hbefore]
  exact h.passes (by simp only [List.length_append]; omega) rest hrest

theorem value_spelled {limit : Nat} {payload doc : Json}
    (hdenotes : Json.Denotes doc payload) (h : Json.Spelled doc body)
    (hdepth : Json.depth doc ≤ limit) (hbefore : Blank before)
    (hrest : EndsNumber rest) :
    Json.value limit (before ++ (body ++ rest)) = .ok (payload, rest) :=
  (Json.interprets_value limit _ _ _).mpr
    ⟨doc, Json.reads_of_depth hdepth body h before hbefore rest hrest,
      Json.denotes_iff.mp hdenotes⟩

/-- What is written for an entry is read as the entry. -/
theorem Body.read (h : Body entry body) (hbefore : Blank before)
    (hrest : EndsNumber rest) :
    entry.reader (Json.depthLimit - 1) (before ++ (body ++ rest)) = .ok (entry, rest) := by
  cases h with
  | key h => exact said_eq_ok.mpr ⟨_, stringField_spelled h hbefore rest, rfl⟩
  | version word => exact said_eq_ok.mpr ⟨_, wordField_digits word hbefore hrest, rfl⟩
  | deleted flag => exact said_eq_ok.mpr ⟨_, boolField_chars flag hbefore rest, rfl⟩
  | data hdenotes h hdepth =>
      have hlimit := Nat.le_sub_one_of_lt hdepth
      exact said_eq_ok.mpr ⟨_, value_spelled hdenotes h hlimit hbefore hrest, rfl⟩
  | other hname h =>
      rw [Entry.reader, said_eq_ok]
      exact ⟨(), skipValue_wellFormed h hbefore hrest, rfl⟩

theorem Body.opens (h : Body entry body) : Json.Opens body := by
  cases h with
  | key h =>
      obtain ⟨chars, -, rfl⟩ := h
      exact ⟨_, _, rfl, by decide⟩
  | version word =>
      rw [← integerChars_ofUInt64]
      exact (Json.Spelled.integer (.ofUInt64 word)).opens
  | deleted flag =>
      cases flag <;> exact ⟨_, _, rfl, by decide⟩
  | data _ h => exact h.opens
  | other _ h => exact h.opens

theorem Body.entry_name (h : Body entry body) (depth : Nat) :
    Item.entry depth entry.name = behindColon (entry.reader depth) := by
  cases h with
  | @other name _ hname =>
      simp only [fieldNames, List.mem_cons, List.not_mem_nil, or_false, not_or] at hname
      obtain ⟨hkey, hversion, hdeleted, hdata⟩ := hname
      change Item.entry depth name = _
      unfold Item.entry
      split
      · exact absurd rfl hkey
      · exact absurd rfl hversion
      · exact absurd rfl hdeleted
      · exact absurd rfl hdata
      · rfl
  | _ => rfl

/-! ## Reading objects -/

variable {item : Item} {entries : List Entry} {inner : List Char} {text : String}

theorem SpelledEntry.readsMember {text : List Char} (h : SpelledEntry entry text) :
    Json.ReadsMember (Item.entry (Json.depthLimit - 1)) entry text := by
  cases h with
  | named hname hbefore hafter hbody =>
      refine Json.readsMember hname fun rest hrest => ?_
      rw [hbody.entry_name, behindColon, Json.colon_blank hbefore, ok_bind]
      exact hbody.read hafter hrest

theorem SpelledObject.says (h : SpelledObject entries text) : Says text entries := by
  obtain ⟨before, inner, after, hbefore, hinner, hafter, htext⟩ := h
  refine ⟨inner ++ '\x7d' :: after, '\x7d' :: after, after, hafter.skip_all,
    .inr ⟨?_, hinner.titled (fun _ _ _ h => h.readsMember) after, rfl⟩⟩
  rw [htext, List.append_assoc, hbefore.skip]
  exact Json.skipBlanks_cons rfl _

/-! ## Reading lists -/

/-- What the item is said to be in full. -/
def fields (item : Item) : List Entry :=
  [.key item.key, .version item.version, .deleted item.deleted, .data item.data]

theorem isOf_fields (item : Item) : item.IsOf item.fields :=
  ⟨rfl, rfl, .inl rfl, .inl rfl⟩

theorem closeList_blank {blanks : List Char} (h : Blank blanks) (rest : Unread) :
    Json.closeList (blanks ++ ']' :: rest) = .ok rest := by
  have hskip : Json.skipBlanks (']' :: rest) = ']' :: rest := Json.skipBlanks_cons rfl _
  simp [Json.closeList, h.skip, hskip]

/-- A list may end at any of its places. -/
theorem inOrder_of_listing (h : Listing Body entries inner) (more : List Entry)
    (rest : Unread) :
    ∃ left, InOrder ((entries ++ more).map (Entry.reader (Json.depthLimit - 1))) true
        (inner ++ ']' :: rest) entries left ∧
      Json.closeList left = .ok rest := by
  refine h.traverse (fun first input entries =>
    ∃ left, InOrder ((entries ++ more).map (Entry.reader (Json.depthLimit - 1))) first
        input entries left ∧
      Json.closeList left = .ok rest)
    (Json.endsNumber_bracket rest) ?_ ?_ true [] blank_nil (.inl rfl)
  · intro first blanks hblanks
    -- The reader of a full list leaves the bracket with the blanks ahead of it.
    cases more with
    | nil => exact ⟨_, .full, closeList_blank hblanks rest⟩
    | cons next more =>
        exact ⟨']' :: rest, .short (Json.nextElement_end hblanks rest), rfl⟩
  · rintro first blanks before entry body behind later hblanks hbefore - hbody hends
      ⟨left, hlater, hclose⟩
    exact ⟨left, .more (Json.nextElement_lead hblanks hbefore hbody.opens behind)
      (hbody.read blank_nil hends) hlater, hclose⟩

theorem SpelledList.says (h : SpelledList entries text)
    (hfields : entries <+: item.fields) : Says text entries := by
  obtain ⟨before, inner, after, hbefore, hinner, hafter, htext⟩ := h
  obtain ⟨more, hmore⟩ := hfields
  obtain ⟨left, hentries, hclose⟩ := inOrder_of_listing hinner more after
  rw [hmore] at hentries
  refine ⟨inner ++ ']' :: after, left, after, hafter.skip_all,
    .inl ⟨?_, hentries, hclose⟩⟩
  rw [htext, List.append_assoc, hbefore.skip]
  exact Json.skipBlanks_cons rfl _

/-! ## Printed items -/

def listChars (item : Item) : List Char :=
  '[' :: Json.quote item.key ++ ',' :: Nat.toDigits 10 item.version.toNat ++
    ',' :: (Json.bool item.deleted).chars ++ ',' :: item.data.chars ++ [']']

/-- The item as a list of its fields, without blanks. -/
def listText (item : Item) : String := String.ofList item.listChars

theorem spelledEntry_fieldChars (h : Body entry body) :
    SpelledEntry entry (fieldChars entry.name body) := by
  have hnamed := SpelledEntry.named (Json.spelledString_quote entry.name) blank_nil
    blank_nil h
  simpa [fieldChars] using hnamed

theorem body_data_chars {data : Json} (hcanonical : data.Canonical)
    (hdoubles : data.WithoutDoubles) (hdepth : data.depth < Json.depthLimit) :
    Body (.data data) data.chars :=
  .data (Json.denotes_iff.mpr (Json.settled_of_canonical hcanonical).symm)
    (Json.spelled_chars hdoubles) hdepth

section

variable (hcanonical : item.data.Canonical) (hdoubles : item.data.WithoutDoubles)
  (hdepth : item.data.depth < Json.depthLimit)

include hcanonical hdoubles hdepth

theorem spelledObject_text : SpelledObject item.fields item.text := by
  have hkey := spelledEntry_fieldChars (.key (Json.spelledString_quote item.key))
  have hversion := spelledEntry_fieldChars (.version item.version)
  have hdeleted := spelledEntry_fieldChars (.deleted item.deleted)
  have hdata := spelledEntry_fieldChars (body_data_chars hcanonical hdoubles hdepth)
  have hlisting := Listing.more blank_nil hkey blank_nil <|
    .more blank_nil hversion blank_nil <|
      .more blank_nil hdeleted blank_nil <| .last blank_nil hdata blank_nil
  refine ⟨[], _, [], blank_nil, hlisting, blank_nil, ?_⟩
  simp [text, chars, Entry.name]

theorem spelledList_listText : SpelledList item.fields item.listText := by
  have hkey := Body.key (Json.spelledString_quote item.key)
  have hdata := body_data_chars hcanonical hdoubles hdepth
  have hlisting := Listing.more blank_nil hkey blank_nil <|
    .more blank_nil (.version item.version) blank_nil <|
      .more blank_nil (.deleted item.deleted) blank_nil <|
        .last blank_nil hdata blank_nil
  refine ⟨[], _, [], blank_nil, hlisting, blank_nil, ?_⟩
  simp [listText, listChars]

end

/-! ## The limit on nesting -/

theorem depth_of_entry {depth : Nat} {name : String} {input : Unread} {data : Json}
    (h : Item.entry depth name input = .ok (.data data, rest)) : data.depth ≤ depth := by
  obtain ⟨behind, -, h⟩ := exists_of_bind_eq_ok h
  split at h <;> obtain ⟨value, hvalue, heq⟩ := said_eq_ok.mp h <;> cases heq
  exact Json.depth_of_value hvalue

theorem depth_of_titled {depth : Nat} {first : Bool} {input : Unread}
    (h : Titled (Item.entry depth) first input entries rest) {data : Json}
    (hm : .data data ∈ entries) : data.depth ≤ depth := by
  induction h with
  | done => cases hm
  | more _ _ hvalue _ ih =>
      rcases List.mem_cons.mp hm with rfl | hm
      · exact depth_of_entry hvalue
      · exact ih hm

theorem places_depth {depth : Nat} : ∀ place ∈ places depth, ∀ input data rest,
    place input = .ok (.data data, rest) → data.depth ≤ depth := by
  intro place hm input data rest h
  simp only [places, List.mem_cons, List.not_mem_nil, or_false] at hm
  rcases hm with rfl | rfl | rfl | rfl <;>
    obtain ⟨value, hvalue, heq⟩ := said_eq_ok.mp h <;> cases heq
  exact Json.depth_of_value hvalue

theorem depth_of_inOrder {depth : Nat}
    {places : List (Unread → Except Stop (Entry × Unread))}
    (hplaces : ∀ place ∈ places, ∀ input data rest,
      place input = .ok (.data data, rest) → data.depth ≤ depth)
    {first : Bool} {input : Unread} (h : InOrder places first input entries rest)
    {data : Json} (hm : .data data ∈ entries) : data.depth ≤ depth := by
  induction h with
  | short => cases hm
  | full => cases hm
  | more _ hentry _ ih =>
      obtain ⟨hplace, hplaces⟩ := List.forall_mem_cons.mp hplaces
      rcases List.mem_cons.mp hm with rfl | hm
      · exact hplace _ _ _ hentry
      · exact ih hplaces hm

/-- The object or the list of an item counts as one level around its payload. -/
theorem depth_of_parse (h : parse text = .ok item) :
    item.data.depth < Json.depthLimit := by
  obtain ⟨entries, ⟨inner, left, rest, -, hsays⟩, hitem⟩ := parse_eq_ok.mp h
  rcases hitem.data with hdata | ⟨-, hnull⟩
  · have hm : .data item.data ∈ entries :=
      mem_filterMap_data?.mp (hdata ▸ List.mem_singleton_self _)
    rcases hsays with ⟨-, hlist, -⟩ | ⟨-, hobject, -⟩
    · exact Nat.lt_succ_of_le (depth_of_inOrder places_depth hlist hm)
    · exact Nat.lt_succ_of_le (depth_of_titled hobject hm)
  · rw [hnull]
    decide

/-- An item whose payload has no doubles is read back from its text, and from the list
of its fields, exactly if the payload nests no deeper than the limit leaves room for.
Of an object every text does that says the key and the version, with the mark and the
payload or without those that are the default, in any order and among any well formed
members of other names; of a list every text that ends where only defaults follow. -/
theorem reads_back (hcanonical : item.data.Canonical)
    (hdoubles : item.data.WithoutDoubles) :
    (parse item.text = .ok item ↔ item.data.depth < Json.depthLimit) ∧
    (parse item.listText = .ok item ↔ item.data.depth < Json.depthLimit) ∧
    (∀ entries text, item.IsOf entries → SpelledObject entries text →
      parse text = .ok item) ∧
    ∀ entries text, item.IsOf entries → entries <+: item.fields →
      SpelledList entries text → parse text = .ok item := by
  have hobject : ∀ entries text, item.IsOf entries → SpelledObject entries text →
      parse text = .ok item :=
    fun entries text hitem h => parse_eq_ok.mpr ⟨entries, h.says, hitem⟩
  have hlist : ∀ entries text, item.IsOf entries → entries <+: item.fields →
      SpelledList entries text → parse text = .ok item :=
    fun entries text hitem hfields h => parse_eq_ok.mpr ⟨entries, h.says hfields, hitem⟩
  refine ⟨⟨depth_of_parse, fun hdepth => ?_⟩, ⟨depth_of_parse, fun hdepth => ?_⟩,
    hobject, hlist⟩
  · exact hobject _ _ item.isOf_fields (spelledObject_text hcanonical hdoubles hdepth)
  · exact hlist _ _ item.isOf_fields List.prefix_rfl
      (spelledList_listText hcanonical hdoubles hdepth)

def sparse : Item := ⟨"a", 7, false, .array [.null]⟩

/-- It does not say that the item is live, and it has a member with a number that no
double comes near. -/
def sparseText : String :=
  "\x7b\"x\":[1e400],\"key\":\"a\",\"data\":[null], \"version\":7 \x7d"

theorem sparse_reads_back :
    parse sparse.text = .ok sparse ∧ parse sparse.listText = .ok sparse ∧
      parse sparseText = .ok sparse := by
  have hcanonical : sparse.data.Canonical := .array (by simp [Json.Canonical.null])
  have hdoubles : sparse.data.WithoutDoubles :=
    .array (by simp [Json.WithoutDoubles.null])
  have hdepth : sparse.data.depth < Json.depthLimit := by decide
  have hblank : Blank [' '] := by simp [Blank]
  obtain ⟨htext, hlist, hobject, -⟩ := reads_back hcanonical hdoubles
  refine ⟨htext.mpr hdepth, hlist.mpr hdepth, ?_⟩
  have hexponent := @Json.ExponentText.digits 'e' [] ['4', '0', '0'] (by decide)
    (by decide) (by simp [Json.AllDigits, Json.isDigit]) (by decide)
  have hnumber := Json.NumberText.parts false
    ⟨by simp [Json.AllDigits, Json.isDigit], '1', [], rfl, fun _ => rfl⟩ .none hexponent
  have helements : Listing (fun _ => Json.WellFormed) [()] _ :=
    .last blank_nil (.number hnumber) blank_nil
  have hother := @spelledEntry_fieldChars (.other "x") _
    (.other (by decide) (.list helements))
  have hkey := spelledEntry_fieldChars (.key (Json.spelledString_quote "a"))
  have hdata := spelledEntry_fieldChars (body_data_chars hcanonical hdoubles hdepth)
  have hversion := spelledEntry_fieldChars (.version 7)
  have hlisting := Listing.more blank_nil hother blank_nil <|
    .more blank_nil hkey blank_nil <| .more blank_nil hdata blank_nil <|
      .last hblank hversion hblank
  refine hobject [.other "x", .key "a", .data sparse.data, .version 7] sparseText
    ⟨rfl, rfl, .inr ⟨rfl, rfl⟩, .inl rfl⟩ ⟨[], _, [], blank_nil, hlisting, blank_nil, ?_⟩
  decide

end Item

end VersionedFlags
