import VersionedFlags.Item.Text
import VersionedFlags.Proofs.Json.Documents

/-!
# What a text says of an item

The text of an item is an object whose members say in any order what its key, its
version, its deletion mark and its payload are, with members of other names among them,
or a list that says the same in a fixed order.  The item has what was said; the mark and
the payload may be left out.
-/

namespace VersionedFlags

namespace Item

open Json (Unread Stop Shrinks Titled behindColon)

/-! ## Entries -/

/-- What is said of an item in one place. -/
inductive Entry where
  | key (key : String)
  | version (version : UInt64)
  | deleted (deleted : Bool)
  | data (data : Json)
  /-- A member that no item has. -/
  | other (name : String)
  deriving DecidableEq, Repr

namespace Entry

def key? : Entry → Option String
  | .key text => some text
  | _ => none

def version? : Entry → Option UInt64
  | .version word => some word
  | _ => none

def deleted? : Entry → Option Bool
  | .deleted flag => some flag
  | _ => none

def data? : Entry → Option Json
  | .data payload => some payload
  | _ => none

end Entry

variable {entries : List Entry}

theorem mem_filterMap_deleted? {deleted : Bool} :
    deleted ∈ entries.filterMap Entry.deleted? ↔ .deleted deleted ∈ entries := by
  simp only [List.mem_filterMap]
  constructor
  · rintro ⟨entry, hm, hsaid⟩
    cases entry <;> cases hsaid
    exact hm
  · exact fun hm => ⟨_, hm, rfl⟩

theorem mem_filterMap_data? {data : Json} :
    data ∈ entries.filterMap Entry.data? ↔ .data data ∈ entries := by
  simp only [List.mem_filterMap]
  constructor
  · rintro ⟨entry, hm, hsaid⟩
    cases entry <;> cases hsaid
    exact hm
  · exact fun hm => ⟨_, hm, rfl⟩

/-- The item has the key and the version that are said once, and the mark and the
payload that are said once or not at all. -/
structure IsOf (item : Item) (entries : List Entry) : Prop where
  key : entries.filterMap Entry.key? = [item.key]
  version : entries.filterMap Entry.version? = [item.version]
  deleted : entries.filterMap Entry.deleted? = [item.deleted] ∨
    entries.filterMap Entry.deleted? = [] ∧ item.deleted = false
  data : entries.filterMap Entry.data? = [item.data] ∨
    entries.filterMap Entry.data? = [] ∧ item.data = .null

/-! ## Reading entries -/

section

variable {α : Type} {read : Unread → Except Stop (α × Unread)} {input rest : Unread}

def said (entry : α → Entry) (read : Unread → Except Stop (α × Unread))
    (input : Unread) : Except Stop (Entry × Unread) := do
  let (value, input) ← read input
  return (entry value, input)

theorem said_eq_ok {entry : α → Entry} {found : Entry} :
    said entry read input = .ok (found, rest) ↔
      ∃ value, read input = .ok (value, rest) ∧ entry value = found := by
  constructor
  · intro h
    obtain ⟨⟨value, left⟩, hvalue, h⟩ := exists_of_bind_eq_ok h
    cases h
    exact ⟨value, hvalue, rfl⟩
  · rintro ⟨value, hvalue, rfl⟩
    rw [said, hvalue, ok_bind]
    rfl

theorem exists_said {entry : α → Entry} {p : Entry → Prop} :
    (∃ found, behindColon (said entry read) input = .ok (found, rest) ∧ p found) ↔
      ∃ value, behindColon read input = .ok (value, rest) ∧ p (entry value) := by
  unfold behindColon
  cases Json.colon input with
  | error stop => simp
  | ok behind =>
      simp only [ok_bind, said_eq_ok]
      constructor
      · rintro ⟨_, ⟨value, hvalue, rfl⟩, hp⟩
        exact ⟨value, hvalue, hp⟩
      · rintro ⟨value, hvalue, hp⟩
        exact ⟨_, ⟨value, hvalue, rfl⟩, hp⟩

theorem shrinks_said (entry : α → Entry) (h : Shrinks read) :
    Shrinks (said entry read) := by
  intro input found rest hfound
  obtain ⟨value, hvalue, -⟩ := said_eq_ok.mp hfound
  exact h hvalue

end

def skipValue (input : Unread) : Except Stop (Unit × Unread) :=
  Json.skip input.length input

def entry (depth : Nat) (name : String) : Unread → Except Stop (Entry × Unread) :=
  behindColon <|
    match name with
    | "key" => said .key Json.stringField
    | "version" => said .version Json.wordField
    | "deleted" => said .deleted Json.boolField
    | "data" => said .data (Json.value depth)
    | _ => said (fun _ => .other name) skipValue

/-- Reads the elements of a list, each as its place has it. -/
def places (depth : Nat) : List (Unread → Except Stop (Entry × Unread)) :=
  [said .key Json.stringField, said .version Json.wordField,
    said .deleted Json.boolField, said .data (Json.value depth)]

/-- The entries of a list, which may stop short of its places. -/
inductive InOrder : List (Unread → Except Stop (Entry × Unread)) → Bool → Unread →
    List Entry → Unread → Prop
  | short {place : Unread → Except Stop (Entry × Unread)}
      {places : List (Unread → Except Stop (Entry × Unread))} {first : Bool}
      {input rest : Unread} (h : Json.nextElement .kept first input = .ok (false, rest)) :
      InOrder (place :: places) first input [] rest
  | full {first : Bool} {input : Unread} : InOrder [] first input [] input
  | more {place : Unread → Except Stop (Entry × Unread)}
      {places : List (Unread → Except Stop (Entry × Unread))} {first : Bool}
      {input start behind rest : Unread} {entry : Entry} {entries : List Entry}
      (h : Json.nextElement .kept first input = .ok (true, start))
      (hentry : place start = .ok (entry, behind))
      (hrest : InOrder places false behind entries rest) :
      InOrder (place :: places) first input (entry :: entries) rest

/-- The text says the entries, one after the other. -/
def Says (text : String) (entries : List Entry) : Prop :=
  ∃ inner left rest, Json.skipBlanks rest = [] ∧
    (Json.skipBlanks text.toList = '[' :: inner ∧
        InOrder (places (Json.depthLimit - 1)) true inner entries left ∧
        Json.closeList left = .ok rest ∨
      Json.skipBlanks text.toList = '\x7b' :: inner ∧
        Titled (entry (Json.depthLimit - 1)) true inner entries left ∧
        Json.closeObject left = .ok rest)

/-! ## Progress -/

theorem shrinks_stringField : Shrinks Json.stringField := by
  intro input text rest h
  unfold Json.stringField at h
  split at h
  · cases h
  · rename_i hstart
    exact Nat.lt_of_lt_of_le (Json.shrinks_stringBody true [] h)
      (Nat.le_of_lt (Json.length_of_skipBlanks hstart))
  · cases h

theorem shrinks_boolField : Shrinks Json.boolField := by
  intro input flag rest h
  have hword : ∀ {read : Bool} {expected : List Char} {behind : Unread} {c : Char},
      Json.skipBlanks input = c :: behind →
      (do return (read, ← Json.word expected behind)) = Except.ok (flag, rest) →
      rest.length < input.length := by
    intro read expected behind c hstart h
    obtain ⟨left, hleft, h⟩ := exists_of_bind_eq_ok h
    cases h
    exact Nat.lt_of_le_of_lt (Json.length_of_word hleft)
      (Json.length_of_skipBlanks hstart)
  unfold Json.boolField at h
  split at h
  · cases h
  · exact hword ‹_› h
  · exact hword ‹_› h
  · cases h

theorem shrinks_wordField : Shrinks Json.wordField := by
  intro input word rest h
  unfold Json.wordField at h
  split at h
  · cases h
  · rename_i hstart
    split at h
    · obtain ⟨⟨literal, left⟩, hliteral, h⟩ := exists_of_bind_eq_ok h
      obtain ⟨value, -, h⟩ := exists_of_bind_eq_ok h
      have hlt := Nat.lt_of_lt_of_le (Json.shrinks_numeral _ hliteral)
        (Json.length_of_skipBlanks hstart)
      simp only at h hlt
      split at h
      · split at h
        · cases h
          exact hlt
        · cases h
      · cases h
      · cases h
    · cases h

theorem shrinks_skipValue : Shrinks skipValue := fun h => Json.shrinks_skip _ h

theorem shrinks_entry (depth : Nat) (name : String) : Shrinks (entry depth name) := by
  refine Json.shrinks_behindColon ?_
  split
  · exact shrinks_said _ shrinks_stringField
  · exact shrinks_said _ shrinks_wordField
  · exact shrinks_said _ shrinks_boolField
  · exact shrinks_said _ (Json.shrinks_value depth)
  · exact shrinks_said _ shrinks_skipValue

/-! ## Fields -/

namespace Fields

/-- Takes an entry for a field that is not there yet. -/
def put? (fields : Fields) : Entry → Option Fields
  | .key key => if fields.key = none then some { fields with key } else none
  | .version version =>
      if fields.version = none then some { fields with version } else none
  | .deleted deleted =>
      if fields.deleted = none then some { fields with deleted } else none
  | .data data => if fields.data = none then some { fields with data } else none
  | .other _ => some fields

theorem once_eq_ok {α : Type} {name : String} {present : Option α}
    {input rest : Unread} :
    once name present input = .ok rest ↔
      present = none ∧ Json.colon input = .ok rest := by
  cases present <;> simp [once]

variable {depth : Nat} {fields next : Fields} {name : String} {input rest : Unread}

theorem field_eq_ok {α : Type} {name : String} (present : Option α)
    (read : Unread → Except Stop (α × Unread)) (set : α → Fields) :
    (once name present input >>= fun behind => read behind >>= fun found =>
      .ok (set found.1, found.2)) = Except.ok (next, rest) ↔
    present = none ∧ ∃ value, behindColon read input = .ok (value, rest) ∧
      set value = next := by
  constructor
  · intro h
    obtain ⟨behind, honce, h⟩ := exists_of_bind_eq_ok h
    obtain ⟨⟨value, left⟩, hvalue, h⟩ := exists_of_bind_eq_ok h
    cases h
    obtain ⟨hnone, hcolon⟩ := once_eq_ok.mp honce
    exact ⟨hnone, value, by rw [behindColon, hcolon, ok_bind, hvalue], rfl⟩
  · rintro ⟨hnone, value, hvalue, rfl⟩
    obtain ⟨behind, hcolon, hvalue⟩ := exists_of_bind_eq_ok hvalue
    rw [once_eq_ok.mpr ⟨hnone, hcolon⟩, ok_bind, hvalue, ok_bind]

theorem field_said {α : Type} {name : String} (present : Option α)
    (read : Unread → Except Stop (α × Unread)) (set : α → Fields) (entry : α → Entry)
    (hput : ∀ value, fields.put? (entry value) =
      if present = none then some (set value) else none) :
    (once name present input >>= fun behind => read behind >>= fun found =>
      .ok (set found.1, found.2)) = Except.ok (next, rest) ↔
    ∃ found, behindColon (said entry read) input = .ok (found, rest) ∧
      fields.put? found = some next := by
  rw [field_eq_ok, exists_said]
  simp only [hput, Option.ite_none_right_eq_some, Option.some.injEq, and_left_comm,
    exists_and_left]

/-- A member is taken if it says something new or nothing that an item has. -/
theorem member_eq_ok :
    member depth fields name input = .ok (next, rest) ↔
      ∃ found, entry depth name input = .ok (found, rest) ∧
        fields.put? found = some next := by
  unfold member entry
  split
  · exact field_said fields.key Json.stringField (fun key => { fields with key }) .key
      fun _ => rfl
  · exact field_said fields.version Json.wordField
      (fun version => { fields with version }) .version fun _ => rfl
  · exact field_said fields.deleted Json.boolField
      (fun deleted => { fields with deleted }) .deleted fun _ => rfl
  · exact field_said fields.data (Json.value depth) (fun data => { fields with data })
      .data fun _ => rfl
  · have hskipped := @field_eq_ok next input rest Unit "" none skipValue fun _ => fields
    simp only [exists_said, put?, Option.some.injEq]
    exact hskipped.trans (and_iff_right rfl)

/-- A field ends as it was with what is said of it, which is once at most. -/
def Extends {α : Type} (present : Option α) (said : List α) (final : Option α) : Prop :=
  final.toList = present.toList ++ said

theorem extends_nil {α : Type} {present final : Option α} :
    Extends present [] final ↔ final = present := by
  cases present <;> cases final <;> simp [Extends]

theorem extends_cons {α : Type} {present final : Option α} {value : α}
    {said : List α} :
    Extends present (value :: said) final ↔
      present = none ∧ Extends (some value) said final := by
  cases present with
  | none => simp [Extends]
  | some other => cases final <;> simp [Extends]

theorem foldlM_put? {entries : List Entry} {fields final : Fields} :
    entries.foldlM put? fields = some final ↔
      Extends fields.key (entries.filterMap Entry.key?) final.key ∧
      Extends fields.version (entries.filterMap Entry.version?) final.version ∧
      Extends fields.deleted (entries.filterMap Entry.deleted?) final.deleted ∧
      Extends fields.data (entries.filterMap Entry.data?) final.data := by
  induction entries generalizing fields with
  | nil =>
      cases fields
      cases final
      simp [extends_nil, eq_comm, pure]
  | cons first rest ih =>
      rw [List.foldlM_cons]
      cases first <;>
        simp [put?, Option.bind_eq_some_iff, ih, List.filterMap_cons, Entry.key?,
          Entry.version?, Entry.deleted?, Entry.data?, extends_cons, and_left_comm,
          and_assoc]

theorem toItem_eq_ok {fields : Fields} {item : Item} {input rest : Unread} :
    fields.toItem input = .ok (item, rest) ↔
      input = rest ∧ fields.key = some item.key ∧
        fields.version = some item.version ∧
        fields.deleted.getD false = item.deleted ∧
        fields.data.getD .null = item.data := by
  obtain ⟨key, version, deleted, data⟩ := fields
  obtain ⟨ownKey, ownVersion, ownDeleted, ownData⟩ := item
  cases key with
  | none => simp [toItem]
  | some key =>
      cases version with
      | none => simp [toItem]
      | some version => simp [toItem, and_comm]

theorem extends_some {α : Type} {said : List α} {value : α} :
    Extends none said (some value) ↔ said = [value] := by
  simp [Extends, eq_comm]

theorem extends_getD {α : Type} {said : List α} {value default : α} :
    (∃ final, Extends none said final ∧ final.getD default = value) ↔
      said = [value] ∨ said = [] ∧ value = default := by
  constructor
  · rintro ⟨_ | final, hsaid, rfl⟩
    · exact .inr ⟨by simpa [Extends] using hsaid.symm, rfl⟩
    · exact .inl (extends_some.mp hsaid)
  · rintro (rfl | ⟨rfl, rfl⟩)
    · exact ⟨some value, extends_some.mpr rfl, rfl⟩
    · exact ⟨none, extends_nil.mpr rfl, rfl⟩

end Fields

/-- The item of some entries is what the fields that take them all stand for. -/
theorem isOf_iff {item : Item} {entries : List Entry} {rest : Unread} :
    item.IsOf entries ↔ ∃ final, entries.foldlM Fields.put? .unset = some final ∧
      final.toItem rest = .ok (item, rest) := by
  simp only [Fields.foldlM_put?, Fields.toItem_eq_ok, Fields.unset, true_and]
  constructor
  · intro h
    obtain ⟨deleted, hdeleted, hmark⟩ := Fields.extends_getD.mpr h.deleted
    obtain ⟨data, hdata, hpayload⟩ := Fields.extends_getD.mpr h.data
    exact ⟨⟨some item.key, some item.version, deleted, data⟩,
      ⟨Fields.extends_some.mpr h.key, Fields.extends_some.mpr h.version, hdeleted,
        hdata⟩, rfl, rfl, hmark, hpayload⟩
  · rintro ⟨⟨key, version, deleted, data⟩, ⟨hkey, hversion, hdeleted, hdata⟩, rfl, rfl,
      hmark, hpayload⟩
    exact ⟨Fields.extends_some.mp hkey, Fields.extends_some.mp hversion,
      Fields.extends_getD.mp ⟨deleted, hdeleted, hmark⟩,
      Fields.extends_getD.mp ⟨data, hdata, hpayload⟩⟩

/-- Entries are of one item at most. -/
theorem IsOf.unique {item other : Item} {entries : List Entry} (h : item.IsOf entries)
    (hother : other.IsOf entries) : item = other := by
  obtain ⟨final, hfold, hfinal⟩ := (@isOf_iff item entries []).mp h
  obtain ⟨same, hsame, hother⟩ := (@isOf_iff other entries []).mp hother
  rw [hfold] at hsame
  cases hsame
  rw [hfinal] at hother
  cases hother
  rfl

/-! ## Objects and lists -/

variable {depth : Nat} {item : Item} {input rest : Unread} {entries : List Entry}

theorem ofObject_eq_ok :
    ofObject depth input = .ok (item, rest) ↔
      ∃ entries, Titled (entry depth) true input entries rest ∧ item.IsOf entries := by
  have hmember : ∀ fields name input next rest,
      Fields.member depth fields name input = .ok (next, rest) ↔
        ∃ found, entry depth name input = .ok (found, rest) ∧
          fields.put? found = some next := fun _ _ _ _ _ => Fields.member_eq_ok
  have hmembers : ∀ {final : Fields} {rest : Unread},
      Json.members .kept true (Fields.member depth) (input.length + 1) true .unset
          input = .ok (final, rest) ↔
        ∃ entries, Titled (entry depth) true input entries rest ∧
          entries.foldlM Fields.put? .unset = some final :=
    Json.members_titled Fields.put? hmember (shrinks_entry depth)
  constructor
  · intro h
    obtain ⟨⟨final, left⟩, hfinal, h⟩ := exists_of_bind_eq_ok h
    obtain ⟨entries, hentries, hfold⟩ := hmembers.mp hfinal
    obtain rfl : left = rest := (Fields.toItem_eq_ok.mp h).1
    exact ⟨entries, hentries, isOf_iff.mpr ⟨final, hfold, h⟩⟩
  · rintro ⟨entries, hentries, hitem⟩
    obtain ⟨final, hfold, hfinal⟩ := isOf_iff.mp hitem
    rw [ofObject, hmembers.mpr ⟨entries, hentries, hfold⟩, ok_bind]
    exact hfinal

/-- An element is said to be what the reader of its place gives. -/
theorem listField?_said {α : Type} (said? : α → Entry)
    {read : Unread → Except Stop (α × Unread)} {first : Bool} {found : Option α}
    (h : Json.listField? read first input = .ok (found, rest)) :
    (found = none ∧ Json.nextElement .kept first input = .ok (false, rest)) ∨
      ∃ value start, found = some value ∧
        Json.nextElement .kept first input = .ok (true, start) ∧
        said said? read start = .ok (said? value, rest) := by
  rcases Json.listField?_cases h with h | ⟨value, start, hfound, hnext, hvalue⟩
  · exact .inl h
  · exact .inr ⟨value, start, hfound, hnext, said_eq_ok.mpr ⟨value, hvalue, rfl⟩⟩

theorem inOrder_of_ofList (h : ofList depth input = .ok (item, rest)) :
    ∃ entries, InOrder (places depth) true input entries rest ∧ item.IsOf entries := by
  obtain ⟨⟨key, behindKey⟩, hkey, h⟩ := exists_of_bind_eq_ok h
  rcases listField?_said Entry.key hkey with
    ⟨rfl, -⟩ | ⟨key, _, rfl, hnextKey, hkey⟩
  · cases h
  obtain ⟨⟨version, behindVersion⟩, hversion, h⟩ := exists_of_bind_eq_ok h
  rcases listField?_said Entry.version hversion with
    ⟨rfl, -⟩ | ⟨version, _, rfl, hnextVersion, hversion⟩
  · cases h
  obtain ⟨⟨deleted, behindDeleted⟩, hdeleted, h⟩ := exists_of_bind_eq_ok h
  rcases listField?_said Entry.deleted hdeleted with
    ⟨rfl, hend⟩ | ⟨deleted, _, rfl, hnextDeleted, hdeleted⟩
  · cases h
    exact ⟨[.key key, .version version],
      .more hnextKey hkey (.more hnextVersion hversion (.short hend)),
      ⟨rfl, rfl, .inr ⟨rfl, rfl⟩, .inr ⟨rfl, rfl⟩⟩⟩
  obtain ⟨⟨data, behindData⟩, hdata, h⟩ := exists_of_bind_eq_ok h
  cases h
  rcases listField?_said Entry.data hdata with
    ⟨rfl, hend⟩ | ⟨data, _, rfl, hnextData, hdata⟩
  · exact ⟨[.key key, .version version, .deleted deleted],
      .more hnextKey hkey (.more hnextVersion hversion
        (.more hnextDeleted hdeleted (.short hend))),
      ⟨rfl, rfl, .inl rfl, .inr ⟨rfl, rfl⟩⟩⟩
  · exact ⟨[.key key, .version version, .deleted deleted, .data data],
      .more hnextKey hkey (.more hnextVersion hversion
        (.more hnextDeleted hdeleted (.more hnextData hdata .full))),
      ⟨rfl, rfl, .inl rfl, .inl rfl⟩⟩

theorem listField?_of_said {α : Type} {said? : α → Entry}
    {read : Unread → Except Stop (α × Unread)} {first : Bool} {start : Unread}
    {entry : Entry} (hnext : Json.nextElement .kept first input = .ok (true, start))
    (h : said said? read start = .ok (entry, rest)) :
    ∃ value, entry = said? value ∧
      Json.listField? read first input = .ok (some value, rest) := by
  obtain ⟨value, hvalue, rfl⟩ := said_eq_ok.mp h
  exact ⟨value, rfl, Json.listField?_some hnext hvalue⟩

theorem ofList_of_inOrder (hentries : InOrder (places depth) true input entries rest)
    (h : item.IsOf entries) : ofList depth input = .ok (item, rest) := by
  cases hentries with
  | short => cases h.key
  | more hnextKey hkey hentries =>
      obtain ⟨key, rfl, hreadKey⟩ := listField?_of_said hnextKey hkey
      cases hentries with
      | short => cases h.version
      | more hnextVersion hversion hentries =>
          obtain ⟨version, rfl, hreadVersion⟩ :=
            listField?_of_said hnextVersion hversion
          cases hentries with
          -- The list may stop after the version or after the mark.
          | short hend =>
              have hreadDeleted := Json.listField?_none Json.boolField hend
              obtain rfl : item = ⟨key, version, false, .null⟩ :=
                h.unique ⟨rfl, rfl, .inr ⟨rfl, rfl⟩, .inr ⟨rfl, rfl⟩⟩
              rw [ofList, hreadKey, ok_bind]
              simp only [hreadVersion, hreadDeleted, ok_bind]
              rfl
          | more hnextDeleted hdeleted hentries =>
              obtain ⟨deleted, rfl, hreadDeleted⟩ :=
                listField?_of_said hnextDeleted hdeleted
              cases hentries with
              | short hend =>
                  have hreadData := Json.listField?_none (Json.value depth) hend
                  obtain rfl : item = ⟨key, version, deleted, .null⟩ :=
                    h.unique ⟨rfl, rfl, .inl rfl, .inr ⟨rfl, rfl⟩⟩
                  rw [ofList, hreadKey, ok_bind]
                  simp only [hreadVersion, hreadDeleted, hreadData, ok_bind]
                  rfl
              | more hnextData hdata hentries =>
                  obtain ⟨data, rfl, hreadData⟩ := listField?_of_said hnextData hdata
                  cases hentries
                  obtain rfl : item = ⟨key, version, deleted, data⟩ :=
                    h.unique ⟨rfl, rfl, .inl rfl, .inl rfl⟩
                  rw [ofList, hreadKey, ok_bind]
                  simp only [hreadVersion, hreadDeleted, hreadData, ok_bind]
                  rfl

/-- An item is read from the texts that say entries of it, and from no others. -/
theorem parse_eq_ok {text : String} :
    parse text = .ok item ↔ ∃ entries, Says text entries ∧ item.IsOf entries := by
  have hlimit : Json.depthLimit = Json.depthLimit - 1 + 1 := rfl
  unfold parse
  rw [Json.document_eq_ok, hlimit]
  simp only [Json.record_eq_ok, ofObject_eq_ok]
  constructor
  · rintro ⟨rest, ⟨inner, left, hstart, hlist, hclose⟩ |
      ⟨inner, left, hstart, ⟨entries, hentries, hitem⟩, hclose⟩, hblanks⟩
    · obtain ⟨entries, hentries, hitem⟩ := inOrder_of_ofList hlist
      exact ⟨entries, ⟨inner, left, rest, hblanks, .inl ⟨hstart, hentries, hclose⟩⟩,
        hitem⟩
    · exact ⟨entries, ⟨inner, left, rest, hblanks, .inr ⟨hstart, hentries, hclose⟩⟩,
        hitem⟩
  · rintro ⟨entries, ⟨inner, left, rest, hblanks,
      ⟨hstart, hentries, hclose⟩ | ⟨hstart, hentries, hclose⟩⟩, hitem⟩
    · exact ⟨rest, .inl ⟨inner, left, hstart, ofList_of_inOrder hentries hitem, hclose⟩,
        hblanks⟩
    · exact ⟨rest, .inr ⟨inner, left, hstart, ⟨entries, hentries, hitem⟩, hclose⟩,
        hblanks⟩

end Item

end VersionedFlags
