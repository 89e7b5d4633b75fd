import VersionedFlags.Proofs.Json.Doubles
import VersionedFlags.Proofs.KeyMap

/-!
# Texts that are read back

A printed value is read back, in front of whatever cannot belong to a number,
exactly when its containers nest no deeper than the reader allows.  Everything
but a double comes back as it was.
-/

namespace VersionedFlags

namespace Json

/-! ## Induction over values -/

@[elab_as_elim]
theorem induct {motive : Json → Prop} (null : motive .null)
    (bool : ∀ value, motive (.bool value))
    (integer : ∀ value, motive (.integer value))
    (double : ∀ value, motive (.double value))
    (string : ∀ value, motive (.string value))
    (array : ∀ elements, (∀ e ∈ elements, motive e) → motive (.array elements))
    (object : ∀ members, (∀ m ∈ members, motive m.2) → motive (.object members))
    (v : Json) : motive v := by
  refine @Json.rec motive (fun elements => ∀ e ∈ elements, motive e)
    (fun members => ∀ m ∈ members, motive m.2) (fun m => motive m.2) null bool
    integer double string array object ?_ ?_ ?_ ?_ ?_ v
  case refine_1 => simp
  case refine_2 =>
    intro first rest hfirst hrest e hm
    rcases List.mem_cons.mp hm with rfl | hm
    · exact hfirst
    · exact hrest e hm
  case refine_3 => simp
  case refine_4 =>
    intro first rest hfirst hrest m hm
    rcases List.mem_cons.mp hm with rfl | hm
    · exact hfirst
    · exact hrest m hm
  case refine_5 => exact fun key value hvalue => hvalue

theorem depthElements_le {elements : List Json} {limit : Nat} :
    depthElements elements ≤ limit ↔ ∀ e ∈ elements, depth e ≤ limit := by
  induction elements with
  | nil => simp [depthElements]
  | cons first rest ih => simp [depthElements, ih]

theorem depthMembers_le {members : List (String × Json)} {limit : Nat} :
    depthMembers members ≤ limit ↔ ∀ m ∈ members, depth m.2 ≤ limit := by
  induction members with
  | nil => simp [depthMembers]
  | cons first rest ih => simp [depthMembers, ih]

/-! ## What is read -/

def rereadDouble (x : Binary64) : Json :=
  match number x.chars with
  | .ok (value, _) => value
  | .error _ => .double x

mutual

/-- The value that the text of a value stands for. -/
def reread : Json → Json
  | .double x => rereadDouble x
  | .array elements => .array (rereadElements elements)
  | .object members => ofMembers (rereadMembers members)
  | value => value

def rereadElements : List Json → List Json
  | [] => []
  | element :: rest => reread element :: rereadElements rest

def rereadMembers : List (String × Json) → List (String × Json)
  | [] => []
  | (key, value) :: rest => (key, reread value) :: rereadMembers rest

end

theorem number_chars (x : Binary64) {rest : Unread} (h : EndsNumber rest) :
    number (x.chars ++ rest) = .ok (rereadDouble x, rest) := by
  obtain ⟨v, hv⟩ := exists_number_chars x
  have halone := hv [] trivial
  rw [List.append_nil] at halone
  rw [hv rest h, rereadDouble, halone]

/-- No number of a payload is a double. -/
inductive WithoutDoubles : Json → Prop
  | null : WithoutDoubles .null
  | bool (value : Bool) : WithoutDoubles (.bool value)
  | integer (value : WordInt) : WithoutDoubles (.integer value)
  | string (value : String) : WithoutDoubles (.string value)
  | array {elements : List Json} (each : ∀ e ∈ elements, WithoutDoubles e) :
      WithoutDoubles (.array elements)
  | object {members : List (String × Json)}
      (each : ∀ m ∈ members, WithoutDoubles m.2) :
      WithoutDoubles (.object members)

theorem ofMembers_ordered {members : List (String × Json)}
    (h : Assoc.Ordered members) : ofMembers members = .object members := by
  have hdistinct : members.Pairwise fun a b => a.1 ≠ b.1 :=
    List.pairwise_map.mp (Assoc.nodup_keys h)
  have hlookup : ∀ key, Assoc.lookup key (KeyMap.ofList members).entries =
      Assoc.lookup key members := by
    intro key
    apply Option.ext
    intro value
    rw [← Assoc.mem_iff_lookup h]
    exact KeyMap.get?_ofList hdistinct key value
  unfold ofMembers
  rw [Assoc.ordered_ext (KeyMap.ofList members).ordered h hlookup]

theorem rereadElements_eq {elements : List Json}
    (h : ∀ e ∈ elements, reread e = e) : rereadElements elements = elements := by
  induction elements with
  | nil => rfl
  | cons first rest ih =>
      rw [rereadElements, h first List.mem_cons_self,
        ih fun e hm => h e (List.mem_cons_of_mem _ hm)]

theorem rereadMembers_eq {members : List (String × Json)}
    (h : ∀ m ∈ members, reread m.2 = m.2) : rereadMembers members = members := by
  induction members with
  | nil => rfl
  | cons first rest ih =>
      obtain ⟨key, value⟩ := first
      rw [rereadMembers, h (key, value) List.mem_cons_self,
        ih fun m hm => h m (List.mem_cons_of_mem _ hm)]

theorem reread_eq {v : Json} (hcanonical : v.Canonical)
    (hdoubles : v.WithoutDoubles) : reread v = v := by
  induction v using induct with
  | null => rfl
  | bool value => rfl
  | integer value => rfl
  | double value => cases hdoubles
  | string value => rfl
  | array elements ih =>
      cases hcanonical with
      | array hcanonical =>
          cases hdoubles with
          | array hdoubles =>
              rw [reread, rereadElements_eq fun e hm =>
                ih e hm (hcanonical e hm) (hdoubles e hm)]
  | object members ih =>
      cases hcanonical with
      | object hordered hcanonical =>
          cases hdoubles with
          | object hdoubles =>
              rw [reread, rereadMembers_eq fun m hm =>
                ih m hm (hcanonical m hm) (hdoubles m hm)]
              exact ofMembers_ordered hordered

/-! ## How texts start -/

/-- What a number starts with. -/
def StartsNumber (c : Char) : Prop := c = '-' ∨ isDigit c = true

theorem startsNumber_of_wholePart {cut : Cause} {input : Unread}
    {result : List Char × Unread} (h : wholePart cut input = .ok result) :
    ∃ c rest, input = c :: rest ∧ StartsNumber c := by
  cases input with
  | nil => cases h
  | cons c rest =>
      refine ⟨c, rest, rfl, .inr ?_⟩
      by_cases hzero : c = '0'
      · rw [hzero]
        rfl
      · by_cases hdigit : isDigit c = true
        · exact hdigit
        · simp [wholePart, hzero, hdigit] at h

theorem startsNumber_of_number {input : Unread} {result : Json × Unread}
    (h : number input = .ok result) :
    ∃ c rest, input = c :: rest ∧ StartsNumber c := by
  obtain ⟨parts, hparts, -⟩ := exists_of_bind_eq_ok h
  obtain ⟨whole, hwhole, -⟩ := exists_of_bind_eq_ok hparts
  split at hwhole
  · exact ⟨_, _, rfl, .inl rfl⟩
  · exact startsNumber_of_wholePart hwhole

theorem skipBlanks_cons {c : Char} (h : isBlank c = false) (rest : Unread) :
    skipBlanks (c :: rest) = c :: rest := by
  simp [skipBlanks, h]

theorem StartsNumber.isBlank {c : Char} (h : StartsNumber c) :
    isBlank c = false := by
  rcases h with rfl | hdigit
  · rfl
  · rw [Json.isBlank]
    simp only [Bool.or_eq_false_iff, beq_eq_false_iff_ne]
    refine ⟨⟨⟨?_, ?_⟩, ?_⟩, ?_⟩ <;>
      · rintro rfl
        cases hdigit

theorem value_of_startsNumber {c : Char} (h : StartsNumber c) (limit : Nat)
    (rest : Unread) : value limit (c :: rest) = number (c :: rest) := by
  have hskip := skipBlanks_cons h.isBlank rest
  unfold value
  rw [hskip]
  split
  case h_8 =>
    rename_i heq
    cases heq
    exact if_pos h
  all_goals
    rename_i heq
    cases heq
  all_goals
    rcases h with h | h <;> cases h

/-- The first character of a value is its own: no blank, and nothing that goes on
with a container or ends it. -/
theorem chars_head (v : Json) :
    ∃ c more, chars v = c :: more ∧ isBlank c = false ∧ c ≠ ']' ∧ c ≠ ',' := by
  have hnumber : ∀ {text : List Char} {result : Json × Unread},
      number text = .ok result →
        ∃ c more, text = c :: more ∧ isBlank c = false ∧ c ≠ ']' ∧ c ≠ ',' := by
    intro text result h
    obtain ⟨c, more, heq, hstart⟩ := startsNumber_of_number h
    refine ⟨c, more, heq, hstart.isBlank, ?_, ?_⟩
    all_goals
      rintro rfl
      rcases hstart with h | h <;> cases h
  cases v with
  | null => exact ⟨_, _, rfl, by decide⟩
  | bool value => cases value <;> exact ⟨_, _, rfl, by decide⟩
  | integer value =>
      have hends : EndsNumber [] := trivial
      have h := number_integerChars value hends
      rw [List.append_nil] at h
      exact hnumber h
  | double value =>
      have hends : EndsNumber [] := trivial
      have h := number_chars value hends
      rw [List.append_nil] at h
      exact hnumber h
  | string value => exact ⟨_, _, rfl, by decide⟩
  | array elements => exact ⟨_, _, rfl, by decide⟩
  | object members => exact ⟨_, _, rfl, by decide⟩

/-! ## Results under a limit on nesting -/

/-- What was expected if it fits the limit, and otherwise the error that says so. -/
def Gives {α : Type} (fits : Prop) (expected : α)
    (result : Except Stop α) : Prop :=
  (fits → result = .ok expected) ∧
    (¬ fits → ∃ stop, result = .error stop ∧ stop.cause = .tooDeep)

namespace Gives

variable {α β : Type} {p q : Prop} {a : α} {b : β} {result : Except Stop α}

theorem ok (hp : p) (h : result = .ok a) : Gives p a result :=
  ⟨fun _ => h, fun hn => absurd hp hn⟩

theorem congr (h : Gives p a result) (hiff : p ↔ q) : Gives q a result :=
  ⟨fun hq => h.1 (hiff.mpr hq), fun hn => h.2 fun hp => hn (hiff.mp hp)⟩

theorem bind {next : α → Except Stop β} (h : Gives p a result)
    (hnext : p → Gives q b (next a)) : Gives (p ∧ q) b (result >>= next) := by
  by_cases hp : p
  · rw [h.1 hp, ok_bind]
    exact (hnext hp).congr (by simp [hp])
  · obtain ⟨stop, hstop, hcause⟩ := h.2 hp
    rw [hstop, error_bind]
    exact ⟨fun hpq => absurd hpq.1 hp, fun _ => ⟨stop, rfl, hcause⟩⟩

end Gives

/-- A value is read under a limit when it nests no deeper. -/
def Read (limit : Nat) (v : Json) : Prop :=
  ∀ rest, EndsNumber rest →
    Gives (depth v ≤ limit) (reread v, rest) (value limit (chars v ++ rest))

/-! ## Elements -/

/-- Parts of a container behind its first one. -/
def follow {α : Type} (text : α → List Char) (parts : List α) : List Char :=
  parts.flatMap fun part => ',' :: text part

theorem elementChars_cons (first : Json) (rest : List Json) :
    elementChars (first :: rest) = chars first ++ follow chars rest := by
  induction rest generalizing first with
  | nil => simp [elementChars, follow]
  | cons second rest ih =>
      rw [elementChars, ih]
      · simp [follow]
      · simp

theorem endsNumber_follow {α : Type} (text : α → List Char) (parts : List α)
    {rest : Unread} (h : EndsNumber rest) :
    EndsNumber (follow text parts ++ rest) := by
  cases parts with
  | nil => exact h
  | cons part parts => exact endsNumber_comma _

theorem nextElement_close (commas : Commas) (first : Bool) (rest : Unread) :
    nextElement commas first (']' :: rest) = .ok (false, ']' :: rest) := by
  simp [nextElement, skipBlanks, isBlank]

theorem nextElement_first (commas : Commas) (v : Json) (rest : Unread) :
    nextElement commas true (chars v ++ rest) = .ok (true, chars v ++ rest) := by
  obtain ⟨c, more, heq, hblank, hclose, hcomma⟩ := chars_head v
  rw [heq, List.cons_append]
  simp [nextElement, skipBlanks_cons hblank, hclose, hcomma]

theorem nextElement_comma (commas : Commas) (v : Json) (rest : Unread) :
    nextElement commas false (',' :: (chars v ++ rest)) =
      .ok (true, chars v ++ rest) := by
  obtain ⟨c, more, heq, hblank, hclose, -⟩ := chars_head v
  have hskip : skipBlanks (',' :: (c :: (more ++ rest))) =
      ',' :: (c :: (more ++ rest)) := skipBlanks_cons rfl _
  rw [heq, List.cons_append]
  simp [nextElement, hskip, skipBlanks_cons hblank, hclose]

variable {limit : Nat}

theorem elements_follow {elements : List Json}
    (h : ∀ e ∈ elements, Read limit e) {fuel : Nat}
    (hfuel : elements.length < fuel) (done : List Json) (rest : Unread) :
    Gives (∀ e ∈ elements, depth e ≤ limit)
      (done.reverse ++ rereadElements elements, ']' :: rest)
      (Json.elements .kept (value limit) fuel false done
        (follow chars elements ++ ']' :: rest)) := by
  induction elements generalizing fuel done with
  | nil =>
      obtain ⟨fuel, rfl⟩ : ∃ less, fuel = less + 1 := ⟨fuel - 1, by omega⟩
      apply Gives.ok (by simp)
      simp only [follow, List.flatMap_nil, List.nil_append, Json.elements,
        nextElement_close, rereadElements, List.append_nil]
      rfl
  | cons first more ih =>
      obtain ⟨fuel, rfl⟩ : ∃ less, fuel = less + 1 := ⟨fuel - 1, by omega⟩
      have hfirst := h first List.mem_cons_self
        (follow chars more ++ ']' :: rest)
        (endsNumber_follow chars more (endsNumber_bracket rest))
      have hroom : more.length < fuel := by simpa using hfuel
      have hmore := ih (fun e hm => h e (List.mem_cons_of_mem _ hm)) hroom
        (reread first :: done)
      have htext : follow chars (first :: more) ++ ']' :: rest =
          ',' :: (chars first ++ (follow chars more ++ ']' :: rest)) := by
        simp [follow]
      rw [htext, Json.elements, nextElement_comma, ok_bind]
      rw [List.reverse_cons, List.append_assoc] at hmore
      simp only [if_true]
      refine Gives.congr (Gives.bind hfirst fun _ => hmore) ?_
      simp

theorem elements_chars {elements : List Json}
    (h : ∀ e ∈ elements, Read limit e) {fuel : Nat}
    (hfuel : elements.length < fuel) (rest : Unread) :
    Gives (∀ e ∈ elements, depth e ≤ limit)
      (rereadElements elements, ']' :: rest)
      (Json.elements .kept (value limit) fuel true []
        (elementChars elements ++ ']' :: rest)) := by
  obtain ⟨fuel, rfl⟩ : ∃ less, fuel = less + 1 := ⟨fuel - 1, by omega⟩
  cases elements with
  | nil =>
      apply Gives.ok (by simp)
      simp only [elementChars, List.nil_append, Json.elements,
        nextElement_close]
      rfl
  | cons first more =>
      have hfirst := h first List.mem_cons_self
        (follow chars more ++ ']' :: rest)
        (endsNumber_follow chars more (endsNumber_bracket rest))
      have hroom : more.length < fuel := by simpa using hfuel
      have hmore := elements_follow
        (fun e hm => h e (List.mem_cons_of_mem _ hm)) hroom [reread first] rest
      rw [elementChars_cons, List.append_assoc, Json.elements, nextElement_first,
        ok_bind]
      simp only [if_true]
      refine Gives.congr (Gives.bind hfirst fun _ => hmore) ?_
      simp

/-! ## Members -/

def memberText (m : String × Json) : List Char := quote m.1 ++ ':' :: chars m.2

theorem memberChars_cons (first : String × Json) (rest : List (String × Json)) :
    memberChars (first :: rest) = memberText first ++ follow memberText rest := by
  induction rest generalizing first with
  | nil => simp [memberChars, follow, memberText]
  | cons second rest ih =>
      rw [memberChars, ih]
      · simp [follow, memberText]
      · simp

theorem nextMember_close (commas : Commas) (first : Bool) (rest : Unread) :
    nextMember commas first ('\x7d' :: rest) = .ok (false, '\x7d' :: rest) := by
  simp [nextMember, skipBlanks, isBlank]

theorem nextMember_first (commas : Commas) (rest : Unread) :
    nextMember commas true ('"' :: rest) = .ok (true, rest) := by
  simp [nextMember, skipBlanks, isBlank]

theorem nextMember_comma (commas : Commas) (rest : Unread) :
    nextMember commas false (',' :: '"' :: rest) = .ok (true, rest) := by
  simp [nextMember, skipBlanks, isBlank]

/-- Reads a member from behind its key. -/
def readMember (limit : Nat) (fields : List (String × Json)) (key : String)
    (input : Unread) : Except Stop (List (String × Json) × Unread) := do
  let (field, input) ← value limit (← colon input)
  return ((key, field) :: fields, input)

theorem readMember_chars {m : String × Json} (h : Read limit m.2)
    (fields : List (String × Json)) {rest : Unread} (hrest : EndsNumber rest) :
    Gives (depth m.2 ≤ limit) ((m.1, reread m.2) :: fields, rest)
      (readMember limit fields m.1 (':' :: (chars m.2 ++ rest))) := by
  have hcolon : colon (':' :: (chars m.2 ++ rest)) = .ok (chars m.2 ++ rest) := by
    simp [colon, skipBlanks, isBlank]
  rw [readMember, hcolon, ok_bind]
  refine Gives.congr (Gives.bind (h rest hrest) fun _ =>
    Gives.ok trivial rfl) ?_
  simp

theorem members_follow {members : List (String × Json)}
    (h : ∀ m ∈ members, Read limit m.2) {fuel : Nat}
    (hfuel : members.length < fuel) (done : List (String × Json))
    (rest : Unread) :
    Gives (∀ m ∈ members, depth m.2 ≤ limit)
      ((rereadMembers members).reverse ++ done, '\x7d' :: rest)
      (Json.members .kept true (readMember limit) fuel false done
        (follow memberText members ++ '\x7d' :: rest)) := by
  induction members generalizing fuel done with
  | nil =>
      obtain ⟨fuel, rfl⟩ : ∃ less, fuel = less + 1 := ⟨fuel - 1, by omega⟩
      apply Gives.ok (by simp)
      simp only [follow, List.flatMap_nil, List.nil_append, Json.members,
        nextMember_close, rereadMembers, List.reverse_nil]
      rfl
  | cons first more ih =>
      obtain ⟨fuel, rfl⟩ : ∃ less, fuel = less + 1 := ⟨fuel - 1, by omega⟩
      obtain ⟨key, v⟩ := first
      obtain ⟨body, hquote, hbody⟩ := exists_quote key
      have hfirst := readMember_chars (h (key, v) List.mem_cons_self) done
        (endsNumber_follow memberText more (endsNumber_brace rest))
      have hroom : more.length < fuel := by simpa using hfuel
      have hmore := ih (fun m hm => h m (List.mem_cons_of_mem _ hm)) hroom
        ((key, reread v) :: done)
      have htext : follow memberText ((key, v) :: more) ++ '\x7d' :: rest =
          ',' :: '"' :: (body ++
            ':' :: (chars v ++ (follow memberText more ++ '\x7d' :: rest))) := by
        simp [follow, memberText, hquote]
      rw [htext, Json.members, nextMember_comma, ok_bind]
      simp only [if_true, hbody, ok_bind]
      rw [rereadMembers, List.reverse_cons, List.append_assoc]
      refine Gives.congr (Gives.bind hfirst fun _ => hmore) ?_
      simp

theorem members_chars {members : List (String × Json)}
    (h : ∀ m ∈ members, Read limit m.2) {fuel : Nat}
    (hfuel : members.length < fuel) (rest : Unread) :
    Gives (∀ m ∈ members, depth m.2 ≤ limit)
      ((rereadMembers members).reverse, '\x7d' :: rest)
      (Json.members .kept true (readMember limit) fuel true []
        (memberChars members ++ '\x7d' :: rest)) := by
  obtain ⟨fuel, rfl⟩ : ∃ less, fuel = less + 1 := ⟨fuel - 1, by omega⟩
  cases members with
  | nil =>
      apply Gives.ok (by simp)
      simp only [memberChars, List.nil_append, Json.members, nextMember_close]
      rfl
  | cons first more =>
      obtain ⟨key, v⟩ := first
      obtain ⟨body, hquote, hbody⟩ := exists_quote key
      have hfirst := readMember_chars (h (key, v) List.mem_cons_self) []
        (endsNumber_follow memberText more (endsNumber_brace rest))
      have hroom : more.length < fuel := by simpa using hfuel
      have hmore := members_follow
        (fun m hm => h m (List.mem_cons_of_mem _ hm)) hroom [(key, reread v)] rest
      have htext : memberChars ((key, v) :: more) ++ '\x7d' :: rest =
          '"' :: (body ++
            ':' :: (chars v ++ (follow memberText more ++ '\x7d' :: rest))) := by
        simp [memberChars_cons, memberText, hquote]
      rw [htext, Json.members, nextMember_first, ok_bind]
      simp only [if_true, hbody, ok_bind]
      rw [rereadMembers, List.reverse_cons]
      refine Gives.congr (Gives.bind hfirst fun _ => hmore) ?_
      simp

/-! ## Values -/

theorem length_le_follow {α : Type} (text : α → List Char) (parts : List α) :
    parts.length ≤ (follow text parts).length := by
  induction parts with
  | nil => simp [follow]
  | cons first rest ih =>
      simp only [follow, List.flatMap_cons, List.length_append, List.length_cons]
        at ih ⊢
      omega

theorem length_le_elementChars (elements : List Json) :
    elements.length ≤ (elementChars elements).length := by
  cases elements with
  | nil => simp
  | cons first rest =>
      obtain ⟨c, more, heq, -⟩ := chars_head first
      have hrest := length_le_follow chars rest
      rw [elementChars_cons, heq]
      simp only [List.length_append, List.length_cons]
      omega

theorem length_le_memberChars (members : List (String × Json)) :
    members.length ≤ (memberChars members).length := by
  cases members with
  | nil => simp
  | cons first rest =>
      have hrest := length_le_follow memberText rest
      rw [memberChars_cons]
      simp only [memberText, List.length_append, List.length_cons]
      omega

theorem value_array (rest : Unread) :
    value (limit + 1) ('[' :: rest) = do
      let (list, rest) ←
        elements .kept (value limit) (rest.length + 1) true [] rest
      return (.array list, ← closeList rest) := by
  rfl

theorem value_object (rest : Unread) :
    value (limit + 1) ('\x7b' :: rest) = do
      let (fields, rest) ←
        members .kept true (readMember limit) (rest.length + 1) true [] rest
      return (ofMembers fields.reverse, ← closeObject rest) := by
  rfl

theorem Read.tooDeep {v : Json} (hdepth : 0 < depth v)
    (h : ∀ rest, ∃ stop, value 0 (chars v ++ rest) = .error stop ∧
      stop.cause = .tooDeep) : Read 0 v := by
  intro rest _
  exact ⟨fun hle => absurd hle (by omega), fun _ => h rest⟩

/-- A value whose text is a number. -/
theorem read_number {v : Json} (hdepth : depth v = 0)
    (h : ∀ rest, EndsNumber rest →
      number (chars v ++ rest) = .ok (reread v, rest)) : Read limit v := by
  intro rest hrest
  apply Gives.ok (by omega)
  have hnumber := h rest hrest
  obtain ⟨c, more, heq, hstart⟩ := startsNumber_of_number hnumber
  rw [heq, value_of_startsNumber hstart, ← heq, hnumber]

theorem read_array {elements : List Json}
    (ih : ∀ e ∈ elements, ∀ limit, Read limit e) (limit : Nat) :
    Read limit (.array elements) := by
  cases limit with
  | zero =>
      apply Read.tooDeep (by simp [depth])
      intro rest
      exact ⟨_, rfl, rfl⟩
  | succ limit =>
      intro rest _
      have hfuel : elements.length <
          (elementChars elements ++ ']' :: rest).length + 1 := by
        have hlength := length_le_elementChars elements
        rw [List.length_append]
        omega
      have hread := elements_chars (fun e hm => ih e hm limit) hfuel rest
      have htext : chars (.array elements) ++ rest =
          '[' :: (elementChars elements ++ ']' :: rest) := by
        simp [chars]
      rw [htext, value_array]
      refine Gives.congr (Gives.bind hread fun _ => Gives.ok trivial rfl) ?_
      rw [and_true, depth, Nat.succ_le_succ_iff, depthElements_le]

theorem read_object {members : List (String × Json)}
    (ih : ∀ m ∈ members, ∀ limit, Read limit m.2) (limit : Nat) :
    Read limit (.object members) := by
  cases limit with
  | zero =>
      apply Read.tooDeep (by simp [depth])
      intro rest
      exact ⟨_, rfl, rfl⟩
  | succ limit =>
      intro rest _
      have hfuel : members.length <
          (memberChars members ++ '\x7d' :: rest).length + 1 := by
        have hlength := length_le_memberChars members
        rw [List.length_append]
        omega
      have hread := members_chars (fun m hm => ih m hm limit) hfuel rest
      have htext : chars (.object members) ++ rest =
          '\x7b' :: (memberChars members ++ '\x7d' :: rest) := by
        simp [chars]
      rw [htext, value_object]
      refine Gives.congr (Gives.bind hread fun _ => Gives.ok trivial ?_) ?_
      · dsimp only
        rw [List.reverse_reverse]
        rfl
      · rw [and_true, depth, Nat.succ_le_succ_iff, depthMembers_le]

/-- A printed value is read under every limit that it fits, and otherwise it
nests too deep. -/
theorem read_chars (v : Json) (limit : Nat) : Read limit v := by
  induction v using induct generalizing limit with
  | null =>
      intro rest _
      apply Gives.ok (Nat.zero_le _)
      simp [value, chars, skipBlanks, isBlank, word, reread, pure, Except.pure]
  | bool b =>
      intro rest _
      apply Gives.ok (Nat.zero_le _)
      cases b <;>
        simp [value, chars, skipBlanks, isBlank, word, reread, pure, Except.pure]
  | integer w => exact read_number rfl fun _ => number_integerChars w
  | double x => exact read_number rfl fun _ => number_chars x
  | string text =>
      intro rest _
      apply Gives.ok (Nat.zero_le _)
      obtain ⟨body, hquote, hbody⟩ := exists_quote text
      rw [chars, hquote]
      simp [value, skipBlanks, isBlank, hbody, reread, pure, Except.pure]
  | array elements ih => exact read_array ih limit
  | object members ih => exact read_object ih limit

/-! ## Whole texts -/

/-- A printed value is read back exactly when it nests no deeper than texts may. -/
theorem parse_text (v : Json) :
    (depth v ≤ depthLimit → parse v.text = .ok (reread v)) ∧
      (depthLimit < depth v → ∃ error, parse v.text = .error error ∧
        error.cause = .tooDeep) := by
  have hread := read_chars v depthLimit [] trivial
  rw [List.append_nil] at hread
  have htext : v.text.toList = chars v := String.toList_ofList
  unfold parse document
  rw [htext]
  constructor
  · intro hle
    rw [hread.1 hle]
    rfl
  · intro hlt
    obtain ⟨stop, hstop, hcause⟩ := hread.2 (by omega)
    rw [hstop]
    exact ⟨_, rfl, hcause⟩

end Json

end VersionedFlags
