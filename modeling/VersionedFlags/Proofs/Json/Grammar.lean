import VersionedFlags.Proofs.Json.Documents
import VersionedFlags.Proofs.Json.ReadBack

/-!
# The grammar of documents

What a document looks like as a text is stated apart from the reader: blanks around
every part, characters as themselves or escaped, parts between commas.  The members of
an object are in the order of the text and may repeat a name.  Numbers are integers of
a word, and minus zero, which is the double of that sign.  Every such text is read as
its document.
-/

namespace VersionedFlags

namespace Json

/-! ## Blanks -/

def Blank (text : List Char) : Prop := ∀ c ∈ text, c ∈ [' ', '\n', '\t', '\r']

instance (text : List Char) : Decidable (Blank text) :=
  inferInstanceAs (Decidable (∀ c ∈ text, c ∈ [' ', '\n', '\t', '\r']))

theorem blank_nil : Blank [] := by simp [Blank]

theorem Blank.append {text more : List Char} (h : Blank text) (hmore : Blank more) :
    Blank (text ++ more) := by
  intro c hm
  exact (List.mem_append.mp hm).elim (h c) (hmore c)

theorem Blank.isBlank {text : List Char} (h : Blank text) :
    ∀ c ∈ text, isBlank c = true := by
  intro c hm
  have hc := h c hm
  simp only [List.mem_cons, List.not_mem_nil, or_false] at hc
  rcases hc with rfl | rfl | rfl | rfl <;> rfl

theorem Blank.skip {before : List Char} (h : Blank before) (rest : Unread) :
    skipBlanks (before ++ rest) = skipBlanks rest :=
  List.dropWhile_append_of_pos h.isBlank

theorem Blank.skip_all {text : List Char} (h : Blank text) : skipBlanks text = [] := by
  have hskip := h.skip []
  rwa [List.append_nil] at hskip

theorem Blank.endsNumber {text : List Char} (h : Blank text) {rest : Unread}
    (hrest : EndsNumber rest) : EndsNumber (text ++ rest) := by
  cases text with
  | nil => exact hrest
  | cons c more =>
      have hc := h c List.mem_cons_self
      simp only [List.mem_cons, List.not_mem_nil, or_false] at hc
      rcases hc with rfl | rfl | rfl | rfl <;> simp [EndsNumber, isDigit]

/-! ## Strings -/

/-- The digits of code units with what they stand for. -/
def hexDigits : List (Char × Nat) :=
  [('0', 0), ('1', 1), ('2', 2), ('3', 3), ('4', 4), ('5', 5), ('6', 6), ('7', 7),
    ('8', 8), ('9', 9), ('a', 10), ('b', 11), ('c', 12), ('d', 13), ('e', 14), ('f', 15),
    ('A', 10), ('B', 11), ('C', 12), ('D', 13), ('E', 14), ('F', 15)]

/-- The escapes of one letter with what they stand for. -/
def shortEscapes : List (Char × Char) :=
  [('"', '"'), ('\\', '\\'), ('/', '/'), ('b', '\x08'), ('f', '\x0c'), ('n', '\n'),
    ('r', '\r'), ('t', '\t')]

/-- The four digits of a code unit. -/
inductive SpelledUnit : Nat → List Char → Prop
  | digits {first second third fourth : Char × Nat} (hfirst : first ∈ hexDigits)
      (hsecond : second ∈ hexDigits) (hthird : third ∈ hexDigits)
      (hfourth : fourth ∈ hexDigits) :
      SpelledUnit (((first.2 * 16 + second.2) * 16 + third.2) * 16 + fourth.2)
        [first.1, second.1, third.1, fourth.1]

/-- A character of a string as itself, by an escape of one letter, by its code unit or
by the two units of a surrogate pair. -/
inductive SpelledChar : Char → List Char → Prop
  | plain {c : Char} (hlarge : 32 ≤ c.toNat) (hquote : c ≠ '"') (hslash : c ≠ '\\') :
      SpelledChar c [c]
  | short {letter c : Char} (h : (letter, c) ∈ shortEscapes) :
      SpelledChar c ['\\', letter]
  | unit {c : Char} {digits : List Char} (h : SpelledUnit c.toNat digits) :
      SpelledChar c ('\\' :: 'u' :: digits)
  | pair {c : Char} {leading trailing : Nat} {digits others : List Char}
      (h : SpelledUnit (0xd800 + leading) digits)
      (hothers : SpelledUnit (0xdc00 + trailing) others)
      (hleading : leading < 0x400) (htrailing : trailing < 0x400)
      (hc : c.toNat = 0x10000 + leading * 0x400 + trailing) :
      SpelledChar c ('\\' :: 'u' :: digits ++ '\\' :: 'u' :: others)

inductive SpelledChars : List Char → List Char → Prop
  | nil : SpelledChars [] []
  | cons {c : Char} {chars text more : List Char} (h : SpelledChar c text)
      (hmore : SpelledChars chars more) : SpelledChars (c :: chars) (text ++ more)

def SpelledString (text : String) (spelled : List Char) : Prop :=
  ∃ body, SpelledChars text.toList body ∧ spelled = '"' :: body ++ ['"']

theorem hexValue?_of_mem {digit : Char × Nat} (h : digit ∈ hexDigits) :
    hexValue? digit.1 = some digit.2 := by
  revert digit
  decide

theorem shortEscape?_of_mem {escape : Char × Char} (h : escape ∈ shortEscapes) :
    escape.1 ≠ 'u' ∧ shortEscape? escape.1 = some escape.2 := by
  revert escape
  decide

theorem SpelledUnit.exists_digits {unit : Nat} {text : List Char}
    (h : SpelledUnit unit text) :
    ∃ a b c d, text = [a, b, c, d] ∧ hexUnit? a b c d = some unit := by
  cases h with
  | digits hfirst hsecond hthird hfourth =>
      refine ⟨_, _, _, _, rfl, ?_⟩
      simp [hexUnit?, hexValue?_of_mem hfirst, hexValue?_of_mem hsecond,
        hexValue?_of_mem hthird, hexValue?_of_mem hfourth]

theorem SpelledChar.read {c : Char} {text : List Char} (h : SpelledChar c text)
    (decoded : List Char) (rest : Unread) :
    stringBody true decoded (text ++ rest) = stringBody true (c :: decoded) rest := by
  cases h with
  | plain hlarge hquote hslash =>
      exact stringBody_plain true decoded hquote hslash (by omega) rest
  | @short letter c h =>
      obtain ⟨hletter, hescape⟩ := shortEscape?_of_mem h
      simp only at hletter hescape
      simp only [List.cons_append, List.nil_append]
      rw [stringBody]
      · rw [hescape]
      · simp [hletter]
      · simp [hletter]
  | unit h =>
      obtain ⟨a, b, d, e, rfl, hunit⟩ := h.exists_digits
      -- No character lies among the surrogates.
      have hvalid : c.toNat < 0xd800 ∨ 0xdfff < c.toNat ∧ c.toNat < 0x110000 := c.valid
      have htrailing : isTrailing c.toNat = false := by
        simp only [isTrailing, Bool.and_eq_false_iff, decide_eq_false_iff_not]
        omega
      have hleading : isLeading c.toNat = false := by
        simp only [isLeading, Bool.and_eq_false_iff, decide_eq_false_iff_not]
        omega
      simp only [List.cons_append, List.nil_append]
      rw [stringBody]
      simp [hunit, htrailing, hleading]
  | @pair _ leading trailing _ _ h hothers hleading htrailing hc =>
      obtain ⟨a, b, d, e, rfl, hunit⟩ := h.exists_digits
      obtain ⟨a', b', d', e', rfl, hunit'⟩ := hothers.exists_digits
      have hfirst : isTrailing (0xd800 + leading) = false := by
        simp only [isTrailing, Bool.and_eq_false_iff, decide_eq_false_iff_not]
        omega
      have hsecond : isLeading (0xd800 + leading) = true := by
        simp only [isLeading, Bool.and_eq_true, decide_eq_true_eq]
        omega
      have hthird : isTrailing (0xdc00 + trailing) = true := by
        simp only [isTrailing, Bool.and_eq_true, decide_eq_true_eq]
        omega
      have hjoined : joinUnits (0xd800 + leading) (0xdc00 + trailing) = c := by
        rw [joinUnits, Nat.add_sub_cancel_left, Nat.add_sub_cancel_left, ← hc,
          Char.ofNat_toNat]
      simp only [List.cons_append, List.nil_append]
      rw [stringBody]
      simp [hunit, hunit', hfirst, hsecond, hthird, hjoined]

theorem SpelledChars.read {chars text : List Char} (h : SpelledChars chars text)
    (decoded : List Char) (rest : Unread) :
    stringBody true decoded (text ++ '"' :: rest) =
      .ok (String.ofList (decoded.reverse ++ chars), rest) := by
  induction h generalizing decoded with
  | nil => simp [stringBody]
  | cons h _ ih =>
      rw [List.append_assoc, h.read, ih]
      simp

/-! ## Documents -/

/-- Texts between commas, each with blanks around it. -/
inductive Listing {α : Type} (spelled : α → List Char → Prop) :
    List α → List Char → Prop
  | none {blanks : List Char} (h : Blank blanks) : Listing spelled [] blanks
  | last {part : α} {before body after : List Char} (hbefore : Blank before)
      (h : spelled part body) (hafter : Blank after) :
      Listing spelled [part] (before ++ body ++ after)
  | more {part next : α} {rest : List α} {before body after text : List Char}
      (hbefore : Blank before) (h : spelled part body) (hafter : Blank after)
      (hrest : Listing spelled (next :: rest) text) :
      Listing spelled (part :: next :: rest) (before ++ body ++ after ++ ',' :: text)

mutual

/-- The text of a document without blanks around it. -/
inductive Spelled : Json → List Char → Prop
  | null : Spelled .null ['n', 'u', 'l', 'l']
  | true : Spelled (.bool true) ['t', 'r', 'u', 'e']
  | false : Spelled (.bool false) ['f', 'a', 'l', 's', 'e']
  | integer (number : WordInt) : Spelled (.integer number) (integerChars number.value)
  | minusZero : Spelled (.double (.zero true)) ['-', '0']
  | string {text : String} {spelled : List Char} (h : SpelledString text spelled) :
      Spelled (.string text) spelled
  | array {elements : List Json} {text : List Char} (h : Listing Spelled elements text) :
      Spelled (.array elements) ('[' :: text ++ [']'])
  | object {members : List (String × Json)} {text : List Char}
      (h : Listing SpelledMember members text) :
      Spelled (.object members) ('\x7b' :: text ++ ['\x7d'])

inductive SpelledMember : String × Json → List Char → Prop
  | named {name : String} {value : Json} {spelled before after body : List Char}
      (hname : SpelledString name spelled) (hbefore : Blank before)
      (hafter : Blank after) (h : Spelled value body) :
      SpelledMember (name, value) (spelled ++ before ++ ':' :: after ++ body)

end

/-- The text of a whole document, with blanks around it. -/
def SpelledText (doc : Json) (text : String) : Prop :=
  ∃ before body after, Blank before ∧ Spelled doc body ∧ Blank after ∧
    text.toList = before ++ body ++ after

/-! ## How texts begin and end -/

/-- The text of a part of a list starts with neither a blank nor a mark of the list. -/
def Opens (text : List Char) : Prop :=
  ∃ c more, text = c :: more ∧ isBlank c = Bool.false ∧ c ≠ ']' ∧ c ≠ ','

theorem Spelled.opens {doc : Json} {text : List Char} (h : Spelled doc text) :
    Opens text := by
  cases h with
  | integer number => exact chars_head (.integer number)
  | string h =>
      obtain ⟨body, -, rfl⟩ := h
      exact ⟨_, _, rfl, by decide⟩
  | _ => exact ⟨_, _, rfl, by decide⟩

/-- What stands ahead of the next part: a comma, unless there is none before it. -/
def lead (first : Bool) : List Char := if first then [] else [',']

theorem skipBlanks_lead {first : Bool} {blanks before : List Char}
    (hblanks : Blank blanks) (hbefore : Blank before) (input : Unread) :
    skipBlanks (blanks ++ (lead first ++ (before ++ input))) =
      if first then skipBlanks input else ',' :: (before ++ input) := by
  rw [hblanks.skip]
  cases first with
  | true => exact hbefore.skip input
  | false => exact skipBlanks_cons rfl _

theorem nextElement_lead {first : Bool} {blanks before body : List Char}
    (hblanks : Blank blanks) (hbefore : Blank before) (h : Opens body) (rest : Unread) :
    nextElement .kept first (blanks ++ (lead first ++ (before ++ (body ++ rest)))) =
      .ok (true, body ++ rest) := by
  obtain ⟨c, more, rfl, hblank, hclose, hcomma⟩ := h
  have hskip := skipBlanks_cons hblank (more ++ rest)
  unfold nextElement
  rw [skipBlanks_lead hblanks hbefore]
  cases first <;> simp [hbefore.skip, hskip, hclose, hcomma]

theorem nextMember_lead {first : Bool} {blanks before : List Char}
    (hblanks : Blank blanks) (hbefore : Blank before) (rest : Unread) :
    nextMember .kept first (blanks ++ (lead first ++ (before ++ '"' :: rest))) =
      .ok (true, rest) := by
  have hskip : skipBlanks ('"' :: rest) = '"' :: rest := skipBlanks_cons rfl _
  unfold nextMember
  rw [skipBlanks_lead hblanks hbefore]
  cases first <;> simp [hbefore.skip, hskip]

theorem nextElement_end {first : Bool} {blanks : List Char} (h : Blank blanks)
    (rest : Unread) :
    nextElement .kept first (blanks ++ ']' :: rest) = .ok (false, ']' :: rest) := by
  have hskip : skipBlanks (']' :: rest) = ']' :: rest := skipBlanks_cons rfl _
  simp [nextElement, h.skip, hskip]

theorem nextMember_end {first : Bool} {blanks : List Char} (h : Blank blanks)
    (rest : Unread) :
    nextMember .kept first (blanks ++ '\x7d' :: rest) = .ok (false, '\x7d' :: rest) := by
  have hskip : skipBlanks ('\x7d' :: rest) = '\x7d' :: rest := skipBlanks_cons rfl _
  simp [nextMember, h.skip, hskip]

/-! ## Reading containers -/

/-- A loop over the parts of a container passes over a text that lists them, if it ends
at the closing mark and passes over each part behind its lead. -/
theorem Listing.traverse {α : Type} {spelled : α → List Char → Prop} {parts : List α}
    {text : List Char} {close : Char} {rest : Unread}
    (loop : Bool → Unread → List α → Prop) (h : Listing spelled parts text)
    (hclose : EndsNumber (close :: rest))
    (hend : ∀ first blanks, Blank blanks → loop first (blanks ++ close :: rest) [])
    (hpart : ∀ first blanks before part body behind later, Blank blanks →
      Blank before → part ∈ parts → spelled part body → EndsNumber behind →
      loop Bool.false behind later →
      loop first (blanks ++ (lead first ++ (before ++ (body ++ behind))))
        (part :: later))
    (first : Bool) (blanks : List Char) (hblanks : Blank blanks)
    (hfirst : first = true ∨ parts ≠ []) :
    loop first (blanks ++ (lead first ++ (text ++ close :: rest))) parts := by
  induction h generalizing first blanks with
  | none h =>
      obtain rfl : first = Bool.true := hfirst.resolve_right (by simp)
      have hstart := hend Bool.true _ (hblanks.append h)
      rwa [List.append_assoc] at hstart
  | last hbefore h hafter =>
      have hlast := hpart first blanks _ _ _ _ [] hblanks hbefore
        List.mem_cons_self h (hafter.endsNumber hclose) (hend _ _ hafter)
      simpa only [List.append_assoc] using hlast
  | @more _ _ _ _ _ _ text hbefore h hafter _ ih =>
      have hrest := ih (fun first blanks before part body behind later hblanks hbefore
        hm => hpart first blanks before part body behind later hblanks hbefore
          (List.mem_cons_of_mem _ hm)) Bool.false _ hafter (.inr (List.cons_ne_nil _ _))
      have hends := hafter.endsNumber (endsNumber_comma (text ++ close :: rest))
      have hmore := hpart first blanks _ _ _ _ _ hblanks hbefore List.mem_cons_self h
        hends hrest
      simpa only [List.append_assoc, List.cons_append] using hmore

/-- Under the limit the document is read from each of its texts. -/
def Reads (limit : Nat) (doc : Json) : Prop :=
  ∀ body, Spelled doc body → ∀ before, Blank before → ∀ rest, EndsNumber rest →
    written limit (before ++ (body ++ rest)) = .ok (doc, rest)

variable {limit : Nat}

theorem Listing.listed {elements : List Json} {text : List Char}
    (h : Listing Spelled elements text) (hreads : ∀ e ∈ elements, Reads limit e)
    (rest : Unread) :
    Listed (written limit) true (text ++ ']' :: rest) elements (']' :: rest) := by
  refine h.traverse (fun first input docs =>
    Listed (written limit) first input docs (']' :: rest))
    (endsNumber_bracket rest) ?_ ?_ true [] blank_nil (.inl rfl)
  · intro first blanks hblanks
    exact .done (nextElement_end hblanks rest)
  · intro first blanks before part body behind later hblanks hbefore hm hbody hends
      hlater
    exact .more (nextElement_lead hblanks hbefore hbody.opens behind)
      (hreads part hm body hbody [] blank_nil behind hends) hlater

theorem colon_blank {before : List Char} (h : Blank before) (rest : Unread) :
    colon (before ++ ':' :: rest) = .ok rest := by
  have hskip : skipBlanks (':' :: rest) = ':' :: rest := skipBlanks_cons rfl _
  simp [colon, h.skip, hskip]

section

variable {α : Type} {read : String → Unread → Except Stop (α × Unread)}

/-- The text of a member is read as the part behind the name that it spells. -/
def ReadsMember (read : String → Unread → Except Stop (α × Unread)) (part : α)
    (text : List Char) : Prop :=
  ∀ rest, EndsNumber rest → ∃ name chars behind,
    text ++ rest = '"' :: (chars ++ '"' :: behind) ∧ SpelledChars name.toList chars ∧
      read name behind = .ok (part, rest)

theorem readsMember {part : α} {name : String} {spelled before after body : List Char}
    (hname : SpelledString name spelled)
    (h : ∀ rest, EndsNumber rest →
      read name (before ++ ':' :: (after ++ (body ++ rest))) = .ok (part, rest)) :
    ReadsMember read part (spelled ++ before ++ ':' :: after ++ body) := by
  intro rest hrest
  obtain ⟨chars, hchars, rfl⟩ := hname
  exact ⟨name, chars, before ++ ':' :: (after ++ (body ++ rest)), by simp, hchars,
    h rest hrest⟩

theorem Listing.titled {spelled : α → List Char → Prop} {parts : List α}
    {text : List Char} (h : Listing spelled parts text)
    (hreads : ∀ part ∈ parts, ∀ body, spelled part body → ReadsMember read part body)
    (rest : Unread) :
    Titled read true (text ++ '\x7d' :: rest) parts ('\x7d' :: rest) := by
  refine h.traverse (fun first input parts =>
    Titled read first input parts ('\x7d' :: rest))
    (endsNumber_brace rest) ?_ ?_ true [] blank_nil (.inl rfl)
  · intro first blanks hblanks
    exact .done (nextMember_end hblanks rest)
  · intro first blanks before part body behind later hblanks hbefore hm hbody hends
      hlater
    obtain ⟨name, chars, field, htext, hchars, hvalue⟩ :=
      hreads part hm body hbody behind hends
    have hname := hchars.read [] field
    rw [List.reverse_nil, List.nil_append, String.ofList_toList] at hname
    rw [htext]
    exact .more (nextMember_lead hblanks hbefore _) hname hvalue hlater

end

theorem Listing.named {members : List (String × Json)} {text : List Char}
    (h : Listing SpelledMember members text)
    (hreads : ∀ m ∈ members, Reads limit m.2) (rest : Unread) :
    Named (behindColon (written limit)) true (text ++ '\x7d' :: rest) members
      ('\x7d' :: rest) := by
  refine named_iff_titled.mpr (h.titled (fun member hm text htext => ?_) rest)
  cases htext with
  | @named name value spelled between after body hname hbetween hafter hbody =>
      refine readsMember hname fun behind hends => ?_
      have hvalue := hreads _ hm body hbody after hafter behind hends
      rw [behindColon, colon_blank hbetween, ok_bind, hvalue, ok_bind]
      rfl

/-! ## Reading documents -/

theorem written_of_value {doc : Json} {input rest : Unread}
    (h : value 0 input = .ok (doc, rest)) : written limit input = .ok (doc, rest) := by
  cases limit with
  | zero => exact h
  | succ limit => exact written_succ_eq_ok.mpr (.inl h)

theorem value_blank {before : List Char} (h : Blank before) (rest : Unread) :
    value limit (before ++ rest) = value limit rest := by
  unfold value
  rw [h.skip]

theorem reads_number {doc : Json} {body : List Char} {rest : Unread}
    (h : number (body ++ rest) = .ok (doc, rest)) :
    value 0 (body ++ rest) = .ok (doc, rest) := by
  obtain ⟨c, more, heq, hstart⟩ := startsNumber_of_number h
  rw [heq] at h ⊢
  rw [value_of_startsNumber hstart, h]

theorem number_minusZero {rest : Unread} (h : EndsNumber rest) :
    number (['-', '0'] ++ rest) = .ok (.double (.zero true), rest) := by
  have hwhole : wholePart .valueCut (['0'] ++ rest) = .ok (['0'], rest) :=
    wholePart_append .valueCut (by simp [AllDigits, isDigit]) (fun _ => rfl)
      h.startsWithDigit
  have hnumeral := numeral_of_parts hwhole (h.fractionPart .valueCut)
    (h.exponentPart .valueCut) true
  simp only [if_true, List.cons_append, List.nil_append] at hnumeral
  unfold number
  rw [List.cons_append, List.cons_append, List.nil_append, hnumeral]
  rfl

theorem reads_scalar {doc : Json} {body : List Char} (h : Spelled doc body)
    (hscalar : IsScalar doc) {rest : Unread} (hrest : EndsNumber rest) :
    value 0 (body ++ rest) = .ok (doc, rest) := by
  cases h with
  | null | true | false =>
      simp [value, skipBlanks, isBlank, word, pure, Except.pure]
  | integer number => exact reads_number (number_integerChars number hrest)
  | minusZero => exact reads_number (number_minusZero hrest)
  | string h =>
      obtain ⟨chars, hchars, rfl⟩ := h
      have hread := hchars.read [] rest
      simp [value, skipBlanks, isBlank, hread, pure, Except.pure]
  | array => exact hscalar.elim
  | object => exact hscalar.elim

theorem reads_of_isScalar {doc : Json} (hscalar : IsScalar doc) : Reads limit doc := by
  intro body hbody before hbefore rest hrest
  apply written_of_value
  rw [value_blank hbefore]
  exact reads_scalar hbody hscalar hrest

/-- A document is read from each of its texts, if it nests no deeper than the limit. -/
theorem reads_of_depth {doc : Json} (h : depth doc ≤ limit) : Reads limit doc := by
  induction doc using induct generalizing limit with
  | array elements ih =>
      obtain ⟨limit, rfl⟩ : ∃ less, limit = less + 1 :=
        ⟨limit - 1, by rw [depth] at h; omega⟩
      have heach := depthElements_le.mp (Nat.le_of_succ_le_succ h)
      intro body hbody before hbefore rest hrest
      cases hbody with
      | array hlisting =>
          have hlisted := hlisting.listed (fun e hm => ih e hm (heach e hm)) rest
          refine written_succ_eq_ok.mpr (.inr (.inl ⟨elements, ⟨_, _, ?_, hlisted, ?_⟩,
            rfl⟩))
          · rw [hbefore.skip, List.cons_append, List.cons_append, List.append_assoc]
            exact skipBlanks_cons rfl _
          · rfl
  | object members ih =>
      obtain ⟨limit, rfl⟩ : ∃ less, limit = less + 1 :=
        ⟨limit - 1, by rw [depth] at h; omega⟩
      have heach := depthMembers_le.mp (Nat.le_of_succ_le_succ h)
      intro body hbody before hbefore rest hrest
      cases hbody with
      | object hlisting =>
          have hnamed := hlisting.named (fun m hm => ih m hm (heach m hm)) rest
          refine written_succ_eq_ok.mpr (.inr (.inr ⟨members, ⟨_, _, ?_, hnamed, ?_⟩,
            rfl⟩))
          · rw [hbefore.skip, List.cons_append, List.cons_append, List.append_assoc]
            exact skipBlanks_cons rfl _
          · rfl
  | _ => exact reads_of_isScalar trivial

/-- Every text of a document that nests no deeper than texts may is parsed as it. -/
theorem SpelledText.parseWritten {doc : Json} {text : String} (h : SpelledText doc text)
    (hdepth : depth doc ≤ depthLimit) : parseWritten text = .ok doc := by
  obtain ⟨before, body, after, hbefore, hbody, hafter, htext⟩ := h
  have hends : EndsNumber after := by
    have hnil := @Blank.endsNumber after hafter [] trivial
    rwa [List.append_nil] at hnil
  refine document_eq_ok.mpr ⟨after, ?_, hafter.skip_all⟩
  rw [htext, List.append_assoc]
  exact reads_of_depth hdepth body hbody before hbefore after hends

/-! ## Nesting -/

theorem listed_forall {p : Json → Prop} {input rest : Unread} {first : Bool}
    {values : List Json} (h : Listed (value limit) first input values rest)
    (hp : ∀ input v rest, value limit input = .ok (v, rest) → p v) :
    ∀ v ∈ values, p v := by
  induction h with
  | done => simp
  | more _ hvalue _ ih => exact List.forall_mem_cons.mpr ⟨hp _ _ _ hvalue, ih⟩

theorem named_forall {p : Json → Prop} {input rest : Unread} {first : Bool}
    {members : List (String × Json)}
    (h : Named (behindColon (value limit)) first input members rest)
    (hp : ∀ input v rest, value limit input = .ok (v, rest) → p v) :
    ∀ m ∈ members, p m.2 := by
  induction h with
  | done => simp
  | more _ _ hvalue _ ih =>
      obtain ⟨behind, -, hvalue⟩ := exists_of_bind_eq_ok hvalue
      exact List.forall_mem_cons.mpr ⟨hp _ _ _ hvalue, ih⟩

theorem IsScalar.depth {v : Json} (h : IsScalar v) : depth v = 0 := by
  cases v <;> first | rfl | exact h.elim

/-- What is read nests no deeper than the limit. -/
theorem depth_of_value {input rest : Unread} {v : Json}
    (h : value limit input = .ok (v, rest)) : depth v ≤ limit := by
  induction limit generalizing input v rest with
  | zero => exact (isScalar_of_value h).depth.le
  | succ limit ih =>
      rcases value_succ_eq_ok.mp h with h | ⟨values, ⟨_, _, -, hvalues, -⟩, rfl⟩ |
        ⟨members, ⟨_, _, -, hmembers, -⟩, rfl⟩
      · exact (isScalar_of_value h).depth.le.trans (Nat.zero_le _)
      · have heach := listed_forall hvalues fun _ _ _ => ih
        exact Nat.succ_le_succ (depthElements_le.mpr heach)
      · have heach := named_forall hmembers fun _ _ _ => ih
        refine Nat.succ_le_succ (depthMembers_le.mpr fun m hm => ?_)
        have hfound := KeyMap.mem_entries.mp hm
        rw [KeyMap.get?_ofList_eq] at hfound
        exact heach m (List.mem_reverse.mp (Assoc.mem_of_lookup hfound))

/-! ## What documents denote -/

/-- The value that a document denotes: its objects have the last member of each name,
in the order of names. -/
inductive Denotes : Json → Json → Prop
  | scalar {doc : Json} (h : IsScalar doc) : Denotes doc doc
  | array {docs values : List Json} (h : List.Forall₂ Denotes docs values) :
      Denotes (.array docs) (.array values)
  | object {docs members : List (String × Json)} (hordered : Assoc.Ordered members)
      (h : ∀ name, Option.Rel Denotes (Assoc.lookup name docs.reverse)
        (Assoc.lookup name members)) :
      Denotes (.object docs) (.object members)

theorem settledElements_eq (docs : List Json) :
    settledElements docs = docs.map settled := by
  induction docs with
  | nil => rfl
  | cons doc docs ih => rw [settledElements, ih, List.map_cons]

theorem settledMembers_eq (docs : List (String × Json)) :
    settledMembers docs = docs.map fun doc => (doc.1, settled doc.2) := by
  induction docs with
  | nil => rfl
  | cons doc docs ih => rw [settledMembers, ih, List.map_cons]

/-- A value is what it denotes as a document, if its members are in order. -/
theorem settled_of_canonical {v : Json} (h : v.Canonical) : settled v = v := by
  induction v using induct with
  | array elements ih =>
      cases h with
      | array h =>
          rw [settled, settledElements_eq]
          congr 1
          exact (List.map_congr_left fun e hm => ih e hm (h e hm)).trans (List.map_id _)
  | object members ih =>
      cases h with
      | object hordered h =>
          have hsame : settledMembers members = members := by
            rw [settledMembers_eq]
            exact (List.map_congr_left fun m hm => by rw [ih m hm (h m hm)]; rfl).trans
              (List.map_id _)
          rw [settled, hsame, ofMembers_ordered hordered]
  | _ => rfl

/-- A map of the members of an object has what the last member of each name stands
for. -/
theorem get?_ofList_settledMembers (docs : List (String × Json)) (name : String) :
    (KeyMap.ofList (settledMembers docs)).get? name =
      (Assoc.lookup name docs.reverse).map settled := by
  rw [KeyMap.get?_ofList_eq, settledMembers_eq, ← List.map_reverse]
  exact Assoc.lookup_map (fun _ => settled) name docs.reverse

theorem denotes_settled (doc : Json) : Denotes doc (settled doc) := by
  induction doc using induct with
  | array docs ih =>
      rw [settled, settledElements_eq]
      refine .array (List.forall₂_map_right_iff.mpr (List.forall₂_same.mpr ih))
  | object docs ih =>
      rw [settled]
      refine .object (KeyMap.ofList _).ordered fun name => ?_
      change Option.Rel Denotes _ ((KeyMap.ofList _).get? name)
      rw [get?_ofList_settledMembers]
      cases hfound : Assoc.lookup name docs.reverse with
      | none => exact .none
      | some doc =>
          have hm := List.mem_reverse.mp (Assoc.mem_of_lookup hfound)
          exact .some (ih (name, doc) hm)
  | _ => exact .scalar trivial

theorem eq_map_of_rel {α β : Type} {r : α → β → Prop} {f : α → β} {found : Option α}
    {value : Option β} (h : Option.Rel r found value)
    (hf : ∀ a, found = some a → ∀ b, r a b → b = f a) : value = found.map f := by
  cases h with
  | none => rfl
  | some h => rw [Option.map_some, hf _ rfl _ h]

/-- A document denotes one value. -/
theorem denotes_iff {doc v : Json} : Denotes doc v ↔ v = settled doc := by
  constructor
  · intro h
    induction doc using induct generalizing v with
    | array docs ih =>
        cases h with
        | scalar h => exact h.elim
        | @array _ values h =>
            have hvalues : values = settledElements docs := by
              refine forall₂_settled.mp ?_
              induction h with
              | nil => exact .nil
              | cons hfirst _ ihrest =>
                  exact .cons (ih _ List.mem_cons_self hfirst)
                    (ihrest fun doc hm => ih doc (List.mem_cons_of_mem _ hm))
            rw [settled, hvalues]
    | object docs ih =>
        cases h with
        | scalar h => exact h.elim
        | object hordered h =>
            refine congrArg Json.object (Assoc.ordered_ext hordered
              (KeyMap.ofList (settledMembers docs)).ordered fun name => ?_)
            change _ = (KeyMap.ofList (settledMembers docs)).get? name
            rw [get?_ofList_settledMembers]
            refine eq_map_of_rel (h name) fun doc hfound v hv => ?_
            exact ih (name, doc) (List.mem_reverse.mp (Assoc.mem_of_lookup hfound)) hv
    | _ =>
        cases h
        rfl
  · rintro rfl
    exact denotes_settled doc

/-! ## Printed documents -/

theorem mem_hexDigits {digit : Nat} (h : digit < 16) :
    (hexDigit digit, digit) ∈ hexDigits := by
  revert digit
  decide

theorem spelledChar_escape (c : Char) : SpelledChar c (escape c) := by
  unfold escape
  split
  case h_8 hquote hslash _ _ _ _ _ =>
    split
    · rename_i hcontrol
      have hhigh := @mem_hexDigits (c.toNat / 16) (by omega)
      have hlow := @mem_hexDigits (c.toNat % 16) (by omega)
      have hzero : ('0', 0) ∈ hexDigits := by decide
      have hunit := SpelledUnit.digits hzero hzero hhigh hlow
      have hvalue : ((0 * 16 + 0) * 16 + c.toNat / 16) * 16 + c.toNat % 16 = c.toNat := by
        omega
      rw [hvalue] at hunit
      exact .unit hunit
    · exact .plain (by omega) hquote hslash
  all_goals exact .short (by decide)

theorem spelledChars_flatMap (chars : List Char) :
    SpelledChars chars (chars.flatMap escape) := by
  induction chars with
  | nil => exact .nil
  | cons c more ih => exact .cons (spelledChar_escape c) ih

theorem spelledString_quote (text : String) : SpelledString text (quote text) :=
  ⟨_, spelledChars_flatMap text.toList, rfl⟩

theorem listing_elementChars {elements : List Json}
    (h : ∀ e ∈ elements, Spelled e (chars e)) :
    Listing Spelled elements (elementChars elements) := by
  induction elements with
  | nil => exact .none blank_nil
  | cons first rest ih =>
      have hfirst := h first List.mem_cons_self
      have hrest := ih fun e hm => h e (List.mem_cons_of_mem _ hm)
      cases rest with
      | nil => simpa [elementChars] using Listing.last blank_nil hfirst blank_nil
      | cons second rest =>
          simpa [elementChars] using Listing.more blank_nil hfirst blank_nil hrest

theorem listing_memberChars {members : List (String × Json)}
    (h : ∀ m ∈ members, Spelled m.2 (chars m.2)) :
    Listing SpelledMember members (memberChars members) := by
  induction members with
  | nil => exact .none blank_nil
  | cons first rest ih =>
      obtain ⟨name, value⟩ := first
      have hfirst := SpelledMember.named (spelledString_quote name) blank_nil blank_nil
        (h (name, value) List.mem_cons_self)
      have hrest := ih fun m hm => h m (List.mem_cons_of_mem _ hm)
      cases rest with
      | nil => simpa [memberChars] using Listing.last blank_nil hfirst blank_nil
      | cons second rest =>
          simpa [memberChars] using Listing.more blank_nil hfirst blank_nil hrest

/-- What is printed is a text of the document. -/
theorem spelled_chars {doc : Json} (h : WithoutDoubles doc) :
    Spelled doc (chars doc) := by
  induction doc using induct with
  | null => exact .null
  | bool value =>
      cases value with
      | true => exact .true
      | false => exact .false
  | integer number => exact .integer number
  | double => cases h
  | string text => exact .string (spelledString_quote text)
  | array elements ih =>
      cases h with
      | array h => exact .array (listing_elementChars fun e hm => ih e hm (h e hm))
  | object members ih =>
      cases h with
      | object h => exact .object (listing_memberChars fun m hm => ih m hm (h m hm))

theorem spelledText_text {doc : Json} (h : WithoutDoubles doc) :
    SpelledText doc doc.text :=
  ⟨[], chars doc, [], blank_nil, spelled_chars h, blank_nil, by
    simp [Json.text, String.toList_ofList]⟩

end Json

end VersionedFlags
