import VersionedFlags.Proofs.Json.Grammar

/-!
# Values that nobody keeps

A member that nobody asks for may have any value that is well formed.  Its numbers may
be of any size, its strings may have any code units, alone or in pairs, and it may nest
as deep as it likes.  The reader passes over every such text.
-/

namespace VersionedFlags

namespace Json

/-! ## Texts of any values -/

inductive FractionText : List Char → Prop
  | none : FractionText []
  | digits {digits : List Char} (h : AllDigits digits) (hsome : digits ≠ []) :
      FractionText ('.' :: digits)

inductive ExponentText : List Char → Prop
  | none : ExponentText []
  | digits {mark : Char} {sign digits : List Char} (hmark : mark ∈ ['e', 'E'])
      (hsign : sign ∈ [[], ['+'], ['-']]) (h : AllDigits digits)
      (hsome : digits ≠ []) : ExponentText (mark :: (sign ++ digits))

inductive NumberText : List Char → Prop
  | parts (negative : Bool) {whole fraction exponent : List Char} (hwhole : Leads whole)
      (hfraction : FractionText fraction) (hexponent : ExponentText exponent) :
      NumberText (if negative then '-' :: (whole ++ (fraction ++ exponent))
        else whole ++ (fraction ++ exponent))

/-- A character between quotes or an escape; a code unit may be any. -/
inductive StringUnit : List Char → Prop
  | plain {c : Char} (hlarge : 32 ≤ c.toNat) (hquote : c ≠ '"') (hslash : c ≠ '\\') :
      StringUnit [c]
  | short {escape : Char × Char} (h : escape ∈ shortEscapes) :
      StringUnit ['\\', escape.1]
  | unit {unit : Nat} {digits : List Char} (h : SpelledUnit unit digits) :
      StringUnit ('\\' :: 'u' :: digits)

inductive StringUnits : List Char → Prop
  | nil : StringUnits []
  | cons {text more : List Char} (h : StringUnit text) (hmore : StringUnits more) :
      StringUnits (text ++ more)

mutual

/-- The text of a value without blanks around it. -/
inductive WellFormed : List Char → Prop
  | word {text : List Char}
      (h : text ∈ [['n', 'u', 'l', 'l'], ['t', 'r', 'u', 'e'],
        ['f', 'a', 'l', 's', 'e']]) : WellFormed text
  | number {text : List Char} (h : NumberText text) : WellFormed text
  | string {body : List Char} (h : StringUnits body) :
      WellFormed ('"' :: body ++ ['"'])
  | list {elements : List Unit} {text : List Char}
      (h : Listing (fun _ => WellFormed) elements text) : WellFormed ('[' :: text ++ [']'])
  | object {members : List Unit} {text : List Char}
      (h : Listing (fun _ => WellFormedMember) members text) :
      WellFormed ('\x7b' :: text ++ ['\x7d'])

inductive WellFormedMember : List Char → Prop
  | named {name before after body : List Char} (hname : StringUnits name)
      (hbefore : Blank before) (hafter : Blank after) (h : WellFormed body) :
      WellFormedMember ('"' :: name ++ '"' :: before ++ ':' :: after ++ body)

end

/-! ## Numbers and strings -/

variable {rest : Unread}

theorem ExponentText.read {text : List Char} (h : ExponentText text) (cut : Cause)
    (hrest : EndsNumber rest) :
    ∃ scientific, exponentPart cut (text ++ rest) = .ok (scientific, rest) := by
  cases h with
  | none => exact ⟨_, hrest.exponentPart cut⟩
  | @digits mark sign digits hmark hsign h hsome =>
      have hspan := spanDigits_append h hrest.startsWithDigit
      obtain ⟨first, more, rfl⟩ := List.exists_cons_of_ne_nil hsome
      have hfirst : isDigit first = true := h first List.mem_cons_self
      -- Without a sign the exponent starts with its first digit.
      have hunsigned : ∀ text, exponentSign (first :: text) = (false, first :: text) := by
        intro text
        rw [exponentSign]
        · rintro _ ⟨⟩
          cases hfirst
        · rintro _ ⟨⟩
          cases hfirst
      have hmark : mark = 'e' ∨ mark = 'E' := by simpa using hmark
      simp only [List.mem_cons, List.not_mem_nil, or_false] at hsign
      rw [List.cons_append] at hspan
      rcases hsign with rfl | rfl | rfl
      · exact ⟨_, by simp [exponentPart, hmark, hunsigned, hspan]; rfl⟩
      · exact ⟨_, by simp [exponentPart, hmark, exponentSign, hspan]; rfl⟩
      · exact ⟨_, by simp [exponentPart, hmark, exponentSign, hspan]; rfl⟩

/-- An exponent goes on with neither digits nor a point. -/
theorem ExponentText.ends {text : List Char} (h : ExponentText text)
    (hrest : EndsNumber rest) :
    startsWithDigit (text ++ rest) = false ∧ ∀ more, text ++ rest ≠ '.' :: more := by
  cases h with
  | none =>
      refine ⟨hrest.startsWithDigit, ?_⟩
      rintro more heq
      rw [List.nil_append] at heq
      rw [heq] at hrest
      exact hrest.2.1 rfl
  | digits hmark =>
      simp only [List.mem_cons, List.not_mem_nil, or_false] at hmark
      rcases hmark with rfl | rfl <;> exact ⟨rfl, fun more heq => by cases heq⟩

theorem FractionText.read {text : List Char} (h : FractionText text) (cut : Cause)
    (hdigit : startsWithDigit rest = false) (hpoint : ∀ more, rest ≠ '.' :: more) :
    startsWithDigit (text ++ rest) = false ∧
      ∃ fraction, fractionPart cut (text ++ rest) = .ok (fraction, rest) := by
  cases h with
  | none =>
      refine ⟨hdigit, Option.none, ?_⟩
      rw [List.nil_append, fractionPart]
      exact hpoint
  | digits h hsome => exact ⟨rfl, _, fractionPart_digits cut h hsome hdigit⟩

theorem NumberText.read {text : List Char} (h : NumberText text) (cut : Cause)
    (hrest : EndsNumber rest) :
    ∃ literal, numeral cut (text ++ rest) = .ok (literal, rest) := by
  cases h with
  | @parts negative whole fraction exponent hwhole hfraction hexponent =>
      obtain ⟨hdigit, hpoint⟩ := hexponent.ends hrest
      obtain ⟨scientific, hscientific⟩ := hexponent.read cut hrest
      obtain ⟨hdigit, optional, hoptional⟩ := hfraction.read cut hdigit hpoint
      have hparts := numeral_of_parts
        (hwhole.wholePart cut (fraction ++ (exponent ++ rest)) hdigit) hoptional
        hscientific negative
      refine ⟨_, Eq.trans (congrArg (numeral cut) ?_) hparts⟩
      cases negative <;> simp

theorem NumberText.starts {text : List Char} (h : NumberText text) :
    ∃ c more, text = c :: more ∧ StartsNumber c := by
  cases h with
  | parts negative hwhole =>
      obtain ⟨hdigits, c, more, rfl, -⟩ := hwhole
      cases negative with
      | true => exact ⟨'-', _, rfl, .inl rfl⟩
      | false => exact ⟨c, _, rfl, .inr (hdigits c List.mem_cons_self)⟩

theorem StringUnits.read {body : List Char} (h : StringUnits body)
    (decoded : List Char) (rest : Unread) :
    ∃ text, stringBody false decoded (body ++ '"' :: rest) = .ok (text, rest) := by
  induction h generalizing decoded with
  | nil => exact ⟨_, by rw [List.nil_append, stringBody]⟩
  | cons h _ ih =>
      rw [List.append_assoc]
      cases h with
      | plain hlarge hquote hslash =>
          have hread := stringBody_plain false decoded hquote hslash (by omega)
          rw [List.cons_append, List.nil_append, hread]
          exact ih _
      | @short escape h =>
          obtain ⟨hletter, hescape⟩ := shortEscape?_of_mem h
          simp only [List.cons_append, List.nil_append]
          rw [stringBody]
          · simp only [hescape]
            exact ih _
          · simp [hletter]
          · simp [hletter]
      | unit h =>
          obtain ⟨a, b, c, d, rfl, hunit⟩ := h.exists_digits
          simp only [List.cons_append, List.nil_append]
          rw [stringBody]
          simp only [hunit, Bool.not_false, if_true]
          exact ih _

/-! ## Containers -/

section Listing

variable {α : Type} {spelled other : α → List Char → Prop} {parts : List α}
  {text : List Char}

theorem Listing.mono (h : Listing spelled parts text)
    (himp : ∀ part body, spelled part body → other part body) :
    Listing other parts text := by
  induction h with
  | none h => exact .none h
  | last hbefore h hafter => exact .last hbefore (himp _ _ h) hafter
  | more hbefore h hafter _ ih => exact .more hbefore (himp _ _ h) hafter ih

/-- No part is longer than the whole. -/
theorem Listing.bounded (h : Listing spelled parts text) :
    Listing (fun part body => spelled part body ∧ body.length ≤ text.length) parts
      text := by
  induction h with
  | none h => exact .none h
  | last hbefore h hafter =>
      refine .last hbefore ⟨h, ?_⟩ hafter
      simp only [List.length_append]
      omega
  | more hbefore h hafter _ ih =>
      refine .more hbefore ⟨h, ?_⟩ hafter (ih.mono fun part body hbody => ?_)
      · simp only [List.length_append]
        omega
      · refine ⟨hbody.1, hbody.2.trans ?_⟩
        simp only [List.length_append, List.length_cons]
        omega

theorem Listing.length_le (h : Listing spelled parts text) :
    parts.length ≤ text.length + 1 := by
  induction h with
  | none => exact Nat.zero_le _
  | last => simp
  | more _ _ _ _ ih =>
      simp only [List.length_append, List.length_cons] at ih ⊢
      omega

end Listing

variable {commas : Commas} {first : Bool} {input : Unread} {found : Bool × Unread}

/-- What is accepted does not depend on what is refused behind a comma. -/
theorem nextElement_of_kept (h : nextElement .kept first input = .ok found) :
    nextElement commas first input = .ok found := by
  unfold nextElement at h ⊢
  grind [Commas.kept]

theorem nextMember_of_kept (h : nextMember .kept first input = .ok found) :
    nextMember commas first input = .ok found := by
  unfold nextMember at h ⊢
  grind

/-- A reader passes over the text, whatever stands behind it. -/
def Passes (read : Unread → Except Stop (Unit × Unread)) (body : List Char) : Prop :=
  ∀ rest, EndsNumber rest → read (body ++ rest) = .ok ((), rest)

variable {read : Unread → Except Stop (Unit × Unread)}

theorem Listing.elements {spelled : Unit → List Char → Prop} {parts : List Unit}
    {text : List Char} (h : Listing spelled parts text)
    (hopens : ∀ part body, spelled part body → Opens body)
    (hreads : ∀ part body, spelled part body → Passes read body) {fuel : Nat}
    (hfuel : parts.length < fuel) (rest : Unread) :
    ∃ all, Json.elements commas read fuel true [] (text ++ ']' :: rest) =
      .ok (all, ']' :: rest) := by
  refine h.traverse (fun first input parts => ∀ fuel done, parts.length < fuel →
      ∃ all, Json.elements commas read fuel first done input = .ok (all, ']' :: rest))
    (endsNumber_bracket rest) ?_ ?_ true [] blank_nil (.inl rfl) fuel [] hfuel
  · intro first blanks hblanks fuel done hfuel
    obtain ⟨fuel, rfl⟩ := Nat.exists_eq_succ_of_ne_zero (Nat.ne_of_gt hfuel)
    rw [Json.elements, nextElement_of_kept (nextElement_end hblanks rest), ok_bind]
    exact ⟨_, rfl⟩
  · intro first blanks before part body behind later hblanks hbefore _ hbody hends
      hlater fuel done hfuel
    obtain ⟨fuel, rfl⟩ := Nat.exists_eq_succ_of_ne_zero (Nat.ne_zero_of_lt hfuel)
    have hnext := @nextElement_lead first _ _ _ hblanks hbefore
      (hopens part body hbody) behind
    rw [Json.elements, nextElement_of_kept hnext, ok_bind]
    simp only [if_true]
    rw [hreads part body hbody behind hends, ok_bind]
    exact hlater fuel _ (Nat.lt_of_succ_lt_succ hfuel)

/-- A member is passed over behind its opening quote. -/
def PassesMember (member : Unit → String → Unread → Except Stop (Unit × Unread))
    (text : List Char) : Prop :=
  ∃ behindQuote, text = '"' :: behindQuote ∧ ∀ rest, EndsNumber rest →
    ∃ name behindName, stringBody false [] (behindQuote ++ rest) =
        .ok (name, behindName) ∧ member () name behindName = .ok ((), rest)

theorem Listing.members {member : Unit → String → Unread → Except Stop (Unit × Unread)}
    {spelled : Unit → List Char → Prop} {parts : List Unit} {text : List Char}
    (h : Listing spelled parts text)
    (hreads : ∀ part body, spelled part body → PassesMember member body) {fuel : Nat}
    (hfuel : parts.length < fuel) (rest : Unread) :
    Json.members commas false member fuel true () (text ++ '\x7d' :: rest) =
      .ok ((), '\x7d' :: rest) := by
  refine h.traverse (fun first input parts => ∀ fuel, parts.length < fuel →
      Json.members commas false member fuel first () input = .ok ((), '\x7d' :: rest))
    (endsNumber_brace rest) ?_ ?_ true [] blank_nil (.inl rfl) fuel hfuel
  · intro first blanks hblanks fuel hfuel
    obtain ⟨fuel, rfl⟩ := Nat.exists_eq_succ_of_ne_zero (Nat.ne_zero_of_lt hfuel)
    rw [Json.members, nextMember_of_kept (nextMember_end hblanks rest), ok_bind]
    rfl
  · intro first blanks before part body behind later hblanks hbefore _ hbody hends
      hlater fuel hfuel
    obtain ⟨fuel, rfl⟩ := Nat.exists_eq_succ_of_ne_zero (Nat.ne_zero_of_lt hfuel)
    obtain ⟨behindQuote, rfl, hmember⟩ := hreads part body hbody
    obtain ⟨name, behindName, hname, hvalue⟩ := hmember behind hends
    have hnext := @nextMember_lead first _ _ hblanks hbefore (behindQuote ++ behind)
    rw [List.cons_append, Json.members, nextMember_of_kept hnext, ok_bind]
    simp only [if_true]
    rw [hname, ok_bind]
    simp only [hvalue, ok_bind]
    exact hlater fuel (Nat.lt_of_succ_lt_succ hfuel)

/-! ## Passing over a value -/

theorem WellFormed.opens {body : List Char} (h : WellFormed body) : Opens body := by
  cases h with
  | word h =>
      simp only [List.mem_cons, List.not_mem_nil, or_false] at h
      rcases h with rfl | rfl | rfl <;> exact ⟨_, _, rfl, by decide⟩
  | number h =>
      obtain ⟨c, more, rfl, hstarts⟩ := h.starts
      refine ⟨c, more, rfl, hstarts.isBlank, ?_, ?_⟩
      all_goals
        rintro rfl
        rcases hstarts with h | h <;> cases h
  | string | list | object => exact ⟨_, _, rfl, by decide⟩

theorem skip_blank {limit : Nat} {before : List Char} (h : Blank before)
    (rest : Unread) : skip limit (before ++ rest) = skip limit rest := by
  unfold skip
  rw [h.skip]

theorem skip_word {text : List Char} (h : text ∈ [['n', 'u', 'l', 'l'],
    ['t', 'r', 'u', 'e'], ['f', 'a', 'l', 's', 'e']]) (limit : Nat) (rest : Unread) :
    skip limit (text ++ rest) = .ok ((), rest) := by
  simp only [List.mem_cons, List.not_mem_nil, or_false] at h
  rcases h with rfl | rfl | rfl <;>
    simp [skip, skipBlanks, isBlank, word, pure, Except.pure]

theorem skip_number {text : List Char} (h : NumberText text) (limit : Nat)
    {rest : Unread} (hrest : EndsNumber rest) :
    skip limit (text ++ rest) = .ok ((), rest) := by
  obtain ⟨c, more, rfl, hstarts⟩ := h.starts
  obtain ⟨literal, hliteral⟩ := h.read .invalidNumber hrest
  have hskip := skipBlanks_cons hstarts.isBlank (more ++ rest)
  rw [List.cons_append] at hliteral ⊢
  unfold skip
  rw [hskip]
  split
  case h_8 =>
    rename_i heq
    cases heq
    have hnumber : c = '-' ∨ isDigit c = true := hstarts
    rw [if_pos hnumber, hliteral]
    rfl
  all_goals
    rename_i heq
    cases heq
  all_goals
    rcases hstarts with h | h <;> cases h

theorem skip_string {body : List Char} (h : StringUnits body) (limit : Nat)
    (rest : Unread) : skip limit ('"' :: body ++ ['"'] ++ rest) = .ok ((), rest) := by
  obtain ⟨text, htext⟩ := h.read [] rest
  simp [skip, skipBlanks, isBlank, htext, pure, Except.pure]

theorem skip_list {limit : Nat} {elements : List Unit} {text : List Char}
    (h : Listing (fun _ => WellFormed) elements text)
    (hreads : ∀ body, WellFormed body → body.length ≤ text.length →
      Passes (skip limit) body) (rest : Unread) :
    skip (limit + 1) ('[' :: text ++ [']'] ++ rest) = .ok ((), rest) := by
  have hlength := h.length_le
  obtain ⟨all, hall⟩ : ∃ all, Json.elements .skipped (skip limit)
      ((text ++ ']' :: rest).length + 1) true [] (text ++ ']' :: rest) =
        .ok (all, ']' :: rest) :=
    h.bounded.elements (fun _ _ hbody => hbody.1.opens)
      (fun _ _ hbody => hreads _ hbody.1 hbody.2) (by simp; omega) rest
  have hclose : closeList (']' :: rest) = .ok rest := rfl
  have hskip : skipBlanks ('[' :: (text ++ ']' :: rest)) =
      '[' :: (text ++ ']' :: rest) := skipBlanks_cons rfl _
  have htext : '[' :: text ++ [']'] ++ rest = '[' :: (text ++ ']' :: rest) := by simp
  rw [htext, skip, hskip]
  simp only [hall, hclose, ok_bind]
  rfl

theorem passesMember {limit : Nat} {text : List Char} (h : WellFormedMember text)
    (hreads : ∀ body, WellFormed body → body.length ≤ text.length →
      Passes (skip limit) body) :
    PassesMember (fun _ _ input => do skip limit (← colon input)) text := by
  cases h with
  | @named name before after body hname hbefore hafter h =>
      refine ⟨name ++ '"' :: before ++ ':' :: after ++ body, by simp, ?_⟩
      intro rest hrest
      obtain ⟨read, hread⟩ :=
        hname.read [] (before ++ ':' :: (after ++ (body ++ rest)))
      have hvalue := hreads body h (by simp; omega) rest hrest
      refine ⟨read, before ++ ':' :: (after ++ (body ++ rest)), ?_, ?_⟩
      · rw [← hread]
        simp
      · simp only [colon_blank hbefore, ok_bind, skip_blank hafter, hvalue]

theorem skip_object {limit : Nat} {members : List Unit} {text : List Char}
    (h : Listing (fun _ => WellFormedMember) members text)
    (hreads : ∀ body, WellFormed body → body.length ≤ text.length →
      Passes (skip limit) body) (rest : Unread) :
    skip (limit + 1) ('\x7b' :: text ++ ['\x7d'] ++ rest) = .ok ((), rest) := by
  have hlength := h.length_le
  have hmembers : Json.members .skipped false
      (fun _ _ input => do skip limit (← colon input))
      ((text ++ '\x7d' :: rest).length + 1) true () (text ++ '\x7d' :: rest) =
        .ok ((), '\x7d' :: rest) := by
    refine h.bounded.members (fun _ body hbody => ?_) (by simp; omega) rest
    refine passesMember hbody.1 fun inner hinner hle => ?_
    exact hreads inner hinner (hle.trans hbody.2)
  have hclose : closeObject ('\x7d' :: rest) = .ok rest := rfl
  have hskip : skipBlanks ('\x7b' :: (text ++ '\x7d' :: rest)) =
      '\x7b' :: (text ++ '\x7d' :: rest) := skipBlanks_cons rfl _
  have htext : '\x7b' :: text ++ ['\x7d'] ++ rest =
      '\x7b' :: (text ++ '\x7d' :: rest) := by simp
  rw [htext, skip, hskip]
  simp only [hmembers, hclose, ok_bind]
  rfl

/-- A value that is well formed is passed over, with a limit on nesting that its
length never reaches. -/
theorem WellFormed.passes {body : List Char} (h : WellFormed body) {limit : Nat}
    (hlimit : body.length ≤ limit) : Passes (Json.skip limit) body := by
  -- By induction on the limit: a container's parts stand inside of a listing.
  induction limit generalizing body with
  | zero =>
      obtain ⟨c, more, rfl, -⟩ := h.opens
      cases hlimit
  | succ limit ih =>
      intro rest hrest
      cases h with
      | word h => exact skip_word h _ rest
      | number h => exact skip_number h _ hrest
      | string h => exact skip_string h _ rest
      | list h =>
          refine skip_list h (fun body hbody hle => ih hbody (hle.trans ?_)) rest
          simp only [List.length_append, List.length_cons, List.length_nil] at hlimit
          omega
      | object h =>
          refine skip_object h (fun body hbody hle => ih hbody (hle.trans ?_)) rest
          simp only [List.length_append, List.length_cons, List.length_nil] at hlimit
          omega

end Json

end VersionedFlags
