import VersionedFlags.Proofs.Item.Entries

/-!
# Where items come from

An item is made live or as a tombstone, built from a draft, or read from a text.  Only
a text can give a deleted item a payload: it is taken at its word.  What is built from
such an item has none again.
-/

namespace VersionedFlags

namespace Item

open Json (Unread Stop Titled)

/-! ## Making items -/

inductive Setter where
  | version (version : UInt64)
  | deleted (deleted : Bool)
  | data (data : Json)
  deriving DecidableEq, Repr

namespace Draft

def set (draft : Draft) : Setter → Draft
  | .version version => draft.setVersion version
  | .deleted deleted => draft.setDeleted deleted
  | .data data => draft.setData data

def setAll (draft : Draft) (setters : List Setter) : Draft := setters.foldl set draft

end Draft

/-- Every way to come by an item. -/
inductive Obtained : Item → Prop
  | live (key : String) (version : UInt64) (data : Json) :
      Obtained (.live key version data)
  | tombstone (key : String) (version : UInt64) : Obtained (.tombstone key version)
  | built (key : String) (setters : List Setter) :
      Obtained ((Draft.start key).setAll setters).build
  | derived {source : Item} (h : Obtained source) (setters : List Setter) :
      Obtained ((Draft.ofItem source).setAll setters).build
  | parsed {text : String} {item : Item} (h : parse text = .ok item) : Obtained item

/-- A deleted item that is more than a tombstone. -/
def CarriesPayload (item : Item) : Prop := item.deleted = true ∧ item.data ≠ .null

instance (item : Item) : Decidable item.CarriesPayload :=
  inferInstanceAs (Decidable (item.deleted = true ∧ item.data ≠ .null))

variable {item : Item} {entries others : List Entry} {text : String}

/-- Whatever was set, a draft gives up its payload with its life. -/
theorem not_carriesPayload_build (draft : Draft) : ¬ draft.build.CarriesPayload := by
  unfold Draft.build
  split
  · exact fun h => h.2 rfl
  · exact fun h => Bool.false_ne_true h.1

theorem Obtained.exists_parse (h : Obtained item) (hcarries : item.CarriesPayload) :
    ∃ text, parse text = .ok item := by
  cases h with
  | live => exact absurd hcarries.1 Bool.false_ne_true
  | tombstone => exact absurd rfl hcarries.2
  | built | derived => exact absurd hcarries (not_carriesPayload_build _)
  | parsed h => exact ⟨_, h⟩

/-! ## What texts say -/

theorem IsOf.carriesPayload_iff (h : item.IsOf entries) :
    item.CarriesPayload ↔ .deleted true ∈ entries ∧
      ∃ data, data ≠ .null ∧ .data data ∈ entries := by
  simp only [← mem_filterMap_deleted?, ← mem_filterMap_data?]
  rcases h.deleted with hdeleted | ⟨hdeleted, hmark⟩
  · rcases h.data with hdata | ⟨hdata, hpayload⟩
    · simp [CarriesPayload, hdeleted, hdata]
    · simp [CarriesPayload, hdeleted, hdata, hpayload]
  · simp [CarriesPayload, hdeleted, hmark]

theorem titled_unique {α : Type} {read : String → Unread → Except Stop (α × Unread)}
    {first : Bool} {input rest left : Unread} {values more : List α}
    (h : Titled read first input values rest) (hmore : Titled read first input more left) :
    values = more ∧ rest = left := by
  induction h generalizing more with
  | done h =>
      cases hmore with
      | done hmore =>
          cases ok_unique h hmore
          exact ⟨rfl, rfl⟩
      | more hmore => cases ok_unique h hmore
  | more h hname hvalue _ ih =>
      cases hmore with
      | done hmore => cases ok_unique h hmore
      | more hmore hother hfound hrest =>
          cases ok_unique h hmore
          cases ok_unique hname hother
          cases ok_unique hvalue hfound
          obtain ⟨rfl, rfl⟩ := ih hrest
          exact ⟨rfl, rfl⟩

theorem inOrder_unique {places : List (Unread → Except Stop (Entry × Unread))}
    {first : Bool} {input rest left : Unread}
    (h : InOrder places first input entries rest)
    (hmore : InOrder places first input others left) :
    entries = others ∧ rest = left := by
  induction h generalizing others with
  | short h =>
      cases hmore with
      | short hmore =>
          cases ok_unique h hmore
          exact ⟨rfl, rfl⟩
      | more hmore => cases ok_unique h hmore
  | full =>
      cases hmore
      exact ⟨rfl, rfl⟩
  | more h hentry _ ih =>
      cases hmore with
      | short hmore => cases ok_unique h hmore
      | more hmore hfound hrest =>
          cases ok_unique h hmore
          cases ok_unique hentry hfound
          obtain ⟨rfl, rfl⟩ := ih hrest
          exact ⟨rfl, rfl⟩

/-- A text says one thing. -/
theorem Says.unique (h : Says text entries) (hother : Says text others) :
    entries = others := by
  obtain ⟨inner, left, rest, -, ⟨hstart, hsaid, -⟩ | ⟨hstart, hsaid, -⟩⟩ := h
  · obtain ⟨_, _, _, -, ⟨hbehind, hmore, -⟩ | ⟨hbehind, -, -⟩⟩ := hother
    · rw [hstart] at hbehind
      cases hbehind
      exact (inOrder_unique hsaid hmore).1
    · rw [hstart] at hbehind
      cases hbehind
  · obtain ⟨_, _, _, -, ⟨hbehind, -, -⟩ | ⟨hbehind, hmore, -⟩⟩ := hother
    · rw [hstart] at hbehind
      cases hbehind
    · rw [hstart] at hbehind
      cases hbehind
      exact (titled_unique hsaid hmore).1

/-- Of all items that can be obtained, only those read from a text are deleted and have
a payload: such an item has one exactly if its text says that it is deleted and gives it
a payload.  Nothing that is built from any item does. -/
theorem carriesPayload_iff_said (h : Obtained item) :
    (item.CarriesPayload → ∃ text, parse text = .ok item) ∧
    (∀ text entries, parse text = .ok item → Says text entries →
      (item.CarriesPayload ↔ .deleted true ∈ entries ∧
        ∃ data, data ≠ .null ∧ .data data ∈ entries)) ∧
    ∀ setters, ¬ ((Draft.ofItem item).setAll setters).build.CarriesPayload := by
  refine ⟨h.exists_parse, fun text entries hparse hsays => ?_, fun setters =>
    not_carriesPayload_build _⟩
  obtain ⟨said, hsaid, hitem⟩ := parse_eq_ok.mp hparse
  obtain rfl := hsaid.unique hsays
  exact hitem.carriesPayload_iff

def burdenedText : String :=
  "\x7b\"key\":\"a\",\"version\":1,\"deleted\":true,\"data\":5\x7d"

/-- A text that says both is read as a deleted item with a payload. -/
theorem burdened_parsed :
    parse burdenedText = .ok ⟨"a", 1, true, .ofWord 5⟩ ∧
      Obtained ⟨"a", 1, true, .ofWord 5⟩ ∧
      (⟨"a", 1, true, .ofWord 5⟩ : Item).CarriesPayload := by
  have hparse : parse burdenedText = .ok ⟨"a", 1, true, .ofWord 5⟩ := by
    decide +kernel
  exact ⟨hparse, .parsed hparse, by decide⟩

/-- An item of the next version that is built from it is a tombstone. -/
theorem burdened_rebuilt :
    ∃ item, parse burdenedText = .ok item ∧ item.CarriesPayload ∧
      ¬ ((Draft.ofItem item).setAll [.version 2]).build.CarriesPayload := by
  have hparse : parse burdenedText = .ok ⟨"a", 1, true, .ofWord 5⟩ := by
    decide +kernel
  obtain ⟨-, -, hbuilt⟩ := carriesPayload_iff_said (.parsed hparse)
  exact ⟨_, hparse, by decide, hbuilt [.version 2]⟩

end Item

end VersionedFlags
