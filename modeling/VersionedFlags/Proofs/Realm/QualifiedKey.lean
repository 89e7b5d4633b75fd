import VersionedFlags.Proofs.Realm

/-!
# Qualified keys

A qualified key joins the name of a realm, the label of a kind and the key of an item
by a separator, which the name and the key may hold as well.  So a realm whose name
starts with a scope of another one shares qualified keys with it, and its marker is a
qualified key of the other.  No other realms do, and within one realm a qualified key
stands for one item.
-/

namespace VersionedFlags

/-! ## Cuts at a separator -/

/-- Two cuts of one list at a separator are at the same place, or one of them is
further to the right. -/
theorem append_separator_eq_iff {α : Type} {a : α} {front rest other more : List α} :
    front ++ a :: rest = other ++ a :: more ↔
      front = other ∧ rest = more ∨
      (∃ middle, other = front ++ a :: middle ∧ rest = middle ++ a :: more) ∨
      ∃ middle, front = other ++ a :: middle ∧ more = middle ++ a :: rest := by
  rw [List.append_eq_append_iff]
  constructor
  · rintro (⟨middle, hother, hrest⟩ | ⟨middle, hfront, hmore⟩)
    · cases middle with
      | nil =>
          obtain ⟨-, hsame⟩ := List.cons.inj hrest
          exact .inl ⟨by simpa using hother.symm, hsame⟩
      | cons b middle =>
          obtain ⟨rfl, hbehind⟩ := List.cons.inj hrest
          exact .inr (.inl ⟨middle, hother, hbehind⟩)
    · cases middle with
      | nil =>
          obtain ⟨-, hsame⟩ := List.cons.inj hmore
          exact .inl ⟨by simpa using hfront, hsame.symm⟩
      | cons b middle =>
          obtain ⟨rfl, hbehind⟩ := List.cons.inj hmore
          exact .inr (.inr ⟨middle, hfront, hbehind⟩)
  · rintro (⟨rfl, rfl⟩ | ⟨middle, rfl, rfl⟩ | ⟨middle, rfl, rfl⟩)
    · exact .inl ⟨[], by simp, rfl⟩
    · exact .inl ⟨a :: middle, rfl, rfl⟩
    · exact .inr ⟨a :: middle, rfl, rfl⟩

/-- No cut is to the left of the first separator. -/
theorem append_separator_eq_iff_of_not_mem {α : Type} {a : α}
    {front rest other more : List α} (hfirst : a ∉ front) :
    front ++ a :: rest = other ++ a :: more ↔
      front = other ∧ rest = more ∨
      ∃ middle, other = front ++ a :: middle ∧ rest = middle ++ a :: more := by
  rw [append_separator_eq_iff, or_congr_right (or_iff_left _)]
  rintro ⟨middle, rfl, -⟩
  exact hfirst (by simp)

/-! ## Names as characters -/

theorem Kind.separator_not_mem_label (kind : Kind) : ':' ∉ kind.label.toList := by
  cases kind <;> decide

theorem Kind.label_inj {kind other : Kind} : kind.label = other.label ↔ kind = other := by
  cases kind <;> cases other <;> decide

namespace Realm

variable {realm other : Realm} {kind part : Kind} {key more rest : String}

theorem toList_scope (realm : Realm) (kind : Kind) :
    (realm.scope kind).toList = realm.name.toList ++ ':' :: kind.label.toList := by
  simp [scope]

theorem toList_itemKey (realm : Realm) (kind : Kind) (key : String) :
    (realm.itemKey kind key).toList =
      realm.name.toList ++ ':' :: (kind.label.toList ++ ':' :: key.toList) := by
  simp [itemKey, toList_scope]

theorem toList_marker (realm : Realm) :
    realm.marker.toList = realm.name.toList ++ ':' :: "$inited".toList := by
  simp [marker]

/-! ## Realms named after a scope -/

/-- The name of the other realm starts with the scope, and the key spells what comes
behind it there and then the rest. -/
inductive Spells (realm : Realm) (kind : Kind) (key : String) (other : Realm)
    (rest : String) : Prop
  | scope (hname : other.name = realm.scope kind) (hkey : key = rest)
  | item (middle : String) (hname : other.name = realm.itemKey kind middle)
      (hkey : key = middle ++ ":" ++ rest)

/-- The name of a realm under another one is a scope or a qualified key of that. -/
def Under (other realm : Realm) : Prop :=
  ∃ kind, other.name = realm.scope kind ∨ ∃ key, other.name = realm.itemKey kind key

theorem Spells.under (h : realm.Spells kind key other rest) : other.Under realm := by
  cases h with
  | scope hname => exact ⟨kind, .inl hname⟩
  | item middle hname => exact ⟨kind, .inr ⟨middle, hname⟩⟩

/-- Under a scope any rest can be spelled. -/
theorem Under.exists_spells (h : other.Under realm) :
    ∃ kind, ∀ rest, ∃ key, realm.Spells kind key other rest := by
  obtain ⟨kind, hname | ⟨middle, hname⟩⟩ := h
  · exact ⟨kind, fun rest => ⟨rest, .scope hname rfl⟩⟩
  · exact ⟨kind, fun rest => ⟨_, .item middle hname rfl⟩⟩

theorem not_under_self (realm : Realm) : ¬ realm.Under realm := by
  rintro ⟨kind, hname | ⟨key, hname⟩⟩
  · have hlength := congrArg (List.length ∘ String.toList) hname
    simp [toList_scope] at hlength
  · have hlength := congrArg (List.length ∘ String.toList) hname
    simp [toList_itemKey] at hlength

/-- The label of a kind holds no separator, so the other name ends with the label or
goes on behind the separator there. -/
theorem spells_iff :
    realm.Spells kind key other rest ↔
      ∃ middle, other.name.toList = realm.name.toList ++ ':' :: middle ∧
        kind.label.toList ++ ':' :: key.toList = middle ++ ':' :: rest.toList := by
  simp only [append_separator_eq_iff_of_not_mem kind.separator_not_mem_label]
  constructor
  · rintro (⟨hname, rfl⟩ | ⟨middle, hname, rfl⟩)
    · exact ⟨kind.label.toList, by rw [hname, toList_scope], .inl ⟨rfl, rfl⟩⟩
    · refine ⟨kind.label.toList ++ ':' :: middle.toList, ?_, .inr ⟨middle.toList, rfl, ?_⟩⟩
      · rw [hname, toList_itemKey]
      · simp
  · rintro ⟨_, hname, ⟨rfl, hkey⟩ | ⟨middle, rfl, hkey⟩⟩
    · refine .scope ?_ (String.toList_inj.mp hkey)
      rw [← String.toList_inj, hname, toList_scope]
    · refine .item (String.ofList middle) ?_ ?_
      · rw [← String.toList_inj, hname, toList_itemKey, String.toList_ofList]
      · rw [← String.toList_inj, hkey]
        simp

/-! ## Qualified keys -/

theorem itemKey_eq_iff :
    realm.itemKey kind key = other.itemKey part more ↔
      realm = other ∧ kind = part ∧ key = more ∨
      realm.Spells kind key other (part.label ++ ":" ++ more) ∨
      other.Spells part more realm (kind.label ++ ":" ++ key) := by
  have htail : ∀ (kind : Kind) (key : String), (kind.label ++ ":" ++ key).toList =
      kind.label.toList ++ ':' :: key.toList := by
    simp
  have hsame : realm.name.toList = other.name.toList ∧
      kind.label.toList ++ ':' :: key.toList = part.label.toList ++ ':' :: more.toList ↔
        realm = other ∧ kind = part ∧ key = more := by
    rw [append_separator_eq_iff_of_not_mem kind.separator_not_mem_label,
      or_iff_left, String.toList_inj, String.toList_inj, String.toList_inj, Kind.label_inj]
    · cases realm
      cases other
      rw [mk.injEq]
    · rintro ⟨middle, hlabel, -⟩
      exact part.separator_not_mem_label (hlabel ▸ by simp)
  rw [← String.toList_inj, toList_itemKey, toList_itemKey, append_separator_eq_iff, hsame,
    spells_iff, spells_iff, htail, htail]

theorem itemKey_eq_marker_iff :
    realm.itemKey kind key = other.marker ↔ realm.Spells kind key other "$inited" := by
  have hlast : ':' ∉ "$inited".toList := by decide
  rw [← String.toList_inj, toList_itemKey, toList_marker, append_separator_eq_iff,
    spells_iff]
  constructor
  · rintro (⟨-, hrest⟩ | hspelled | ⟨middle, -, hrest⟩)
    · exact absurd (hrest ▸ by simp) hlast
    · exact hspelled
    · exact absurd (hrest ▸ by simp) hlast
  · exact fun hspelled => .inr (.inl hspelled)

theorem exists_itemKey_eq_iff :
    (∃ kind key part more, realm.itemKey kind key = other.itemKey part more) ↔
      realm = other ∨ other.Under realm ∨ realm.Under other := by
  simp only [itemKey_eq_iff]
  constructor
  · rintro ⟨kind, key, part, more, ⟨rfl, -⟩ | hspells | hspells⟩
    · exact .inl rfl
    · exact .inr (.inl hspells.under)
    · exact .inr (.inr hspells.under)
  · rintro (rfl | hunder | hunder)
    · exact ⟨.features, "", .features, "", .inl ⟨rfl, rfl, rfl⟩⟩
    · obtain ⟨kind, hspells⟩ := hunder.exists_spells
      obtain ⟨key, hkey⟩ := hspells _
      exact ⟨kind, key, .features, "", .inr (.inl hkey)⟩
    · obtain ⟨part, hspells⟩ := hunder.exists_spells
      obtain ⟨more, hmore⟩ := hspells _
      exact ⟨.features, "", part, more, .inr (.inr hmore)⟩

theorem exists_itemKey_eq_marker_iff :
    (∃ kind key, realm.itemKey kind key = other.marker) ↔ other.Under realm := by
  simp only [itemKey_eq_marker_iff]
  constructor
  · rintro ⟨kind, key, hspells⟩
    exact hspells.under
  · intro hunder
    obtain ⟨kind, hspells⟩ := hunder.exists_spells
    exact ⟨kind, hspells "$inited"⟩

theorem itemKey_inj :
    realm.itemKey kind key = realm.itemKey part more ↔ kind = part ∧ key = more := by
  rw [itemKey_eq_iff, or_iff_left]
  · simp
  · rintro (hspells | hspells)
    · exact realm.not_under_self hspells.under
    · exact realm.not_under_self hspells.under

theorem itemKey_ne_marker (realm : Realm) (kind : Kind) (key : String) :
    realm.itemKey kind key ≠ realm.marker := by
  intro h
  exact realm.not_under_self (itemKey_eq_marker_iff.mp h).under

/-- Two items have one qualified key exactly if they are the same or one of their realms
is named after a scope of the other, where the key of the item there spells the rest.
So realms of which neither is under the other share no qualified key, and the marker of
a realm is a qualified key of those realms alone that it is under. -/
theorem shares_itemKey_iff_under (realm other : Realm) :
    (∀ (kind part : Kind) (key more : String),
      realm.itemKey kind key = other.itemKey part more ↔
        realm = other ∧ kind = part ∧ key = more ∨
        realm.Spells kind key other (part.label ++ ":" ++ more) ∨
        other.Spells part more realm (kind.label ++ ":" ++ key)) ∧
    (∀ (kind : Kind) (key : String),
      realm.itemKey kind key = other.marker ↔ realm.Spells kind key other "$inited") ∧
    ((∃ kind key part more, realm.itemKey kind key = other.itemKey part more) ↔
      realm = other ∨ other.Under realm ∨ realm.Under other) ∧
    ((∃ kind key, realm.itemKey kind key = other.marker) ↔ other.Under realm) ∧
    ∀ (kind part : Kind) (key more : String),
      (realm.itemKey kind key = realm.itemKey part more ↔ kind = part ∧ key = more) ∧
      realm.itemKey kind key ≠ realm.marker := by
  refine ⟨?spelled, ?marked, exists_itemKey_eq_iff, exists_itemKey_eq_marker_iff, ?inside⟩
  case spelled => exact fun kind part key more => itemKey_eq_iff
  case marked => exact fun kind key => itemKey_eq_marker_iff
  case inside =>
    exact fun kind part key more => ⟨itemKey_inj, realm.itemKey_ne_marker kind key⟩

/-- The realm `a:features` is under the realm `a`. -/
theorem itemKey_of_two_realms :
    (ofName? (some "a")).itemKey .features "features:b" =
        (ofName? (some "a:features")).itemKey .features "b" ∧
      (ofName? (some "a")).itemKey .features "$inited" =
        (ofName? (some "a:features")).marker ∧
      ofName? (some "a") ≠ ofName? (some "a:features") := by
  decide

end Realm

end VersionedFlags
