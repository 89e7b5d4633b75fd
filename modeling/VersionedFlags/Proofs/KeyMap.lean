import VersionedFlags.KeyMap

/-!
# Entries of key maps

An entry of a map is what a lookup of its key finds.  A map that is made of entries
has the last one of each key, and so all of them if they are under different keys.
-/

namespace VersionedFlags

universe u

namespace Assoc

variable {α : Type u}

theorem nodup_keys {entries : List (String × α)} (h : Ordered entries) :
    (entries.map Prod.fst).Nodup := by
  refine List.pairwise_map.mpr (h.imp ?_)
  intro a b hlt heq
  rw [heq] at hlt
  exact String.lt_irrefl _ hlt

theorem mem_iff_lookup_of_nodup {key : String} {value : α}
    {entries : List (String × α)} (h : (entries.map Prod.fst).Nodup) :
    (key, value) ∈ entries ↔ lookup key entries = some value := by
  induction entries with
  | nil => simp [lookup]
  | cons head rest ih =>
      obtain ⟨k, first⟩ := head
      obtain ⟨hnew, hrest⟩ := List.nodup_cons.mp h
      by_cases heq : k = key
      · subst heq
        have habsent : (k, value) ∉ rest := fun hm =>
          hnew (List.mem_map.mpr ⟨(k, value), hm, rfl⟩)
        simp [lookup, habsent, eq_comm]
      · have hne : key ≠ k := fun h' => heq h'.symm
        simp [lookup, heq, hne, ih hrest]

theorem mem_iff_lookup {key : String} {value : α}
    {entries : List (String × α)} (h : Ordered entries) :
    (key, value) ∈ entries ↔ lookup key entries = some value :=
  mem_iff_lookup_of_nodup (nodup_keys h)

theorem lookup_eq_none {key : String} {entries : List (String × α)} :
    lookup key entries = none ↔ key ∉ entries.map Prod.fst := by
  induction entries with
  | nil => simp [lookup]
  | cons head rest ih =>
      obtain ⟨k, value⟩ := head
      by_cases heq : k = key
      · simp [lookup, heq]
      · have hne : key ≠ k := fun h => heq h.symm
        simpa [lookup, heq, hne] using ih

theorem mem_of_lookup {key : String} {value : α} {entries : List (String × α)}
    (h : lookup key entries = some value) : (key, value) ∈ entries := by
  induction entries with
  | nil => cases h
  | cons head rest ih =>
      obtain ⟨k, first⟩ := head
      by_cases heq : k = key
      · simp only [lookup, heq, if_true, Option.some.injEq] at h
        rw [h, heq]
        exact List.mem_cons_self
      · simp only [lookup, heq, if_false] at h
        exact List.mem_cons_of_mem _ (ih h)

theorem lookup_append (key : String) (entries more : List (String × α)) :
    lookup key (entries ++ more) = (lookup key entries).or (lookup key more) := by
  induction entries with
  | nil => rfl
  | cons head rest ih =>
      obtain ⟨k, value⟩ := head
      by_cases heq : k = key <;> simp [lookup, heq, ih]

end Assoc

namespace KeyMap

variable {α : Type u}

theorem mem_entries {map : KeyMap α} {key : String} {value : α} :
    (key, value) ∈ map.entries ↔ map.get? key = some value :=
  Assoc.mem_iff_lookup map.ordered

@[simp] theorem contains_insert (map : KeyMap α) (key other : String)
    (value : α) :
    (map.insert key value).contains other =
      (decide (key = other) || map.contains other) := by
  by_cases h : key = other <;> simp [contains, h]

/-- Of the entries for a key the last one stays. -/
theorem get?_ofList_eq (entries : List (String × α)) (key : String) :
    (ofList entries).get? key = Assoc.lookup key entries.reverse := by
  have hfold : ∀ map : KeyMap α,
      (entries.foldl (fun map entry => map.insert entry.1 entry.2) map).get? key =
        (Assoc.lookup key entries.reverse).or (map.get? key) := by
    induction entries with
    | nil => exact fun _ => rfl
    | cons head rest ih =>
        obtain ⟨k, value⟩ := head
        intro map
        rw [List.foldl_cons, ih, List.reverse_cons, Assoc.lookup_append, get?_insert,
          Option.or_assoc]
        by_cases heq : k = key <;> simp [Assoc.lookup, heq]
  rw [ofList, hfold, get?_empty, Option.or_none]

theorem get?_ofList {entries : List (String × α)}
    (h : entries.Pairwise fun a b => a.1 ≠ b.1) (key : String) (value : α) :
    (ofList entries).get? key = some value ↔ (key, value) ∈ entries := by
  have hkeys : (entries.reverse.map Prod.fst).Nodup :=
    List.pairwise_map.mpr (List.pairwise_reverse.mpr (h.imp Ne.symm))
  rw [get?_ofList_eq, ← Assoc.mem_iff_lookup_of_nodup hkeys, List.mem_reverse]

theorem pairwise_values {map : KeyMap α} {r : α → α → Prop}
    (h : ∀ key value other more, map.get? key = some value →
      map.get? other = some more → key ≠ other → r value more) :
    map.values.Pairwise r := by
  rw [values, List.pairwise_map]
  refine map.ordered.imp_of_mem ?_
  intro a b ha hb hlt
  refine h a.1 a.2 b.1 b.2 (mem_entries.mp ha) (mem_entries.mp hb) ?_
  intro heq
  rw [heq] at hlt
  exact String.lt_irrefl _ hlt

theorem mem_values {map : KeyMap α} {value : α} :
    value ∈ map.values ↔ ∃ key, map.get? key = some value := by
  simp only [values, List.mem_map, Prod.exists, ← mem_entries]
  constructor
  · rintro ⟨key, found, hm, rfl⟩
    exact ⟨key, hm⟩
  · rintro ⟨key, hm⟩
    exact ⟨key, value, hm, rfl⟩

end KeyMap

end VersionedFlags
