/-!
# Maps with string keys in code point order

A `KeyMap` is an association list whose keys increase strictly, so a map has
one representation: two maps that answer every lookup alike are equal.  Code
point order is the byte order of the keys' UTF-8 forms.
-/

namespace VersionedFlags

universe u v

/-! ## Ordered association lists -/

namespace Assoc

variable {α : Type u}

def lookup (key : String) : List (String × α) → Option α
  | [] => none
  | (k, value) :: rest => if k = key then some value else lookup key rest

def insert (key : String) (value : α) : List (String × α) → List (String × α)
  | [] => [(key, value)]
  | (k, old) :: rest =>
      if key < k then (key, value) :: (k, old) :: rest
      else if key = k then (key, value) :: rest
      else (k, old) :: insert key value rest

def Ordered (entries : List (String × α)) : Prop :=
  entries.Pairwise fun a b => a.1 < b.1

theorem mem_insert {key : String} {value : α} {entries : List (String × α)}
    {entry : String × α} (h : entry ∈ insert key value entries) :
    entry = (key, value) ∨ entry ∈ entries := by
  induction entries with
  | nil => simpa [insert] using h
  | cons head rest ih =>
      obtain ⟨k, old⟩ := head
      simp only [insert] at h
      split at h
      · simpa using h
      · split at h
        · rcases List.mem_cons.mp h with h | h
          · exact .inl h
          · exact .inr (List.mem_cons_of_mem _ h)
        · rcases List.mem_cons.mp h with h | h
          · exact .inr (h ▸ List.mem_cons_self)
          · exact (ih h).imp_right (List.mem_cons_of_mem _)

theorem lt_of_not_lt {a b : String} (h : ¬ a < b) (hne : a ≠ b) : b < a := by
  apply Classical.byContradiction
  intro h'
  exact hne (String.le_antisymm (String.not_lt.mp h') (String.not_lt.mp h))

theorem ordered_insert (key : String) (value : α) {entries : List (String × α)}
    (h : Ordered entries) : Ordered (insert key value entries) := by
  induction entries with
  | nil => simp [insert, Ordered]
  | cons head rest ih =>
      obtain ⟨k, old⟩ := head
      have hk := List.pairwise_cons.mp h
      simp only [insert]
      split
      · rename_i hlt
        refine List.pairwise_cons.mpr ⟨fun entry hm => ?_, h⟩
        rcases List.mem_cons.mp hm with rfl | hm
        · exact hlt
        · exact String.lt_trans hlt (hk.1 entry hm)
      · split
        · rename_i heq
          subst heq
          exact List.pairwise_cons.mpr ⟨fun entry hm => hk.1 entry hm, hk.2⟩
        · rename_i hlt hne
          refine List.pairwise_cons.mpr ⟨fun entry hm => ?_, ih hk.2⟩
          rcases mem_insert hm with rfl | hm
          · exact lt_of_not_lt hlt hne
          · exact hk.1 entry hm

theorem lookup_insert (key other : String) (value : α)
    (entries : List (String × α)) :
    lookup other (insert key value entries) =
      if key = other then some value else lookup other entries := by
  induction entries with
  | nil => simp [insert, lookup]
  | cons head rest ih =>
      obtain ⟨k, old⟩ := head
      simp only [insert]
      split
      · simp [lookup]
      · split
        · rename_i heq
          subst heq
          by_cases h : key = other <;> simp [lookup, h]
        · rename_i hne
          by_cases h : k = other
          · have : key ≠ other := fun h' => hne (h'.trans h.symm)
            simp [lookup, h, this]
          · simp [lookup, h, ih]

theorem lookup_eq_none_of_lt {key : String} {entries : List (String × α)}
    (h : ∀ entry ∈ entries, key < entry.1) : lookup key entries = none := by
  induction entries with
  | nil => rfl
  | cons head rest ih =>
      have hne : head.1 ≠ key := fun heq =>
        String.lt_irrefl key (heq ▸ h head List.mem_cons_self)
      simp [lookup, hne, ih fun entry hm => h entry (List.mem_cons_of_mem _ hm)]

theorem lookup_filter (keep : String → α → Bool) (key : String)
    {entries : List (String × α)} (h : Ordered entries) :
    lookup key (entries.filter fun entry => keep entry.1 entry.2) =
      (lookup key entries).filter (keep key) := by
  induction entries with
  | nil => rfl
  | cons head rest ih =>
      obtain ⟨k, value⟩ := head
      have hk := List.pairwise_cons.mp h
      by_cases heq : k = key
      · subst heq
        cases hkeep : keep k value with
        | true => simp [lookup, hkeep, Option.filter]
        | false =>
            rw [List.filter_cons_of_neg (by simp [hkeep]), ih hk.2,
              lookup_eq_none_of_lt hk.1]
            simp [lookup, hkeep, Option.filter]
      · cases hkeep : keep k value with
        | true => simp [lookup, hkeep, heq, ih hk.2]
        | false =>
            rw [List.filter_cons_of_neg (by simp [hkeep]), ih hk.2]
            simp [lookup, heq]

theorem lookup_map {β : Type v} (change : String → α → β) (key : String)
    (entries : List (String × α)) :
    lookup key (entries.map fun entry => (entry.1, change entry.1 entry.2)) =
      (lookup key entries).map (change key) := by
  induction entries with
  | nil => rfl
  | cons head rest ih =>
      obtain ⟨k, value⟩ := head
      by_cases heq : k = key
      · subst heq
        simp [lookup]
      · simp [lookup, heq, ih]

theorem ordered_ext {left right : List (String × α)} (hl : Ordered left)
    (hr : Ordered right) (h : ∀ key, lookup key left = lookup key right) :
    left = right := by
  induction left generalizing right with
  | nil =>
      cases right with
      | nil => rfl
      | cons head rest => simpa [lookup] using h head.1
  | cons head rest ih =>
      cases right with
      | nil => simpa [lookup] using h head.1
      | cons head' rest' =>
          have hl' := List.pairwise_cons.mp hl
          have hr' := List.pairwise_cons.mp hr
          have hkey : head.1 = head'.1 := by
            apply Classical.byContradiction
            intro hne
            by_cases hlt : head.1 < head'.1
            · have := h head.1
              have hno : lookup head.1 (head' :: rest') = none :=
                lookup_eq_none_of_lt fun entry hm => by
                  rcases List.mem_cons.mp hm with rfl | hm
                  · exact hlt
                  · exact String.lt_trans hlt (hr'.1 entry hm)
              rw [hno] at this
              simp [lookup] at this
            · have hlt' := lt_of_not_lt hlt hne
              have := h head'.1
              have hno : lookup head'.1 (head :: rest) = none :=
                lookup_eq_none_of_lt fun entry hm => by
                  rcases List.mem_cons.mp hm with rfl | hm
                  · exact hlt'
                  · exact String.lt_trans hlt' (hl'.1 entry hm)
              rw [hno] at this
              simp [lookup] at this
          have hvalue : head.2 = head'.2 := by
            have := h head.1
            simpa [lookup, hkey] using this
          have htail : rest = rest' := by
            refine ih hl'.2 hr'.2 fun key => ?_
            by_cases hk : key = head.1
            · rw [hk, lookup_eq_none_of_lt hl'.1, hkey,
                lookup_eq_none_of_lt hr'.1]
            · have := h key
              simpa [lookup, Ne.symm hk, hkey ▸ Ne.symm hk] using this
          rw [htail, Prod.ext hkey hvalue]

end Assoc

/-! ## Maps -/

structure KeyMap (α : Type u) where
  entries : List (String × α)
  ordered : Assoc.Ordered entries
  deriving DecidableEq, Repr

namespace KeyMap

variable {α : Type u} {β : Type v}

def empty : KeyMap α := ⟨[], List.Pairwise.nil⟩

instance : EmptyCollection (KeyMap α) := ⟨empty⟩

instance : Inhabited (KeyMap α) := ⟨empty⟩

def get? (map : KeyMap α) (key : String) : Option α :=
  Assoc.lookup key map.entries

def contains (map : KeyMap α) (key : String) : Bool := (map.get? key).isSome

def insert (map : KeyMap α) (key : String) (value : α) : KeyMap α :=
  ⟨Assoc.insert key value map.entries, Assoc.ordered_insert key value map.ordered⟩

def filter (map : KeyMap α) (keep : String → α → Bool) : KeyMap α :=
  ⟨map.entries.filter fun entry => keep entry.1 entry.2,
    map.ordered.sublist List.filter_sublist⟩

def erase (map : KeyMap α) (key : String) : KeyMap α :=
  map.filter fun k _ => k != key

def map (source : KeyMap α) (change : String → α → β) : KeyMap β :=
  ⟨source.entries.map fun entry => (entry.1, change entry.1 entry.2), by
    simpa [Assoc.Ordered, List.pairwise_map] using source.ordered⟩

def keys (map : KeyMap α) : List String := map.entries.map Prod.fst

def values (map : KeyMap α) : List α := map.entries.map Prod.snd

def size (map : KeyMap α) : Nat := map.entries.length

def isEmpty (map : KeyMap α) : Bool := map.entries.isEmpty

/-- The last value given for a key is the one that stays. -/
def ofList (entries : List (String × α)) : KeyMap α :=
  entries.foldl (fun map entry => map.insert entry.1 entry.2) empty

theorem ext_get? {left right : KeyMap α}
    (h : ∀ key, left.get? key = right.get? key) : left = right := by
  cases left with
  | mk left hl =>
      cases right with
      | mk right hr =>
          have : left = right := Assoc.ordered_ext hl hr h
          subst this
          rfl

@[simp] theorem get?_empty (key : String) : (empty : KeyMap α).get? key = none :=
  rfl

@[simp] theorem get?_insert (map : KeyMap α) (key other : String) (value : α) :
    (map.insert key value).get? other =
      if key = other then some value else map.get? other :=
  Assoc.lookup_insert key other value map.entries

theorem get?_filter (map : KeyMap α) (keep : String → α → Bool) (key : String) :
    (map.filter keep).get? key = (map.get? key).filter (keep key) :=
  Assoc.lookup_filter keep key map.ordered

theorem get?_erase (map : KeyMap α) (key other : String) :
    (map.erase key).get? other =
      if other = key then none else map.get? other := by
  rw [erase, get?_filter]
  by_cases h : other = key
  · subst h
    cases map.get? other <;> simp
  · cases map.get? other <;> simp [h]

@[simp] theorem get?_map (source : KeyMap α) (change : String → α → β)
    (key : String) :
    (source.map change).get? key = (source.get? key).map (change key) :=
  Assoc.lookup_map change key source.entries

end KeyMap

end VersionedFlags
