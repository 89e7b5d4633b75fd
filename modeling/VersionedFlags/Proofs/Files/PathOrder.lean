import VersionedFlags.Files.Path

/-!
# Ordered paths

Paths are ordered by their components, and of two different paths that are not the same
one comes first.  So a list of paths in order has each of them once, however they are
spelled, and what is put in order is neither lost nor made up.
-/

namespace VersionedFlags

namespace Files

/-! ## Components -/

namespace Component

variable {left middle right : Component}

theorem eq_of_rank (hrank : left.rank = right.rank) (htext : left.text = right.text) :
    left = right := by
  cases left <;> cases right <;> simp_all [rank, text]

theorem lt_trans (h : left < middle) (hnext : middle < right) : left < right := by
  rcases h with h | ⟨hrank, htext⟩
  · rcases hnext with hnext | ⟨hsame, -⟩
    · exact .inl (Nat.lt_trans h hnext)
    · exact .inl (hsame ▸ h)
  · rcases hnext with hnext | ⟨hsame, hlater⟩
    · exact .inl (hrank ▸ hnext)
    · exact .inr ⟨hrank.trans hsame, String.lt_trans htext hlater⟩

theorem lt_irrefl (component : Component) : ¬ component < component := by
  rintro (h | ⟨-, h⟩)
  · exact Nat.lt_irrefl _ h
  · exact String.lt_irrefl _ h

theorem eq_of_not_lt (h : ¬ left < right) (hother : ¬ right < left) : left = right := by
  have hrank : left.rank = right.rank :=
    Nat.le_antisymm (Nat.not_lt.mp fun hlt => hother (.inl hlt))
      (Nat.not_lt.mp fun hlt => h (.inl hlt))
  refine eq_of_rank hrank (String.le_antisymm ?_ ?_)
  · exact String.not_lt.mp fun hlt => hother (.inr ⟨hrank.symm, hlt⟩)
  · exact String.not_lt.mp fun hlt => h (.inr ⟨hrank, hlt⟩)

instance : Trans (α := Component) (· < ·) (· < ·) (· < ·) := ⟨lt_trans⟩

instance : Std.Irrefl (α := Component) (· < ·) := ⟨lt_irrefl⟩

instance : Std.Trichotomous (α := Component) (· < ·) :=
  ⟨fun _ _ h hother => eq_of_not_lt h hother⟩

end Component

/-! ## Paths -/

namespace Path

variable {path other : Path} {paths : List Path}

theorem same_iff : path.same other = true ↔ path.components = other.components := by
  simp [same]

theorem lt_trans {last : Path} (h : path < other) (hnext : other < last) : path < last :=
  List.lt_trans (α := Component) h hnext

theorem ne_of_lt (h : path < other) : path.components ≠ other.components := by
  intro hsame
  have hless : path.components < other.components := h
  rw [hsame] at hless
  exact List.lt_irrefl _ hless

theorem lt_of_not_lt (h : ¬ path < other) (hsame : ¬ path.same other) : other < path := by
  refine Decidable.byContradiction fun hother => hsame (same_iff.mpr ?_)
  exact List.le_antisymm (List.not_lt.mp hother) (List.not_lt.mp h)

/-! ## Ordered lists -/

theorem mem_of_mem_insert (h : other ∈ insert path paths) : other = path ∨ other ∈ paths := by
  induction paths with
  | nil => simpa [insert] using h
  | cons first rest ih =>
      unfold insert at h
      split at h
      · exact List.mem_cons.mp h
      · split at h
        · exact .inr h
        · rcases List.mem_cons.mp h with rfl | h
          · exact .inr List.mem_cons_self
          · exact (ih h).imp_right (List.mem_cons_of_mem first)

theorem mem_insert_of_mem (h : other ∈ paths) : other ∈ insert path paths := by
  induction paths with
  | nil => cases h
  | cons first rest ih =>
      unfold insert
      split
      · exact List.mem_cons_of_mem path h
      · split
        · exact h
        · rcases List.mem_cons.mp h with rfl | h
          · exact List.mem_cons_self
          · exact List.mem_cons_of_mem first (ih h)

theorem exists_same_insert (path : Path) (paths : List Path) :
    ∃ other ∈ insert path paths, path.components = other.components := by
  induction paths with
  | nil => exact ⟨path, List.mem_cons_self, rfl⟩
  | cons first rest ih =>
      unfold insert
      split
      · exact ⟨path, List.mem_cons_self, rfl⟩
      · split
        · rename_i hsame
          exact ⟨first, List.mem_cons_self, same_iff.mp hsame⟩
        · obtain ⟨other, hm, hsame⟩ := ih
          exact ⟨other, List.mem_cons_of_mem first hm, hsame⟩

theorem ordered_insert (path : Path) (h : paths.Pairwise (· < ·)) :
    (insert path paths).Pairwise (· < ·) := by
  induction paths with
  | nil => exact List.pairwise_singleton _ path
  | cons first rest ih =>
      obtain ⟨hfirst, hrest⟩ := List.pairwise_cons.mp h
      unfold insert
      split
      · rename_i hlt
        refine List.pairwise_cons.mpr ⟨fun other hm => ?_, h⟩
        rcases List.mem_cons.mp hm with rfl | hm
        · exact hlt
        · exact lt_trans hlt (hfirst other hm)
      · split
        · exact h
        · rename_i hlt hsame
          refine List.pairwise_cons.mpr ⟨fun other hm => ?_, ih hrest⟩
          rcases mem_of_mem_insert hm with rfl | hm
          · exact lt_of_not_lt hlt hsame
          · exact hfirst other hm

theorem ordered_inOrder (paths : List Path) : (inOrder paths).Pairwise (· < ·) :=
  List.foldlRecOn paths _ .nil fun _ hordered path _ => ordered_insert path hordered

/-- The order is that of the components and not of the texts. -/
example : inOrder [⟨"/a-b"⟩, ⟨"/c"⟩, ⟨"/a/b"⟩, ⟨"/a//b"⟩] =
    [⟨"/a/b"⟩, ⟨"/a-b"⟩, ⟨"/c"⟩] := by
  decide +kernel

theorem mem_of_mem_inOrder (h : path ∈ inOrder paths) : path ∈ paths := by
  refine List.foldlRecOn (motive := fun ordered => ∀ other ∈ ordered, other ∈ paths) paths _
    (fun _ hm => absurd hm List.not_mem_nil) ?_ path h
  intro ordered hordered first hfirst other hm
  rcases mem_of_mem_insert hm with rfl | hm
  · exact hfirst
  · exact hordered other hm

/-- A path that is put in order stays there from then on. -/
theorem exists_same_inOrder (h : path ∈ paths) :
    ∃ other ∈ inOrder paths, path.components = other.components := by
  obtain ⟨front, back, rfl⟩ := List.append_of_mem h
  rw [inOrder, List.foldl_append, List.foldl_cons]
  obtain ⟨other, hm, hsame⟩ := exists_same_insert path
    (front.foldl (fun ordered path => path.insert ordered) [])
  refine ⟨other, ?_, hsame⟩
  exact List.foldlRecOn back _ hm fun _ hstays _ _ => mem_insert_of_mem hstays

/-- If none of the paths is spelled in two ways, all of them are there. -/
theorem mem_inOrder (hone : ∀ path ∈ paths, ∀ other ∈ paths,
    path.components = other.components → path = other) :
    path ∈ inOrder paths ↔ path ∈ paths := by
  refine ⟨mem_of_mem_inOrder, fun h => ?_⟩
  obtain ⟨other, hm, hsame⟩ := exists_same_inOrder h
  rwa [hone path h other (mem_of_mem_inOrder hm) hsame]

end Path

end Files

end VersionedFlags
