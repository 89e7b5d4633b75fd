/-!
# Steps that may fail

A chain of steps goes on with what a step gives and stops at its error.  A loop
of steps gives every result unless one of the steps has an error.
-/

namespace VersionedFlags

universe u

variable {ε α β : Type u}

@[simp] theorem ok_bind (value : α) (next : α → Except ε β) :
    (Except.ok value >>= next) = next value :=
  rfl

@[simp] theorem error_bind (error : ε) (next : α → Except ε β) :
    ((Except.error error : Except ε α) >>= next) = .error error :=
  rfl

@[simp] theorem mapError_ok {failure : Type u} (change : ε → failure) (value : α) :
    (Except.ok value).mapError change = .ok value :=
  rfl

@[simp] theorem mapError_error {failure : Type u} (change : ε → failure) (error : ε) :
    (Except.error error : Except ε α).mapError change = .error (change error) :=
  rfl

theorem exists_of_bind_eq_ok {first : Except ε α} {next : α → Except ε β}
    {result : β} (h : (first >>= next) = .ok result) :
    ∃ value, first = .ok value ∧ next value = .ok result := by
  cases first with
  | error error => cases h
  | ok value => exact ⟨value, rfl, h⟩

/-- What is given is given once. -/
theorem ok_unique {result : Except ε α} {value other : α} (h : result = .ok value)
    (hother : result = .ok other) : value = other :=
  Except.ok.inj (h.symm.trans hother)

theorem exists_of_isOk {result : Except ε α} (h : result.isOk = true) :
    ∃ value, result = .ok value := by
  cases result with
  | error error => cases h
  | ok value => exact ⟨value, rfl⟩

theorem exists_of_any_toOption {result : Except ε α} {p : α → Bool}
    (h : result.toOption.any p = true) :
    ∃ value, result = .ok value ∧ p value = true := by
  cases result with
  | error error => cases h
  | ok value => exact ⟨value, rfl, h⟩

theorem mapM_eq_ok (read : α → Except ε β) (result : α → β)
    {list : List α} (h : ∀ a ∈ list, read a = .ok (result a)) :
    list.mapM read = .ok (list.map result) := by
  induction list with
  | nil => rfl
  | cons first rest ih =>
      rw [List.mapM_cons, h first List.mem_cons_self,
        ih fun a hm => h a (List.mem_cons_of_mem _ hm)]
      rfl

theorem mapM_congr {read other : α → Except ε β} {list : List α}
    (h : ∀ a ∈ list, read a = other a) : list.mapM read = list.mapM other := by
  induction list with
  | nil => rfl
  | cons first rest ih =>
      rw [List.mapM_cons, List.mapM_cons, h first List.mem_cons_self,
        ih fun a hm => h a (List.mem_cons_of_mem _ hm)]

theorem mapM_eq_error (read : α → Except ε β) {list : List α} {a : α}
    (hm : a ∈ list) {error : ε} (ha : read a = .error error) :
    ∃ error, list.mapM read = .error error := by
  induction list with
  | nil => cases hm
  | cons first rest ih =>
      rw [List.mapM_cons]
      cases hfirst : read first with
      | error found => exact ⟨found, rfl⟩
      | ok value =>
          rcases List.mem_cons.mp hm with rfl | hm
          · rw [hfirst] at ha
            cases ha
          · obtain ⟨found, hrest⟩ := ih hm
            exact ⟨found, by rw [ok_bind, hrest, error_bind]⟩

theorem exists_of_mapM_eq_error {read : α → Except ε β} {list : List α}
    {error : ε} (h : list.mapM read = .error error) :
    ∃ a ∈ list, read a = .error error := by
  induction list with
  | nil => cases h
  | cons first rest ih =>
      rw [List.mapM_cons] at h
      cases hfirst : read first with
      | error found =>
          rw [hfirst] at h
          cases h
          exact ⟨first, List.mem_cons_self, hfirst⟩
      | ok value =>
          rw [hfirst, ok_bind] at h
          cases hrest : rest.mapM read with
          | error found =>
              rw [hrest] at h
              cases h
              obtain ⟨a, hm, ha⟩ := ih hrest
              exact ⟨a, List.mem_cons_of_mem _ hm, ha⟩
          | ok others =>
              rw [hrest] at h
              cases h

/-- A loop of steps has the error of its first step that has one. -/
theorem mapM_eq_error_iff {read : α → Except ε β} {list : List α} {error : ε} :
    list.mapM read = .error error ↔
      ∃ before first after, list = before ++ first :: after ∧
        (∀ a ∈ before, ∃ b, read a = .ok b) ∧ read first = .error error := by
  induction list with
  | nil =>
      constructor
      · intro h
        cases h
      · rintro ⟨before, first, after, hlist, -⟩
        simp at hlist
  | cons head rest ih =>
      rw [List.mapM_cons]
      constructor
      · intro h
        cases hhead : read head with
        | error found =>
            rw [hhead] at h
            cases h
            exact ⟨[], head, rest, rfl, by simp, hhead⟩
        | ok value =>
            rw [hhead, ok_bind] at h
            cases hrest : rest.mapM read with
            | ok others =>
                rw [hrest] at h
                cases h
            | error found =>
                rw [hrest] at h
                cases h
                obtain ⟨before, first, after, rfl, hbefore, hfirst⟩ := ih.mp hrest
                exact ⟨head :: before, first, after, rfl,
                  List.forall_mem_cons.mpr ⟨⟨value, hhead⟩, hbefore⟩, hfirst⟩
      · rintro ⟨before, first, after, hlist, hbefore, hfirst⟩
        cases before with
        | nil =>
            cases hlist
            rw [hfirst, error_bind]
        | cons other before =>
            cases hlist
            obtain ⟨⟨value, hhead⟩, hbefore⟩ := List.forall_mem_cons.mp hbefore
            have hrest := ih.mpr ⟨before, first, after, rfl, hbefore, hfirst⟩
            rw [hhead, ok_bind, hrest, error_bind]

theorem foldlM_eq_error_iff {step : β → α → Except ε β} {list : List α} {state : β}
    {error : ε} :
    list.foldlM step state = .error error ↔
      ∃ before first after middle, list = before ++ first :: after ∧
        before.foldlM step state = .ok middle ∧ step middle first = .error error := by
  induction list generalizing state with
  | nil =>
      constructor
      · intro h
        cases h
      · rintro ⟨before, first, after, middle, hlist, -⟩
        simp at hlist
  | cons head rest ih =>
      rw [List.foldlM_cons]
      constructor
      · intro h
        cases hhead : step state head with
        | error found =>
            rw [hhead] at h
            cases h
            exact ⟨[], head, rest, state, rfl, rfl, hhead⟩
        | ok next =>
            rw [hhead, ok_bind] at h
            obtain ⟨before, first, after, middle, rfl, hbefore, hfirst⟩ := ih.mp h
            exact ⟨head :: before, first, after, middle, rfl,
              by rw [List.foldlM_cons, hhead, ok_bind, hbefore], hfirst⟩
      · rintro ⟨before, first, after, middle, hlist, hbefore, hfirst⟩
        cases before with
        | nil =>
            cases hlist
            cases hbefore
            rw [hfirst, error_bind]
        | cons other before =>
            cases hlist
            rw [List.foldlM_cons] at hbefore
            obtain ⟨next, hnext, hbefore⟩ := exists_of_bind_eq_ok hbefore
            rw [hnext, ok_bind]
            exact ih.mpr ⟨before, first, after, middle, rfl, hbefore, hfirst⟩

theorem exists_mapM_eq_ok {read : α → Except ε β} {list : List α} :
    (∃ results, list.mapM read = .ok results) ↔
      ∀ a ∈ list, ∃ b, read a = .ok b := by
  constructor
  · rintro ⟨results, h⟩ a hm
    cases ha : read a with
    | ok b => exact ⟨b, rfl⟩
    | error error =>
        obtain ⟨found, hfound⟩ := mapM_eq_error read hm ha
        rw [hfound] at h
        cases h
  · intro h
    induction list with
    | nil => exact ⟨[], rfl⟩
    | cons first rest ih =>
        obtain ⟨value, hfirst⟩ := h first List.mem_cons_self
        obtain ⟨others, hrest⟩ := ih fun a hm => h a (List.mem_cons_of_mem _ hm)
        exact ⟨value :: others, by rw [List.mapM_cons, hfirst, hrest]; rfl⟩

theorem exists_of_mem_mapM {read : α → Except ε β} {list : List α}
    {results : List β} (h : list.mapM read = .ok results) {b : β}
    (hb : b ∈ results) : ∃ a ∈ list, read a = .ok b := by
  induction list generalizing results with
  | nil =>
      cases h
      cases hb
  | cons first rest ih =>
      rw [List.mapM_cons] at h
      obtain ⟨value, hfirst, h⟩ := exists_of_bind_eq_ok h
      obtain ⟨others, hrest, h⟩ := exists_of_bind_eq_ok h
      cases h
      rcases List.mem_cons.mp hb with rfl | hb
      · exact ⟨first, List.mem_cons_self, hfirst⟩
      · obtain ⟨a, hm, ha⟩ := ih hrest hb
        exact ⟨a, List.mem_cons_of_mem _ hm, ha⟩

theorem exists_mem_of_mapM {read : α → Except ε β} {list : List α}
    {results : List β} (h : list.mapM read = .ok results) {a : α}
    (hm : a ∈ list) : ∃ b ∈ results, read a = .ok b := by
  induction list generalizing results with
  | nil => cases hm
  | cons first rest ih =>
      rw [List.mapM_cons] at h
      obtain ⟨value, hfirst, h⟩ := exists_of_bind_eq_ok h
      obtain ⟨others, hrest, h⟩ := exists_of_bind_eq_ok h
      cases h
      rcases List.mem_cons.mp hm with rfl | hm
      · exact ⟨value, List.mem_cons_self, hfirst⟩
      · obtain ⟨b, hb, ha⟩ := ih hrest hm
        exact ⟨b, List.mem_cons_of_mem _ hb, ha⟩

theorem map_eq_of_mapM {γ : Type u} {read : α → Except ε β} {before : α → γ}
    {after : β → γ} (hsame : ∀ a b, read a = .ok b → after b = before a)
    {list : List α} {results : List β} (h : list.mapM read = .ok results) :
    results.map after = list.map before := by
  induction list generalizing results with
  | nil =>
      cases h
      rfl
  | cons first rest ih =>
      rw [List.mapM_cons] at h
      obtain ⟨value, hfirst, h⟩ := exists_of_bind_eq_ok h
      obtain ⟨others, hrest, h⟩ := exists_of_bind_eq_ok h
      cases h
      rw [List.map_cons, List.map_cons, ih hrest, hsame first value hfirst]

end VersionedFlags
