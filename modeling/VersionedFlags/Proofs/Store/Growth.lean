import VersionedFlags.Proofs.Store.Advice

/-!
# Stored versions only grow

Whoever writes whatever on whatever media: where a stored version can be read it can
be read later, and it is the same then or a greater one that somebody wrote.
-/

namespace VersionedFlags

theorem Item.supersedes_iff {item : Item} {stored : Option UInt64} :
    item.supersedes stored = true ↔
      ∀ version, stored = some version → version < item.version := by
  cases stored <;> simp [Item.supersedes]

/-- What may become of a stored version: it stays, or a greater one of those that are
written is stored. -/
def Rises (written : UInt64 → Prop) (stored later : Option UInt64) : Prop :=
  later = stored ∨ ∃ version, later = some version ∧ written version ∧
    ∀ old, stored = some old → old < version

namespace Rises

variable {written more : UInt64 → Prop} {stored middle later : Option UInt64}

theorem refl (stored : Option UInt64) : Rises written stored stored := .inl rfl

theorem mono (h : Rises written stored later)
    (hle : ∀ version, written version → more version) : Rises more stored later :=
  h.imp_right fun ⟨version, hlater, hwritten, hlt⟩ =>
    ⟨version, hlater, hle version hwritten, hlt⟩

theorem le (h : Rises written stored later) {old : UInt64} (hstored : stored = some old) :
    ∃ version, later = some version ∧ old ≤ version := by
  rcases h with rfl | ⟨version, hlater, -, hlt⟩
  · exact ⟨old, hstored, UInt64.le_refl old⟩
  · exact ⟨version, hlater, UInt64.le_of_lt (hlt old hstored)⟩

theorem trans (h : Rises written stored middle) (hnext : Rises written middle later) :
    Rises written stored later := by
  rcases hnext with rfl | ⟨version, hlater, hwritten, hlt⟩
  · exact h
  · refine .inr ⟨version, hlater, hwritten, fun old hold => ?_⟩
    obtain ⟨between, hmiddle, hle⟩ := h.le hold
    exact UInt64.lt_of_le_of_lt hle (hlt between hmiddle)

theorem of_supersedes {item : Item} (h : item.supersedes stored = true)
    (hwritten : written item.version) : Rises written stored (some item.version) :=
  .inr ⟨item.version, rfl, hwritten, Item.supersedes_iff.mp h⟩

end Rises

namespace Cluster

/-- The version that an open handle finds stored under a key. -/
def version? (cluster : Cluster) (store : Nat) (kind : Kind) (key : String) :
    Except StoreError (Option UInt64) := do
  let (handle, medium) ← cluster.openHandle store
  medium.version? handle.realm kind key

def Ranged (cluster : Cluster) : Prop := ∀ medium ∈ cluster.media, medium.Ranged

/-- What upserts of the written versions may make of a cluster. -/
structure Grown (written : UInt64 → Prop) (before after : Cluster) : Prop where
  handles : after.handles = before.handles
  files : ∀ index : Nat, (after.media[index]?).map Medium.mindsClosing =
    (before.media[index]?).map Medium.mindsClosing
  ranged : before.Ranged → after.Ranged
  version? : ∀ store kind key stored, before.version? store kind key = .ok stored →
    ∃ later, after.version? store kind key = .ok later ∧ Rises written stored later

variable {cluster before middle after : Cluster} {store : Nat} {kind : Kind}
  {item : Item} {stored : Option UInt64} {written more : UInt64 → Prop}

theorem advise_eq (cluster : Cluster) (store : Nat) (kind : Kind) (item : Item) :
    cluster.advise store kind item = do
      return item.supersedes (← cluster.version? store kind item.key) := by
  unfold advise version?
  cases cluster.openHandle store with
  | error error => rfl
  | ok found => exact Medium.advise_eq _ _ _

theorem exists_openHandle (h : cluster.version? store kind item.key = .ok stored) :
    ∃ handle medium, cluster.openHandle store = .ok (handle, medium) ∧
      medium.version? handle.realm kind item.key = .ok stored := by
  obtain ⟨⟨handle, medium⟩, hopen, hstored⟩ := exists_of_bind_eq_ok h
  exact ⟨handle, medium, hopen, hstored⟩

namespace Grown

theorem refl (cluster : Cluster) : cluster.Grown written cluster :=
  ⟨rfl, fun _ => rfl, id, fun _ _ _ stored h => ⟨stored, h, .refl stored⟩⟩

theorem mono (h : before.Grown written after)
    (hle : ∀ version, written version → more version) : before.Grown more after where
  handles := h.handles
  files := h.files
  ranged := h.ranged
  version? store kind key stored hstored := by
    obtain ⟨later, hlater, hrises⟩ := h.version? store kind key stored hstored
    exact ⟨later, hlater, hrises.mono hle⟩

theorem trans (h : before.Grown written middle) (hnext : middle.Grown written after) :
    before.Grown written after where
  handles := hnext.handles.trans h.handles
  files index := (hnext.files index).trans (h.files index)
  ranged hranged := hnext.ranged (h.ranged hranged)
  version? store kind key stored hstored := by
    obtain ⟨between, hmiddle, hrises⟩ := h.version? store kind key stored hstored
    obtain ⟨later, hlater, hmore⟩ := hnext.version? store kind key between hmiddle
    exact ⟨later, hlater, hrises.trans hmore⟩

theorem openHandle (h : before.Grown written after) {handle : Handle} {medium : Medium}
    (hopen : after.openHandle store = .ok (handle, medium)) :
    ∃ found, before.openHandle store = .ok (handle, found) ∧
      found.mindsClosing = medium.mindsClosing := by
  obtain ⟨-, hhandle, hclosed, hmedium⟩ := openHandle_cases hopen
  have hfile := h.files handle.medium
  rw [hmedium, Option.map_some, eq_comm, Option.map_eq_some_iff] at hfile
  obtain ⟨found, hfound, hsame⟩ := hfile
  rw [h.handles] at hhandle
  obtain ⟨index, realm, closed⟩ := handle
  obtain rfl : closed = false := hclosed
  exact ⟨found, openHandle_eq hhandle hfound, hsame⟩

end Grown

theorem Ranged.of_openHandle (h : cluster.Ranged) {handle : Handle} {medium : Medium}
    (hopen : cluster.openHandle store = .ok (handle, medium)) : medium.Ranged :=
  h medium (List.mem_of_getElem? (openHandle_cases hopen).2.2.2)

theorem Ranged.setMedium (h : cluster.Ranged) (index : Nat) {medium : Medium}
    (hmedium : medium.Ranged) : (cluster.setMedium index medium).Ranged := by
  intro found hm
  rcases List.mem_or_eq_of_mem_set hm with hm | rfl
  · exact h found hm
  · exact hmedium

/-- Other handles may share the medium on which an item is stored. -/
theorem openHandle_setMedium_cases {other : Nat} {handle found : Handle}
    {medium on : Medium} (hopen : cluster.openHandle store = .ok (handle, medium))
    (hother : cluster.openHandle other = .ok (found, on)) (next : Medium) :
    found.medium = handle.medium ∧ on = medium ∧
        (cluster.setMedium handle.medium next).openHandle other = .ok (found, next) ∨
      (cluster.setMedium handle.medium next).openHandle other = .ok (found, on) := by
  obtain ⟨-, -, -, hmedium⟩ := openHandle_cases hopen
  obtain ⟨-, hhandle, hclosed, hon⟩ := openHandle_cases hother
  have hlt := (List.getElem?_eq_some_iff.mp hmedium).1
  obtain ⟨index, realm, closed⟩ := found
  obtain rfl : closed = false := hclosed
  by_cases hsame : handle.medium = index
  · subst hsame
    rw [hmedium] at hon
    cases hon
    exact .inl ⟨rfl, rfl, openHandle_eq hhandle (List.getElem?_set_self hlt)⟩
  · exact .inr (openHandle_eq hhandle ((List.getElem?_set_ne hsame).trans hon))

/-- Storing an item that is newer than what is stored in its place. -/
theorem grown_put {handle : Handle} {medium : Medium}
    (hopen : cluster.openHandle store = .ok (handle, medium))
    (hstored : medium.version? handle.realm kind item.key = .ok stored)
    (hnewer : item.supersedes stored = true) (hwritten : written item.version)
    (hfits : medium.mindsClosing = true → item.version.toNat < 2 ^ 63) :
    cluster.Grown written (cluster.setMedium handle.medium
      (medium.put handle.realm kind item)) where
  handles := rfl
  files index := by
    obtain ⟨-, -, -, hmedium⟩ := openHandle_cases hopen
    have hlt := (List.getElem?_eq_some_iff.mp hmedium).1
    by_cases hsame : handle.medium = index
    · subst hsame
      simp only [setMedium, List.getElem?_set_self hlt, hmedium, Option.map_some,
        Medium.mindsClosing_put]
    · simp only [setMedium, List.getElem?_set_ne hsame]
  ranged h := h.setMedium _ ((h.of_openHandle hopen).put handle.realm kind hfits)
  version? other part key old hold := by
    obtain ⟨⟨found, on⟩, hother, hold⟩ := exists_of_bind_eq_ok hold
    simp only [version?] at hold ⊢
    rcases openHandle_setMedium_cases hopen hother
      (medium.put handle.realm kind item) with ⟨-, rfl, hnext⟩ | hnext
    · simp only [hnext, ok_bind, Medium.version?_put hstored]
      split
      · rename_i hplace
        obtain ⟨hrealm, rfl, rfl⟩ := hplace
        rw [hrealm, hstored] at hold
        cases hold
        exact ⟨_, rfl, .of_supersedes hnewer hwritten⟩
      · exact ⟨old, hold, .refl old⟩
    · exact ⟨old, by simp only [hnext, ok_bind, hold], .refl old⟩

/-- Two handles on one medium and under one realm. -/
def Together (cluster : Cluster) (left right : Nat) : Prop :=
  ∃ handle other : Handle, cluster.handles[left]? = some handle ∧
    cluster.handles[right]? = some other ∧ handle.medium = other.medium ∧
    handle.realm = other.realm

theorem Together.version?_eq {left right : Nat} {found : Option UInt64} {key : String}
    (h : cluster.Together left right)
    (hleft : cluster.version? left kind key = .ok stored)
    (hright : cluster.version? right kind key = .ok found) : stored = found := by
  obtain ⟨handle, other, hhandle, hother, hmedium, hrealm⟩ := h
  obtain ⟨⟨first, on⟩, hopen, hstored⟩ := exists_of_bind_eq_ok hleft
  obtain ⟨⟨second, under⟩, hsecond, hfound⟩ := exists_of_bind_eq_ok hright
  obtain ⟨-, hfirst, -, hon⟩ := openHandle_cases hopen
  obtain ⟨-, hlast, -, hunder⟩ := openHandle_cases hsecond
  rw [hhandle] at hfirst
  rw [hother] at hlast
  cases hfirst
  cases hlast
  rw [hmedium, hunder] at hon
  cases hon
  simp only [hrealm] at hstored
  exact Except.ok.inj (hstored.symm.trans hfound)

theorem Together.grown {left right : Nat} (h : before.Together left right)
    (hgrown : before.Grown written after) : after.Together left right := by
  unfold Together
  rw [hgrown.handles]
  exact h

/-- A write through a handle that finds a version stored stores its item or loses to
that version, unless it is too great for a file. -/
theorem commit_cases (hranged : cluster.Ranged)
    (hstored : cluster.version? store kind item.key = .ok stored) :
    (∃ error, cluster.commit store kind item = (.error error, cluster) ∧
        ∃ handle medium, cluster.openHandle store = .ok (handle, medium) ∧
          medium.mindsClosing = true ∧ 2 ^ 63 ≤ item.version.toNat) ∨
      item.supersedes stored = false ∧
        cluster.commit store kind item = (.ok .superseded, cluster) ∨
      item.supersedes stored = true ∧
        ∃ after, cluster.commit store kind item = (.ok .applied, after) ∧
          cluster.Grown (· = item.version) after ∧
          after.version? store kind item.key = .ok (some item.version) := by
  obtain ⟨handle, medium, hopen, hstored⟩ := exists_openHandle hstored
  obtain ⟨-, -, -, hmedium⟩ := openHandle_cases hopen
  have hwhole := hranged.of_openHandle hopen
  by_cases hlarge : medium.mindsClosing = true ∧ 2 ^ 63 ≤ item.version.toNat
  · refine .inl ⟨.versionOutOfRange item.version item.key, ?_, handle, medium, hopen,
      hlarge⟩
    rw [commit_of_version? hopen hwhole hstored]
    unfold Medium.upsertAtOnce
    rw [if_pos hlarge, setMedium_self hmedium]
  · cases hnewer : item.supersedes stored with
    | false =>
        refine .inr (.inl ⟨rfl, ?_⟩)
        rw [commit_of_version? hopen hwhole hstored,
          hwhole.upsertAtOnce_of_le hstored hnewer, setMedium_self hmedium]
    | true =>
        have hfits : medium.mindsClosing = true → item.version.toNat < 2 ^ 63 :=
          fun hfile => by
            have hsmall := mt (And.intro hfile) hlarge
            omega
        refine .inr (.inr ⟨rfl, _, commit_of_supersedes hopen hwhole hstored hnewer hfits,
          grown_put hopen hstored hnewer rfl hfits, ?_⟩)
        unfold version?
        simp only [if_true, openHandle_setMedium hopen, ok_bind,
          Medium.version?_put hstored, true_and]

end Cluster

end VersionedFlags
