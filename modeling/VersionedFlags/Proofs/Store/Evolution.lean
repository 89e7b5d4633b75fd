import VersionedFlags.Proofs.Store.Shared

/-!
# How stored items evolve

An item that is stored stays, or a write replaces it by one of a greater
version; a tombstone is such an item too.  No call but an initialization does
anything else to a medium, whoever makes it.
-/

namespace VersionedFlags

/-! ## Items -/

namespace Item

/-- What may be stored under a key some time after something was. -/
inductive Evolves : Option Item → Option Item → Prop
  | absent (later : Option Item) : Evolves none later
  | kept (item : Item) : Evolves (some item) (some item)
  | replaced {item later : Item} :
      item.version < later.version → Evolves (some item) (some later)

namespace Evolves

variable {first later last : Option Item} {item other : Item}

theorem refl (first : Option Item) : Evolves first first := by
  cases first with
  | none => exact .absent none
  | some item => exact .kept item

theorem trans (h : Evolves first later) (hlater : Evolves later last) :
    Evolves first last := by
  cases h with
  | absent => exact .absent last
  | kept => exact hlater
  | replaced hlt =>
      cases hlater with
      | kept => exact .replaced hlt
      | replaced hnext => exact .replaced (UInt64.lt_trans hlt hnext)

theorem exists_some (h : Evolves (some item) later) :
    ∃ other, later = some other := by
  cases h with
  | kept => exact ⟨item, rfl⟩
  | replaced => exact ⟨_, rfl⟩

theorem version_le (h : Evolves (some item) (some other)) :
    item.version ≤ other.version := by
  cases h with
  | kept => exact UInt64.le_refl _
  | replaced hlt => exact UInt64.le_of_lt hlt

theorem eq_of_version (h : Evolves (some item) (some other))
    (hversion : item.version = other.version) : item = other := by
  cases h with
  | kept => rfl
  | replaced hlt =>
      rw [hversion] at hlt
      exact absurd hlt (UInt64.lt_irrefl _)

/-- An item that was gone for a while is back with a greater version. -/
theorem version_lt_of_hidden (h : Evolves (some item) later)
    (hlater : Evolves later (some other)) (hitem : item.deleted = false)
    (hhidden : later.bind visible? = none) : item.version < other.version := by
  obtain ⟨hider, rfl⟩ := h.exists_some
  cases h with
  | kept => simp [visible?, hitem] at hhidden
  | replaced hlt => exact UInt64.lt_of_lt_of_le hlt hlater.version_le

end Evolves

theorem visible?_eq_some {item seen : Item} (h : item.visible? = some seen) :
    item = seen ∧ seen.deleted = false := by
  simp only [visible?] at h
  split at h
  · cases h
  · rename_i hlive
    cases h
    exact ⟨rfl, by simpa using hlive⟩

end Item

/-! ## Ledgers -/

namespace Ledger

def Evolves (ledger later : Ledger) : Prop :=
  ∀ realm kind key,
    Item.Evolves (ledger.stored? realm kind key) (later.stored? realm kind key)

variable {ledger later last : Ledger}

theorem Evolves.refl (ledger : Ledger) : ledger.Evolves ledger :=
  fun _ _ _ => .refl _

theorem Evolves.trans (h : ledger.Evolves later) (hlater : later.Evolves last) :
    ledger.Evolves last :=
  fun realm kind key => (h realm kind key).trans (hlater realm kind key)

theorem stored?_of_get? {realm : Realm} {kind : Kind} {key : String}
    {item : Item} (h : ledger.get? realm kind key = some item) :
    ledger.stored? realm kind key = some item ∧ item.deleted = false := by
  obtain ⟨stored, hstored, hvisible⟩ := Option.bind_eq_some_iff.mp h
  obtain ⟨rfl, hlive⟩ := Item.visible?_eq_some hvisible
  exact ⟨hstored, hlive⟩

theorem evolves_upsert (ledger : Ledger) (realm : Realm) (kind : Kind)
    (item : Item) : ledger.Evolves (ledger.upsert realm kind item).2 := by
  intro other part key
  unfold upsert
  split
  · rename_i hnewer
    rw [stored?_put]
    split
    · rename_i hplace
      obtain ⟨rfl, rfl, rfl⟩ := hplace
      cases hstored : ledger.stored? other part item.key with
      | none => exact .absent _
      | some stored =>
          simp [version?, hstored, Item.supersedes] at hnewer
          exact .replaced hnewer
    · exact .refl _
  · exact .refl _

end Ledger

/-! ## Media -/

/-- A closed handle may still be writing, which a database file refuses. -/
theorem Medium.Holds.commit_cases {medium : Medium} {ledger : Ledger}
    (h : medium.Holds ledger) (realm : Realm) (closed : Bool) (kind : Kind)
    (item : Item)
    (hreads : medium.mindsClosing = true →
      Json.parse item.data.text = .ok item.data) :
    (∃ next, medium.commit realm closed kind item =
        .ok ((ledger.upsert realm kind item).1, next) ∧
      next.Holds (ledger.upsert realm kind item).2 ∧
      next.mindsClosing = medium.mindsClosing) ∨
    ∃ error, medium.commit realm closed kind item = .error error := by
  have hopen := (h.commit realm kind item hreads).imp_right And.right
  cases closed with
  | false => exact hopen
  | true =>
      cases medium with
      | memory database => exact hopen
      | sqlite image =>
          refine .inr ?_
          simp only [Medium.commit]
          cases Sqlite.Tables.versionCell item with
          | error error => exact ⟨error, rfl⟩
          | ok version => exact ⟨.closed, rfl⟩

/-! ## Clusters -/

namespace Cluster

variable {cluster : Cluster} {index : Nat} {file : Bool} {ledger : Ledger}

/-- The conditional write of an upsert, through any handle, open or closed. -/
theorem Holds.commit_any (h : cluster.Holds index file ledger) (other : Nat)
    {kind : Kind} {item : Item} (hkept : (Call.upsert kind item).Kept file) :
    ∃ next, (cluster.commit other kind item).2.Holds index file next ∧
      ledger.Evolves next := by
  have hsame : ∃ next, cluster.Holds index file next ∧ ledger.Evolves next :=
    ⟨ledger, h, .refl ledger⟩
  simp only [Cluster.commit]
  cases hfound : cluster.handle other with
  | error error => exact hsame
  | ok found =>
      obtain ⟨⟨place, realm, closed⟩, medium⟩ := found
      obtain ⟨-, hmedium⟩ := handle_cases hfound
      simp only [ok_bind]
      by_cases hplace : place = index
      · subst hplace
        obtain ⟨mine, hmine, hholds, hfile⟩ := id h
        obtain rfl : medium = mine := by
          rw [hmine] at hmedium
          exact (Option.some.inj hmedium).symm
        rcases hholds.commit_cases realm closed kind item fun hminds =>
            hkept.reads (hfile.symm.trans hminds) item rfl with
          ⟨next, hcommit, hnext, hsort⟩ | ⟨error, hcommit⟩
        · rw [hcommit]
          exact ⟨_, h.setMedium hnext (hsort.trans hfile),
            ledger.evolves_upsert realm kind item⟩
        · rw [hcommit]
          exact hsame
      · cases medium.commit realm closed kind item with
        | error error => exact hsame
        | ok result =>
            exact ⟨ledger, h.of_media (List.getElem?_set_ne hplace),
              .refl ledger⟩

/-- Whoever makes a call that is no initialization, what was stored evolves. -/
theorem Holds.serve_evolves (h : cluster.Holds index file ledger) (other : Nat)
    {call : Call} (hkept : call.Kept file) (hinit : ∀ data, call ≠ .init data) :
    ∃ next, (cluster.serve other call).2.Holds index file next ∧
      ledger.Evolves next := by
  have hsame : ∃ next, cluster.Holds index file next ∧ ledger.Evolves next :=
    ⟨ledger, h, .refl ledger⟩
  cases call with
  | init data => exact absurd rfl (hinit data)
  | get _ _ | all _ | initialized | close => exact hsame
  | upsert kind item =>
      simp only [Cluster.serve, Cluster.upsert]
      split
      · exact hsame
      · exact hsame
      · exact h.commit_any other hkept

/-! ## Accesses -/

/-- What a user of any handle does to the media. -/
inductive Access where
  | serve (place : Nat) (call : Call)
  /-- The write of an upsert that was advised before. -/
  | commit (place : Nat) (kind : Kind) (item : Item)
  deriving DecidableEq, Repr

/-- Nothing is initialized, and written items are read back unchanged. -/
def Access.Suits (file : Bool) : Access → Prop
  | .serve _ call => call.Kept file ∧ ∀ data, call ≠ .init data
  | .commit _ kind item => (Call.upsert kind item).Kept file

def access (cluster : Cluster) : Access → Cluster
  | .serve place call => (cluster.serve place call).2
  | .commit place kind item => (cluster.commit place kind item).2

theorem Holds.access (h : cluster.Holds index file ledger) {access : Access}
    (hsuits : access.Suits file) :
    ∃ next, (cluster.access access).Holds index file next ∧
      ledger.Evolves next := by
  cases access with
  | serve place call => exact h.serve_evolves place hsuits.1 hsuits.2
  | commit place kind item => exact h.commit_any place hsuits

theorem exists_handle_access {realm : Realm} {closed : Bool} {store : Nat}
    (h : cluster.handles[store]? = some ⟨index, realm, closed⟩)
    (access : Access) :
    ∃ after, (cluster.access access).handles[store]? =
      some ⟨index, realm, after⟩ := by
  cases access with
  | serve place call => exact exists_handle_serve h place call
  | commit place kind item =>
      refine ⟨closed, ?_⟩
      rw [Cluster.access, handles_commit]
      exact h

/-- Two handles on a fresh database in memory. -/
def pair : Cluster :=
  ⟨[.memory .empty], [⟨0, .standard, false⟩, ⟨0, .standard, false⟩]⟩

theorem backs_pair : pair.Backs 0 false :=
  ⟨0, .standard, false, _, rfl, .memory .empty, rfl, rfl, rfl⟩

end Cluster

end VersionedFlags
