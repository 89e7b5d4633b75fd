import VersionedFlags.Proofs.Store.Linearization
import VersionedFlags.Proofs.Store.Medium

/-!
# Media that many handles share

A call changes no medium but the one of its handle, and no handle but its own,
which closing closes.  So a medium that holds a ledger holds one after any call
through any handle.
-/

namespace VersionedFlags

namespace Cluster

variable {cluster : Cluster} {index other : Nat} {handle : Handle}
  {medium : Medium}

theorem handle_cases (h : cluster.handle other = .ok (handle, medium)) :
    cluster.handles[other]? = some handle ∧
      cluster.media[handle.medium]? = some medium := by
  simp only [Cluster.handle] at h
  split at h
  · cases h
  · rename_i found hfound
    split at h
    · cases h
    · rename_i hmedium
      cases h
      exact ⟨hfound, hmedium⟩

/-! ## Handles -/

theorem handles_init (cluster : Cluster) (other : Nat) (data : DataSet) :
    (cluster.init other data).2.handles = cluster.handles := by
  simp only [Cluster.init]
  cases cluster.openHandle other with
  | error error => rfl
  | ok found =>
      simp only [ok_bind]
      cases found.2.init found.1.realm data <;> rfl

theorem handles_commit (cluster : Cluster) (other : Nat) (kind : Kind)
    (item : Item) :
    (cluster.commit other kind item).2.handles = cluster.handles := by
  simp only [Cluster.commit]
  cases cluster.handle other with
  | error error => rfl
  | ok found =>
      simp only [ok_bind]
      cases found.2.commit found.1.realm found.1.closed kind item <;> rfl

theorem handles_upsert (cluster : Cluster) (other : Nat) (kind : Kind)
    (item : Item) :
    (cluster.upsert other kind item).2.handles = cluster.handles := by
  simp only [Cluster.upsert]
  split
  · rfl
  · rfl
  · exact cluster.handles_commit other kind item

theorem handles_clear (cluster : Cluster) (other : Nat) :
    (cluster.clear other).2.handles = cluster.handles := by
  simp only [Cluster.clear]
  cases cluster.handle other with
  | error error => rfl
  | ok found =>
      simp only
      split <;> rfl

theorem handles_serve (cluster : Cluster) (other : Nat) {call : Call}
    (hopen : call ≠ .close) :
    (cluster.serve other call).2.handles = cluster.handles := by
  cases call with
  | init data => exact cluster.handles_init other data
  | upsert kind item => exact cluster.handles_upsert other kind item
  | close => exact absurd rfl hopen
  | get _ _ | all _ | initialized => rfl

/-- A handle stays on its medium and in its realm. -/
theorem exists_handle_serve {realm : Realm} {closed : Bool} {store : Nat}
    (h : cluster.handles[store]? = some ⟨index, realm, closed⟩) (other : Nat)
    (call : Call) :
    ∃ after, (cluster.serve other call).2.handles[store]? =
      some ⟨index, realm, after⟩ := by
  by_cases hclose : call = .close
  · subst hclose
    refine ⟨if other = store then true else closed, ?_⟩
    simp only [Cluster.serve, Cluster.close, List.getElem?_modify, h]
    split <;> rfl
  · exact ⟨closed, by rw [cluster.handles_serve other hclose, h]⟩

/-! ## Media -/

/-- A call changes at most the medium of its handle. -/
theorem media_serve (cluster : Cluster) (other : Nat) (call : Call) :
    (cluster.serve other call).2.media = cluster.media ∨
      ∃ handle medium, cluster.handles[other]? = some handle ∧
        (cluster.serve other call).2.media =
          cluster.media.set handle.medium medium := by
  cases call with
  | get _ _ | all _ | initialized | close => exact .inl rfl
  | init data =>
      simp only [Cluster.serve, Cluster.init]
      cases hopen : cluster.openHandle other with
      | error error => exact .inl rfl
      | ok found =>
          obtain ⟨-, hhandle, -, -⟩ := openHandle_cases hopen
          simp only [ok_bind]
          cases found.2.init found.1.realm data with
          | error error => exact .inl rfl
          | ok next => exact .inr ⟨found.1, next, hhandle, rfl⟩
  | upsert kind item =>
      simp only [Cluster.serve, Cluster.upsert]
      split
      · exact .inl rfl
      · exact .inl rfl
      · simp only [Cluster.commit]
        cases hfound : cluster.handle other with
        | error error => exact .inl rfl
        | ok found =>
            simp only [ok_bind]
            cases found.2.commit found.1.realm found.1.closed kind item with
            | error error => exact .inl rfl
            | ok result =>
                exact .inr ⟨found.1, result.2, (handle_cases hfound).1, rfl⟩

variable {file : Bool} {ledger : Ledger}

theorem Holds.of_media {after : Cluster} (h : cluster.Holds index file ledger)
    (hsame : after.media[index]? = cluster.media[index]?) :
    after.Holds index file ledger := by
  obtain ⟨medium, hmedium, hholds, hfile⟩ := h
  exact ⟨medium, hsame.trans hmedium, hholds, hfile⟩

/-- Whoever makes a call, a medium that held a ledger holds one after it. -/
theorem Holds.serve_any (h : cluster.Holds index file ledger) (other : Nat)
    {call : Call} (hkept : call.Kept file) :
    ∃ next, (cluster.serve other call).2.Holds index file next := by
  rcases cluster.media_serve other call with
    hsame | ⟨⟨place, realm, closed⟩, medium, hhandle, hset⟩
  · exact ⟨ledger, h.of_media (by rw [hsame])⟩
  · by_cases hplace : place = index
    · subst hplace
      by_cases hclose : call = .close
      · subst hclose
        exact ⟨ledger, h⟩
      · cases closed with
        | true =>
            rw [serve_closed hhandle hclose]
            exact ⟨ledger, h⟩
        | false =>
            rcases h.serve hhandle hclose hkept with
              ⟨-, hholds, -⟩ | ⟨-, error, heq⟩
            · exact ⟨_, hholds⟩
            · rw [heq]
              exact ⟨ledger, h⟩
    · refine ⟨ledger, h.of_media ?_⟩
      rw [hset, List.getElem?_set_ne hplace]

theorem Holds.clear_any (h : cluster.Holds index file ledger) (other : Nat) :
    ∃ next, (cluster.clear other).2.Holds index file next := by
  simp only [Cluster.clear]
  cases hfound : cluster.handle other with
  | error error => exact ⟨ledger, h⟩
  | ok found =>
      obtain ⟨handle, medium⟩ := found
      obtain ⟨-, hmedium⟩ := handle_cases hfound
      simp only
      split
      · exact ⟨ledger, h⟩
      · by_cases hplace : handle.medium = index
        · obtain ⟨mine, hmine, hholds, hfile⟩ := id h
          obtain rfl : medium = mine := by
            rw [hplace, hmine] at hmedium
            exact (Option.some.inj hmedium).symm
          obtain ⟨next, hclear, hnext, hminds⟩ := hholds.clear
          rw [hclear, hplace]
          exact ⟨.empty, h.setMedium hnext (hminds.trans hfile)⟩
        · refine ⟨ledger, h.of_media ?_⟩
          exact List.getElem?_set_ne hplace

/-! ## Handles on ledgers -/

/-- The handle, open or closed, is on a medium that holds a ledger. -/
def Backs (cluster : Cluster) (store : Nat) (file : Bool) : Prop :=
  ∃ index realm closed ledger,
    cluster.handles[store]? = some ⟨index, realm, closed⟩ ∧
      cluster.Holds index file ledger

variable {store : Nat}

theorem Backs.serve (h : cluster.Backs store file) (other : Nat) {call : Call}
    (hkept : call.Kept file) : (cluster.serve other call).2.Backs store file := by
  obtain ⟨index, realm, closed, ledger, hhandle, hholds⟩ := h
  obtain ⟨after, hafter⟩ := exists_handle_serve hhandle other call
  obtain ⟨next, hnext⟩ := hholds.serve_any other hkept
  exact ⟨index, realm, after, next, hafter, hnext⟩

theorem Backs.clear (h : cluster.Backs store file) (other : Nat) :
    (cluster.clear other).2.Backs store file := by
  obtain ⟨index, realm, closed, ledger, hhandle, hholds⟩ := h
  obtain ⟨next, hnext⟩ := hholds.clear_any other
  refine ⟨index, realm, closed, next, ?_, hnext⟩
  rw [cluster.handles_clear other, hhandle]

/-- A call that succeeds is served as the ledger serves it. -/
theorem Backs.ok_cases (h : cluster.Backs store file) {call : Call}
    (hopen : call ≠ .close) (hkept : call.Kept file) {answer : call.Answer}
    (hok : (cluster.serve store call).1 = .ok answer) :
    ∃ index realm, ∃ ledger : Ledger,
      (cluster.serve store call).2.handles[store]? =
          some ⟨index, realm, false⟩ ∧
        (cluster.serve store call).2.Holds index file
          (ledger.serve realm call).2 ∧
        answer = (ledger.serve realm call).1 := by
  obtain ⟨index, realm, closed, ledger, hhandle, hholds⟩ := h
  cases closed with
  | true =>
      rw [serve_closed hhandle hopen] at hok
      cases hok
  | false =>
      rcases hholds.serve hhandle hopen hkept with
        ⟨hreply, hnext, hhandles⟩ | ⟨-, error, heq⟩
      · rw [hreply] at hok
        exact ⟨index, realm, ledger, by rw [hhandles, hhandle], hnext,
          (Except.ok.inj hok).symm⟩
      · rw [heq] at hok
        cases hok

end Cluster

end VersionedFlags
