import VersionedFlags.Proofs.Store.Shared
import VersionedFlags.Proofs.Store.View

/-!
# Clusters that differ in a part

Clusters are alike outside of a part if they differ only in what is stored in
the part and in which handles of its realm are closed.  A call whose answer does
not depend on the part is answered alike and leaves alike what was alike, and a
call that writes in the part leaves a cluster like the one before.
-/

namespace VersionedFlags

/-! ## Calls and parts -/

namespace Part

/-- Whether the call may change the part, and nothing else. -/
def writtenBy (part : Part) (realm : Realm) : Call → Bool
  | .init _ | .close => part.owns realm
  | .upsert kind _ => part.covers realm kind
  | .get _ _ | .all _ | .initialized => false

/-- Whether the answer of the call may depend on the part. -/
def seenBy (part : Part) (realm : Realm) : Call → Bool
  | .init _ | .close | .initialized => part.owns realm
  | .get kind _ | .all kind | .upsert kind _ => part.covers realm kind

theorem seenBy_of_writtenBy {part : Part} (realm : Realm) (call : Call)
    (h : part.writtenBy realm call = true) : part.seenBy realm call = true := by
  cases call <;> first | exact h | cases h

theorem owns_eq_false {part : Part} {realm : Realm} {kind : Kind}
    (h : part.covers realm kind = false) : part.owns realm = false := by
  cases howns : part.owns realm with
  | false => rfl
  | true => rw [covers_of_owns howns] at h; cases h

/-- Opens the handles of a realm that belongs to the part. -/
def reopen (part : Part) (handle : Handle) : Handle :=
  if part.owns handle.realm then { handle with closed := false } else handle

theorem realm_reopen (part : Part) (handle : Handle) :
    (part.reopen handle).realm = handle.realm := by
  unfold reopen
  split <;> rfl

end Part

/-! ## Clusters -/

namespace Cluster

structure Alike (part : Part) (left right : Cluster) : Prop where
  media : left.media.map (Medium.view part) = right.media.map (Medium.view part)
  handles : left.handles.map part.reopen = right.handles.map part.reopen

variable {part : Part} {left right cluster : Cluster} {index : Nat}
  {handle : Handle}

theorem Alike.refl (part : Part) (cluster : Cluster) : Alike part cluster cluster :=
  ⟨rfl, rfl⟩

theorem Alike.trans {middle : Cluster} (h : Alike part left middle)
    (hnext : Alike part middle right) : Alike part left right :=
  ⟨h.media.trans hnext.media, h.handles.trans hnext.handles⟩

theorem Alike.setMedium (h : Alike part left right) (place : Nat)
    {medium other : Medium} (hmedium : medium.view part = other.view part) :
    Alike part (left.setMedium place medium) (right.setMedium place other) := by
  refine ⟨?_, h.handles⟩
  simp only [Cluster.setMedium, List.map_set, h.media, hmedium]

/-- The realms of the handles, which no call changes. -/
def realms (cluster : Cluster) : List Realm := cluster.handles.map Handle.realm

theorem handle_some (h : cluster.handles[index]? = some handle) :
    cluster.realms[index]? = some handle.realm := by
  rw [realms, List.getElem?_map, h, Option.map_some]

theorem realm_of_handle {medium : Medium}
    (h : cluster.handle index = .ok (handle, medium)) :
    cluster.realms[index]? = some handle.realm :=
  handle_some (handle_cases h).1

/-- A handle whose realm does not belong to the part is found alike. -/
theorem Alike.handle_cases (h : Alike part left right)
    (howns : ∀ realm, left.realms[index]? = some realm →
      part.owns realm = false) :
    left.handle index = .error .closed ∧ right.handle index = .error .closed ∨
    ∃ handle medium other, left.handle index = .ok (handle, medium) ∧
      right.handle index = .ok (handle, other) ∧
      medium.view part = other.view part := by
  have hhandles : (left.handles[index]?).map part.reopen =
      (right.handles[index]?).map part.reopen := by
    rw [← List.getElem?_map, ← List.getElem?_map, h.handles]
  cases hleft : left.handles[index]? with
  | none =>
      rw [hleft] at hhandles
      have hright := Option.map_eq_none_iff.mp hhandles.symm
      exact .inl ⟨by simp only [Cluster.handle, hleft],
        by simp only [Cluster.handle, hright]⟩
  | some handle =>
      rw [hleft] at hhandles
      obtain ⟨found, hright, hfound⟩ :=
        Option.map_eq_some_iff.mp hhandles.symm
      have hown := howns _ (handle_some hleft)
      have hsame : found = handle := by
        have hrealm := congrArg Handle.realm hfound
        rw [part.realm_reopen, part.realm_reopen] at hrealm
        simpa [Part.reopen, hown, hrealm] using hfound
      subst hsame
      have hmedia : (left.media[found.medium]?).map (Medium.view part) =
          (right.media[found.medium]?).map (Medium.view part) := by
        rw [← List.getElem?_map, ← List.getElem?_map, h.media]
      cases hmedium : left.media[found.medium]? with
      | none =>
          rw [hmedium] at hmedia
          have hnone := Option.map_eq_none_iff.mp hmedia.symm
          exact .inl ⟨by simp only [Cluster.handle, hleft, hmedium],
            by simp only [Cluster.handle, hright, hnone]⟩
      | some medium =>
          rw [hmedium] at hmedia
          obtain ⟨other, hother, hview⟩ :=
            Option.map_eq_some_iff.mp hmedia.symm
          exact .inr ⟨found, medium, other,
            by simp only [Cluster.handle, hleft, hmedium],
            by simp only [Cluster.handle, hright, hother], hview.symm⟩

theorem Alike.openHandle_cases (h : Alike part left right)
    (howns : ∀ realm, left.realms[index]? = some realm →
      part.owns realm = false) :
    left.openHandle index = .error .closed ∧
      right.openHandle index = .error .closed ∨
    ∃ handle medium other, left.realms[index]? = some handle.realm ∧
      left.openHandle index = .ok (handle, medium) ∧
      right.openHandle index = .ok (handle, other) ∧
      medium.view part = other.view part := by
  rcases h.handle_cases howns with
    ⟨hleft, hright⟩ | ⟨handle, medium, other, hleft, hright, hview⟩
  · exact .inl ⟨by simp only [openHandle, hleft, error_bind],
      by simp only [openHandle, hright, error_bind]⟩
  · cases hclosed : handle.closed with
    | true =>
        exact .inl ⟨by simp only [openHandle, hleft, ok_bind, hclosed]; rfl,
          by simp only [openHandle, hright, ok_bind, hclosed]; rfl⟩
    | false =>
        exact .inr ⟨handle, medium, other, realm_of_handle hleft,
          by simp only [openHandle, hleft, ok_bind, hclosed]; rfl,
          by simp only [openHandle, hright, ok_bind, hclosed]; rfl, hview⟩

/-! ### Calls outside of the part -/

theorem Alike.read {α : Type} (h : Alike part left right)
    (howns : ∀ realm, left.realms[index]? = some realm →
      part.owns realm = false)
    (read : Medium → Realm → Except StoreError α)
    (hread : ∀ realm, left.realms[index]? = some realm → ∀ medium : Medium,
      read (medium.view part) realm = read medium realm) :
    (do
      let (handle, medium) ← left.openHandle index
      read medium handle.realm) =
      (do
        let (handle, medium) ← right.openHandle index
        read medium handle.realm) := by
  rcases h.openHandle_cases howns with
    ⟨hleft, hright⟩ | ⟨handle, medium, other, hrealm, hleft, hright, hview⟩
  · simp only [hleft, hright, error_bind]
  · simp only [hleft, hright, ok_bind]
    rw [← hread _ hrealm medium, hview, hread _ hrealm other]

theorem Alike.advise (h : Alike part left right) {kind : Kind}
    (hcovers : ∀ realm, left.realms[index]? = some realm →
      part.covers realm kind = false) (item : Item) :
    left.advise index kind item = right.advise index kind item :=
  h.read (fun realm hrealm => Part.owns_eq_false (hcovers realm hrealm))
    (fun medium realm => medium.advise realm kind item)
    fun realm hrealm medium => medium.advise_view (hcovers realm hrealm) item

theorem Alike.commit (h : Alike part left right) {kind : Kind}
    (hcovers : ∀ realm, left.realms[index]? = some realm →
      part.covers realm kind = false) (item : Item) :
    (left.commit index kind item).1 = (right.commit index kind item).1 ∧
      Alike part (left.commit index kind item).2
        (right.commit index kind item).2 := by
  rcases h.handle_cases
      (fun realm hrealm => Part.owns_eq_false (hcovers realm hrealm)) with
    ⟨hleft, hright⟩ | ⟨handle, medium, other, hleft, hright, hview⟩
  · simp only [Cluster.commit, hleft, hright, error_bind]
    exact ⟨trivial, h⟩
  · have hcover := hcovers _ (realm_of_handle hleft)
    have hcommit := medium.commit_view hcover handle.closed item
    rw [hview, other.commit_view hcover handle.closed item] at hcommit
    simp only [Cluster.commit, hleft, hright, ok_bind]
    rcases alike_cases hcommit with
      ⟨error, ho, hm⟩ | ⟨result, result', ho, hm, heq⟩
    · simp only [hm, ho, error_bind]
      exact ⟨trivial, h⟩
    · obtain ⟨houtcome, hnext⟩ := Prod.mk.inj heq
      simp only [hm, ho, ok_bind]
      exact ⟨congrArg Except.ok houtcome.symm, h.setMedium _ hnext.symm⟩

theorem Alike.init (h : Alike part left right)
    (howns : ∀ realm, left.realms[index]? = some realm →
      part.owns realm = false) (data : DataSet) :
    (left.init index data).1 = (right.init index data).1 ∧
      Alike part (left.init index data).2 (right.init index data).2 := by
  rcases h.openHandle_cases howns with
    ⟨hleft, hright⟩ | ⟨handle, medium, other, hrealm, hleft, hright, hview⟩
  · simp only [Cluster.init, hleft, hright, error_bind]
    exact ⟨trivial, h⟩
  · have hinit := medium.init_view part handle.realm data
    rw [hview, other.init_view part handle.realm data] at hinit
    simp only [Cluster.init, hleft, hright, ok_bind]
    rcases alike_cases hinit with ⟨error, ho, hm⟩ | ⟨next, next', ho, hm, heq⟩
    · simp only [hm, ho, error_bind]
      exact ⟨trivial, h⟩
    · simp only [hm, ho, ok_bind]
      exact ⟨rfl, h.setMedium _ heq.symm⟩

theorem reopen_handles_close (part : Part) (cluster : Cluster) (index place : Nat) :
    ((cluster.close index).handles.map part.reopen)[place]? =
      ((cluster.handles.map part.reopen)[place]?).map fun handle =>
        if index = place then part.reopen { handle with closed := true }
        else handle := by
  simp only [close, List.getElem?_map, List.getElem?_modify]
  cases cluster.handles[place]? with
  | none => rfl
  | some handle =>
      by_cases hplace : index = place
      · cases howns : part.owns handle.realm <;>
          simp [hplace, Part.reopen, howns]
      · simp [hplace]

theorem Alike.close (h : Alike part left right) (index : Nat) :
    Alike part (left.close index) (right.close index) := by
  refine ⟨h.media, List.ext_getElem? fun place => ?_⟩
  rw [reopen_handles_close, reopen_handles_close, h.handles]

/-- A call that does not write in the part leaves alike what was alike, and it
is answered alike if its answer does not depend on the part. -/
theorem Alike.serve (h : Alike part left right) {call : Call}
    (hupsert : ∀ kind item, call ≠ .upsert kind item)
    (hwritten : ∀ realm, left.realms[index]? = some realm →
      part.writtenBy realm call = false) :
    Alike part (left.serve index call).2 (right.serve index call).2 ∧
      ((∀ realm, left.realms[index]? = some realm →
          part.seenBy realm call = false) →
        (left.serve index call).1 = (right.serve index call).1) := by
  cases call with
  | init data =>
      obtain ⟨hreply, hnext⟩ := h.init hwritten data
      exact ⟨hnext, fun _ => hreply⟩
  | upsert kind item => exact absurd rfl (hupsert kind item)
  | close => exact ⟨h.close index, fun _ => rfl⟩
  | get kind key =>
      refine ⟨h, fun hseen => h.read ?_
        (fun medium realm => medium.get? realm kind key) ?_⟩
      · exact fun realm hrealm => Part.owns_eq_false (hseen realm hrealm)
      · exact fun realm hrealm medium => medium.get?_view (hseen realm hrealm) key
  | all kind =>
      refine ⟨h, fun hseen => h.read ?_ (fun medium realm => medium.all realm kind)
        ?_⟩
      · exact fun realm hrealm => Part.owns_eq_false (hseen realm hrealm)
      · exact fun realm hrealm medium => medium.all_view (hseen realm hrealm)
  | initialized =>
      exact ⟨h, fun hseen => h.read hseen Medium.isInitialized
        fun realm hrealm medium => medium.isInitialized_view (hseen realm hrealm)⟩

/-! ### Calls that write in the part -/

theorem setMedium_alike {place : Nat} {medium next : Medium}
    (hmedium : cluster.media[place]? = some medium)
    (hview : next.view part = medium.view part) :
    Alike part (cluster.setMedium place next) cluster := by
  have halike := (Alike.refl part cluster).setMedium place hview
  rwa [setMedium_self hmedium] at halike

theorem commit_alike {kind : Kind}
    (hcovers : ∀ realm, cluster.realms[index]? = some realm →
      part.covers realm kind = true) (item : Item) :
    Alike part (cluster.commit index kind item).2 cluster := by
  simp only [Cluster.commit]
  cases hhandle : cluster.handle index with
  | error error => exact .refl part cluster
  | ok found =>
      obtain ⟨handle, medium⟩ := found
      obtain ⟨hfound, hmedium⟩ := handle_cases hhandle
      simp only [ok_bind]
      cases hcommit : medium.commit handle.realm handle.closed kind item with
      | error error => exact .refl part cluster
      | ok result =>
          exact setMedium_alike hmedium
            (Medium.view_commit_of_covers (hcovers _ (handle_some hfound))
              hcommit)

theorem init_alike
    (howns : ∀ realm, cluster.realms[index]? = some realm →
      part.owns realm = true) (data : DataSet) :
    Alike part (cluster.init index data).2 cluster := by
  simp only [Cluster.init]
  cases hopen : cluster.openHandle index with
  | error error => exact .refl part cluster
  | ok found =>
      obtain ⟨handle, medium⟩ := found
      obtain ⟨-, hhandle, -, hmedium⟩ := openHandle_cases hopen
      simp only [ok_bind]
      cases hinit : medium.init handle.realm data with
      | error error => exact .refl part cluster
      | ok next =>
          exact setMedium_alike hmedium
            (Medium.view_init_of_owns (howns _ (handle_some hhandle)) hinit)

theorem close_alike
    (howns : ∀ realm, cluster.realms[index]? = some realm →
      part.owns realm = true) :
    Alike part (cluster.close index) cluster := by
  refine ⟨rfl, List.ext_getElem? fun place => ?_⟩
  rw [reopen_handles_close, List.getElem?_map]
  cases hhandle : cluster.handles[place]? with
  | none => rfl
  | some handle =>
      by_cases hplace : index = place
      · subst hplace
        have hown := howns _ (handle_some hhandle)
        simp [Part.reopen, hown]
      · simp [hplace]

theorem serve_alike {call : Call} (hupsert : ∀ kind item, call ≠ .upsert kind item)
    (hwritten : ∀ realm, cluster.realms[index]? = some realm →
      part.writtenBy realm call = true) :
    Alike part (cluster.serve index call).2 cluster := by
  cases call with
  | init data => exact init_alike hwritten data
  | close => exact close_alike hwritten
  | upsert kind item => exact absurd rfl (hupsert kind item)
  | get _ _ | all _ | initialized => exact .refl part cluster

/-! ### Realms stay -/

theorem realms_commit (cluster : Cluster) (index : Nat) (kind : Kind)
    (item : Item) : (cluster.commit index kind item).2.realms = cluster.realms := by
  rw [realms, handles_commit, realms]

theorem realms_serve (cluster : Cluster) (index : Nat) (call : Call) :
    (cluster.serve index call).2.realms = cluster.realms := by
  by_cases hclose : call = .close
  · subst hclose
    refine List.ext_getElem? fun place => ?_
    simp only [realms, Cluster.serve, close, List.getElem?_map,
      List.getElem?_modify]
    cases cluster.handles[place]? with
    | none => rfl
    | some handle => by_cases hplace : index = place <;> simp [hplace]
  · rw [realms, handles_serve cluster index hclose, realms]

end Cluster

end VersionedFlags
