import VersionedFlags.Proofs.Store.Opening

/-!
# Closing shuts one handle

A database in memory asks its handles whether they are closed when a call begins,
a database file whenever it is reached, which an upsert does twice.  Either way a
handle that was closed is refused all calls, and nobody else can tell: a run goes on
as it would without the closing and without what its handle asked for later.
-/

namespace VersionedFlags

/-- What a closed handle replies. -/
def Call.refused : (call : Call) → call.Reply
  | .close => .ok ()
  | .init _ | .get _ _ | .all _ | .upsert _ _ | .initialized => .error .closed

/-! ## Clusters with one handle closed -/

namespace Cluster

variable {cluster : Cluster} {shut store : Nat}

theorem handles_close (cluster : Cluster) (shut store : Nat) :
    (cluster.close shut).handles[store]? =
      (cluster.handles[store]?).map fun handle =>
        if shut = store then { handle with closed := true } else handle := by
  simp only [close, List.getElem?_modify]
  split <;> rfl

theorem handle_close_of_ne (hne : store ≠ shut) :
    (cluster.close shut).handle store = cluster.handle store := by
  simp only [Cluster.handle, handles_close, if_neg hne.symm, Option.map_id']
  rfl

theorem handle_close_self (cluster : Cluster) (shut : Nat) :
    (cluster.close shut).handle shut =
      (cluster.handle shut).map fun found =>
        ({ found.1 with closed := true }, found.2) := by
  simp only [Cluster.handle, handles_close, if_true]
  cases cluster.handles[shut]? with
  | none => rfl
  | some handle =>
      simp only [Option.map_some, close]
      cases cluster.media[handle.medium]? <;> rfl

theorem openHandle_close_of_ne (hne : store ≠ shut) :
    (cluster.close shut).openHandle store = cluster.openHandle store := by
  unfold openHandle
  rw [handle_close_of_ne hne]

theorem openHandle_close_self (cluster : Cluster) (shut : Nat) :
    (cluster.close shut).openHandle shut = .error .closed := by
  unfold openHandle
  rw [handle_close_self]
  simp only [Cluster.handle]
  cases cluster.handles[shut]? with
  | none => rfl
  | some handle =>
      simp only
      cases cluster.media[handle.medium]? <;> rfl

theorem close_close (cluster : Cluster) (shut : Nat) :
    (cluster.close shut).close shut = cluster.close shut := by
  unfold close
  rw [List.modify_modify_eq]
  rfl

theorem close_comm (cluster : Cluster) (shut store : Nat) :
    (cluster.close store).close shut = (cluster.close shut).close store := by
  by_cases hne : store = shut
  · rw [hne]
  · unfold close
    simp only [List.modify_modify_ne _ _ _ hne]

/-- Whatever a closed handle asks for is refused, and nothing changes. -/
theorem serve_close_self (cluster : Cluster) (shut : Nat) (call : Call) :
    (cluster.close shut).serve shut call =
      (call.refused, cluster.close shut) := by
  have hclosed := openHandle_close_self cluster shut
  cases call with
  | close => simp only [Cluster.serve, close_close, Call.refused]
  | init | get | all | upsert | initialized =>
      refine serve_of_error hclosed ?_
      simp

theorem advise_close_self (cluster : Cluster) (shut : Nat) (kind : Kind)
    (item : Item) : (cluster.close shut).advise shut kind item = .error .closed := by
  unfold advise
  rw [openHandle_close_self, error_bind]

/-! ### What other handles are served -/

theorem advise_close_of_ne (hne : store ≠ shut) (kind : Kind) (item : Item) :
    (cluster.close shut).advise store kind item =
      cluster.advise store kind item := by
  unfold advise
  rw [openHandle_close_of_ne hne]

/-- The medium of a handle looks at closings when a call begins, if at all. -/
def Careless (cluster : Cluster) (store : Nat) : Prop :=
  ∀ handle medium, cluster.handle store = .ok (handle, medium) →
    medium.mindsClosing = false

theorem commit_close (hfree : store = shut → cluster.Careless shut) (kind : Kind)
    (item : Item) :
    (cluster.close shut).commit store kind item =
      ((cluster.commit store kind item).1,
        (cluster.commit store kind item).2.close shut) := by
  unfold commit
  by_cases hne : store = shut
  · subst hne
    rw [handle_close_self]
    cases hfound : cluster.handle store with
    | error error => rfl
    | ok found =>
        obtain ⟨handle, medium⟩ := found
        match medium, hfree rfl handle medium hfound with
        | .memory database, _ => rfl
  · rw [handle_close_of_ne hne]
    cases cluster.handle store with
    | error error => rfl
    | ok found =>
        simp only [ok_bind]
        cases found.2.commit found.1.realm found.1.closed kind item <;> rfl

theorem clear_close (hfree : store = shut → cluster.Careless shut) :
    (cluster.close shut).clear store =
      ((cluster.clear store).1, (cluster.clear store).2.close shut) := by
  unfold clear
  by_cases hne : store = shut
  · subst hne
    rw [handle_close_self]
    cases hfound : cluster.handle store with
    | error error => rfl
    | ok found =>
        obtain ⟨handle, medium⟩ := found
        match medium, hfree rfl handle medium hfound with
        | .memory database, _ =>
            simp [Except.map, Medium.mindsClosing]
            rfl
  · rw [handle_close_of_ne hne]
    cases cluster.handle store with
    | error error => rfl
    | ok found =>
        simp only
        split <;> rfl

theorem serve_close_of_ne (hne : store ≠ shut) (call : Call) :
    (cluster.close shut).serve store call =
      ((cluster.serve store call).1, (cluster.serve store call).2.close shut) := by
  have hopen : (cluster.close shut).openHandle store = cluster.openHandle store :=
    openHandle_close_of_ne hne
  cases call with
  | get | all | initialized => simp only [Cluster.serve, hopen]
  | close => simp only [Cluster.serve, close_comm]
  | init data =>
      simp only [Cluster.serve, Cluster.init, hopen]
      cases cluster.openHandle store with
      | error error => rfl
      | ok found =>
          simp only [ok_bind]
          cases found.2.init found.1.realm data <;> rfl
  | upsert kind item =>
      simp only [Cluster.serve, Cluster.upsert, advise_close_of_ne hne]
      cases cluster.advise store kind item with
      | error error => rfl
      | ok newer =>
          cases newer with
          | false => rfl
          | true => exact commit_close (fun h => absurd h hne) kind item

/-- A handle that is added later is not the one that is closed. -/
theorem addHandle_close (hlt : shut < cluster.handles.length) (index : Nat)
    (realm : Realm) :
    (cluster.close shut).addHandle index realm =
      (cluster.addHandle index realm).close shut := by
  have hhandles : ∀ (handles : List Handle) (added : Handle)
      (change : Handle → Handle), shut < handles.length →
        handles.modify shut change ++ [added] =
          (handles ++ [added]).modify shut change := by
    intro handles added change hlt
    refine List.ext_getElem? fun place => ?_
    simp only [List.getElem?_append, List.length_modify, List.getElem?_modify]
    by_cases hplace : place < handles.length
    · simp only [if_pos hplace]
    · have hne : ¬ shut = place := by omega
      simp [hplace, hne]
  unfold addHandle close
  simp only [hhandles _ _ _ hlt]

theorem attach_close (hlt : shut < cluster.handles.length) (index : Nat)
    (realm : Realm) :
    (cluster.close shut).attach index realm =
      (cluster.attach index realm).map fun next => next.close shut := by
  have hmedia : (cluster.close shut).media = cluster.media := rfl
  unfold attach
  rw [hmedia]
  cases cluster.media[index]? with
  | none => rfl
  | some medium =>
      simp only
      cases medium.prepare with
      | error failure => rfl
      | ok ready =>
          have hready : shut < (cluster.setMedium index ready).handles.length := hlt
          exact congrArg Except.ok (addHandle_close hready index realm)

theorem clear_close_self {handle : Handle} {medium : Medium}
    (hfound : cluster.handle shut = .ok (handle, medium))
    (hfile : medium.mindsClosing = true) :
    (cluster.close shut).clear shut = (.error .closed, cluster.close shut) := by
  unfold clear
  rw [handle_close_self, hfound]
  simp [Except.map, hfile]

/-- A write that is under way when its handle is closed fails on a database file. -/
theorem commit_close_self {handle : Handle} {medium : Medium}
    (hfound : cluster.handle shut = .ok (handle, medium))
    (hfile : medium.mindsClosing = true) (kind : Kind) (item : Item) :
    ((cluster.close shut).commit shut kind item).2 = cluster.close shut := by
  unfold commit
  rw [handle_close_self, hfound]
  match medium, hfile with
  | .sqlite image, _ =>
      simp only [Except.map, ok_bind, Medium.commit]
      cases Sqlite.Tables.versionCell item <;> rfl

/-! ### Where handles are -/

/-- The medium and the realm of each handle. -/
def places (cluster : Cluster) : List (Nat × Realm) :=
  cluster.handles.map fun handle => (handle.medium, handle.realm)

theorem places_close (cluster : Cluster) (store : Nat) :
    (cluster.close store).places = cluster.places := by
  refine List.ext_getElem? fun place => ?_
  simp only [places, List.getElem?_map, handles_close, Option.map_map]
  cases cluster.handles[place]? with
  | none => rfl
  | some handle => simp only [Option.map_some, Function.comp]; split <;> rfl

theorem places_serve (cluster : Cluster) (store : Nat) (call : Call) :
    (cluster.serve store call).2.places = cluster.places := by
  by_cases hclose : call = .close
  · subst hclose
    exact cluster.places_close store
  · unfold places
    rw [handles_serve cluster store hclose]

theorem places_commit (cluster : Cluster) (store : Nat) (kind : Kind) (item : Item) :
    (cluster.commit store kind item).2.places = cluster.places := by
  unfold places
  rw [handles_commit]

theorem places_clear (cluster : Cluster) (store : Nat) :
    (cluster.clear store).2.places = cluster.places := by
  unfold places
  rw [handles_clear]

theorem places_attach {after : Cluster} {index : Nat} {realm : Realm}
    (h : cluster.attach index realm = .ok after) :
    after.places = cluster.places ++ [(index, realm)] := by
  obtain ⟨medium, ready, hmedium, hprepare, rfl⟩ := attach_ok h
  simp only [places, addHandle, setMedium, List.map_append, List.map_cons, List.map_nil]

/-- On the medium of every handle a store can be opened at any time, and that
changes nothing. -/
def Ready (cluster : Cluster) : Prop :=
  ∀ place ∈ cluster.places, ∃ medium,
    cluster.media[place.1]? = some medium ∧ medium.Ready

theorem Ready.of_sameSchemas {after : Cluster} (h : cluster.Ready)
    (hsame : cluster.SameSchemas after) (hplaces : after.places = cluster.places) :
    after.Ready := by
  intro place hm
  rw [hplaces] at hm
  obtain ⟨medium, hmedium, hready⟩ := h place hm
  obtain ⟨later, hlater, hsame⟩ := hsame place.1 medium hmedium
  exact ⟨later, hlater, hready.of_sameSchema hsame⟩

theorem Ready.attach_eq {index : Nat} {realm : Realm} {medium : Medium}
    (h : cluster.Ready) (hplace : (index, realm) ∈ cluster.places)
    (hmedium : cluster.media[index]? = some medium) :
    cluster.attach index realm = .ok (cluster.addHandle index realm) := by
  obtain ⟨found, hfound, hready⟩ := h _ hplace
  rw [hmedium] at hfound
  cases hfound
  unfold attach
  simp only [hmedium, hready.prepare, ok_bind]
  rw [setMedium_self hmedium]
  rfl

/-- A handle just opened reads its medium. -/
theorem reads_addHandle {index : Nat} {medium : Medium}
    (hmedium : cluster.media[index]? = some medium) (realm : Realm) (kind : Kind)
    (key : String) :
    let opened := cluster.addHandle index realm
    let store := cluster.handles.length
    (opened.serve store (.get kind key)).1 = medium.get? realm kind key ∧
      (opened.serve store (.all kind)).1 = medium.all realm kind ∧
      (opened.serve store .initialized).1 = medium.isInitialized realm := by
  have hhandle : (cluster.addHandle index realm).handles[cluster.handles.length]? =
      some ⟨index, realm, false⟩ := List.getElem?_concat_length
  have hopen := openHandle_eq hhandle hmedium
  simp only [Cluster.serve, hopen, ok_bind, and_self]

theorem Ready.attach {after : Cluster} {index : Nat} {realm : Realm}
    (h : cluster.Ready) (hattach : cluster.attach index realm = .ok after) :
    after.Ready := by
  obtain ⟨medium, ready, hmedium, hprepare, rfl⟩ := attach_ok hattach
  have hlt := (List.getElem?_eq_some_iff.mp hmedium).1
  intro place hm
  simp only [addHandle, setMedium]
  by_cases hplace : index = place.1
  · subst hplace
    exact ⟨ready, List.getElem?_set_self hlt, Medium.ready_of_prepare hprepare⟩
  · rw [places_attach hattach, List.mem_append, List.mem_singleton] at hm
    rcases hm with hm | rfl
    · rw [List.getElem?_set_ne hplace]
      exact h place hm
    · exact absurd rfl hplace

/-- Where a handle is, and whether its medium minds closings whenever it is
reached. -/
structure PlacedOn (cluster : Cluster) (store index : Nat) (realm : Realm)
    (file : Bool) : Prop where
  place : cluster.places[store]? = some (index, realm)
  medium : ∃ medium, cluster.media[index]? = some medium ∧
    medium.mindsClosing = file

variable {index : Nat} {realm : Realm} {file : Bool}

theorem PlacedOn.found (h : cluster.PlacedOn store index realm file) :
    ∃ handle medium, cluster.handle store = .ok (handle, medium) ∧
      medium.mindsClosing = file := by
  obtain ⟨medium, hmedium, hfile⟩ := h.medium
  have hplace := h.place
  simp only [places, List.getElem?_map, Option.map_eq_some_iff, Prod.mk.injEq]
    at hplace
  obtain ⟨handle, hhandle, rfl, rfl⟩ := hplace
  exact ⟨handle, medium, handle_eq hhandle hmedium, hfile⟩

theorem PlacedOn.careless (h : cluster.PlacedOn store index realm false) :
    cluster.Careless store := by
  obtain ⟨found, medium, hfound, hfile⟩ := h.found
  intro handle other hother
  rw [hfound] at hother
  cases hother
  exact hfile

theorem PlacedOn.of_sameSchemas {after : Cluster}
    (h : cluster.PlacedOn store index realm file) (hsame : cluster.SameSchemas after)
    (hplaces : after.places = cluster.places) :
    after.PlacedOn store index realm file where
  place := hplaces ▸ h.place
  medium := by
    obtain ⟨medium, hmedium, hfile⟩ := h.medium
    obtain ⟨later, hlater, hsame⟩ := hsame index medium hmedium
    exact ⟨later, hlater, hsame.mindsClosing.trans hfile⟩

theorem PlacedOn.attach {after : Cluster} {place : Nat} {other : Realm}
    (h : cluster.PlacedOn store index realm file)
    (hattach : cluster.attach place other = .ok after) :
    after.PlacedOn store index realm file := by
  obtain ⟨medium, ready, hmedium, hprepare, rfl⟩ := attach_ok hattach
  have hlt := (List.getElem?_eq_some_iff.mp hmedium).1
  have hstore := (List.getElem?_eq_some_iff.mp h.place).1
  constructor
  · rw [places_attach hattach, List.getElem?_append_left hstore, h.place]
  · obtain ⟨found, hfound, hfile⟩ := h.medium
    simp only [addHandle, setMedium]
    by_cases hplace : place = index
    · subst hplace
      rw [hmedium] at hfound
      cases hfound
      exact ⟨ready, List.getElem?_set_self hlt,
        (Medium.mindsClosing_of_prepare hprepare).trans hfile⟩
    · exact ⟨found, by rw [List.getElem?_set_ne hplace, hfound], hfile⟩

end Cluster

/-! ## Runs with and without a closing -/

/-- Whether the operation goes through the handle.  A database in memory is cleared
without one. -/
def Operation.isThrough (store : Nat) (file : Bool) : Operation → Bool
  | .serve handle _ => handle == store
  | .clear handle => file && handle == store

namespace Schedule

variable {store index : Nat} {realm : Realm} {file : Bool} {dropped : List Nat}
  {state other next final : State}

/-- The upserts that are refused if the handle, of a database file or not, is closed
now. -/
def State.late (state : State) (store : Nat) (file : Bool) : List Nat :=
  (state.waiting.filter fun upsert => file && upsert.handle == store).map Upsert.name

/-- Whether the turn asks for something through the handle or finishes an upsert that
is to be dropped. -/
def Turn.isThrough (store : Nat) (file : Bool) (dropped : List Nat) : Turn → Bool
  | .attach _ _ => false
  | .step (.enter request) => request.operation.isThrough store file
  | .step (.finish name) => dropped.contains name

theorem enter_closed {cluster : Cluster} (h : state.cluster = cluster.close store)
    (name : Nat) (call : Call) :
    state.enter ⟨name, .serve store call⟩ =
      state.answer ⟨name, .serve store call⟩ (call.refused, state.cluster) := by
  by_cases hupsert : ∃ kind item, call = .upsert kind item
  · obtain ⟨kind, item, rfl⟩ := hupsert
    simp only [State.enter, State.advise, h, Cluster.advise_close_self]
    rfl
  · rw [State.enter_serve _ _ _ fun kind item heq => hupsert ⟨kind, item, heq⟩, h,
      Cluster.serve_close_self]

/-- A turn enters one request at most, under a new name. -/
theorem requests_turn {turn : Turn} (h : state.turn? turn = some next) :
    next.requests.Perm state.requests ∨
      ∃ request : Request, request.name ∉ state.requests.map Request.name ∧
        next.requests.Perm (request :: state.requests) := by
  match turn with
  | .attach index realm =>
      simp only [State.turn?] at h
      split at h <;> (cases h; exact .inl (.refl _))
  | .step (.enter request) =>
      simp only [State.turn?, State.freeStep?] at h
      split at h
      · cases h
      · rename_i hfresh
        cases h
        exact .inr ⟨request, hfresh, requests_enter state request⟩
  | .step (.finish name) =>
      obtain ⟨upsert, hfind, rfl⟩ := Option.map_eq_some_iff.mp h
      exact .inl (requests_commit (List.mem_of_find?_eq_some hfind))

theorem requests_mono {turn : Turn} (h : state.turn? turn = some next) :
    state.requests ⊆ next.requests := by
  rcases requests_turn h with hperm | ⟨request, -, hperm⟩
  · exact hperm.symm.subset
  · exact List.Subset.trans (List.subset_cons_self _ _) hperm.symm.subset

theorem names_nodup_turn {turn : Turn} (h : state.turn? turn = some next)
    (hnodup : (state.requests.map Request.name).Nodup) :
    (next.requests.map Request.name).Nodup := by
  rcases requests_turn h with hperm | ⟨request, hfresh, hperm⟩
  · exact (hperm.map Request.name).nodup_iff.mpr hnodup
  · exact (hperm.map Request.name).nodup_iff.mpr (List.nodup_cons.mpr ⟨hfresh, hnodup⟩)

theorem places_freeStep {step : Step} (h : state.freeStep? step = some next) :
    next.cluster.places = state.cluster.places := by
  cases step with
  | enter request =>
      obtain ⟨name, operation⟩ := request
      simp only [State.freeStep?] at h
      split at h
      · cases h
      · cases h
        cases operation with
        | clear handle => exact state.cluster.places_clear handle
        | serve handle call =>
            cases call with
            | upsert kind item =>
                simp only [State.enter, State.advise]
                split <;> rfl
            | init | get | all | initialized | close =>
                exact state.cluster.places_serve handle _
  | finish name =>
      obtain ⟨upsert, -, rfl⟩ := Option.map_eq_some_iff.mp h
      exact state.cluster.places_commit _ _ _

theorem ready_turn {turn : Turn} (h : state.turn? turn = some next)
    (hready : state.cluster.Ready) : next.cluster.Ready := by
  match turn with
  | .attach index realm =>
      simp only [State.turn?] at h
      split at h
      · rename_i hattach
        cases h
        exact hready.attach hattach
      · cases h
        exact hready
  | .step step =>
      exact hready.of_sameSchemas (sameSchemas_freeStep h) (places_freeStep h)

theorem names_nodup_turns {turns : List Turn} (h : state.turns? turns = some final)
    (hnodup : (state.requests.map Request.name).Nodup) :
    (final.requests.map Request.name).Nodup :=
  State.turns?_induction
    (motive := fun state => (state.requests.map Request.name).Nodup)
    (fun _ _ _ hnodup hturn => names_nodup_turn hturn hnodup) hnodup h

theorem ready_turns {turns : List Turn} (h : state.turns? turns = some final)
    (hready : state.cluster.Ready) : final.cluster.Ready :=
  State.turns?_induction (motive := fun state => state.cluster.Ready)
    (fun _ _ _ hready hturn => ready_turn hturn hready) hready h

theorem late_subset (state : State) (store : Nat) (file : Bool) :
    state.late store file ⊆ state.requests.map Request.name := by
  have hlate : state.late store file ⊆ state.waiting.map Upsert.name :=
    List.map_subset _ (List.filter_subset_self _)
  simp only [State.requests, List.map_append, List.map_map]
  exact List.Subset.trans hlate (List.subset_append_left _ _)

/-- What relates a run after a closing to the one without it. -/
structure Parted (store index : Nat) (realm : Realm) (file : Bool)
    (dropped : List Nat) (state other : State) : Prop extends
    Thinned dropped (Operation.isThrough store file) state other where
  closed : state.cluster = other.cluster.close store
  placed : other.cluster.PlacedOn store index realm file
  sorted : ∀ upsert ∈ state.waiting,
    upsert.name ∈ dropped ↔ file = true ∧ upsert.handle = store

namespace Parted

theorem careless (h : Parted store index realm file dropped state other) {handle : Nat}
    (hthrough : ¬ (file = true ∧ handle = store)) :
    handle = store → other.cluster.Careless store := by
  intro hhandle
  have hmemory : file = false := by simpa [hhandle] using hthrough
  exact (hmemory ▸ h.placed).careless

theorem enter_through (h : Parted store index realm file dropped state other)
    {request : Request} (hthrough : request.operation.isThrough store file = true) :
    ∃ reply, state.enter request = state.answer request (reply, state.cluster) := by
  match request with
  | ⟨name, .clear handle⟩ =>
      obtain ⟨found, medium, hfound, hfile⟩ := h.placed.found
      simp only [Operation.isThrough, Bool.and_eq_true, beq_iff_eq] at hthrough
      obtain ⟨rfl, rfl⟩ := hthrough
      refine ⟨.error .closed, ?_⟩
      simp only [State.enter, State.atOnce, Operation.atOnce, h.closed,
        Cluster.clear_close_self hfound hfile]
  | ⟨name, .serve handle call⟩ =>
      obtain rfl : handle = store := by simpa [Operation.isThrough] using hthrough
      exact ⟨call.refused, enter_closed h.closed name call⟩

theorem answer (h : Parted store index realm file dropped state other)
    (request : Request) {left right : request.operation.Reply × Cluster}
    (hright : right.2.PlacedOn store index realm file)
    (hleft : left = (right.1, right.2.close store)) :
    Parted store index realm file dropped (state.answer request left)
      (other.answer request right) where
  toThinned := h.toThinned.answer request fun _ => by rw [hleft]
  closed := by rw [hleft]; rfl
  placed := hright
  sorted := h.sorted

theorem answer_left (h : Parted store index realm file dropped state other)
    {request : Request} (hthrough : request.operation.isThrough store file = true)
    (reply : request.operation.Reply) :
    Parted store index realm file dropped
      (state.answer request (reply, state.cluster)) other where
  toThinned := h.toThinned.answer_left request hthrough
  closed := h.closed
  placed := h.placed
  sorted := h.sorted

theorem enter_left (h : Parted store index realm file dropped state other)
    {request : Request} (hthrough : request.operation.isThrough store file = true) :
    Parted store index realm file dropped (state.enter request) other := by
  obtain ⟨reply, hreply⟩ := h.enter_through hthrough
  rw [hreply]
  exact h.answer_left hthrough reply

theorem advise (h : Parted store index realm file dropped state other)
    {upsert : Upsert} (hne : upsert.handle ≠ store) (hname : upsert.name ∉ dropped) :
    Parted store index realm file dropped (state.advise upsert)
      (other.advise upsert) := by
  have hadvise : state.cluster.advise upsert.handle upsert.kind upsert.item =
      other.cluster.advise upsert.handle upsert.kind upsert.item := by
    rw [h.closed, Cluster.advise_close_of_ne hne]
  simp only [State.advise, hadvise]
  cases other.cluster.advise upsert.handle upsert.kind upsert.item with
  | error error => exact h.answer upsert.request h.placed (by rw [h.closed])
  | ok newer =>
      cases newer with
      | false => exact h.answer upsert.request h.placed (by rw [h.closed])
      | true =>
          exact {
            toThinned := h.toThinned.wait
            closed := h.closed
            placed := h.placed
            sorted := List.forall_mem_append.mpr ⟨h.sorted,
              List.forall_mem_singleton.mpr (by simp [hname, hne])⟩ }

theorem enter (h : Parted store index realm file dropped state other)
    {request : Request} (hname : request.name ∉ dropped)
    (hthrough : request.operation.isThrough store file = false) :
    Parted store index realm file dropped (state.enter request)
      (other.enter request) := by
  match request with
  | ⟨name, .clear handle⟩ =>
      have hthrough : ¬ (file = true ∧ handle = store) := by
        simpa [Operation.isThrough] using hthrough
      refine h.answer ⟨name, .clear handle⟩ ?_ ?_
      · exact h.placed.of_sameSchemas (other.cluster.sameSchemas_clear handle)
          (other.cluster.places_clear handle)
      · simp only [Operation.atOnce, h.closed,
          Cluster.clear_close (h.careless hthrough)]
  | ⟨name, .serve handle call⟩ =>
      have hne : handle ≠ store := by simpa [Operation.isThrough] using hthrough
      by_cases hupsert : ∃ kind item, call = .upsert kind item
      · obtain ⟨kind, item, rfl⟩ := hupsert
        have hhandle : (⟨name, handle, kind, item⟩ : Upsert).handle ≠ store := hne
        exact h.advise hhandle hname
      · have hupsert : ∀ kind item, call ≠ .upsert kind item :=
          fun kind item heq => hupsert ⟨kind, item, heq⟩
        rw [State.enter_serve _ _ _ hupsert, State.enter_serve _ _ _ hupsert]
        refine h.answer _ ?_ (by rw [h.closed, Cluster.serve_close_of_ne hne])
        exact h.placed.of_sameSchemas (other.cluster.sameSchemas_serve handle call)
          (other.cluster.places_serve handle call)

theorem commit_left (h : Parted store index realm file dropped state other)
    {upsert : Upsert} (hm : upsert ∈ state.waiting) (hname : upsert.name ∈ dropped) :
    Parted store index realm file dropped (state.commit upsert) other := by
  obtain ⟨rfl, rfl⟩ := (h.sorted upsert hm).mp hname
  obtain ⟨found, medium, hfound, hfile⟩ := h.placed.found
  have hthrough : upsert.request.operation.isThrough upsert.handle true = true := by
    simp [Operation.isThrough]
  exact {
    toThinned := h.toThinned.commit_left hm hname hthrough
    closed := by
      have hcommit := Cluster.commit_close_self hfound hfile upsert.kind upsert.item
      rw [← h.closed] at hcommit
      exact hcommit.trans h.closed
    placed := h.placed
    sorted := fun waiting hm => h.sorted waiting (List.mem_of_mem_erase hm) }

theorem commit (h : Parted store index realm file dropped state other)
    {upsert : Upsert} (hm : upsert ∈ state.waiting) (hname : upsert.name ∉ dropped) :
    Parted store index realm file dropped (state.commit upsert)
      (other.commit upsert) := by
  have hcommit := Cluster.commit_close
    (h.careless (mt (h.sorted upsert hm).mpr hname)) upsert.kind upsert.item
  rw [← h.closed] at hcommit
  exact {
    toThinned := h.toThinned.commit hm hname fun _ => by rw [hcommit]
    closed := congrArg Prod.snd hcommit
    placed := h.placed.of_sameSchemas (other.cluster.sameSchemas_commit _ _ _)
      (other.cluster.places_commit _ _ _)
    sorted := fun waiting hm => h.sorted waiting (List.mem_of_mem_erase hm) }

theorem attach (h : Parted store index realm file dropped state other)
    {place : Nat} {opened : Realm} (hturn : state.turn? (.attach place opened) = some next) :
    ∃ more, other.turn? (.attach place opened) = some more ∧
      Parted store index realm file dropped next more := by
  have hlt : store < other.cluster.handles.length := by
    simpa [Cluster.places] using (List.getElem?_eq_some_iff.mp h.placed.place).1
  simp only [State.turn?, h.closed, Cluster.attach_close hlt] at hturn ⊢
  cases hattach : other.cluster.attach place opened with
  | error failure =>
      rw [hattach] at hturn
      cases hturn
      exact ⟨other, rfl, h⟩
  | ok cluster =>
      rw [hattach] at hturn
      cases hturn
      exact ⟨_, rfl, {
        toThinned := ⟨h.waiting, h.names, h.log⟩
        closed := rfl
        placed := h.placed.attach hattach
        sorted := h.sorted }⟩

/-- A turn that goes through the closed handle is made in the one run only. -/
theorem turn (h : Parted store index realm file dropped state other) {turn : Turn}
    (hused : dropped ⊆ state.requests.map Request.name)
    (hturn : state.turn? turn = some next) :
    if turn.isThrough store file dropped then
      Parted store index realm file dropped next other
    else ∃ more, other.turn? turn = some more ∧
      Parted store index realm file dropped next more := by
  match turn with
  | .attach place opened => exact h.attach hturn
  | .step (.enter request) =>
      simp only [State.turn?, State.freeStep?] at hturn ⊢
      split at hturn
      · cases hturn
      · rename_i hfresh
        cases hturn
        split
        · rename_i hthrough
          exact h.enter_left hthrough
        · rename_i hthrough
          refine ⟨other.enter request, if_neg (mt (@h.names _) hfresh), ?_⟩
          exact h.enter (mt (@hused _) hfresh) (Bool.eq_false_iff.mpr hthrough)
  | .step (.finish name) =>
      obtain ⟨upsert, hfind, rfl⟩ := Option.map_eq_some_iff.mp hturn
      have hm := List.mem_of_find?_eq_some hfind
      obtain rfl : upsert.name = name := by simpa using List.find?_some hfind
      simp only [Turn.isThrough, List.contains_iff_mem]
      split
      · rename_i hname
        exact h.commit_left hm hname
      · rename_i hname
        have hfound := (h.find? hname).trans hfind
        exact ⟨other.commit upsert,
          Option.map_eq_some_iff.mpr ⟨upsert, hfound, rfl⟩, h.commit hm hname⟩

theorem turns (h : Parted store index realm file dropped state other)
    {turns : List Turn} (hused : dropped ⊆ state.requests.map Request.name)
    (hrun : state.turns? turns = some final) :
    ∃ last, other.turns? (turns.filter fun turn =>
        !turn.isThrough store file dropped) = some last ∧
      Parted store index realm file dropped final last := by
  induction turns generalizing state other with
  | nil =>
      cases hrun
      exact ⟨other, rfl, h⟩
  | cons turn rest ih =>
      obtain ⟨next, hturn, hrest⟩ := Option.bind_eq_some_iff.mp hrun
      have hlater : dropped ⊆ next.requests.map Request.name :=
        List.Subset.trans hused (List.map_subset _ (requests_mono hturn))
      have hnext := h.turn hused hturn
      split at hnext
      · rename_i hthrough
        simpa [hthrough] using ih hnext hlater hrest
      · rename_i hthrough
        obtain ⟨more, hmore, hnext⟩ := hnext
        simpa [hthrough, State.turns?, hmore] using ih hnext hlater hrest

/-- At the closing the two runs part. -/
theorem start {handle : Handle} {medium : Medium} (name : Nat)
    (hnodup : (state.requests.map Request.name).Nodup)
    (hfound : state.cluster.handle store = .ok (handle, medium)) :
    Parted store handle.medium handle.realm medium.mindsClosing
      (state.late store medium.mindsClosing)
      (state.enter ⟨name, .serve store .close⟩) state where
  toThinned := (Thinned.refl state).answer_left ⟨name, .serve store .close⟩
    (by simp [Operation.isThrough])
  closed := rfl
  placed := by
    obtain ⟨hhandle, hmedium⟩ := Cluster.handle_cases hfound
    exact ⟨by simp [Cluster.places, hhandle], medium, hmedium, rfl⟩
  sorted upsert hm := by
    have hnames : (state.waiting.map Upsert.name).Nodup := by
      simp only [State.requests, List.map_append, List.map_map] at hnodup
      exact (List.nodup_append.mp hnodup).1
    have hm : upsert ∈ state.waiting := hm
    constructor
    · intro hname
      obtain ⟨found, hfound, hname⟩ := List.mem_map.mp hname
      obtain ⟨hfound, hlate⟩ := List.mem_filter.mp hfound
      obtain rfl := List.inj_on_of_nodup_map hnames hfound hm hname
      simpa using hlate
    · intro hlate
      exact List.mem_map_of_mem (List.mem_filter.mpr ⟨hm, by simpa using hlate⟩)

end Parted

/-- After any run of stores on any media a handle is closed and the run goes on.  Each
later call through the handle is answered at once and changes nothing: further
closings succeed, other calls are refused.  Without the closing and the calls through
the handle that come after it the run is a run still, it leaves the same on the media,
and what does not go through the handle is answered as before.  Only if the handle is
on a database file and has upserts under way when it is closed, their writes are
refused as well and have to be left out.  Whoever opens a store on the medium and under
the prefix of the handle later reads what was left there. -/
theorem closing_shuts_one_handle {media : List Medium} {before after : List Turn}
    {middle final : State} {name store : Nat} {handle : Handle}
    (hbefore : (State.start ⟨media, []⟩).turns? before = some middle)
    (hhandle : middle.cluster.handles[store]? = some handle)
    (hafter : middle.turns? (.step (.enter ⟨name, .serve store .close⟩) :: after) =
      some final) :
    (∀ other call, final.enter ⟨other, .serve store call⟩ =
      final.answer ⟨other, .serve store call⟩ (call.refused, final.cluster)) ∧
    ∃ medium last left next, middle.cluster.media[handle.medium]? = some medium ∧
      middle.turns? (after.filter fun turn => !turn.isThrough store
        medium.mindsClosing (middle.late store medium.mindsClosing)) = some last ∧
      final.cluster = last.cluster.close store ∧
      (last.log.filter fun answer =>
          !answer.request.operation.isThrough store medium.mindsClosing) =
        (final.log.filter fun answer =>
          !answer.request.operation.isThrough store medium.mindsClosing) ∧
      final.cluster.media[handle.medium]? = some left ∧
      final.cluster.attach handle.medium handle.realm = .ok next ∧
      next.media = final.cluster.media ∧
      ∀ kind key,
        let opened := final.cluster.handles.length
        (next.serve opened (.get kind key)).1 = left.get? handle.realm kind key ∧
        (next.serve opened (.all kind)).1 = left.all handle.realm kind ∧
        (next.serve opened .initialized).1 = left.isInitialized handle.realm := by
  have hnodup := names_nodup_turns hbefore List.nodup_nil
  have hready := ready_turns hbefore fun _ hplace => absurd hplace List.not_mem_nil
  obtain ⟨medium, hmedium, -⟩ := hready (handle.medium, handle.realm)
    (List.mem_map.mpr ⟨handle, List.mem_of_getElem? hhandle, rfl⟩)
  have hfound := Cluster.handle_eq hhandle hmedium
  obtain ⟨parted, hclose, hrest⟩ := Option.bind_eq_some_iff.mp hafter
  have hreadyFinal := ready_turns hrest (ready_turn hclose hready)
  have hused := List.Subset.trans (late_subset middle store medium.mindsClosing)
    (List.map_subset _ (requests_mono hclose))
  obtain ⟨-, rfl⟩ : _ ∧ middle.enter ⟨name, .serve store .close⟩ = parted := by
    simpa [State.turn?, State.freeStep?] using hclose
  obtain ⟨last, hlast, hparted⟩ := (Parted.start name hnodup hfound).turns hused hrest
  obtain ⟨left, hleft, -⟩ : ∃ left, final.cluster.media[handle.medium]? = some left ∧
      left.mindsClosing = medium.mindsClosing := by
    rw [hparted.closed]
    exact hparted.placed.medium
  have hplace : (handle.medium, handle.realm) ∈ final.cluster.places := by
    rw [hparted.closed, Cluster.places_close]
    exact List.mem_of_getElem? hparted.placed.place
  refine ⟨enter_closed hparted.closed, medium, last, left, _, hmedium, hlast,
    hparted.closed, hparted.log, hleft, hreadyFinal.attach_eq hplace hleft, rfl, ?_⟩
  intro kind key
  exact Cluster.reads_addHandle hleft handle.realm kind key

/-- One of two handles on a file is closed while its upsert is under way. -/
theorem closing_shuts_one_handle_under_way :
    ∃ middle final last, (State.start ⟨[.sqlite .fresh], []⟩).turns?
        [.attach 0 .standard, .attach 0 .standard,
          .step (.enter ⟨0, .serve 0 (.upsert .features (.live "a" 2 .null))⟩)] =
        some middle ∧
      middle.turns? [.step (.enter ⟨1, .serve 0 .close⟩), .step (.finish 0),
        .step (.enter ⟨2, .serve 1 (.upsert .features (.live "a" 1 .null))⟩),
        .step (.finish 2), .step (.enter ⟨3, .serve 0 .initialized⟩),
        .step (.enter ⟨4, .serve 1 (.get .features "a")⟩)] = some final ∧
      middle.turns? [
        .step (.enter ⟨2, .serve 1 (.upsert .features (.live "a" 1 .null))⟩),
        .step (.finish 2), .step (.enter ⟨4, .serve 1 (.get .features "a")⟩)] =
        some last ∧
      final.cluster = last.cluster.close 0 ∧
      (last.log.filter fun answer =>
          !answer.request.operation.isThrough 0 true) =
        final.log.filter fun answer => !answer.request.operation.isThrough 0 true := by
  obtain ⟨-, medium, last, -, -, hmedium, hlast, hclosed, hlog, -⟩ :=
    @closing_shuts_one_handle [.sqlite .fresh]
      [.attach 0 .standard, .attach 0 .standard,
        .step (.enter ⟨0, .serve 0 (.upsert .features (.live "a" 2 .null))⟩)]
      [.step (.finish 0),
        .step (.enter ⟨2, .serve 1 (.upsert .features (.live "a" 1 .null))⟩),
        .step (.finish 2), .step (.enter ⟨3, .serve 0 .initialized⟩),
        .step (.enter ⟨4, .serve 1 (.get .features "a")⟩)] _ _ 1 0 _ rfl rfl rfl
  cases hmedium
  exact ⟨_, _, last, rfl, rfl, hlast, hclosed, hlog⟩

end Schedule

end VersionedFlags
