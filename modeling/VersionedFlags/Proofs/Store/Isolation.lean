import Mathlib.Data.List.Nodup
import VersionedFlags.Proofs.Store.Alike

/-!
# Realms and kinds are isolated

The calls that write in a part of what is stored can be left out of a run: what
remains is a run, and the answers that do not depend on the part are the same in
it.  A part is everything under one prefix, or the items of one kind under it.
-/

namespace VersionedFlags

/-! ## Runs -/

/-- Whether the call of the operation, made through a handle of its realm, is
chosen. -/
def Operation.isOne (realms : List Realm) (chosen : Realm → Call → Bool) :
    Operation → Bool
  | .serve handle call => (realms[handle]?).any fun realm => chosen realm call
  | .clear _ => false

theorem Operation.isOne_eq_false_iff {realms : List Realm}
    {chosen : Realm → Call → Bool} {handle : Nat} {call : Call} :
    (Operation.serve handle call).isOne realms chosen = false ↔
      ∀ realm, realms[handle]? = some realm → chosen realm call = false := by
  simp only [isOne]
  cases realms[handle]? <;> simp

theorem Operation.of_isOne {realms : List Realm} {chosen : Realm → Call → Bool}
    {handle : Nat} {call : Call}
    (h : (Operation.serve handle call).isOne realms chosen = true) :
    ∀ realm, realms[handle]? = some realm → chosen realm call = true := by
  intro realm hrealm
  simpa [isOne, hrealm] using h

theorem Operation.isOne_mono {realms : List Realm}
    {chosen more : Realm → Call → Bool}
    (hle : ∀ realm call, chosen realm call = true → more realm call = true)
    {operation : Operation} (h : operation.isOne realms chosen = true) :
    operation.isOne realms more = true := by
  cases operation with
  | clear handle => cases h
  | serve handle call =>
      simp only [isOne, Option.any_eq_true] at h ⊢
      obtain ⟨realm, hrealm, hchosen⟩ := h
      exact ⟨realm, hrealm, hle realm call hchosen⟩

theorem Operation.isOne_disjoint {realms : List Realm}
    {chosen other : Realm → Call → Bool}
    (hdisjoint : ∀ realm call, chosen realm call = true →
      other realm call = false)
    {operation : Operation} (h : operation.isOne realms chosen = true) :
    operation.isOne realms other = false := by
  cases operation with
  | clear handle => rfl
  | serve handle call =>
      rw [isOne_eq_false_iff]
      exact fun realm hrealm => hdisjoint realm call (of_isOne h realm hrealm)

namespace Schedule

def State.enter (state : State) (request : Request) : State :=
  match request with
  | ⟨name, .serve handle (.upsert kind item)⟩ =>
      state.advise ⟨name, handle, kind, item⟩
  | request => state.atOnce request

/-- Handles may be closed at any time, also while their upserts wait. -/
def State.freeStep? (state : State) : Step → Option State
  | .enter request =>
      if request.name ∈ state.requests.map Request.name then none
      else some (state.enter request)
  | .finish name =>
      (state.waiting.find? fun upsert => upsert.name == name).map state.commit

def State.freeRun? (state : State) : List Step → Option State
  | [] => some state
  | step :: rest => (state.freeStep? step).bind fun next => next.freeRun? rest

theorem State.freeStep?_of_step? {state next : State} {step : Step}
    (h : state.step? step = some next) : state.freeStep? step = some next := by
  cases step with
  | finish name => exact h
  | enter request =>
      obtain ⟨name, operation⟩ := request
      simp only [State.step?] at h
      split at h
      · cases h
      · rename_i hfresh
        simp only [State.freeStep?, if_neg hfresh]
        cases operation with
        | clear handle => exact h
        | serve handle call =>
            cases call with
            | close =>
                simp only at h
                split at h
                · cases h
                · exact h
            | init | upsert | get | all | initialized => exact h

/-- The runs in which handles stay open while their upserts wait are among the
runs in which they need not. -/
theorem State.freeRun?_of_run? {state final : State} {steps : List Step}
    (h : state.run? steps = some final) : state.freeRun? steps = some final := by
  induction steps generalizing state with
  | nil => exact h
  | cons step rest ih =>
      obtain ⟨next, hstep, hrest⟩ := Option.bind_eq_some_iff.mp h
      simp only [State.freeRun?, State.freeStep?_of_step? hstep, Option.bind_some]
      exact ih hrest

/-- The names of the requests to be dropped. -/
def droppedNames (drops : Request → Bool) (steps : List Step) : List Nat :=
  ((steps.filterMap Step.request?).filter drops).map Request.name

/-- Leaves out all steps of the requests to be dropped. -/
def without (drops : Request → Bool) (steps : List Step) : List Step :=
  steps.filter fun step => step.name ∉ droppedNames drops steps

variable {part : Part} {realms : List Realm} {dropped : List Nat}
  {state other next : State}

/-! ### Requests of a state -/

theorem requests_answer (state : State) (request : Request)
    (result : request.operation.Reply × Cluster) :
    (state.answer request result).requests.Perm (request :: state.requests) := by
  simp only [State.requests, State.answer, List.map_append, List.map_cons,
    List.map_nil, ← List.append_assoc]
  exact List.perm_append_singleton _ _

theorem requests_wait (state : State) (upsert : Upsert) :
    (State.requests { state with waiting := state.waiting ++ [upsert] }).Perm
      (upsert.request :: state.requests) := by
  simp [State.requests]

theorem requests_advise (state : State) (upsert : Upsert) :
    (state.advise upsert).requests.Perm (upsert.request :: state.requests) := by
  simp only [State.advise]
  cases state.cluster.advise upsert.handle upsert.kind upsert.item with
  | error error => exact requests_answer state _ _
  | ok newer =>
      cases newer with
      | false => exact requests_answer state _ _
      | true => exact requests_wait state upsert

theorem requests_enter (state : State) (request : Request) :
    (state.enter request).requests.Perm (request :: state.requests) := by
  unfold State.enter
  split
  · exact requests_advise state _
  · exact requests_answer state request _

theorem requests_commit {upsert : Upsert} (hm : upsert ∈ state.waiting) :
    (state.commit upsert).requests.Perm state.requests :=
  (requests_answer _ upsert.request _).trans
    (((List.perm_cons_erase hm).map Upsert.request).append_right
      (state.log.map Answer.request)).symm

/-! ### Runs without some requests -/

/-- What relates a run to one without some steps of the dropped names, as far as
requests go: the answers of operations that are not hidden are the same. -/
structure Thinned (dropped : List Nat) (hidden : Operation → Bool)
    (state other : State) : Prop where
  waiting : (other.waiting.filter fun upsert => upsert.name ∉ dropped) =
    state.waiting.filter fun upsert => upsert.name ∉ dropped
  names : other.requests.map Request.name ⊆ state.requests.map Request.name
  log : (other.log.filter fun answer => !hidden answer.request.operation) =
    state.log.filter fun answer => !hidden answer.request.operation

namespace Thinned

variable {hidden : Operation → Bool} {upsert : Upsert}

theorem refl (state : State) : Thinned dropped hidden state state :=
  ⟨rfl, List.Subset.refl _, rfl⟩

theorem mem_waiting (h : Thinned dropped hidden state other)
    (hname : upsert.name ∉ dropped) :
    upsert ∈ other.waiting ↔ upsert ∈ state.waiting := by
  have hm : upsert ∈ (other.waiting.filter fun upsert => upsert.name ∉ dropped) ↔
      upsert ∈ state.waiting.filter fun upsert => upsert.name ∉ dropped := by
    rw [h.waiting]
  simpa [hname] using hm

theorem find? (h : Thinned dropped hidden state other) {name : Nat}
    (hname : name ∉ dropped) :
    (other.waiting.find? fun upsert => upsert.name == name) =
      state.waiting.find? fun upsert => upsert.name == name := by
  have hfilter : ∀ waiting : List Upsert,
      (waiting.filter fun upsert => upsert.name ∉ dropped).find?
        (fun upsert => upsert.name == name) =
      waiting.find? fun upsert => upsert.name == name := by
    intro waiting
    rw [List.find?_filter]
    congr 1
    funext upsert
    rw [Bool.eq_iff_iff]
    by_cases hsame : upsert.name = name
    · simp [hsame, hname]
    · simp [hsame]
  rw [← hfilter, h.waiting, hfilter]

theorem answer (h : Thinned dropped hidden state other) (request : Request)
    {left right : request.operation.Reply × Cluster}
    (hreply : hidden request.operation = false → left.1 = right.1) :
    Thinned dropped hidden (state.answer request left)
      (other.answer request right) where
  waiting := h.waiting
  names := by
    have hleft := (requests_answer state request left).map Request.name
    have hright := (requests_answer other request right).map Request.name
    exact List.Subset.trans hright.subset
      (List.Subset.trans (List.cons_subset_cons _ h.names) hleft.symm.subset)
  log := by
    simp only [State.answer, List.filter_append, h.log]
    cases hhidden : hidden request.operation with
    | true => simp [hhidden]
    | false => rw [hreply hhidden]

theorem answer_left (h : Thinned dropped hidden state other) (request : Request)
    {left : request.operation.Reply × Cluster}
    (hhidden : hidden request.operation = true) :
    Thinned dropped hidden (state.answer request left) other where
  waiting := h.waiting
  names := by
    have hleft := (requests_answer state request left).map Request.name
    exact List.Subset.trans h.names
      (List.Subset.trans (List.subset_cons_self _ _) hleft.symm.subset)
  log := by
    simp only [State.answer, List.filter_append, h.log]
    simp [hhidden]

theorem wait (h : Thinned dropped hidden state other) :
    Thinned dropped hidden { state with waiting := state.waiting ++ [upsert] }
      { other with waiting := other.waiting ++ [upsert] } where
  waiting := by simp only [List.filter_append, h.waiting]
  names := by
    have hleft := (requests_wait state upsert).map Request.name
    have hright := (requests_wait other upsert).map Request.name
    exact List.Subset.trans hright.subset
      (List.Subset.trans (List.cons_subset_cons _ h.names) hleft.symm.subset)
  log := h.log

theorem wait_left (h : Thinned dropped hidden state other)
    (hname : upsert.name ∈ dropped) :
    Thinned dropped hidden { state with waiting := state.waiting ++ [upsert] }
      other where
  waiting := by
    rw [h.waiting, List.filter_append]
    simp [hname]
  names := by
    have hleft := (requests_wait state upsert).map Request.name
    exact List.Subset.trans h.names
      (List.Subset.trans (List.subset_cons_self _ _) hleft.symm.subset)
  log := h.log

theorem commit (h : Thinned dropped hidden state other)
    (hm : upsert ∈ state.waiting) (hname : upsert.name ∉ dropped)
    (hreply : hidden upsert.request.operation = false →
      (state.cluster.commit upsert.handle upsert.kind upsert.item).1 =
        (other.cluster.commit upsert.handle upsert.kind upsert.item).1) :
    Thinned dropped hidden (state.commit upsert) (other.commit upsert) where
  waiting := by
    simp only [State.commit, State.answer, ← List.erase_filter, h.waiting]
  names := by
    have hleft := (requests_commit hm).map Request.name
    have hright := (requests_commit ((h.mem_waiting hname).mpr hm)).map Request.name
    exact List.Subset.trans hright.subset
      (List.Subset.trans h.names hleft.symm.subset)
  log := by
    simp only [State.commit, State.answer, List.filter_append, h.log]
    cases hhidden : hidden upsert.request.operation with
    | true => simp [hhidden]
    | false => rw [hreply hhidden]

theorem commit_left (h : Thinned dropped hidden state other)
    (hm : upsert ∈ state.waiting) (hname : upsert.name ∈ dropped)
    (hhidden : hidden upsert.request.operation = true) :
    Thinned dropped hidden (state.commit upsert) other where
  waiting := by
    have habsent : upsert ∉
        state.waiting.filter fun upsert => upsert.name ∉ dropped := by
      simp [hname]
    simp only [State.commit, State.answer, ← List.erase_filter, h.waiting,
      List.erase_of_not_mem habsent]
  names := List.Subset.trans h.names
    ((requests_commit hm).map Request.name).symm.subset
  log := by
    simp only [State.commit, State.answer, List.filter_append, h.log]
    simp [hhidden]

end Thinned

/-- The request clears nothing, and its name is dropped if it writes in the
part. -/
structure Request.Sorted (part : Part) (realms : List Realm)
    (dropped : List Nat) (request : Request) : Prop where
  keeps : ∀ handle, request.operation ≠ .clear handle
  named : request.name ∈ dropped ↔
    request.operation.isOne realms part.writtenBy = true

/-- What relates a run to the one without the requests that write in the
part. -/
structure Apart (part : Part) (realms : List Realm) (dropped : List Nat)
    (state other : State) : Prop extends
    Thinned dropped (fun operation => operation.isOne realms part.seenBy)
      state other where
  alike : state.cluster.Alike part other.cluster
  stay : state.cluster.realms = realms
  sorted : ∀ upsert ∈ state.waiting, upsert.request.Sorted part realms dropped

theorem Apart.answer (h : Apart part realms dropped state other)
    (request : Request) {left right : request.operation.Reply × Cluster}
    (halike : left.2.Alike part right.2) (hrealms : left.2.realms = realms)
    (hreply : request.operation.isOne realms part.seenBy = false →
      left.1 = right.1) :
    Apart part realms dropped (state.answer request left)
      (other.answer request right) where
  toThinned := h.toThinned.answer request hreply
  alike := halike
  stay := hrealms
  sorted := h.sorted

theorem Apart.answer_left (h : Apart part realms dropped state other)
    (request : Request) {left : request.operation.Reply × Cluster}
    (halike : left.2.Alike part state.cluster) (hrealms : left.2.realms = realms)
    (hseen : request.operation.isOne realms part.seenBy = true) :
    Apart part realms dropped (state.answer request left) other where
  toThinned := h.toThinned.answer_left request hseen
  alike := halike.trans h.alike
  stay := hrealms
  sorted := h.sorted

theorem Apart.wait (h : Apart part realms dropped state other)
    {upsert : Upsert} (hsorted : upsert.request.Sorted part realms dropped) :
    Apart part realms dropped
      { state with waiting := state.waiting ++ [upsert] }
      { other with waiting := other.waiting ++ [upsert] } where
  toThinned := h.toThinned.wait
  alike := h.alike
  stay := h.stay
  sorted := List.forall_mem_append.mpr
    ⟨h.sorted, List.forall_mem_singleton.mpr hsorted⟩

theorem Apart.wait_left (h : Apart part realms dropped state other)
    {upsert : Upsert} (hname : upsert.name ∈ dropped)
    (hsorted : upsert.request.Sorted part realms dropped) :
    Apart part realms dropped
      { state with waiting := state.waiting ++ [upsert] } other where
  toThinned := h.toThinned.wait_left hname
  alike := h.alike
  stay := h.stay
  sorted := List.forall_mem_append.mpr
    ⟨h.sorted, List.forall_mem_singleton.mpr hsorted⟩

theorem State.enter_serve (state : State) (name handle : Nat) {call : Call}
    (hupsert : ∀ kind item, call ≠ .upsert kind item) :
    state.enter ⟨name, .serve handle call⟩ =
      state.answer ⟨name, .serve handle call⟩
        (state.cluster.serve handle call) := by
  cases call <;> first | rfl | exact absurd rfl (hupsert _ _)

theorem Request.Sorted.kept {request : Request}
    (h : request.Sorted part realms dropped) (hname : request.name ∉ dropped) :
    request.operation.isOne realms part.writtenBy = false :=
  Bool.eq_false_iff.mpr (mt h.named.mpr hname)

theorem Apart.advise (h : Apart part realms dropped state other)
    (upsert : Upsert) (hsorted : upsert.request.Sorted part realms dropped)
    (hname : upsert.name ∉ dropped) :
    Apart part realms dropped (state.advise upsert) (other.advise upsert) := by
  have hadvise := h.alike.advise
    (h.stay ▸ Operation.isOne_eq_false_iff.mp (hsorted.kept hname)) upsert.item
  simp only [State.advise, hadvise]
  cases other.cluster.advise upsert.handle upsert.kind upsert.item with
  | error error => exact h.answer upsert.request h.alike h.stay fun _ => rfl
  | ok newer =>
      cases newer with
      | false => exact h.answer upsert.request h.alike h.stay fun _ => rfl
      | true => exact h.wait hsorted

theorem Apart.advise_left (h : Apart part realms dropped state other)
    (upsert : Upsert) (hsorted : upsert.request.Sorted part realms dropped)
    (hname : upsert.name ∈ dropped) :
    Apart part realms dropped (state.advise upsert) other := by
  have hseen := Operation.isOne_mono Part.seenBy_of_writtenBy
    (hsorted.named.mp hname)
  simp only [State.advise]
  cases state.cluster.advise upsert.handle upsert.kind upsert.item with
  | error error => exact h.answer_left upsert.request (.refl part _) h.stay hseen
  | ok newer =>
      cases newer with
      | false => exact h.answer_left upsert.request (.refl part _) h.stay hseen
      | true => exact h.wait_left hname hsorted

theorem Apart.enter (h : Apart part realms dropped state other)
    {request : Request} (hsorted : request.Sorted part realms dropped)
    (hname : request.name ∉ dropped) :
    Apart part realms dropped (state.enter request) (other.enter request) := by
  match request with
  | ⟨name, .clear handle⟩ => exact absurd rfl (hsorted.keeps handle)
  | ⟨name, .serve handle call⟩ =>
      by_cases hupsert : ∃ kind item, call = .upsert kind item
      · obtain ⟨kind, item, rfl⟩ := hupsert
        exact h.advise ⟨name, handle, kind, item⟩ hsorted hname
      · have hupsert : ∀ kind item, call ≠ .upsert kind item :=
          fun kind item heq => hupsert ⟨kind, item, heq⟩
        rw [State.enter_serve _ _ _ hupsert, State.enter_serve _ _ _ hupsert]
        obtain ⟨halike, hreply⟩ := h.alike.serve hupsert
          (h.stay ▸ Operation.isOne_eq_false_iff.mp (hsorted.kept hname))
        refine h.answer _ halike ?_ fun hseen => hreply ?_
        · rw [Cluster.realms_serve, h.stay]
        · exact h.stay ▸ Operation.isOne_eq_false_iff.mp hseen

theorem Apart.enter_left (h : Apart part realms dropped state other)
    {request : Request} (hsorted : request.Sorted part realms dropped)
    (hname : request.name ∈ dropped) :
    Apart part realms dropped (state.enter request) other := by
  have hwritten := hsorted.named.mp hname
  match request with
  | ⟨name, .clear handle⟩ => cases hwritten
  | ⟨name, .serve handle call⟩ =>
      by_cases hupsert : ∃ kind item, call = .upsert kind item
      · obtain ⟨kind, item, rfl⟩ := hupsert
        exact h.advise_left ⟨name, handle, kind, item⟩ hsorted hname
      · have hupsert : ∀ kind item, call ≠ .upsert kind item :=
          fun kind item heq => hupsert ⟨kind, item, heq⟩
        rw [State.enter_serve _ _ _ hupsert]
        refine h.answer_left _ (Cluster.serve_alike hupsert ?_) ?_
          (Operation.isOne_mono Part.seenBy_of_writtenBy hwritten)
        · exact h.stay ▸ Operation.of_isOne hwritten
        · rw [Cluster.realms_serve, h.stay]

theorem Apart.commit (h : Apart part realms dropped state other)
    {upsert : Upsert} (hm : upsert ∈ state.waiting)
    (hname : upsert.name ∉ dropped) :
    Apart part realms dropped (state.commit upsert) (other.commit upsert) := by
  obtain ⟨hreply, halike⟩ := h.alike.commit
    (h.stay ▸ Operation.isOne_eq_false_iff.mp ((h.sorted upsert hm).kept hname))
    upsert.item
  exact {
    toThinned := h.toThinned.commit hm hname fun _ => hreply
    alike := halike
    stay := (Cluster.realms_commit _ _ _ _).trans h.stay
    sorted := fun waiting hm => h.sorted waiting (List.mem_of_mem_erase hm) }

theorem Apart.commit_left (h : Apart part realms dropped state other)
    {upsert : Upsert} (hm : upsert ∈ state.waiting)
    (hname : upsert.name ∈ dropped) :
    Apart part realms dropped (state.commit upsert) other := by
  have hwritten := (h.sorted upsert hm).named.mp hname
  have halike := Cluster.commit_alike (h.stay ▸ Operation.of_isOne hwritten)
    upsert.item
  exact {
    toThinned := h.toThinned.commit_left hm hname
      (Operation.isOne_mono Part.seenBy_of_writtenBy hwritten)
    alike := halike.trans h.alike
    stay := (Cluster.realms_commit _ _ _ _).trans h.stay
    sorted := fun waiting hm => h.sorted waiting (List.mem_of_mem_erase hm) }

/-- A step of a request that is kept is made in both runs, and a step of one
that is dropped is made in the longer run only. -/
theorem Apart.step (h : Apart part realms dropped state other) {step : Step}
    (hsorted : ∀ request, step.request? = some request →
      request.Sorted part realms dropped)
    (hstep : state.freeStep? step = some next) :
    if step.name ∈ dropped then Apart part realms dropped next other
    else ∃ more, other.freeStep? step = some more ∧
      Apart part realms dropped next more := by
  match step with
  | .enter request =>
      have hsorted := hsorted request rfl
      simp only [State.freeStep?] at hstep
      split at hstep
      · cases hstep
      · rename_i hfresh
        cases hstep
        split
        · rename_i hname
          exact h.enter_left hsorted hname
        · rename_i hname
          refine ⟨other.enter request, ?_, h.enter hsorted hname⟩
          simp only [State.freeStep?, if_neg (mt (@h.names _) hfresh)]
  | .finish name =>
      obtain ⟨upsert, hfind, rfl⟩ := Option.map_eq_some_iff.mp hstep
      have hm := List.mem_of_find?_eq_some hfind
      obtain rfl : upsert.name = name := by simpa using List.find?_some hfind
      split
      · rename_i hname
        exact h.commit_left hm hname
      · rename_i hname
        have hfound := (h.find? hname).trans hfind
        refine ⟨other.commit upsert, ?_, h.commit hm hname⟩
        exact Option.map_eq_some_iff.mpr ⟨upsert, hfound, rfl⟩

theorem Apart.run {steps : List Step} {final : State}
    (h : Apart part realms dropped state other)
    (hsorted : ∀ request ∈ steps.filterMap Step.request?,
      request.Sorted part realms dropped)
    (hrun : state.freeRun? steps = some final) :
    ∃ last, other.freeRun? (steps.filter fun step => step.name ∉ dropped) =
        some last ∧ Apart part realms dropped final last := by
  induction steps generalizing state other with
  | nil =>
      cases hrun
      exact ⟨other, rfl, h⟩
  | cons step rest ih =>
      obtain ⟨next, hstep, hrest⟩ := Option.bind_eq_some_iff.mp hrun
      have hlater : ∀ request ∈ rest.filterMap Step.request?,
          request.Sorted part realms dropped := fun request hm =>
        hsorted request (((List.sublist_cons_self step rest).filterMap _).subset hm)
      have hnext := h.step (fun request heq => hsorted request
        (List.mem_filterMap.mpr ⟨step, List.mem_cons_self, heq⟩)) hstep
      split at hnext
      · rename_i hname
        obtain ⟨last, heq, hlast⟩ := ih hnext hlater hrest
        exact ⟨last, by simpa [hname] using heq, hlast⟩
      · rename_i hname
        obtain ⟨more, hmore, hnext⟩ := hnext
        obtain ⟨last, heq, hlast⟩ := ih hnext hlater hrest
        exact ⟨last, by simpa [hname, State.freeRun?, hmore] using heq, hlast⟩

/-- No two requests of a run have one name. -/
theorem names_nodup {steps : List Step} {final : State}
    (h : (state.requests.map Request.name).Nodup)
    (hrun : state.freeRun? steps = some final) :
    ((state.requests ++ steps.filterMap Step.request?).map
      Request.name).Nodup := by
  induction steps generalizing state with
  | nil => simpa using h
  | cons step rest ih =>
      obtain ⟨next, hstep, hrest⟩ := Option.bind_eq_some_iff.mp hrun
      match step with
      | .finish name =>
          obtain ⟨upsert, hfind, rfl⟩ := Option.map_eq_some_iff.mp hstep
          have hperm := requests_commit (List.mem_of_find?_eq_some hfind)
          have hnext := ih ((hperm.map Request.name).nodup_iff.mpr h) hrest
          exact ((hperm.append_right _).map Request.name).nodup_iff.mp hnext
      | .enter request =>
          simp only [State.freeStep?] at hstep
          split at hstep
          · cases hstep
          · rename_i hfresh
            cases hstep
            have hperm := requests_enter state request
            have hnext := ih ((hperm.map Request.name).nodup_iff.mpr
              (List.nodup_cons.mpr ⟨hfresh, h⟩)) hrest
            have hmove := (hperm.append_right
              (rest.filterMap Step.request?)).trans List.perm_middle.symm
            exact (hmove.map Request.name).nodup_iff.mp hnext

theorem mem_droppedNames {drops : Request → Bool} {steps : List Step}
    (h : ((steps.filterMap Step.request?).map Request.name).Nodup)
    {request : Request} (hm : request ∈ steps.filterMap Step.request?) :
    request.name ∈ droppedNames drops steps ↔ drops request = true := by
  constructor
  · intro hname
    obtain ⟨found, hfound, hname⟩ := List.mem_map.mp hname
    obtain ⟨hfound, hdrops⟩ := List.mem_filter.mp hfound
    rwa [List.inj_on_of_nodup_map h hm hfound hname.symm]
  · intro hdrops
    exact List.mem_map_of_mem (List.mem_filter.mpr ⟨hm, hdrops⟩)

/-- The run without the requests that write in the part is a run, and answers
that do not depend on the part are the same in it. -/
theorem freeRun?_without (part : Part) {cluster : Cluster} {steps : List Step}
    {final : State}
    (hclear : ∀ request ∈ steps.filterMap Step.request?,
      ∀ handle, request.operation ≠ .clear handle)
    (hrun : (State.start cluster).freeRun? steps = some final) :
    ∃ last, (State.start cluster).freeRun?
        (without (fun request =>
          request.operation.isOne cluster.realms part.writtenBy) steps) =
        some last ∧
      (last.log.filter fun answer =>
          !answer.request.operation.isOne cluster.realms part.seenBy) =
        final.log.filter fun answer =>
          !answer.request.operation.isOne cluster.realms part.seenBy := by
  have hnone : ((State.start cluster).requests.map Request.name).Nodup :=
    List.nodup_nil
  have hnodup : ((steps.filterMap Step.request?).map Request.name).Nodup :=
    names_nodup hnone hrun
  have hstart : Apart part cluster.realms
      (droppedNames (fun request =>
        request.operation.isOne cluster.realms part.writtenBy) steps)
      (.start cluster) (.start cluster) := {
    toThinned := .refl _
    alike := .refl part cluster
    stay := rfl
    sorted := by simp [State.start] }
  obtain ⟨last, hlast, happart⟩ := hstart.run
    (fun request hm => ⟨hclear request hm, mem_droppedNames hnodup hm⟩) hrun
  exact ⟨last, hlast, happart.log⟩

theorem filter_eq_of_le {α : Type} {keep more : α → Bool} {left right : List α}
    (hle : ∀ a, keep a = true → more a = true)
    (h : left.filter more = right.filter more) :
    left.filter keep = right.filter keep := by
  have hfilter : ∀ list : List α, list.filter keep =
      (list.filter more).filter keep := by
    intro list
    rw [List.filter_filter]
    congr 1
    funext a
    cases hkeep : keep a with
    | false => rfl
    | true => simp [hle a hkeep]
  rw [hfilter, h, ← hfilter]

end Schedule

/-! ## Prefixes and kinds -/

namespace Call

/-- Whether the call is an upsert, or a deletion, of the kind. -/
def upserts (kind : Kind) : Call → Bool
  | .upsert written _ => written == kind
  | .init _ | .get _ _ | .all _ | .initialized | .close => false

/-- Whether the call reads or upserts the kind. -/
def concerns (kind : Kind) : Call → Bool
  | .get asked _ | .all asked | .upsert asked _ => asked == kind
  | .init _ | .initialized | .close => false

theorem not_concerns {kind other : Kind} (hne : kind ≠ other) {call : Call}
    (h : call.concerns other = true) : call.concerns kind = false := by
  cases call with
  | init _ | initialized | close => rfl
  | get asked _ | all asked | upsert asked _ =>
      obtain rfl : asked = other := by simpa [concerns] using h
      simpa [concerns] using hne.symm

end Call

namespace Part

theorem writtenBy_whole (own : Realm) :
    (whole own).writtenBy = fun realm call => realm == own && call.alters := by
  funext realm call
  cases call <;> simp [writtenBy, owns, covers, Call.alters]

theorem writtenBy_items (own : Realm) (kind : Kind) :
    (items own kind).writtenBy = fun realm call =>
      realm == own && call.upserts kind := by
  funext realm call
  cases call <;> simp [writtenBy, owns, covers, Call.upserts]

theorem seenBy_whole (own : Realm) :
    (whole own).seenBy = fun realm _ => realm == own := by
  funext realm call
  cases call <;> rfl

theorem seenBy_items (own : Realm) (kind : Kind) :
    (items own kind).seenBy = fun realm call =>
      realm == own && call.concerns kind := by
  funext realm call
  cases call <;> simp [seenBy, owns, covers, Call.concerns]

end Part

/-- The names that select one realm. -/
theorem Realm.ofName?_eq_iff (left right : Option String) :
    Realm.ofName? left = Realm.ofName? right ↔
      left = right ∨ left ∈ [none, some "", some "flagstore"] ∧
        right ∈ [none, some "", some "flagstore"] := by
  have hstandard : ∀ name ∈ [none, some "", some "flagstore"],
      Realm.ofName? name = standard := by decide
  have hother : ∀ name ∉ [none, some "", some "flagstore"],
      name = some (Realm.ofName? name).name ∧ Realm.ofName? name ≠ standard := by
    intro name hm
    cases name with
    | none => simp at hm
    | some text =>
        obtain ⟨hempty, hname⟩ : text ≠ "" ∧ text ≠ "flagstore" := by
          simpa using hm
        simp [Realm.ofName?, hempty, hname, standard]
  constructor
  · intro h
    by_cases hleft : left ∈ [none, some "", some "flagstore"]
    · by_cases hright : right ∈ [none, some "", some "flagstore"]
      · exact .inr ⟨hleft, hright⟩
      · exact absurd (h.symm.trans (hstandard left hleft)) (hother right hright).2
    · by_cases hright : right ∈ [none, some "", some "flagstore"]
      · exact absurd (h.trans (hstandard right hright)) (hother left hleft).2
      · refine .inl ?_
        rw [(hother left hleft).1, h, ← (hother right hright).1]
  · rintro (rfl | ⟨hleft, hright⟩)
    · rfl
    · rw [hstandard left hleft, hstandard right hright]

namespace Schedule

/-- The initializations, upserts and closings through the handles of one prefix
can be left out of a run without a change of an answer through a handle of
another prefix, and under one prefix the upserts of one kind can be left out
without a change of an answer about the other kind. -/
theorem run_isolated {cluster : Cluster} {steps : List Step} {final : State}
    (hclear : ∀ request ∈ steps.filterMap Step.request?,
      ∀ handle, request.operation ≠ .clear handle)
    (hrun : (State.start cluster).freeRun? steps = some final) :
    (∀ hidden seen : Option String,
      Realm.ofName? hidden ≠ Realm.ofName? seen →
      ∃ last, (State.start cluster).freeRun?
          (without (fun request => request.operation.isOne cluster.realms
            fun realm call => realm == Realm.ofName? hidden && call.alters)
            steps) = some last ∧
        (last.log.filter fun answer =>
            answer.request.operation.isOne cluster.realms
              fun realm _ => realm == Realm.ofName? seen) =
          final.log.filter fun answer =>
            answer.request.operation.isOne cluster.realms
              fun realm _ => realm == Realm.ofName? seen) ∧
    (∀ (name : Option String) (hidden seen : Kind), hidden ≠ seen →
      ∃ last, (State.start cluster).freeRun?
          (without (fun request => request.operation.isOne cluster.realms
            fun realm call => realm == Realm.ofName? name && call.upserts hidden)
            steps) = some last ∧
        (last.log.filter fun answer =>
            answer.request.operation.isOne cluster.realms
              fun realm call => realm == Realm.ofName? name &&
                call.concerns seen) =
          final.log.filter fun answer =>
            answer.request.operation.isOne cluster.realms
              fun realm call => realm == Realm.ofName? name &&
                call.concerns seen) ∧
    ∀ left right, Realm.ofName? left = Realm.ofName? right ↔
      left = right ∨ left ∈ [none, some "", some "flagstore"] ∧
        right ∈ [none, some "", some "flagstore"] := by
  refine ⟨fun hidden seen hne => ?_, fun name hidden seen hne => ?_,
    Realm.ofName?_eq_iff⟩
  · obtain ⟨last, hlast, hlog⟩ :=
      freeRun?_without (.whole (Realm.ofName? hidden)) hclear hrun
    simp only [Part.writtenBy_whole, Part.seenBy_whole] at hlast hlog
    refine ⟨last, hlast, filter_eq_of_le (fun answer h => ?_) hlog⟩
    rw [Operation.isOne_disjoint ?_ h]
    · rfl
    · intro realm call hseen
      rw [beq_iff_eq] at hseen
      simpa [hseen] using hne.symm
  · obtain ⟨last, hlast, hlog⟩ :=
      freeRun?_without (.items (Realm.ofName? name) hidden) hclear hrun
    simp only [Part.writtenBy_items, Part.seenBy_items] at hlast hlog
    refine ⟨last, hlast, filter_eq_of_le (fun answer h => ?_) hlog⟩
    rw [Operation.isOne_disjoint ?_ h]
    · rfl
    · intro realm call hseen
      obtain ⟨-, hconcerns⟩ := Bool.and_eq_true_iff.mp hseen
      rw [Call.not_concerns hne hconcerns, Bool.and_false]

theorem run_isolated_closed_under_way :
    ∃ cluster final, cluster.realms =
        [.ofName? none, .ofName? (some "flagstore:features")] ∧
      (State.start cluster).freeRun?
        [.enter ⟨0, .serve 0 (.upsert .features (.live "a" 1 .null))⟩,
          .enter ⟨1, .serve 1 (.upsert .features (.live "a" 1 .null))⟩,
          .enter ⟨2, .serve 0 .close⟩, .finish 0, .finish 1,
          .enter ⟨3, .serve 1 .initialized⟩] = some final ∧
      ∃ last, (State.start cluster).freeRun?
          [.enter ⟨1, .serve 1 (.upsert .features (.live "a" 1 .null))⟩,
            .finish 1, .enter ⟨3, .serve 1 .initialized⟩] = some last ∧
        last.log = final.log.drop 2 := by
  have hclear : ∀ request ∈ List.filterMap Step.request?
      [.enter ⟨0, .serve 0 (.upsert .features (.live "a" 1 .null))⟩,
        .enter ⟨1, .serve 1 (.upsert .features (.live "a" 1 .null))⟩,
        .enter ⟨2, .serve 0 .close⟩, .finish 0, .finish 1,
        .enter ⟨3, .serve 1 .initialized⟩],
      ∀ handle, request.operation ≠ .clear handle := by
    simp [Step.request?]
  obtain ⟨cluster, hcluster⟩ : ∃ cluster : Cluster, cluster =
      ⟨[.sqlite (.intact .migrated)], [⟨0, .ofName? none, false⟩,
        ⟨0, .ofName? (some "flagstore:features"), false⟩]⟩ := ⟨_, rfl⟩
  obtain ⟨last, hlast, hlog⟩ := (@run_isolated cluster _ _ hclear
    (by rw [hcluster]; rfl)).1 none (some "flagstore:features") (by decide)
  subst hcluster
  refine ⟨_, _, rfl, rfl, last, hlast, ?_⟩
  cases hlast
  exact hlog

end Schedule

end VersionedFlags
