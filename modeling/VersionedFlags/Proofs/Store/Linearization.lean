import VersionedFlags.Proofs.Store.Atomic

/-!
# Upserts are linearizable

Callers share media through any number of handles.  An upsert takes two steps,
the advisory read and the conditional write, and between them other callers may
take theirs; only the handle of the upsert stays open.  The answers of every
such run, and the media it leaves, are those of a run in which each operation
happens at once at one of its own steps.
-/

namespace VersionedFlags

/-! ## Upserts through handles -/

namespace Cluster

def Sound (cluster : Cluster) : Prop :=
  ∀ medium ∈ cluster.media, medium.Sound

def IsOpen (cluster : Cluster) (handle : Nat) : Prop :=
  ∃ found, cluster.openHandle handle = .ok found

def upsertAtOnce (cluster : Cluster) (index : Nat) (kind : Kind) (item : Item) :
    Except StoreError Outcome × Cluster :=
  match cluster.openHandle index with
  | .error error => (.error error, cluster)
  | .ok (handle, medium) =>
      let (reply, medium) := medium.upsertAtOnce handle.realm kind item
      (reply, cluster.setMedium handle.medium medium)

variable {cluster : Cluster} {index : Nat}

theorem openHandle_cases {handle : Handle} {medium : Medium}
    (h : cluster.openHandle index = .ok (handle, medium)) :
    cluster.handle index = .ok (handle, medium) ∧
      cluster.handles[index]? = some handle ∧ handle.closed = false ∧
      cluster.media[handle.medium]? = some medium := by
  obtain ⟨⟨found, on⟩, hfound, h⟩ := exists_of_bind_eq_ok h
  cases hclosed : found.closed with
  | true =>
      simp only [hclosed, if_true] at h
      cases h
  | false =>
      simp only [hclosed, Bool.false_eq_true, if_false] at h
      cases h
      refine ⟨hfound, ?_⟩
      simp only [Cluster.handle] at hfound
      split at hfound
      · cases hfound
      · rename_i other hhandle
        split at hfound
        · cases hfound
        · rename_i hmedium
          cases hfound
          exact ⟨hhandle, hclosed, hmedium⟩

theorem isOpen_iff :
    cluster.IsOpen index ↔
      ∃ handle, cluster.handles[index]? = some handle ∧
        handle.closed = false ∧ handle.medium < cluster.media.length := by
  constructor
  · rintro ⟨⟨handle, medium⟩, h⟩
    obtain ⟨-, hhandle, hclosed, hmedium⟩ := openHandle_cases h
    exact ⟨handle, hhandle, hclosed, (List.getElem?_eq_some_iff.mp hmedium).1⟩
  · rintro ⟨handle, hhandle, hclosed, hlt⟩
    refine ⟨(handle, cluster.media[handle.medium]), ?_⟩
    simp only [openHandle, Cluster.handle, hhandle,
      List.getElem?_eq_getElem hlt, ok_bind, hclosed]
    rfl

theorem setMedium_self {medium : Medium} {place : Nat}
    (h : cluster.media[place]? = some medium) :
    cluster.setMedium place medium = cluster := by
  obtain ⟨hlt, rfl⟩ := List.getElem?_eq_some_iff.mp h
  simp [setMedium]

theorem Sound.advise (h : cluster.Sound) (index : Nat) (kind : Kind)
    (item : Item) :
    (∃ error, cluster.advise index kind item = .error error ∧
      cluster.upsertAtOnce index kind item = (.error error, cluster)) ∨
    cluster.advise index kind item = .ok false ∧
      cluster.upsertAtOnce index kind item = (.ok .superseded, cluster) ∨
    cluster.advise index kind item = .ok true ∧ cluster.IsOpen index := by
  cases hopen : cluster.openHandle index with
  | error error =>
      refine .inl ⟨error, ?_, ?_⟩
      · simp only [Cluster.advise, hopen, error_bind]
      · simp only [upsertAtOnce, hopen]
  | ok found =>
      obtain ⟨handle, medium⟩ := found
      obtain ⟨-, -, -, hmedium⟩ := openHandle_cases hopen
      simp only [Cluster.advise, upsertAtOnce, hopen, ok_bind]
      rcases (h medium (List.mem_of_getElem? hmedium)).advise handle.realm kind
          item with heq | ⟨heq, honce⟩
      · exact .inr (.inr ⟨heq, _, hopen⟩)
      · refine .inr (.inl ⟨heq, ?_⟩)
        rw [honce, setMedium_self hmedium]

theorem Sound.commit (h : cluster.Sound) (hopen : cluster.IsOpen index)
    (kind : Kind) (item : Item) :
    cluster.commit index kind item = cluster.upsertAtOnce index kind item := by
  obtain ⟨⟨handle, medium⟩, hopen⟩ := hopen
  obtain ⟨hhandle, -, hclosed, hmedium⟩ := openHandle_cases hopen
  have hsound := h medium (List.mem_of_getElem? hmedium)
  simp only [Cluster.commit, hhandle, ok_bind, hclosed, hsound.commit,
    upsertAtOnce, hopen]
  cases honce : medium.upsertAtOnce handle.realm kind item with
  | mk reply next =>
      cases reply with
      | ok outcome => rfl
      | error error =>
          cases Medium.eq_of_upsertAtOnce_error honce
          rw [setMedium_self hmedium]
          rfl

/-! ## What keeps media sound and handles open -/

theorem Sound.setMedium (h : cluster.Sound) {place : Nat} {medium : Medium}
    (hmedium : medium.Sound) : (cluster.setMedium place medium).Sound := by
  intro other hm
  rcases List.mem_or_eq_of_mem_set hm with hm | rfl
  · exact h other hm
  · exact hmedium

theorem IsOpen.setMedium (h : cluster.IsOpen index) (place : Nat)
    (medium : Medium) : (cluster.setMedium place medium).IsOpen index := by
  rw [isOpen_iff] at h ⊢
  simpa [Cluster.setMedium] using h

theorem IsOpen.close (h : cluster.IsOpen index) {other : Nat}
    (hne : index ≠ other) : (cluster.close other).IsOpen index := by
  rw [isOpen_iff] at h ⊢
  simpa [Cluster.close, List.getElem?_modify, hne.symm] using h

theorem Sound.upsertAtOnce (h : cluster.Sound) (index : Nat) (kind : Kind)
    (item : Item) :
    (cluster.upsertAtOnce index kind item).2.Sound ∧
      ∀ handle, cluster.IsOpen handle →
        (cluster.upsertAtOnce index kind item).2.IsOpen handle := by
  simp only [Cluster.upsertAtOnce]
  cases hopen : cluster.openHandle index with
  | error error => exact ⟨h, fun _ => id⟩
  | ok found =>
      obtain ⟨handle, medium⟩ := found
      obtain ⟨-, -, -, hmedium⟩ := openHandle_cases hopen
      have hsound := h medium (List.mem_of_getElem? hmedium)
      exact ⟨h.setMedium (hsound.upsertAtOnce handle.realm kind item),
        fun _ hother => hother.setMedium _ _⟩

theorem Sound.init (h : cluster.Sound) (index : Nat) (data : DataSet) :
    (cluster.init index data).2.Sound ∧
      ∀ handle, cluster.IsOpen handle →
        (cluster.init index data).2.IsOpen handle := by
  simp only [Cluster.init]
  cases hopen : cluster.openHandle index with
  | error error => exact ⟨h, fun _ => id⟩
  | ok found =>
      obtain ⟨handle, medium⟩ := found
      obtain ⟨-, -, -, hmedium⟩ := openHandle_cases hopen
      have hsound := h medium (List.mem_of_getElem? hmedium)
      simp only [ok_bind]
      cases hinit : medium.init handle.realm data with
      | error error => exact ⟨h, fun _ => id⟩
      | ok next =>
          exact ⟨h.setMedium (hsound.init hinit),
            fun _ hother => hother.setMedium _ _⟩

theorem Sound.clear (h : cluster.Sound) (index : Nat) :
    (cluster.clear index).2.Sound ∧
      ∀ handle, cluster.IsOpen handle → (cluster.clear index).2.IsOpen handle := by
  simp only [Cluster.clear]
  cases hfound : cluster.handle index with
  | error error => exact ⟨h, fun _ => id⟩
  | ok found =>
      obtain ⟨handle, medium⟩ := found
      simp only
      split
      · exact ⟨h, fun _ => id⟩
      · have hmedium : medium ∈ cluster.media := by
          simp only [Cluster.handle] at hfound
          split at hfound
          · cases hfound
          · split at hfound
            · cases hfound
            · rename_i hmedium
              cases hfound
              exact List.mem_of_getElem? hmedium
        exact ⟨h.setMedium (h medium hmedium).clear,
          fun _ hother => hother.setMedium _ _⟩

end Cluster

/-! ## Operations at once -/

inductive Operation where
  | serve (handle : Nat) (call : Call)
  /-- Deletes everything of every realm from the medium of a handle. -/
  | clear (handle : Nat)
  deriving DecidableEq, Repr

namespace Operation

abbrev Reply : Operation → Type
  | .serve _ call => call.Reply
  | .clear _ => Except StoreError Unit

def atOnce (cluster : Cluster) :
    (operation : Operation) → operation.Reply × Cluster
  | .serve handle (.upsert kind item) => cluster.upsertAtOnce handle kind item
  | .serve handle call => cluster.serve handle call
  | .clear handle => cluster.clear handle

theorem sound_atOnce {cluster : Cluster} (h : cluster.Sound)
    (operation : Operation) : (operation.atOnce cluster).2.Sound := by
  match operation with
  | .clear handle => exact (h.clear handle).1
  | .serve handle (.init data) => exact (h.init handle data).1
  | .serve handle (.upsert kind item) => exact (h.upsertAtOnce handle kind item).1
  | .serve handle (.get _ _) | .serve handle (.all _)
  | .serve handle .initialized | .serve handle .close => exact h

theorem isOpen_atOnce {cluster : Cluster} (h : cluster.Sound)
    {operation : Operation} {index : Nat} (hopen : cluster.IsOpen index)
    (hclose : operation ≠ .serve index .close) :
    (operation.atOnce cluster).2.IsOpen index := by
  match operation, hclose with
  | .clear handle, _ => exact (h.clear handle).2 index hopen
  | .serve handle (.init data), _ => exact (h.init handle data).2 index hopen
  | .serve handle (.upsert kind item), _ =>
      exact (h.upsertAtOnce handle kind item).2 index hopen
  | .serve handle .close, hclose =>
      exact hopen.close fun hsame => hclose (by rw [hsame])
  | .serve handle (.get _ _), _ | .serve handle (.all _), _
  | .serve handle .initialized, _ => exact hopen

end Operation

/-! ## Interleaved steps -/

namespace Schedule

/-- An operation under a name that no other operation of the run has. -/
structure Request where
  name : Nat
  operation : Operation
  deriving DecidableEq, Repr

structure Answer where
  request : Request
  reply : request.operation.Reply

/-- An upsert after its advisory read. -/
structure Upsert where
  name : Nat
  handle : Nat
  kind : Kind
  item : Item
  deriving DecidableEq, Repr

abbrev Upsert.request (upsert : Upsert) : Request :=
  ⟨upsert.name, .serve upsert.handle (.upsert upsert.kind upsert.item)⟩

inductive Step where
  /-- The only step of an operation, or the advisory read of an upsert. -/
  | enter (request : Request)
  /-- The conditional write of an upsert. -/
  | finish (name : Nat)
  deriving DecidableEq, Repr

def Step.name : Step → Nat
  | .enter request => request.name
  | .finish name => name

def Step.request? : Step → Option Request
  | .enter request => some request
  | .finish _ => none

structure State where
  cluster : Cluster
  waiting : List Upsert
  /-- The answers given so far, in their order. -/
  log : List Answer

def State.start (cluster : Cluster) : State := ⟨cluster, [], []⟩

def State.requests (state : State) : List Request :=
  state.waiting.map Upsert.request ++ state.log.map Answer.request

def State.answer (state : State) (request : Request)
    (result : request.operation.Reply × Cluster) : State :=
  { state with
    cluster := result.2, log := state.log ++ [⟨request, result.1⟩] }

/-- The advisory read of an upsert, which answers it unless it goes on. -/
def State.advise (state : State) (upsert : Upsert) : State :=
  match state.cluster.advise upsert.handle upsert.kind upsert.item with
  | .error error => state.answer upsert.request (.error error, state.cluster)
  | .ok false => state.answer upsert.request (.ok .superseded, state.cluster)
  | .ok true => { state with waiting := state.waiting ++ [upsert] }

def State.commit (state : State) (upsert : Upsert) : State :=
  { state with waiting := state.waiting.erase upsert }.answer upsert.request
    (state.cluster.commit upsert.handle upsert.kind upsert.item)

/-- `none` for a name in use, a handle that is closed while one of its upserts
waits, and an upsert that does not wait. -/
def State.step? (state : State) : Step → Option State
  | .finish name =>
      (state.waiting.find? fun upsert => upsert.name == name).map state.commit
  | .enter ⟨name, operation⟩ =>
      if name ∈ state.requests.map Request.name then none
      else
        match operation with
        | .serve handle (.upsert kind item) =>
            some (state.advise ⟨name, handle, kind, item⟩)
        | .serve handle .close =>
            if handle ∈ state.waiting.map Upsert.handle then none
            else
              some (state.answer ⟨name, .serve handle .close⟩
                (state.cluster.serve handle .close))
        | .serve handle call =>
            some (state.answer ⟨name, .serve handle call⟩
              (state.cluster.serve handle call))
        | .clear handle =>
            some (state.answer ⟨name, .clear handle⟩
              (state.cluster.clear handle))

def State.run? (state : State) : List Step → Option State
  | [] => some state
  | step :: rest => (state.step? step).bind fun next => next.run? rest

/-- The answers and the media of a run in which every operation happens at
once, in the given order. -/
def replay (cluster : Cluster) : List Request → List Answer × Cluster
  | [] => ([], cluster)
  | request :: rest =>
      let (reply, cluster) := request.operation.atOnce cluster
      let (answers, cluster) := replay cluster rest
      (⟨request, reply⟩ :: answers, cluster)

theorem replay_append {initial middle : Cluster} {requests : List Request}
    {answers : List Answer} (h : replay initial requests = (answers, middle))
    (request : Request) :
    replay initial (requests ++ [request]) =
      (answers ++ [⟨request, (request.operation.atOnce middle).1⟩],
        (request.operation.atOnce middle).2) := by
  induction requests generalizing initial answers with
  | nil =>
      cases h
      rfl
  | cons first rest ih =>
      simp only [replay, Prod.mk.injEq] at h
      obtain ⟨rfl, rfl⟩ := h
      simp only [List.cons_append, replay, ih (Prod.ext rfl rfl)]

/-! ## What one step does -/

/-- Every waiting upsert can still make its write. -/
def State.Held (state : State) : Prop :=
  ∀ upsert ∈ state.waiting, state.cluster.IsOpen upsert.handle

def State.atOnce (state : State) (request : Request) : State :=
  state.answer request (request.operation.atOnce state.cluster)

theorem State.advise_cases {state : State} (hsound : state.cluster.Sound)
    (upsert : Upsert) :
    state.advise upsert = state.atOnce upsert.request ∨
      state.cluster.IsOpen upsert.handle ∧
        state.advise upsert =
          { state with waiting := state.waiting ++ [upsert] } := by
  rcases hsound.advise upsert.handle upsert.kind upsert.item with
    ⟨error, heq, honce⟩ | ⟨heq, honce⟩ | ⟨heq, hopen⟩
  · exact .inl (by simp [State.advise, State.atOnce, heq, Operation.atOnce, honce])
  · exact .inl (by simp [State.advise, State.atOnce, heq, Operation.atOnce, honce])
  · exact .inr ⟨hopen, by simp [State.advise, heq]⟩

/-- A step is a whole operation, or it is an advisory read that lets its upsert
go on, or it is the write of an upsert, which is the whole upsert as well. -/
theorem State.step_cases {state next : State} {step : Step}
    (hsound : state.cluster.Sound) (hheld : state.Held)
    (h : state.step? step = some next) :
    (∃ request, step = .enter request ∧
      request.name ∉ state.requests.map Request.name ∧
      (∀ upsert ∈ state.waiting,
        request.operation ≠ .serve upsert.handle .close) ∧
      next = state.atOnce request) ∨
    (∃ upsert : Upsert, step = .enter upsert.request ∧
      upsert.name ∉ state.requests.map Request.name ∧
      state.cluster.IsOpen upsert.handle ∧
      next = { state with waiting := state.waiting ++ [upsert] }) ∨
    ∃ upsert ∈ state.waiting, step = .finish upsert.name ∧
      next = { state with waiting := state.waiting.erase upsert }.atOnce
        upsert.request := by
  match step with
  | .finish name =>
      obtain ⟨upsert, hfind, rfl⟩ := Option.map_eq_some_iff.mp h
      have hm := List.mem_of_find?_eq_some hfind
      have hname : upsert.name = name := by simpa using List.find?_some hfind
      refine .inr (.inr ⟨upsert, hm, by rw [hname], ?_⟩)
      simp [State.commit, State.atOnce, Operation.atOnce,
        hsound.commit (hheld upsert hm)]
  | .enter ⟨name, operation⟩ =>
      simp only [State.step?] at h
      split at h
      · cases h
      · rename_i hfresh
        match operation with
        | .serve handle (.upsert kind item) =>
            cases h
            rcases State.advise_cases hsound ⟨name, handle, kind, item⟩ with
              heq | ⟨hopen, heq⟩
            · exact .inl ⟨_, rfl, hfresh, by simp, heq⟩
            · exact .inr (.inl ⟨⟨name, handle, kind, item⟩, rfl, hfresh, hopen,
                heq⟩)
        | .serve handle .close =>
            simp only at h
            split at h
            · cases h
            · rename_i hidle
              cases h
              refine .inl ⟨_, rfl, hfresh, ?_, rfl⟩
              rintro upsert hm heq
              cases heq
              exact hidle (List.mem_map_of_mem hm)
        | .serve handle (.init _) | .serve handle (.get _ _)
        | .serve handle (.all _) | .serve handle .initialized
        | .clear handle =>
            cases h
            exact .inl ⟨_, rfl, hfresh, by simp, rfl⟩

/-! ## Runs -/

/-- What holds after some steps: the answers and the media are those of the
answered operations at once, in the order of their answers, and each operation
is answered at one of its own steps. -/
structure Linear (initial : Cluster) (past : List Step) (state : State) :
    Prop where
  sound : state.cluster.Sound
  held : state.Held
  replayed : replay initial (state.log.map Answer.request) =
    (state.log, state.cluster)
  within : (state.log.map fun answer => answer.request.name).Sublist
    (past.map Step.name)
  distinct : (state.requests.map Request.name).Nodup
  perm : (past.filterMap Step.request?).Perm state.requests

variable {initial : Cluster} {past : List Step} {state next : State}

theorem linear_start (h : initial.Sound) : Linear initial [] (.start initial) where
  sound := h
  held := by simp [State.Held, State.start]
  replayed := rfl
  within := List.Sublist.slnil
  distinct := List.nodup_nil
  perm := List.Perm.nil

theorem Linear.replayed_atOnce (h : Linear initial past state)
    (request : Request) :
    replay initial ((state.atOnce request).log.map Answer.request) =
      ((state.atOnce request).log, (state.atOnce request).cluster) := by
  have hreplay := replay_append h.replayed request
  simpa [State.atOnce, State.answer] using hreplay

theorem Linear.within_atOnce (h : Linear initial past state)
    {request : Request} {step : Step} (hname : step.name = request.name) :
    ((state.atOnce request).log.map fun answer => answer.request.name).Sublist
      ((past ++ [step]).map Step.name) := by
  simp only [State.atOnce, State.answer, List.map_append, List.map_cons,
    List.map_nil, hname]
  exact h.within.append (List.Sublist.refl _)

theorem requests_atOnce (state : State) (request : Request) :
    (state.atOnce request).requests.Perm (request :: state.requests) := by
  simp only [State.requests, State.atOnce, State.answer, List.map_append,
    List.map_cons, List.map_nil, ← List.append_assoc]
  exact List.perm_append_singleton _ _

theorem Linear.enter (h : Linear initial past state) {request : Request}
    (hfresh : request.name ∉ state.requests.map Request.name)
    (hrequests : next.requests.Perm (request :: state.requests)) :
    (next.requests.map Request.name).Nodup ∧
      ((past ++ [Step.enter request]).filterMap Step.request?).Perm
        next.requests := by
  constructor
  · rw [(hrequests.map Request.name).nodup_iff, List.map_cons, List.nodup_cons]
    exact ⟨hfresh, h.distinct⟩
  · rw [List.filterMap_append]
    exact ((h.perm.append_right [request]).trans
      (List.perm_append_singleton _ _)).trans hrequests.symm

theorem Linear.step (h : Linear initial past state) {step : Step}
    (hstep : state.step? step = some next) :
    Linear initial (past ++ [step]) next := by
  rcases State.step_cases h.sound h.held hstep with
    ⟨request, rfl, hfresh, hclose, rfl⟩ | ⟨upsert, rfl, hfresh, hopen, rfl⟩ |
      ⟨upsert, hm, rfl, rfl⟩
  · obtain ⟨hdistinct, hperm⟩ := h.enter hfresh (requests_atOnce state request)
    exact {
      sound := Operation.sound_atOnce h.sound request.operation
      held := fun upsert hm => Operation.isOpen_atOnce h.sound
        (h.held upsert hm) (hclose upsert hm)
      replayed := h.replayed_atOnce request
      within := h.within_atOnce rfl
      distinct := hdistinct
      perm := hperm }
  · have hrequests : ({ state with waiting := state.waiting ++ [upsert] } :
        State).requests.Perm (upsert.request :: state.requests) := by
      simp [State.requests]
    obtain ⟨hdistinct, hperm⟩ := h.enter hfresh hrequests
    exact {
      sound := h.sound
      held := by
        intro other hm
        rcases List.mem_append.mp hm with hm | hm
        · exact h.held other hm
        · cases List.mem_singleton.mp hm
          exact hopen
      replayed := h.replayed
      within := h.within.trans (by simp)
      distinct := hdistinct
      perm := hperm }
  · have hrequests := (requests_atOnce
      { state with waiting := state.waiting.erase upsert } upsert.request).trans
        (((List.perm_cons_erase hm).map Upsert.request).append_right
          (state.log.map Answer.request)).symm
    exact {
      sound := Operation.sound_atOnce h.sound _
      held := fun other hother => Operation.isOpen_atOnce h.sound
        (h.held other (List.mem_of_mem_erase hother)) (by simp)
      replayed := h.replayed_atOnce upsert.request
      within := h.within_atOnce rfl
      distinct := (hrequests.map Request.name).nodup_iff.mpr h.distinct
      perm := by
        have hnone : [Step.finish upsert.name].filterMap Step.request? = [] := rfl
        rw [List.filterMap_append, hnone, List.append_nil]
        exact h.perm.trans hrequests.symm }

theorem Linear.run {steps : List Step} (h : Linear initial past state)
    (hrun : state.run? steps = some next) :
    Linear initial (past ++ steps) next := by
  induction steps generalizing past state with
  | nil =>
      cases hrun
      simpa using h
  | cons step rest ih =>
      obtain ⟨middle, hstep, hrest⟩ := Option.bind_eq_some_iff.mp hrun
      simpa using ih (h.step hstep) hrest

/-- Every run has the answers and the media of the run in which its answered
operations happen at once, in the order of their answers.  Every operation that
was entered is answered once, at one of its own steps, or still waits. -/
theorem run_linearizable {cluster : Cluster} (hsound : cluster.Sound)
    {steps : List Step} {final : State}
    (hrun : (State.start cluster).run? steps = some final) :
    replay cluster (final.log.map Answer.request) = (final.log, final.cluster) ∧
      (final.log.map fun answer => answer.request.name).Sublist
        (steps.map Step.name) ∧
      (steps.filterMap Step.request?).Perm
        (final.waiting.map Upsert.request ++ final.log.map Answer.request) ∧
      ((steps.filterMap Step.request?).map Request.name).Nodup := by
  have h := (linear_start hsound).run hrun
  refine ⟨h.replayed, h.within, h.perm, ?_⟩
  exact (h.perm.map Request.name).nodup_iff.mpr h.distinct

theorem run_overtaken :
    ∃ cluster : Cluster, cluster.Sound ∧ ∃ final,
      (State.start cluster).run?
        [.enter ⟨0, .serve 0 (.upsert .features (.live "a" 1 .null))⟩,
          .enter ⟨1, .serve 1 (.upsert .features (.live "a" 2 .null))⟩,
          .finish 1, .finish 0] = some final ∧
      final.log =
        [⟨⟨1, .serve 1 (.upsert .features (.live "a" 2 .null))⟩, .ok .applied⟩,
          ⟨⟨0, .serve 0 (.upsert .features (.live "a" 1 .null))⟩,
            .ok .superseded⟩] ∧
      replay cluster (final.log.map Answer.request) =
        (final.log, final.cluster) := by
  have hsound : Cluster.Sound ⟨[.sqlite (.intact .migrated)],
      [⟨0, .ofName? none, false⟩, ⟨0, .ofName? none, false⟩]⟩ := by
    intro medium hm
    cases List.mem_singleton.mp hm
    exact ⟨[], rfl, by simp⟩
  refine ⟨_, hsound, ?final, ?run, ?log, (run_linearizable hsound ?run).1⟩
  case run => rfl
  case log => rfl

end Schedule

end VersionedFlags
