import VersionedFlags.Proofs.Cache.Slot

/-!
# Overlapping calls through one cache

Any number of calls may be under way through one cache.  The steps of a call
are its begin, each reply of its backend and each section in which it records
something; a write of one item is recorded in two sections, first its item and
then the live items of its kind, and other calls may come between.
-/

namespace VersionedFlags

namespace Cache

/-! ## Stages of a call -/

inductive Stage : Call → Type where
  | asking {call : Call} (pending : Pending call) : Stage call
  /-- The backend has replied and nothing is recorded yet. -/
  | replied {call : Call} (pending : Pending call)
      (reply : pending.asks.Reply) : Stage call
  /-- The item of a write is recorded, the live items are not dropped yet. -/
  | dropping (kind : Kind) (item : Item) (outcome : Outcome) :
      Stage (.upsert kind item)
  | answered {call : Call} (reply : call.Reply) : Stage call
  | aborted {call : Call} : Stage call

namespace Stage

variable {call : Call}

def ofProgress : Progress call → Stage call
  | .answered reply => .answered reply
  | .asking pending => .asking pending
  | .aborted => .aborted

def ended : Stage call → Bool
  | .answered _ | .aborted => true
  | .asking _ | .replied _ _ | .dropping _ _ _ => false

/-- The section that records the item of a write. -/
def recordItem (mode : Mode) (now : Instant) (state : State) (kind : Kind)
    (item : Item) (outcome : Outcome) : State × Stage (.upsert kind item) :=
  match mode.expiry? now with
  | none => (state, .aborted)
  | some expires =>
      (match outcome with
        | .applied => state.advance.setItem kind item.key ⟨some item, expires⟩
        | .superseded => state.dropItem kind item.key,
        .dropping kind item outcome)

/-- The section after it, which drops the live items; a write that lost reads
what won. -/
def dropLive (state : State) (kind : Kind) (item : Item) (outcome : Outcome) :
    State × Stage (.upsert kind item) :=
  (state.dropLive kind,
    match outcome with
    | .applied => .answered (.ok .applied)
    | .superseded => .asking (.reread kind item state.generation))

/-- Goes on with a reply as `resume` does, but for the sections of a write. -/
def recordReply (mode : Mode) (now : Instant) (state : State)
    (pending : Pending call) (reply : pending.asks.Reply) : State × Stage call :=
  match pending, reply with
  | .upsert kind item, .ok outcome =>
      recordItem mode now state kind item outcome
  | pending, reply =>
      let (state, progress) := resume mode now state pending reply
      (state, ofProgress progress)

/-- One step on the cache; there is none while the backend is asked or when the
call has ended. -/
def record (mode : Mode) (now : Instant) (state : State) :
    Stage call → State × Stage call
  | .replied pending reply => recordReply mode now state pending reply
  | .dropping kind item outcome => dropLive state kind item outcome
  | stage => (state, stage)

/-- The two sections, one right after the other, are the step that records a
write. -/
theorem record_record (mode : Mode) (now : Instant) (state : State)
    (kind : Kind) (item : Item) (outcome : Outcome) :
    let first := record mode now state (.replied (.upsert kind item) (.ok outcome))
    record mode now first.1 first.2 =
      let (state, progress) :=
        resume mode now state (.upsert kind item) (.ok outcome)
      (state, ofProgress progress) := by
  simp only [record, recordReply, recordItem, resume, finishUpsert, withExpiry]
  cases mode.expiry? now with
  | none => rfl
  | some expires => cases outcome <;> rfl

end Stage

/-! ## Traffic -/

structure Flight where
  call : Call
  stage : Stage call

/-- A clock, a backend with its media and handles, a cache around one handle,
and the calls through it in the order in which they began. -/
structure Traffic where
  now : Instant
  cluster : Cluster
  state : State
  flights : List Flight

namespace Traffic

/-! ## Moves -/

inductive Move where
  | tick (nanos : Nat)
  | begin (call : Call)
  /-- The backend of a call takes effect and replies. -/
  | reply (index : Nat)
  /-- The backend of a call fails without effect. -/
  | fail (index : Nat) (error : StoreError)
  /-- A call takes its next step on the cache. -/
  | record (index : Nat)
  deriving DecidableEq, Repr

def start (now : Instant) (cluster : Cluster) : Traffic :=
  ⟨now, cluster, .start, []⟩

/-- A move that no call can make changes nothing. -/
def step (mode : Mode) (handle : Nat) (traffic : Traffic) : Move → Traffic
  | .tick nanos => { traffic with now := ⟨traffic.now.nanos + nanos⟩ }
  | .begin call =>
      let (state, progress) :=
        Cache.start mode traffic.now traffic.state call
      { traffic with
        state, flights := traffic.flights ++ [⟨call, .ofProgress progress⟩] }
  | .reply index =>
      match traffic.flights[index]? with
      | some ⟨call, .asking pending⟩ =>
          let (reply, cluster) := traffic.cluster.serve handle pending.asks
          { traffic with
            cluster
            flights := traffic.flights.set index ⟨call, .replied pending reply⟩ }
      | _ => traffic
  | .fail index error =>
      match traffic.flights[index]? with
      | some ⟨call, .asking pending⟩ =>
          { traffic with
            flights := traffic.flights.set index
              ⟨call, .replied pending (.error error)⟩ }
      | _ => traffic
  | .record index =>
      match traffic.flights[index]? with
      | some ⟨call, stage⟩ =>
          let (state, stage) := stage.record mode traffic.now traffic.state
          { traffic with
            state, flights := traffic.flights.set index ⟨call, stage⟩ }
      | none => traffic

/-! ## What a move does -/

theorem step_reply_cases (mode : Mode) (handle : Nat) (traffic : Traffic)
    (index : Nat) :
    traffic.step mode handle (.reply index) = traffic ∨
      ∃ call, ∃ pending : Pending call,
        traffic.flights[index]? = some ⟨call, .asking pending⟩ ∧
        traffic.step mode handle (.reply index) =
          { traffic with
            cluster := (traffic.cluster.serve handle pending.asks).2
            flights := traffic.flights.set index
              ⟨call, .replied pending
                (traffic.cluster.serve handle pending.asks).1⟩ } := by
  match hflight : traffic.flights[index]? with
  | some ⟨call, .asking pending⟩ =>
      refine .inr ⟨call, pending, rfl, ?_⟩
      simp only [step, hflight]
  | some ⟨call, .replied _ _⟩ | some ⟨_, .dropping _ _ _⟩
  | some ⟨call, .answered _⟩ | some ⟨call, .aborted⟩ | none =>
      exact .inl (by simp only [step, hflight])

theorem step_fail_cases (mode : Mode) (handle : Nat) (traffic : Traffic)
    (index : Nat) (error : StoreError) :
    traffic.step mode handle (.fail index error) = traffic ∨
      ∃ call, ∃ pending : Pending call,
        traffic.flights[index]? = some ⟨call, .asking pending⟩ ∧
        traffic.step mode handle (.fail index error) =
          { traffic with
            flights := traffic.flights.set index
              ⟨call, .replied pending (.error error)⟩ } := by
  match hflight : traffic.flights[index]? with
  | some ⟨call, .asking pending⟩ =>
      refine .inr ⟨call, pending, rfl, ?_⟩
      simp only [step, hflight]
  | some ⟨call, .replied _ _⟩ | some ⟨_, .dropping _ _ _⟩
  | some ⟨call, .answered _⟩ | some ⟨call, .aborted⟩ | none =>
      exact .inl (by simp only [step, hflight])

theorem step_record_cases (mode : Mode) (handle : Nat) (traffic : Traffic)
    (index : Nat) :
    traffic.step mode handle (.record index) = traffic ∧
        traffic.flights[index]? = none ∨
      ∃ call, ∃ stage : Stage call,
        traffic.flights[index]? = some ⟨call, stage⟩ ∧
        traffic.step mode handle (.record index) =
          { traffic with
            state := (stage.record mode traffic.now traffic.state).1
            flights := traffic.flights.set index
              ⟨call, (stage.record mode traffic.now traffic.state).2⟩ } := by
  match hflight : traffic.flights[index]? with
  | some ⟨call, stage⟩ =>
      refine .inr ⟨call, stage, rfl, ?_⟩
      simp only [step, hflight]
  | none => exact .inl ⟨by simp only [step, hflight], rfl⟩

/-- A call that has ended stays as it is. -/
theorem step_of_ended {mode : Mode} {handle : Nat} {traffic : Traffic}
    {position : Nat} {flight : Flight}
    (h : traffic.flights[position]? = some flight)
    (hended : flight.stage.ended = true) (move : Move) :
    (traffic.step mode handle move).flights[position]? = some flight := by
  have hlt := (List.getElem?_eq_some_iff.mp h).1
  have hset : ∀ (place : Nat) (other : Flight),
      (place = position → other = flight) →
        (traffic.flights.set place other)[position]? = some flight := by
    intro place other heq
    by_cases hplace : place = position
    · subst hplace
      rw [List.getElem?_set_self hlt, heq rfl]
    · exact (List.getElem?_set_ne hplace).trans h
  cases move with
  | tick nanos => exact h
  | begin call =>
      rw [← h]
      exact List.getElem?_append_left hlt
  | reply place =>
      rcases step_reply_cases mode handle traffic place with
        hidle | ⟨call, pending, hflight, hstep⟩
      · rw [hidle, h]
      · rw [hstep]
        refine hset place _ ?_
        rintro rfl
        rw [h] at hflight
        cases hflight
        cases hended
  | fail place error =>
      rcases step_fail_cases mode handle traffic place error with
        hidle | ⟨call, pending, hflight, hstep⟩
      · rw [hidle, h]
      · rw [hstep]
        refine hset place _ ?_
        rintro rfl
        rw [h] at hflight
        cases hflight
        cases hended
  | record place =>
      rcases step_record_cases mode handle traffic place with
        ⟨hidle, -⟩ | ⟨call, stage, hflight, hstep⟩
      · rw [hidle, h]
      · rw [hstep]
        refine hset place _ ?_
        rintro rfl
        rw [h] at hflight
        cases hflight
        cases stage with
        | answered | aborted => rfl
        | asking | replied | dropping => cases hended

/-! ## Runs -/

def run (mode : Mode) (handle : Nat) (traffic : Traffic)
    (moves : List Move) : Traffic :=
  moves.foldl (step mode handle) traffic

end Traffic

end Cache

end VersionedFlags
