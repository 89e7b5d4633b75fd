import VersionedFlags.Cache.Progress
import VersionedFlags.Proofs.Store.Medium

/-!
# Whole calls through a cache

A call that nothing comes between takes its steps one after the other, while the
clock may show anything at each of them.  Whatever the cache holds, the backend
is left as the bare call leaves it: it is asked the call itself once or not at
all, and after that it is only read.
-/

namespace VersionedFlags

namespace Cache

/-! ## Questions -/

/-- The call has ended, or it is about to read an item. -/
def Progress.Settled {call : Call} : Progress call → Prop
  | .answered _ | .aborted => True
  | .asking pending => ∃ kind key, pending.asks = .get kind key

/-- A call is answered without a question, which only a read is, or it asks
itself. -/
theorem start_cases (mode : Mode) (now : Instant) (state : State) (call : Call) :
    (∃ reply, (start mode now state call).2 = .answered reply ∧
      call.alters = false) ∨
    ∃ pending, (start mode now state call).2 = .asking pending ∧
      pending.asks = call := by
  cases call with
  | init data => exact .inr ⟨_, rfl, rfl⟩
  | close => exact .inr ⟨_, rfl, rfl⟩
  | upsert kind item =>
      simp only [start]
      split <;> exact .inr ⟨_, rfl, rfl⟩
  | get kind key =>
      simp only [start, startGet]
      split
      · split
        · exact .inl ⟨_, rfl, rfl⟩
        · exact .inr ⟨_, rfl, rfl⟩
      · exact .inr ⟨_, rfl, rfl⟩
  | all kind =>
      simp only [start, startAll]
      split
      · split
        · exact .inl ⟨_, rfl, rfl⟩
        · exact .inr ⟨_, rfl, rfl⟩
      · exact .inr ⟨_, rfl, rfl⟩
  | initialized =>
      simp only [start, startInitialized]
      split
      · exact .inl ⟨_, rfl, rfl⟩
      · split
        · split
          · exact .inl ⟨_, rfl, rfl⟩
          · exact .inr ⟨_, rfl, rfl⟩
        · exact .inr ⟨_, rfl, rfl⟩

theorem settled_withExpiry {call : Call} {mode : Mode} {now : Instant}
    {state : State} {next : Option Instant → State × Progress call}
    (h : ∀ expires, (next expires).2.Settled) :
    (withExpiry mode now state next).2.Settled := by
  simp only [withExpiry]
  cases mode.expiry? now with
  | none => trivial
  | some expires => exact h expires

/-- After its first question a call only reads. -/
theorem settled_resume {call : Call} (mode : Mode) (now : Instant)
    (state : State) (pending : Pending call) (reply : pending.asks.Reply) :
    (resume mode now state pending reply).2.Settled := by
  cases pending with
  | pass => cases reply <;> trivial
  | init data =>
      cases reply with
      | error error => trivial
      | ok =>
          simp only [resume]
          split
          · exact settled_withExpiry fun _ => trivial
          · trivial
  | get kind key seen =>
      cases reply with
      | error error => trivial
      | ok item => exact settled_withExpiry fun _ => trivial
  | all kind seen =>
      cases reply with
      | error error => trivial
      | ok items => exact settled_withExpiry fun _ => trivial
  | upsert kind item =>
      cases reply with
      | error error => trivial
      | ok outcome =>
          refine settled_withExpiry fun expires => ?_
          cases outcome with
          | applied => trivial
          | superseded => exact ⟨kind, item.key, rfl⟩
  | reread kind item seen =>
      cases reply with
      | error error => trivial
      | ok current => exact settled_withExpiry fun _ => trivial
  | initialized =>
      cases reply with
      | error error => trivial
      | ok initialized =>
          cases initialized with
          | true => trivial
          | false => exact settled_withExpiry fun _ => trivial

/-! ## The latch -/

variable {mode : Mode} {now : Instant} {state : State} {call : Call}

theorem latched_start (h : state.latched = true) :
    (start mode now state call).1.latched = true := by
  cases call with
  | init data => exact h
  | get kind key =>
      simp only [start, startGet]
      split
      · split <;> exact h
      · exact h
  | all kind =>
      simp only [start, startAll]
      split
      · split <;> exact h
      · exact h
  | upsert kind item =>
      simp only [start]
      split <;> exact h
  | initialized =>
      simp only [start, startInitialized, h, if_true]
  | close => exact h

theorem latched_withExpiry {next : Option Instant → State × Progress call}
    (h : state.latched = true)
    (hnext : ∀ expires, (next expires).1.latched = true) :
    (withExpiry mode now state next).1.latched = true := by
  simp only [withExpiry]
  split
  · exact h
  · exact hnext _

theorem latched_fillItem (h : state.latched = true) (kind : Kind) (key : String)
    (entry : Entry (Option Item)) (seen : Nat) :
    (state.fillItem kind key entry seen).latched = true := by
  simp only [State.fillItem]
  split <;> exact h

theorem latched_fillLive (h : state.latched = true) (kind : Kind)
    (entry : Entry (KeyMap Item)) (seen : Nat) :
    (state.fillLive kind entry seen).latched = true := by
  simp only [State.fillLive]
  split <;> exact h

theorem latched_resume (h : state.latched = true) (pending : Pending call)
    (reply : pending.asks.Reply) :
    (resume mode now state pending reply).1.latched = true := by
  cases pending with
  | pass call => exact h
  | init data =>
      cases reply with
      | error error => exact h
      | ok =>
          simp only [resume]
          split
          · exact latched_withExpiry h fun expires => rfl
          · rfl
  | get kind key seen =>
      cases reply with
      | error error => exact h
      | ok item =>
          exact latched_withExpiry h fun expires => latched_fillItem h _ _ _ _
  | all kind seen =>
      cases reply with
      | error error => exact h
      | ok items =>
          exact latched_withExpiry h fun expires => latched_fillLive h _ _ _
  | upsert kind item =>
      cases reply with
      | error error => exact h
      | ok outcome =>
          refine latched_withExpiry h fun expires => ?_
          cases outcome <;> exact h
  | reread kind item seen =>
      cases reply with
      | error error => exact h
      | ok current =>
          exact latched_withExpiry h fun expires => latched_fillItem h _ _ _ _
  | initialized =>
      cases reply with
      | error error => exact h
      | ok initialized =>
          cases initialized with
          | true => rfl
          | false => exact latched_withExpiry h fun expires => h

/-! ## Whole calls -/

/-- A cache, the cluster of its backend and how often the clock was read. -/
structure Desk where
  reads : Nat
  state : State
  cluster : Cluster

namespace Desk

/-- The backend is a handle, and the clock has a list of readings. -/
def surroundings (handle : Nat) (clock : Nat → Instant) :
    Surroundings (StateM Desk) where
  now := modifyGet fun desk =>
    (clock desk.reads, { desk with reads := desk.reads + 1 })
  load := return (← get).state
  save state := modify fun desk => { desk with state }
  ask call := modifyGet fun desk =>
    ((desk.cluster.serve handle call).1,
      { desk with cluster := (desk.cluster.serve handle call).2 })

variable {mode : Mode} {handle : Nat} {clock : Nat → Instant} {call : Call}

def follow (mode : Mode) (handle : Nat) (clock : Nat → Instant)
    (questions : Nat) (progress : Progress call) (desk : Desk) :
    Option call.Reply × Desk :=
  (Cache.follow (surroundings handle clock) mode questions progress).run desk

def serve (mode : Mode) (handle : Nat) (clock : Nat → Instant) (call : Call)
    (desk : Desk) : Option call.Reply × Desk :=
  (Cache.serve (surroundings handle clock) mode call).run desk

theorem serve_eq (desk : Desk) :
    desk.serve mode handle clock call =
      let (state, progress) :=
        Cache.start mode (clock desk.reads) desk.state call
      follow mode handle clock 2 progress ⟨desk.reads + 1, state, desk.cluster⟩ :=
  rfl

@[simp] theorem follow_answered (questions : Nat) (reply : call.Reply)
    (desk : Desk) :
    follow mode handle clock questions (.answered reply) desk =
      (some reply, desk) := by
  cases questions <;> rfl

@[simp] theorem follow_aborted (questions : Nat) (desk : Desk) :
    follow mode handle clock questions (.aborted : Progress call) desk =
      (none, desk) := by
  cases questions <;> rfl

theorem follow_asking (questions : Nat) (pending : Pending call) (desk : Desk) :
    follow mode handle clock (questions + 1) (.asking pending) desk =
      let (reply, cluster) := desk.cluster.serve handle pending.asks
      let (state, progress) :=
        resume mode (clock desk.reads) desk.state pending reply
      follow mode handle clock questions progress
        ⟨desk.reads + 1, state, cluster⟩ :=
  rfl

theorem follow_cluster {progress : Progress call} (h : progress.Settled)
    (questions : Nat) (desk : Desk) :
    (follow mode handle clock questions progress desk).2.cluster =
      desk.cluster := by
  induction questions generalizing progress desk with
  | zero => cases progress <;> rfl
  | succ questions ih =>
      cases progress with
      | answered reply => rfl
      | aborted => rfl
      | asking pending =>
          obtain ⟨kind, key, hasks⟩ := h
          have hread : (desk.cluster.serve handle pending.asks).2 =
              desk.cluster := by
            rw [hasks]
            rfl
          rw [follow_asking]
          exact (ih (settled_resume mode _ desk.state pending _) _).trans hread

/-- Whatever the cache holds, the backend is left as the bare call leaves it. -/
theorem serve_cluster (desk : Desk) :
    (desk.serve mode handle clock call).2.cluster =
      (desk.cluster.serve handle call).2 := by
  rw [serve_eq]
  rcases start_cases mode (clock desk.reads) desk.state call with
    ⟨reply, hstart, hread⟩ | ⟨pending, hstart, hasks⟩
  · have hsame : (desk.cluster.serve handle call).2 = desk.cluster := by
      cases call <;> first | rfl | cases hread
    simp only [hstart, follow_answered, hsame]
  · have hasked : (desk.cluster.serve handle pending.asks).2 =
        (desk.cluster.serve handle call).2 := by
      rw [hasks]
    simp only [hstart, follow_asking]
    exact (follow_cluster (settled_resume mode _ _ pending _) _ _).trans hasked

theorem latched_follow {progress : Progress call} (questions : Nat)
    {desk : Desk} (h : desk.state.latched = true) :
    (follow mode handle clock questions progress desk).2.state.latched = true := by
  induction questions generalizing progress desk with
  | zero => cases progress <;> exact h
  | succ questions ih =>
      cases progress with
      | answered reply => exact h
      | aborted => exact h
      | asking pending =>
          rw [follow_asking]
          exact ih (latched_resume h pending _)

/-- A store once known to be initialized stays so. -/
theorem latched_serve {desk : Desk} (h : desk.state.latched = true) :
    (desk.serve mode handle clock call).2.state.latched = true := by
  rw [serve_eq]
  exact latched_follow 2 (latched_start h)

theorem serve_initialized_of_latched {desk : Desk}
    (h : desk.state.latched = true) :
    (desk.serve mode handle clock .initialized).1 = some (.ok true) := by
  simp only [serve_eq, Cache.start, startInitialized, h, if_true, follow_answered]

end Desk

end Cache

end VersionedFlags
