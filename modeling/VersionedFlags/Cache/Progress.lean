import VersionedFlags.Cache.State
import VersionedFlags.Store.Call

/-!
# Calls through a cache

A cached call is answered at once or asks the backend and goes on with its
reply.  `start` and `resume` are the two steps; between them other calls may
run on the same cache.
-/

namespace VersionedFlags

namespace Cache

inductive Pending : Call → Type where
  | init (data : DataSet) : Pending (.init data)
  /-- A read that will be recorded if the generation is still `seen`. -/
  | get (kind : Kind) (key : String) (seen : Nat) : Pending (.get kind key)
  | all (kind : Kind) (seen : Nat) : Pending (.all kind)
  | upsert (kind : Kind) (item : Item) : Pending (.upsert kind item)
  /-- A superseded upsert that reads what won. -/
  | reread (kind : Kind) (item : Item) (seen : Nat) :
      Pending (.upsert kind item)
  | initialized : Pending .initialized
  /-- A call whose reply is passed on without a trace. -/
  | pass (call : Call) : Pending call
  deriving Repr

abbrev Pending.asks {call : Call} : Pending call → Call
  | .reread kind item _ => .get kind item.key
  | _ => call

inductive Progress (call : Call) where
  | answered (reply : call.Reply)
  | asking (pending : Pending call)
  /-- The moment at which an entry would expire is past the clock's end. -/
  | aborted

/-- Goes on with the moment at which an entry made now expires. -/
def withExpiry {call : Call} (mode : Mode) (now : Instant) (state : State)
    (next : Option Instant → State × Progress call) : State × Progress call :=
  match mode.expiry? now with
  | none => (state, .aborted)
  | some expires => next expires

/-! ## The first step -/

def startGet (now : Instant) (state : State) (kind : Kind) (key : String) :
    State × Progress (.get kind key) :=
  match state.item? now kind key with
  | some item => (state.hit, .answered (.ok (item.bind Item.visible?)))
  | none => (state.miss, .asking (.get kind key state.generation))

def startAll (now : Instant) (state : State) (kind : Kind) :
    State × Progress (.all kind) :=
  match state.live? now kind with
  | some items => (state.hit, .answered (.ok items))
  | none => (state.miss, .asking (.all kind state.generation))

/-- Only a cache with a lifetime remembers that the store was not initialized. -/
def startInitialized (mode : Mode) (now : Instant) (state : State) :
    State × Progress .initialized :=
  if state.latched then (state, .answered (.ok true))
  else
    match mode, state.uninitializedUntil with
    | .ttl _, some moment =>
        if now.nanos < moment.nanos then (state, .answered (.ok false))
        else (state, .asking .initialized)
    | _, _ => (state, .asking .initialized)

def start (mode : Mode) (now : Instant) (state : State) (call : Call) :
    State × Progress call :=
  match call with
  | .init data => (state, .asking (.init data))
  | .get kind key =>
      if mode.isEnabled then startGet now state kind key
      else (state, .asking (.pass _))
  | .all kind =>
      if mode.isEnabled then startAll now state kind
      else (state, .asking (.pass _))
  | .upsert kind item =>
      if mode.isEnabled then (state, .asking (.upsert kind item))
      else (state, .asking (.pass _))
  | .initialized => startInitialized mode now state
  | .close => (state.clear, .asking (.pass _))

/-! ## Further steps -/

def finishUpsert (mode : Mode) (now : Instant) (state : State) (kind : Kind)
    (item : Item) (outcome : Outcome) : State × Progress (.upsert kind item) :=
  withExpiry mode now state fun expires =>
    match outcome with
    | .applied =>
        (state.recordWrite kind item expires, .answered (.ok .applied))
    | .superseded =>
        let state := state.recordLoss kind item.key
        (state, .asking (.reread kind item state.generation))

def resume {call : Call} (mode : Mode) (now : Instant) (state : State)
    (pending : Pending call) (reply : pending.asks.Reply) :
    State × Progress call :=
  match pending, reply with
  | .pass _, reply => (state, .answered reply)
  | .init _, .error error => (state, .answered (.error error))
  | .init data, .ok () =>
      if mode.isEnabled then
        withExpiry mode now state fun expires =>
          ((state.reset data expires).latch, .answered (.ok ()))
      else (state.latch, .answered (.ok ()))
  | .get _ _ _, .error error => (state, .answered (.error error))
  | .get kind key seen, .ok item =>
      withExpiry mode now state fun expires =>
        (state.fillItem kind key ⟨item, expires⟩ seen, .answered (.ok item))
  | .all _ _, .error error => (state, .answered (.error error))
  | .all kind seen, .ok items =>
      withExpiry mode now state fun expires =>
        (state.fillLive kind ⟨items, expires⟩ seen, .answered (.ok items))
  | .upsert _ _, .error error => (state, .answered (.error error))
  | .upsert kind item, .ok outcome =>
      finishUpsert mode now state kind item outcome
  | .reread _ _ _, .error error => (state, .answered (.error error))
  | .reread kind item seen, .ok current =>
      withExpiry mode now state fun expires =>
        (state.fillItem kind item.key ⟨current, expires⟩ seen,
          .answered (.ok .superseded))
  | .initialized, .error error => (state, .answered (.error error))
  | .initialized, .ok true => (state.latch, .answered (.ok true))
  | .initialized, .ok false =>
      withExpiry mode now state fun expires =>
        ({ state with uninitializedUntil := expires }, .answered (.ok false))

/-! ## Whole calls -/

/-- Where a cached call finds its clock, its state and its backend. -/
structure Surroundings (m : Type → Type) where
  now : m Instant
  load : m State
  save : State → m Unit
  ask : (call : Call) → m call.Reply

/-- Follows a call to its end, which comes after two questions at most. -/
def follow {m : Type → Type} [Monad m] (around : Surroundings m) (mode : Mode)
    {call : Call} : Nat → Progress call → m (Option call.Reply)
  | _, .answered reply => pure (some reply)
  | _, .aborted => pure none
  | 0, .asking _ => pure none
  | questions + 1, .asking pending => do
      let reply ← around.ask pending.asks
      let (state, progress) :=
        resume mode (← around.now) (← around.load) pending reply
      around.save state
      follow around mode questions progress

/-- Serves a call through a cache; `none` when it was aborted. -/
def serve {m : Type → Type} [Monad m] (around : Surroundings m) (mode : Mode)
    (call : Call) : m (Option call.Reply) := do
  let (state, progress) := start mode (← around.now) (← around.load) call
  around.save state
  follow around mode 2 progress

end Cache

end VersionedFlags
