import VersionedFlags.Store.Call

/-!
# Flawed stores

A flaw makes a store misbehave in one way and leaves the rest of it right.  A
suite of checks is worth something if it finds the flaws.
-/

namespace VersionedFlags

namespace Conformance

inductive Flaw where
  | noFlaw
  /-- All kinds share the items of one. -/
  | oneKind
  | initIgnored
  /-- Initializing writes items one by one and keeps what was there. -/
  | initMerges
  | initMarksOnly
  | getNothing
  | getInvents
  | allNothing
  | upsertLost
  | upsertRefused
  | deleteLost
  /-- Writes as it should and always reports the given outcome. -/
  | reports (outcome : Outcome)
  | neverInitialized
  | alwaysInitialized
  /-- Only its own initialization counts. -/
  | privateInitialized
  | closeIgnored
  | realmIgnored
  /-- Realms are ignored, and said to be. -/
  | realmsUnsupported
  | rivalsIgnored
  | clearIgnored
  deriving DecidableEq, Repr

namespace Flaw

def kind (flaw : Flaw) (kind : Kind) : Kind :=
  match flaw with
  | .oneKind => .features
  | _ => kind

def invent (key : String) : Item :=
  .live key 1 (.ofMembers [("key", .string key)])

variable {m : Type → Type} [Monad m]

/-- Serves calls in order until one fails. -/
def upsertEach (serve : (call : Call) → m call.Reply) :
    List (Kind × Item) → m (Except StoreError Unit)
  | [] => pure (.ok ())
  | (kind, item) :: rest => do
      match ← serve (.upsert kind item) with
      | .ok _ => upsertEach serve rest
      | .error error => pure (.error error)

def serveInit (flaw : Flaw) (serve : (call : Call) → m call.Reply)
    (data : DataSet) : m (Except StoreError Unit) := do
  match flaw with
  | .initIgnored => pure (.ok ())
  | .initMarksOnly => serve (.init .bare)
  | .initMerges =>
      match ← serve (.init .bare) with
      | .error error => pure (.error error)
      | .ok () =>
          upsertEach serve (data.parts.flatMap fun part =>
            part.2.values.map fun item => (part.1, item))
  | _ => serve (.init data)

def serveGet (flaw : Flaw) (serve : (call : Call) → m call.Reply) (kind : Kind)
    (key : String) : m (Except StoreError (Option Item)) := do
  match flaw with
  | .getNothing => pure (.ok none)
  | .getInvents =>
      match ← serve (.get kind key) with
      | .ok none => pure (.ok (some (invent key)))
      | reply => pure reply
  | _ => serve (.get (flaw.kind kind) key)

def serveUpsert (flaw : Flaw) (serve : (call : Call) → m call.Reply)
    (kind : Kind) (item : Item) : m (Except StoreError Outcome) := do
  match flaw with
  | .upsertLost => pure (.ok .applied)
  | .upsertRefused => pure (.ok .superseded)
  | .deleteLost =>
      if item.deleted then pure (.ok .applied) else serve (.upsert kind item)
  | .reports outcome =>
      return (← serve (.upsert kind item)).map fun _ => outcome
  | _ => serve (.upsert (flaw.kind kind) item)

/-- Serves a call with the flaw; `own` tells whether this store was itself
initialized. -/
def serve (flaw : Flaw) (own : Bool) (serve : (call : Call) → m call.Reply) :
    (call : Call) → m call.Reply
  | .init data => flaw.serveInit serve data
  | .get kind key => flaw.serveGet serve kind key
  | .all kind =>
      match flaw with
      | .allNothing => pure (.ok .empty)
      | _ => serve (.all (flaw.kind kind))
  | .upsert kind item => flaw.serveUpsert serve kind item
  | .initialized =>
      match flaw with
      | .neverInitialized => pure (.ok false)
      | .alwaysInitialized => pure (.ok true)
      | .privateInitialized => pure (.ok own)
      | _ => serve .initialized
  | .close =>
      match flaw with
      | .closeIgnored => pure (.ok ())
      | _ => serve .close

end Flaw

end Conformance

end VersionedFlags
