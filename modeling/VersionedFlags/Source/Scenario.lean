import VersionedFlags.Session.Run
import VersionedFlags.Source.Basic

/-!
# Scenarios of data sources

A scenario works on data files, a data source and its store, step by step.  A
clock tells when the quiet interval after a change is over; it moves when a
step lets time pass or waits for the reload that is due.
-/

namespace VersionedFlags

namespace Source

namespace Scenario

/-! ## Steps -/

inductive Step where
  | write (path : Files.Path) (content : ByteArray)
  | remove (path : Files.Path)
  | start
  | reload
  | close
  | phase
  | initialized
  | settings
  | subscribe
  | receive (receiver : Nat)
  | drain (receiver : Nat)
  /-- Waits for the next outcome of a reload that a change causes. -/
  | await (receiver : Nat)
  | settle (duration : Nat)
  | store (step : Session.Step)

inductive Answer where
  | done
  | bool (value : Bool)
  | phase (phase : Phase)
  | settings (settings : Settings)
  | number (value : Nat)
  | reading (reading : Channel.Reading ReloadOutcome)
  | readings (readings : List (Channel.Reading ReloadOutcome))
  | store (result : Session.Result)

/-! ## State -/

structure Scene where
  tree : Files.FileTree
  here : Files.Location
  source : Source
  world : Session.World
  /-- Whether initializing the store closes the source first. -/
  closeOnInit : Bool
  now : Nat
  /-- When the reload that a change caused is due. -/
  due : Nat

abbrev Play : Type → Type := StateM Scene

def onStore (step : Session.Step) : Play Session.Result := do
  let scene ← get
  let ((result, _), world) := Session.runStep 0 step scene.world
  set { scene with world }
  return result

def modifySource (change : Source → Source) : Play Unit :=
  modify fun scene => { scene with source := change scene.source }

/-! ## Reloading -/

def initStore (data : DataSet) : Play (Except StoreError Unit) := do
  if (← get).closeOnInit then modifySource close
  match ← onStore (.call 0 (.init data)) with
  | .ok _ => return .ok ()
  | .error (.store error) => return .error error
  | .error _ => return .error .database

def reload : Play Bool := do
  let scene ← get
  let loaded := Files.load scene.tree scene.here scene.source.settings.files
  let outcome ← attempt initStore loaded
  modifySource fun source => source.publish outcome
  return outcome.isLoaded

def start : Play Unit := do
  match (← get).source.claim? with
  | none => return
  | some source =>
      modify fun scene => { scene with source }
      let _ ← reload
      let scene ← get
      let loop := watchLoop? source.settings scene.tree scene.here
      modifySource fun source => source.finishStart loop

/-- A reload of the watch loop.  If storing the data closes the source, closing
waits for the loop and the loop for the store, so neither ever ends. -/
def reloadOfLoop : Play Unit := do
  modifySource fun source => source.modifyLoop Files.WatchLoop.reload?
  let scene ← get
  let loaded := Files.load scene.tree scene.here scene.source.settings.files
  match loaded, scene.closeOnInit with
  | .ok _, true => modifySource close
  | _, _ =>
      let _ ← reload
      modifySource fun source => source.modifyLoop Files.WatchLoop.finish?

/-! ## Changes of files -/

def notice (change : Files.Change) (location : Files.Location) : Play Unit :=
  modify fun scene =>
    let waiting := !scene.source.isDebouncing
    let source := scene.source.notice change (Files.FileTree.pathOf location)
    let due :=
      if waiting && source.isDebouncing then
        scene.now + source.settings.debounce
      else scene.due
    { scene with source, due }

def write (path : Files.Path) (content : ByteArray) : Play Unit := do
  modify fun scene =>
    { scene with tree := scene.tree.makeParents scene.here path }
  let scene ← get
  match scene.tree.entryOf scene.here path with
  | .error _ => return
  | .ok location =>
      set { scene with tree := scene.tree.put location (.file content) }
      notice .modify location

def remove (path : Files.Path) : Play Unit := do
  let scene ← get
  match scene.tree.entryOf scene.here path with
  | .error _ => return
  | .ok location =>
      if (scene.tree.at? location).isSome then
        set { scene with tree := scene.tree.remove location }
        notice .remove location

/-! ## Time -/

def settle (duration : Nat) : Play Unit := do
  let scene ← get
  let later := scene.now + duration
  if scene.source.isDebouncing ∧ scene.due ≤ later then reloadOfLoop
  modify fun scene => { scene with now := later }

def receive (receiver : Nat) : Play Answer := do
  let scene ← get
  let (reading, outcomes) := scene.source.outcomes.receive receiver
  set { scene with source := { scene.source with outcomes } }
  return .reading reading

def await (receiver : Nat) : Play Answer := do
  let scene ← get
  if scene.source.outcomes.backlog receiver = 0 ∧ scene.source.isDebouncing then
    settle (scene.due - scene.now)
  receive receiver

/-! ## Running -/

def perform : Step → Play Answer
  | .write path content => do
      write path content
      return .done
  | .remove path => do
      remove path
      return .done
  | .start => do
      start
      return .done
  | .reload => return .bool (← reload)
  | .close => do
      modifySource close
      return .done
  | .phase => return .phase (← get).source.phase
  | .initialized => return .bool (← get).source.initialized
  | .settings => return .settings (← get).source.settings
  | .subscribe => do
      let scene ← get
      let (number, outcomes) := scene.source.outcomes.subscribe
      set { scene with source := { scene.source with outcomes } }
      return .number number
  | .receive receiver => receive receiver
  | .drain receiver => do
      let scene ← get
      let (readings, outcomes) := scene.source.outcomes.drain receiver
      set { scene with source := { scene.source with outcomes } }
      return .readings readings
  | .await receiver => await receiver
  | .settle duration => do
      settle duration
      return .done
  | .store step => return .store (← onStore step)

def run (tree : Files.FileTree) (here : Files.Location) (settings : Settings)
    (opening : Session.Opening) (closeOnInit : Bool) (steps : List Step) :
    List Answer :=
  let (_, world) := Session.runStep 0 (.open opening) .start
  let scene : Scene :=
    { tree, here, source := .ofSettings settings, world, closeOnInit
      now := 0, due := 0 }
  let played : Play (List Answer) := steps.mapM perform
  (played.run scene).1

end Scenario

end Source

end VersionedFlags
