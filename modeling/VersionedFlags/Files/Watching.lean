import VersionedFlags.Files.FileTree

/-!
# Watching files

Files are watched through the directories that hold them.  A watched file is
known by the canonical path of its directory and its own name, so a file that
is replaced or not there yet is watched as well.
-/

namespace VersionedFlags

namespace Files

/-! ## Resolving paths -/

inductive WatchError where
  | unresolvable (path : Path) (fault : Fault)
  | noParentDirectory (path : Path)
  deriving DecidableEq, Repr

def WatchError.message : WatchError → String
  | .unresolvable path fault =>
      "unable to resolve " ++ path.text ++ ": " ++ fault.message
  | .noParentDirectory path => path.text ++ " has no parent directory"

/-- The path made absolute, with the canonical path of its directory. -/
def resolve (tree : FileTree) (here : Location) (path : Path) :
    Except WatchError Path :=
  let absolute := (FileTree.pathOf here).join path
  match absolute.parent?, absolute.fileName? with
  | some parent, some name =>
      match tree.canonical here parent with
      | .ok directory => .ok (directory.join ⟨name⟩)
      | .error fault => .error (.unresolvable path fault)
  | _, _ => .error (.noParentDirectory path)

/-! ## Events -/

inductive Change where
  | create
  | modify
  | remove
  | other
  deriving DecidableEq, Repr

structure Event where
  change : Change
  paths : List Path
  deriving DecidableEq, Repr

/-- The watched files and, in order, the directories that hold them, each once. -/
structure WatchList where
  files : List Path
  directories : List Path
  deriving DecidableEq, Repr

namespace WatchList

def ofFiles (files : List Path) : WatchList :=
  ⟨files.eraseDups, Path.inOrder (files.filterMap Path.parent?)⟩

def create (tree : FileTree) (here : Location) (paths : List Path) :
    Except WatchError WatchList := do
  return ofFiles (← paths.mapM (resolve tree here))

def contains (watch : WatchList) (path : Path) : Bool :=
  watch.files.any path.same

def isRelevant (watch : WatchList) (event : Event) : Bool :=
  event.change != .other && event.paths.any watch.contains

/-- Whether changes of the entry at a path are noticed at all. -/
def covers (watch : WatchList) (path : Path) : Bool :=
  match path.parent? with
  | some directory => watch.directories.any directory.same
  | none => false

end WatchList

/-! ## The watch loop -/

inductive WatchPhase where
  | waiting
  | debouncing
  | reloading
  | stopped
  deriving DecidableEq, Repr

/-- A loop that waits for events, lets a burst of them pass and reloads. -/
structure WatchLoop where
  watch : WatchList
  phase : WatchPhase
  queue : List Event
  stopping : Bool
  deriving DecidableEq, Repr

namespace WatchLoop

def start (watch : WatchList) : WatchLoop := ⟨watch, .waiting, [], false⟩

def deliver (loop : WatchLoop) (event : Event) : WatchLoop :=
  { loop with queue := loop.queue ++ [event] }

/-- A waiting loop takes all events there are; a relevant one among them starts
the quiet interval. -/
def wake? (loop : WatchLoop) : Option WatchLoop :=
  match loop.phase, loop.queue with
  | .waiting, event :: more =>
      let phase :=
        if (event :: more).any loop.watch.isRelevant then .debouncing
        else .waiting
      some { loop with phase, queue := [] }
  | _, _ => none

/-- At the end of the quiet interval the events of the burst are dropped. -/
def reload? (loop : WatchLoop) : Option WatchLoop :=
  match loop.phase with
  | .debouncing => some { loop with phase := .reloading, queue := [] }
  | _ => none

def finish? (loop : WatchLoop) : Option WatchLoop :=
  match loop.phase with
  | .reloading => some { loop with phase := .waiting }
  | _ => none

def signal (loop : WatchLoop) : WatchLoop := { loop with stopping := true }

/-- A signalled loop stops, but never in the middle of a reload. -/
def halt? (loop : WatchLoop) : Option WatchLoop :=
  match loop.phase, loop.stopping with
  | .waiting, true | .debouncing, true => some { loop with phase := .stopped }
  | _, _ => none

end WatchLoop

end Files

end VersionedFlags
