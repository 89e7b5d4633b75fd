import VersionedFlags.Files.Loading
import VersionedFlags.Files.Watching
import VersionedFlags.Source.Channel
import VersionedFlags.Store.Error

/-!
# Data sources

A data source initializes a store with what a list of data files holds.  It is
started once, may watch the files from then on, and publishes the outcome of
every reload.
-/

namespace VersionedFlags

inductive ReloadOutcome where
  | loaded (items : Nat)
  /-- The data from before is still in place. -/
  | failed (reason : String)
  deriving DecidableEq, Repr

def ReloadOutcome.isLoaded : ReloadOutcome → Bool
  | .loaded _ => true
  | .failed _ => false

namespace Source

/-! ## State -/

structure Settings where
  files : List Files.Path
  autoUpdate : Bool
  /-- The quiet interval before a reload, in milliseconds. -/
  debounce : Nat
  deriving DecidableEq, Repr

def standardDebounce : Nat := 500

inductive Phase where
  | stopped
  | starting
  | running
  | closed
  deriving DecidableEq, Repr

def Phase.describe : Phase → String
  | .stopped => "Stopped"
  | .starting => "Starting"
  | .running => "Running"
  | .closed => "Closed"

end Source

structure Source where
  settings : Source.Settings
  phase : Source.Phase
  initialized : Bool
  outcomes : Channel ReloadOutcome
  loop : Option Files.WatchLoop
  deriving DecidableEq, Repr

namespace Source

def ofSettings (settings : Settings) : Source :=
  ⟨settings, .stopped, false, .start, none⟩

/-! ## Reloading -/

/-- Stores loaded data; `init` is the store's. -/
def attempt {m : Type → Type} [Monad m]
    (init : DataSet → m (Except StoreError Unit))
    (loaded : Except Files.LoadError DataSet) : m ReloadOutcome := do
  match loaded with
  | .error error => return .failed error.message
  | .ok data =>
      match ← init data with
      | .ok () => return .loaded data.count
      | .error error => return .failed error.message

def publish (source : Source) (outcome : ReloadOutcome) : Source :=
  { source with
    initialized := source.initialized || outcome.isLoaded
    outcomes := source.outcomes.send outcome }

/-! ## Starting and closing -/

def claim? (source : Source) : Option Source :=
  match source.phase with
  | .stopped => some { source with phase := .starting }
  | _ => none

/-- A source without auto-update, or one with a path that cannot be resolved,
watches nothing. -/
def watchLoop? (settings : Settings) (tree : Files.FileTree)
    (here : Files.Location) : Option Files.WatchLoop :=
  if settings.autoUpdate then
    match Files.WatchList.create tree here settings.files with
    | .ok watch => some (.start watch)
    | .error _ => none
  else none

/-- Ends a start; if the source was closed meanwhile the loop is dropped. -/
def finishStart (source : Source) (loop : Option Files.WatchLoop) : Source :=
  match source.phase with
  | .closed => source
  | _ => { source with phase := .running, loop }

def close (source : Source) : Source :=
  { source with phase := .closed, loop := none }

/-! ## Events -/

def modifyLoop (source : Source)
    (change : Files.WatchLoop → Option Files.WatchLoop) : Source :=
  { source with
    loop := source.loop.map fun loop => (change loop).getD loop }

/-- A change of the entry at a path, noticed if its directory is watched. -/
def notice (source : Source) (change : Files.Change) (path : Files.Path) :
    Source :=
  source.modifyLoop fun loop =>
    if loop.watch.covers path then
      let loop := loop.deliver ⟨change, [path]⟩
      some (loop.wake?.getD loop)
    else none

def isDebouncing (source : Source) : Bool :=
  (source.loop.map Files.WatchLoop.phase) == some .debouncing

end Source

end VersionedFlags
