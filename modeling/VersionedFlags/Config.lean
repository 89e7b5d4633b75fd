import VersionedFlags.Cache.Mode
import VersionedFlags.Text.Duration
import VersionedFlags.Text.Quoted

/-!
# Store configuration

Which backend a store uses, under which prefix, and how it is cached.  The
description is what logs show.
-/

namespace VersionedFlags

inductive BackendChoice where
  | memory
  | sqliteFile (path : String)
  | sqliteInMemory
  deriving DecidableEq, Repr

structure StoreConfig where
  backend : BackendChoice
  keyPrefix : Option String
  cache : Cache.Mode
  deriving DecidableEq, Repr

namespace StoreConfig

def ofBackend (backend : BackendChoice) : StoreConfig :=
  ⟨backend, none, .standard⟩

def standard : StoreConfig := ofBackend .memory

end StoreConfig

/-! ## Descriptions -/

def BackendChoice.describe : BackendChoice → String
  | .memory => "Memory"
  | .sqliteFile path => "Sqlite(" ++ Text.quotedPath path ++ ")"
  | .sqliteInMemory => "SqliteInMemory"

def Cache.Mode.describe : Cache.Mode → String
  | .disabled => "Disabled"
  | .ttl nanos => "Ttl(" ++ Text.duration nanos ++ ")"
  | .forever => "Forever"

def describeOption : Option String → String
  | none => "None"
  | some text => "Some(" ++ Text.quoted text ++ ")"

def StoreConfig.describe (config : StoreConfig) : String :=
  "StoreConfig \x7b backend: " ++ config.backend.describe ++ ", prefix: " ++
    describeOption config.keyPrefix ++ ", cache: CacheConfig \x7b mode: " ++
    config.cache.describe ++ " \x7d \x7d"

end VersionedFlags
