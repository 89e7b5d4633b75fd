import VersionedFlags.Kind

/-!
# Realms

Several logical stores share a backend, each under a realm of its own.  The
name of a realm starts every stored name that belongs to it.
-/

namespace VersionedFlags

structure Realm where
  name : String
  deriving DecidableEq, Repr

namespace Realm

def standard : Realm := ⟨"flagstore"⟩

/-- No name and the empty name select the standard realm. -/
def ofName? : Option String → Realm
  | none => standard
  | some name => if name = "" then standard else ⟨name⟩

/-- The scope that holds the realm's items of one kind. -/
def scope (realm : Realm) (kind : Kind) : String :=
  realm.name ++ ":" ++ kind.label

def itemKey (realm : Realm) (kind : Kind) (key : String) : String :=
  realm.scope kind ++ ":" ++ key

/-- The name that records that the realm has been initialized. -/
def marker (realm : Realm) : String := realm.name ++ ":" ++ "$inited"

end Realm

end VersionedFlags
