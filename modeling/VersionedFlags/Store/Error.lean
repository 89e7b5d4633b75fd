import VersionedFlags.Json.Error

/-!
# Why a store refuses a call

A write that comes too late is not an error, it is answered as superseded.
-/

namespace VersionedFlags

inductive CellType where
  | integer
  | real
  | text
  | blob
  | null
  deriving DecidableEq, Repr

def CellType.describe : CellType → String
  | .integer => "Integer"
  | .real => "Real"
  | .text => "Text"
  | .blob => "Blob"
  | .null => "Null"

inductive StoreError where
  | closed
  /-- The version of an item is beyond the integers of a table. -/
  | versionOutOfRange (version : UInt64) (key : String)
  | negativeVersion (key : String)
  /-- A backend that was told to refuse a call did so. -/
  | refused (call : String)
  | payload (error : Json.Error)
  | wrongCell (found : CellType) (index : Nat) (column : String)
  | integerOutOfRange (value : Int) (index : Nat)
  | database
  deriving DecidableEq, Repr

def StoreError.message : StoreError → String
  | .closed => "store is closed"
  | .versionOutOfRange version key =>
      "invalid data: version " ++ toString version.toNat ++ " of " ++ key ++
        " exceeds the SQLite integer range"
  | .negativeVersion key => "invalid data: negative version for " ++ key
  | .refused call => "invalid data: " ++ call ++ " refused"
  | .payload error => "serialization error: " ++ error.message
  | .wrongCell found index column =>
      "database error: Invalid column type " ++ found.describe ++
        " at index: " ++ toString index ++ ", name: " ++ column
  | .integerOutOfRange value index =>
      "database error: Integer " ++ toString value ++ " out of range at index " ++
        toString index
  | .database => "database error"

end VersionedFlags
