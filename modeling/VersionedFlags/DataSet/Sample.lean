import VersionedFlags.DataSet.Basic

/-!
# Sample items

Small flags and segments of the shapes that real ones have.
-/

namespace VersionedFlags

def sampleFlag (key : String) (version : UInt64) : Item :=
  .live key version <| .ofMembers [
    ("key", .string key),
    ("version", .ofWord version),
    ("on", .bool true),
    ("variations", .array [.bool true, .bool false]),
    ("fallthrough", .ofMembers [("variation", .ofWord 0)])]

def sampleSegment (key : String) (version : UInt64) (included : List String) :
    Item :=
  .live key version <| .ofMembers [
    ("key", .string key),
    ("version", .ofWord version),
    ("included", .array (included.map .string))]

/-- Two flags and one segment, all at version one. -/
def DataSet.sample : DataSet :=
  (((Builder.start.add .features (sampleFlag "flag-a" 1)).add
    .features (sampleFlag "flag-b" 1)).add
    .segments (sampleSegment "segment-a" 1 ["alice"])).build

end VersionedFlags
