import VersionedFlags.Files.Definition
import VersionedFlags.Json.Record

/-!
# Sections as JSON text

The sections are written as an object, where each section may be left out, or
as a list of at most three maps in the order of sections.
-/

namespace VersionedFlags

namespace Files

namespace Sections

structure Fields where
  flags : Option (KeyMap Json)
  flagValues : Option (KeyMap Json)
  segments : Option (KeyMap Json)
  deriving DecidableEq, Repr

namespace Fields

def unset : Fields := ⟨none, none, none⟩

def toSections (fields : Fields) : Sections :=
  ⟨fields.flags.getD .empty, fields.flagValues.getD .empty,
    fields.segments.getD .empty⟩

/-- Reads the section of a name from behind the name. -/
def section? (depth : Nat) (name : String) (present : Option (KeyMap Json))
    (input : Json.Unread) :
    Except Json.Stop (Option (KeyMap Json) × Json.Unread) :=
  match present with
  | some _ => .error (.meaning (.repeatedField name) input)
  | none => do
      let (map, input) ← Json.mapField depth (← Json.colon input)
      return (some map, input)

def member (depth : Nat) (fields : Fields) (key : String)
    (input : Json.Unread) : Except Json.Stop (Fields × Json.Unread) :=
  match key with
  | "flags" => do
      let (map, input) ← section? depth key fields.flags input
      return ({ fields with flags := map }, input)
  | "flagValues" => do
      let (map, input) ← section? depth key fields.flagValues input
      return ({ fields with flagValues := map }, input)
  | "segments" => do
      let (map, input) ← section? depth key fields.segments input
      return ({ fields with segments := map }, input)
  | key => .error (.meaning (.unknownField key names) input)

end Fields

def ofObject (depth : Nat) (input : Json.Unread) :
    Except Json.Stop (Sections × Json.Unread) := do
  let (fields, rest) ←
    Json.members .kept true (Fields.member depth) (input.length + 1) true
      .unset input
  return (fields.toSections, rest)

def ofList (depth : Nat) (input : Json.Unread) :
    Except Json.Stop (Sections × Json.Unread) := do
  let field := Json.listField? (Json.mapField depth)
  let (flags, input) ← field true input
  let some flags := flags | return (.empty, input)
  let (flagValues, input) ← field false input
  let some flagValues := flagValues
    | return ({ empty with flags := flags }, input)
  let (segments, input) ← field false input
  return (⟨flags, flagValues, segments.getD .empty⟩, input)

def ofJsonText (text : String) : Except Json.Error Sections :=
  Json.document
    (Json.record "struct FileData" ofList ofObject Json.depthLimit) text

end Sections

end Files

end VersionedFlags
