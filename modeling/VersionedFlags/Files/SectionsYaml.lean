import VersionedFlags.Files.SectionsText
import VersionedFlags.Yaml.Node.Reader
import VersionedFlags.Yaml.Value

/-!
# Sections as YAML text

The sections are the members of one mapping.  A text without a document has no
sections, and a section without content is empty.
-/

namespace VersionedFlags

namespace Files

namespace Sections

/-- Adds a section that is known and not yet there. -/
def Fields.add (fields : Fields) (name : String) (map : KeyMap Json) :
    Option Fields :=
  match name with
  | "flags" =>
      if fields.flags.isSome then none
      else some { fields with flags := some map }
  | "flagValues" =>
      if fields.flagValues.isSome then none
      else some { fields with flagValues := some map }
  | "segments" =>
      if fields.segments.isSome then none
      else some { fields with segments := some map }
  | _ => none

/-- The document and each section are collections around the values. -/
def ofDocument (document : Yaml.Node) : Yaml.Walk Sections := do
  let members ← document.members document
  let fields ← members.foldlM (fun fields (key, node) => do
    let name ← document.keyText key
    let map ← document.valueMap (Yaml.depthLimit - 2) node
    fields.add name map) Fields.unset
  return fields.toSections

def ofYamlText? (text : String) : Option Sections := do
  match ← Yaml.Node.ofText? text with
  | none => return empty
  | some document => (ofDocument document).run' document.aliasLimit

end Sections

end Files

end VersionedFlags
