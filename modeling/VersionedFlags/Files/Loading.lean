import VersionedFlags.Files.FileTree
import VersionedFlags.Files.SectionsYaml

/-!
# Loading data files

Files are read in the order given and merged into one data set that covers
every kind.  A load succeeds as a whole or is refused with its first fault.
-/

namespace VersionedFlags

namespace Files

/-! ## Formats -/

inductive Format where
  | json
  | yaml
  deriving DecidableEq, Repr

/-- The extension selects the format, whatever the case of its letters. -/
def Format.ofPath (path : Path) : Format :=
  match path.extension?.map String.toLower with
  | some "yaml" | some "yml" => .yaml
  | _ => .json

/-- Why a text was refused; faults of YAML text are not told apart. -/
inductive TextFault where
  | json (error : Json.Error)
  | yaml
  deriving DecidableEq, Repr

def TextFault.message : TextFault → String
  | .json error => error.message
  | .yaml => "malformed YAML"

def sectionsOfText (format : Format) (text : String) :
    Except TextFault Sections :=
  match format with
  | .json => (Sections.ofJsonText text).mapError .json
  | .yaml =>
      match Sections.ofYamlText? text with
      | some sections => .ok sections
      | none => .error .yaml

/-! ## Faults -/

inductive LoadError where
  | unreadable (path : Path) (fault : Fault)
  | unparsable (path : Path) (fault : TextFault)
  | duplicateKey (path : Path) (kind : Kind) (key : String)
  | invalidItem (path : Path) (bad : BadDefinition)
  deriving DecidableEq, Repr

def LoadError.message : LoadError → String
  | .unreadable path fault =>
      "unable to read " ++ path.text ++ ": " ++ fault.message
  | .unparsable path fault =>
      "unable to parse " ++ path.text ++ ": " ++ fault.message
  | .duplicateKey path kind key =>
      "in " ++ path.text ++ ", " ++ kind.label ++ " key '" ++ key ++
        "' was already defined"
  | .invalidItem path bad =>
      "in " ++ path.text ++ ", invalid " ++ bad.kind.label ++ " '" ++
        bad.key ++ "': " ++ bad.flaw.message

/-! ## Loading -/

def parse (path : Path) (text : String) : Except LoadError Sections :=
  (sectionsOfText (.ofPath path) text).mapError (.unparsable path)

def itemsOfSections (path : Path) (sections : Sections) :
    Except LoadError (List (Kind × Item)) :=
  sections.items.mapError (.invalidItem path)

/-- Merges an item that the file at the path defines. -/
def merge (path : Path) (builder : DataSet.Builder) (definition : Kind × Item) :
    Except LoadError DataSet.Builder :=
  (builder.tryAdd definition.1 definition.2).mapError fun
    | .duplicateKey kind key => .duplicateKey path kind key
    | error =>
        .invalidItem path ⟨definition.1, definition.2.key, .data error⟩

def loadText (path : Path) (text : String) (builder : DataSet.Builder) :
    Except LoadError DataSet.Builder := do
  let sections ← parse path text
  let items ← itemsOfSections path sections
  items.foldlM (merge path) builder

def loadFile (tree : FileTree) (here : Location) (builder : DataSet.Builder)
    (path : Path) : Except LoadError DataSet.Builder := do
  let text ← (tree.read here path).mapError (.unreadable path)
  loadText path text builder

def load (tree : FileTree) (here : Location) (paths : List Path) :
    Except LoadError DataSet := do
  let builder ← paths.foldlM (loadFile tree here) .start
  return builder.build

end Files

end VersionedFlags
