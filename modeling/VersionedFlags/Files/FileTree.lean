import VersionedFlags.Files.Path

/-!
# Trees of files

A tree holds files, directories and symbolic links.  An entry sits at a
location, the list of names that lead to it from the root.  `walk` follows a
path through the tree: every link on the way leads on from the directory that
holds it, and whatever the path goes on from has to be a directory.
-/

namespace VersionedFlags

namespace Files

abbrev Location := List String

instance decidableEqBytes : DecidableEq ByteArray := ByteArray.instDecidableEq

inductive Entry where
  | directory
  | file (content : ByteArray)
  | link (target : Path)
  deriving DecidableEq

inductive Fault where
  | notFound
  | notDirectory
  | isDirectory
  | nameTooLong
  | tooManyLinks
  | nulByte
  | invalidText
  deriving DecidableEq, Repr

def Fault.message : Fault → String
  | .notFound => "No such file or directory (os error 2)"
  | .notDirectory => "Not a directory (os error 20)"
  | .isDirectory => "Is a directory (os error 21)"
  | .nameTooLong => "File name too long (os error 36)"
  | .tooManyLinks => "Too many levels of symbolic links (os error 40)"
  | .nulByte => "file name contained an unexpected NUL byte"
  | .invalidText => "stream did not contain valid UTF-8"

structure FileTree where
  entries : List (Location × Entry)

namespace FileTree

def empty : FileTree := ⟨[]⟩

def at? (tree : FileTree) (location : Location) : Option Entry :=
  if location = [] then some .directory
  else (tree.entries.find? fun entry => entry.1 == location).map Prod.snd

def remove (tree : FileTree) (location : Location) : FileTree :=
  ⟨tree.entries.filter fun entry => entry.1 != location⟩

def put (tree : FileTree) (location : Location) (entry : Entry) : FileTree :=
  ⟨(location, entry) :: (tree.remove location).entries⟩

/-! ## Following a path -/

/-- The longest name of an entry in bytes. -/
def nameLimit : Nat := 255

/-- The first length of a path in bytes that is too long. -/
def pathLimit : Nat := 4096

def linkLimit : Nat := 40

/-- Where a path starts that is written in the directory `here`. -/
def startOf (here : Location) (path : Path) : Location :=
  if path.isAbsolute then [] else here

/-- Goes along the segments of a path; `follow` goes on behind a link. -/
def steps (tree : FileTree)
    (follow : Location → List String → Except Fault Location)
    (here : Location) : List String → Except Fault Location
  | [] => .ok here
  | segment :: rest =>
      match tree.at? here with
      | none => .error .notFound
      | some (.file _) | some (.link _) => .error .notDirectory
      | some .directory =>
          match Path.component? segment with
          | some .up => steps tree follow here.dropLast rest
          | some (.name name) =>
              if nameLimit < name.utf8ByteSize then .error .nameTooLong
              else
                match tree.at? (here ++ [name]) with
                | some (.link target) =>
                    follow (startOf here target) (target.segments ++ rest)
                | _ => steps tree follow (here ++ [name]) rest
          | _ => steps tree follow here rest

def walk (tree : FileTree) : Nat → Location → List String → Except Fault Location
  | 0 => steps tree fun _ _ => .error .tooManyLinks
  | links + 1 => steps tree (walk tree links)

/-- The location of what a path leads to, which need not be there if the path
only lacks its last name. -/
def locate (tree : FileTree) (here : Location) (path : Path) :
    Except Fault Location :=
  if path.text.toList.contains '\x00' then .error .nulByte
  else if path.text = "" then .error .notFound
  else tree.walk linkLimit (startOf here path) path.segments

/-- The path that leads to a location without a link, a dot or a spare slash. -/
def pathOf (location : Location) : Path := .ofSegments ("" :: location)

def canonical (tree : FileTree) (here : Location) (path : Path) :
    Except Fault Path := do
  let location ← tree.locate here path
  match tree.at? location with
  | some _ => return pathOf location
  | none => .error .notFound

def read (tree : FileTree) (here : Location) (path : Path) :
    Except Fault String := do
  if pathLimit ≤ path.text.utf8ByteSize ∧ ¬ path.text.toList.contains '\x00' then
    .error .nameTooLong
  let location ← tree.locate here path
  match tree.at? location with
  | some (.file content) =>
      match String.fromUTF8? content with
      | some text => return text
      | none => .error .invalidText
  | some .directory => .error .isDirectory
  | _ => .error .notFound

/-! ## Changing the tree -/

/-- The location of the entry that a path names, be it a link or nothing. -/
def entryOf (tree : FileTree) (here : Location) (path : Path) :
    Except Fault Location :=
  match path.parent?, path.fileName? with
  | some parent, some name => do
      let location ← tree.walk linkLimit (startOf here path) parent.segments
      return location ++ [name]
  | _, _ => .error .notFound

def makeDirectory (tree : FileTree) (here : Location) (segments : List String) :
    FileTree :=
  match tree.walk linkLimit here segments with
  | .ok location =>
      if (tree.at? location).isNone then tree.put location .directory else tree
  | .error _ => tree

def makeDirectories (tree : FileTree) (here : Location) (path : Path) :
    FileTree :=
  (List.range path.segments.length).foldl
    (fun tree n =>
      tree.makeDirectory (startOf here path) (path.segments.take (n + 1)))
    tree

def makeParents (tree : FileTree) (here : Location) (path : Path) : FileTree :=
  match path.parent? with
  | some parent => tree.makeDirectories here parent
  | none => tree

def writeThrough (tree : FileTree) (here : Location) (path : Path)
    (content : ByteArray) : FileTree :=
  match tree.locate here path with
  | .ok location => tree.put location (.file content)
  | .error _ => tree

def putEntry (tree : FileTree) (here : Location) (path : Path) (entry : Entry) :
    FileTree :=
  match tree.entryOf here path with
  | .ok location => tree.put location entry
  | .error _ => tree

def removeEntry (tree : FileTree) (here : Location) (path : Path) : FileTree :=
  match tree.entryOf here path with
  | .ok location => tree.remove location
  | .error _ => tree

end FileTree

end Files

end VersionedFlags
