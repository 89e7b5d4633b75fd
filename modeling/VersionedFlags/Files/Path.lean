/-!
# Paths

A path keeps the text it was written with, which messages show.  Two paths are
the same when their components are: repeated slashes, a trailing slash and a
dot behind the start name nothing, while two dots are a component of their own.
The components also give the order of paths.
-/

namespace VersionedFlags

namespace Files

inductive Component where
  | root
  | here
  | up
  | name (text : String)
  deriving DecidableEq, Repr

structure Path where
  text : String
  deriving DecidableEq, Repr

namespace Path

/-! ## Segments -/

def split : List Char → List (List Char)
  | [] => [[]]
  | c :: rest =>
      if c = '/' then [] :: split rest
      else
        match split rest with
        | [] => [[c]]
        | segment :: more => (c :: segment) :: more

def segments (path : Path) : List String :=
  (split path.text.toList).map String.ofList

def ofSegments (segments : List String) : Path :=
  if segments = [""] then ⟨"/"⟩ else ⟨"/".intercalate segments⟩

def isAbsolute (path : Path) : Bool := path.text.startsWith "/"

/-! ## Components -/

def component? (segment : String) : Option Component :=
  if segment = "" ∨ segment = "." then none
  else if segment = ".." then some .up
  else some (.name segment)

def start? (segment : String) (alone : Bool) : Option Component :=
  if segment = "" then if alone then none else some .root
  else if segment = "." then some .here
  else component? segment

def components (path : Path) : List Component :=
  match path.segments with
  | [] => []
  | first :: rest => (start? first rest.isEmpty).toList ++ rest.filterMap component?

def same (left right : Path) : Bool := left.components == right.components

/-! ## File name, extension and parent -/

def fileName? (path : Path) : Option String :=
  match path.components.getLast? with
  | some (.name text) => some text
  | _ => none

/-- What follows the last dot of the file name, unless the name has no other
dot than one at its start. -/
def extension? (path : Path) : Option String := do
  let name := (← path.fileName?).toList.reverse
  match name.dropWhile (· != '.') with
  | [] => none
  | ['.'] => none
  | _ => some (String.ofList (name.takeWhile (· != '.')).reverse)

/-- Drops segments that name nothing from the end, given in reverse. -/
def trim : List String → List String
  | [] => []
  | [first] => [first]
  | segment :: rest =>
      if (component? segment).isNone then trim rest else segment :: rest

/-- The path without its last component; the root and the empty path have no
parent. -/
def parent? (path : Path) : Option Path :=
  match trim path.segments.reverse with
  | [] => none
  | [first] => if first = "" then none else some ⟨""⟩
  | _ :: rest => some (ofSegments (trim rest).reverse)

def join (base path : Path) : Path :=
  if path.isAbsolute ∨ base.text = "" then path
  else if base.text.endsWith "/" then ⟨base.text ++ path.text⟩
  else ⟨base.text ++ "/" ++ path.text⟩

end Path

/-! ## Order -/

namespace Component

def rank : Component → Nat
  | .root => 0
  | .here => 1
  | .up => 2
  | .name _ => 3

def text : Component → String
  | .name text => text
  | _ => ""

/-- Names come last, in code point order. -/
instance : LT Component :=
  ⟨fun left right => left.rank < right.rank ∨
    left.rank = right.rank ∧ left.text < right.text⟩

instance : DecidableLT Component := fun left right =>
  inferInstanceAs (Decidable (left.rank < right.rank ∨
    left.rank = right.rank ∧ left.text < right.text))

end Component

namespace Path

instance : LT Path := ⟨fun left right => left.components < right.components⟩

instance : DecidableLT Path := fun left right =>
  inferInstanceAs (Decidable (left.components < right.components))

/-- Puts the path at its place among ordered paths, unless the same path is there. -/
def insert (path : Path) : List Path → List Path
  | [] => [path]
  | other :: rest =>
      if path < other then path :: other :: rest
      else if path.same other then other :: rest
      else other :: insert path rest

/-- The paths in their order, each once. -/
def inOrder (paths : List Path) : List Path :=
  paths.foldl (fun ordered path => path.insert ordered) []

end Path

end Files

end VersionedFlags
