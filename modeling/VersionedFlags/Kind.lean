/-!
# Kinds of items

The kinds partition a data set.  A kind's label takes part in the names under
which its items are stored.
-/

namespace VersionedFlags

inductive Kind where
  | features
  | segments
  deriving DecidableEq, Repr

inductive DataError where
  | emptyKey
  | unknownLabel (label : String)
  | duplicateKey (kind : Kind) (key : String)
  deriving DecidableEq, Repr

namespace Kind

def all : List Kind := [.features, .segments]

def label : Kind → String
  | .features => "features"
  | .segments => "segments"

/-- The path under which a stream of changes addresses items of the kind. -/
def streamPath : Kind → String
  | .features => "/flags/"
  | .segments => "/segments/"

def index : Kind → Nat
  | .features => 0
  | .segments => 1

def ofLabel (label : String) : Except DataError Kind :=
  match all.find? fun kind => kind.label == label with
  | some kind => .ok kind
  | none => .error (.unknownLabel label)

@[simp] theorem ofLabel_label (kind : Kind) : ofLabel kind.label = .ok kind := by
  cases kind <;> rfl

end Kind

def DataError.message : DataError → String
  | .emptyKey => "item key must not be empty"
  | .unknownLabel label => "unknown data kind namespace: " ++ label
  | .duplicateKey kind key =>
      "duplicate " ++ kind.label ++ " key '" ++ key ++ "'"

/-! ## One value per kind -/

structure PerKind (α : Type) where
  features : α
  segments : α
  deriving DecidableEq, Repr

namespace PerKind

variable {α β : Type}

def get (values : PerKind α) : Kind → α
  | .features => values.features
  | .segments => values.segments

def set (values : PerKind α) (kind : Kind) (value : α) : PerKind α :=
  match kind with
  | .features => { values with features := value }
  | .segments => { values with segments := value }

def modify (values : PerKind α) (kind : Kind) (change : α → α) : PerKind α :=
  values.set kind (change (values.get kind))

def const (value : α) : PerKind α := ⟨value, value⟩

def map (values : PerKind α) (change : α → β) : PerKind β :=
  ⟨change values.features, change values.segments⟩

def toList (values : PerKind α) : List (Kind × α) :=
  Kind.all.map fun kind => (kind, values.get kind)

@[simp] theorem get_set (values : PerKind α) (kind other : Kind) (value : α) :
    (values.set kind value).get other =
      if kind = other then value else values.get other := by
  cases kind <;> cases other <;> rfl

@[simp] theorem get_const (value : α) (kind : Kind) :
    (const value).get kind = value := by
  cases kind <;> rfl

@[simp] theorem get_map (values : PerKind α) (change : α → β) (kind : Kind) :
    (values.map change).get kind = change (values.get kind) := by
  cases kind <;> rfl

theorem ext_get {left right : PerKind α}
    (h : ∀ kind, left.get kind = right.get kind) : left = right := by
  cases left
  cases right
  have hf := h .features
  have hs := h .segments
  simp only [get] at hf hs
  rw [hf, hs]

end PerKind

end VersionedFlags
