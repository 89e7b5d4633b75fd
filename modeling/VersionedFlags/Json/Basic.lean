import VersionedFlags.KeyMap
import VersionedFlags.Binary64.Basic

/-!
# JSON values

Payloads and documents are JSON values.  Integers are those of a signed or an
unsigned 64-bit word; every other number is a double.  The members of an object
are listed in key order without repeats, which `Canonical` states and
`ofMembers` establishes.
-/

namespace VersionedFlags

/-- An integer that fits a signed or an unsigned 64-bit word. -/
structure WordInt where
  value : Int
  inRange : -2 ^ 63 ≤ value ∧ value < 2 ^ 64
  deriving DecidableEq, Repr

def WordInt.ofInt? (value : Int) : Option WordInt :=
  if h : -2 ^ 63 ≤ value ∧ value < 2 ^ 64 then some ⟨value, h⟩ else none

def WordInt.ofUInt64 (word : UInt64) : WordInt :=
  ⟨word.toNat, by have := word.toNat_lt; omega⟩

def WordInt.toUInt64? (number : WordInt) : Option UInt64 :=
  if 0 ≤ number.value then some (UInt64.ofNat number.value.toNat) else none

inductive Json where
  | null
  | bool (value : Bool)
  | integer (value : WordInt)
  | double (value : Binary64)
  | string (value : String)
  | array (elements : List Json)
  | object (members : List (String × Json))
  deriving Repr

namespace Json

instance : Inhabited Json := ⟨.null⟩

/-! ## Equality -/

mutual

def decEq : (left right : Json) → Decidable (left = right)
  | .null, .null => isTrue rfl
  | .bool a, .bool b => decidable_of_iff (a = b) (by simp)
  | .integer a, .integer b => decidable_of_iff (a = b) (by simp)
  | .double a, .double b => decidable_of_iff (a = b) (by simp)
  | .string a, .string b => decidable_of_iff (a = b) (by simp)
  | .array a, .array b =>
      have := decEqElements a b
      decidable_of_iff (a = b) (by simp)
  | .object a, .object b =>
      have := decEqMembers a b
      decidable_of_iff (a = b) (by simp)
  | .null, .bool _ | .null, .integer _ | .null, .double _ | .null, .string _
  | .null, .array _ | .null, .object _ => isFalse (by simp)
  | .bool _, .null | .bool _, .integer _ | .bool _, .double _
  | .bool _, .string _ | .bool _, .array _ | .bool _, .object _ =>
      isFalse (by simp)
  | .integer _, .null | .integer _, .bool _ | .integer _, .double _
  | .integer _, .string _ | .integer _, .array _ | .integer _, .object _ =>
      isFalse (by simp)
  | .double _, .null | .double _, .bool _ | .double _, .integer _
  | .double _, .string _ | .double _, .array _ | .double _, .object _ =>
      isFalse (by simp)
  | .string _, .null | .string _, .bool _ | .string _, .integer _
  | .string _, .double _ | .string _, .array _ | .string _, .object _ =>
      isFalse (by simp)
  | .array _, .null | .array _, .bool _ | .array _, .integer _
  | .array _, .double _ | .array _, .string _ | .array _, .object _ =>
      isFalse (by simp)
  | .object _, .null | .object _, .bool _ | .object _, .integer _
  | .object _, .double _ | .object _, .string _ | .object _, .array _ =>
      isFalse (by simp)

def decEqElements : (left right : List Json) → Decidable (left = right)
  | [], [] => isTrue rfl
  | [], _ :: _ => isFalse (by simp)
  | _ :: _, [] => isFalse (by simp)
  | a :: as, b :: bs =>
      have := decEq a b
      have := decEqElements as bs
      decidable_of_iff (a = b ∧ as = bs) (by simp)

def decEqMembers :
    (left right : List (String × Json)) → Decidable (left = right)
  | [], [] => isTrue rfl
  | [], _ :: _ => isFalse (by simp)
  | _ :: _, [] => isFalse (by simp)
  | (k, a) :: as, (l, b) :: bs =>
      have := decEq a b
      have := decEqMembers as bs
      decidable_of_iff ((k = l ∧ a = b) ∧ as = bs) (by simp)

end

instance : DecidableEq Json := decEq

/-! ## Members -/

def member? (value : Json) (key : String) : Option Json :=
  match value with
  | .object members => Assoc.lookup key members
  | _ => none

/-- The object of the given members; of a repeated key the last one stays. -/
def ofMembers (members : List (String × Json)) : Json :=
  .object (KeyMap.ofList members).entries

def ofKeyMap (members : KeyMap Json) : Json := .object members.entries

def ofWord (word : UInt64) : Json := .integer (.ofUInt64 word)

inductive Canonical : Json → Prop
  | null : Canonical .null
  | bool (value : Bool) : Canonical (.bool value)
  | integer (value : WordInt) : Canonical (.integer value)
  | double (value : Binary64) : Canonical (.double value)
  | string (value : String) : Canonical (.string value)
  | array {elements : List Json} (each : ∀ e ∈ elements, Canonical e) :
      Canonical (.array elements)
  | object {members : List (String × Json)} (ordered : Assoc.Ordered members)
      (each : ∀ m ∈ members, Canonical m.2) : Canonical (.object members)

/-! ## Agreement of payloads -/

mutual

/-- Payloads agree when they differ at most in the sign of a zero. -/
def same : Json → Json → Bool
  | .double a, .double b => a.same b
  | .array as, .array bs => sameElements as bs
  | .object as, .object bs => sameMembers as bs
  | a, b => a == b

def sameElements : List Json → List Json → Bool
  | [], [] => true
  | a :: as, b :: bs => same a b && sameElements as bs
  | _, _ => false

def sameMembers : List (String × Json) → List (String × Json) → Bool
  | [], [] => true
  | (k, a) :: as, (l, b) :: bs => k == l && same a b && sameMembers as bs
  | _, _ => false

end

/-! ## Nesting -/

mutual

/-- How many containers are open around the innermost value. -/
def depth : Json → Nat
  | .array elements => depthElements elements + 1
  | .object members => depthMembers members + 1
  | _ => 0

def depthElements : List Json → Nat
  | [] => 0
  | element :: rest => max (depth element) (depthElements rest)

def depthMembers : List (String × Json) → Nat
  | [] => 0
  | (_, value) :: rest => max (depth value) (depthMembers rest)

end

end Json

end VersionedFlags
