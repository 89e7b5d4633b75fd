import VersionedFlags.Item.Basic
import VersionedFlags.Json.Record

/-!
# Items as JSON text

An item is written as an object of its four fields.  It is read from an object,
where unknown members are passed over, or from a list of the fields in order.
The last two fields may be left out.
-/

namespace VersionedFlags

namespace Item

/-! ## Writing -/

def fieldChars (name : String) (value : List Char) : List Char :=
  Json.quote name ++ ':' :: value

def chars (item : Item) : List Char :=
  '\x7b' :: fieldChars "key" (Json.quote item.key) ++
    ',' :: fieldChars "version" (Nat.toDigits 10 item.version.toNat) ++
    ',' :: fieldChars "deleted" (Json.bool item.deleted).chars ++
    ',' :: fieldChars "data" item.data.chars ++ ['\x7d']

def text (item : Item) : String := String.ofList item.chars

/-! ## Reading -/

structure Fields where
  key : Option String
  version : Option UInt64
  deleted : Option Bool
  data : Option Json
  deriving DecidableEq, Repr

namespace Fields

def unset : Fields := ⟨none, none, none, none⟩

/-- The key and the version have to be there. -/
def toItem (fields : Fields) (rest : Json.Unread) :
    Except Json.Stop (Item × Json.Unread) :=
  match fields.key, fields.version with
  | none, _ => .error (.meaning (.missingField "key") rest)
  | _, none => .error (.meaning (.missingField "version") rest)
  | some key, some version =>
      let deleted := fields.deleted.getD false
      .ok (⟨key, version, deleted, fields.data.getD .null⟩, rest)

def once {α : Type} (name : String) (present : Option α) (input : Json.Unread) :
    Except Json.Stop Json.Unread :=
  match present with
  | some _ => .error (.meaning (.repeatedField name) input)
  | none => Json.colon input

/-- Reads the member under a key from behind the key. -/
def member (depth : Nat) (fields : Fields) (key : String)
    (input : Json.Unread) : Except Json.Stop (Fields × Json.Unread) :=
  match key with
  | "key" => do
      let input ← once "key" fields.key input
      let (value, input) ← Json.stringField input
      return ({ fields with key := value }, input)
  | "version" => do
      let input ← once "version" fields.version input
      let (value, input) ← Json.wordField input
      return ({ fields with version := value }, input)
  | "deleted" => do
      let input ← once "deleted" fields.deleted input
      let (value, input) ← Json.boolField input
      return ({ fields with deleted := value }, input)
  | "data" => do
      let input ← once "data" fields.data input
      let (value, input) ← Json.value depth input
      return ({ fields with data := value }, input)
  | _ => do
      let input ← Json.colon input
      let (_, input) ← Json.skip input.length input
      return (fields, input)

end Fields

def ofObject (depth : Nat) (input : Json.Unread) :
    Except Json.Stop (Item × Json.Unread) := do
  let (fields, rest) ←
    Json.members .kept true (Fields.member depth) (input.length + 1) true
      .unset input
  fields.toItem rest

def tooShort (length : Nat) (rest : Json.Unread) : Json.Stop :=
  .meaning (.wrongLength length "struct Item with 4 elements") rest

def ofList (depth : Nat) (input : Json.Unread) :
    Except Json.Stop (Item × Json.Unread) := do
  let (key, input) ← Json.listField? Json.stringField true input
  let some key := key | .error (tooShort 0 input)
  let (version, input) ← Json.listField? Json.wordField false input
  let some version := version | .error (tooShort 1 input)
  let (deleted, input) ← Json.listField? Json.boolField false input
  let some deleted := deleted | return (⟨key, version, false, .null⟩, input)
  let (data, input) ← Json.listField? (Json.value depth) false input
  return (⟨key, version, deleted, data.getD .null⟩, input)

def parse (text : String) : Except Json.Error Item :=
  Json.document (Json.record "struct Item" ofList ofObject Json.depthLimit) text

end Item

end VersionedFlags
