import VersionedFlags.Item.Text
import VersionedFlags.Realm
import VersionedFlags.Store.Call
import VersionedFlags.Store.Sqlite.Cell

/-!
# Tables of a database file

A file has a table of items, a table of markers of initialized realms and a
table of the schema versions that were applied.  Any of them may be missing, or
be foreign: a table of the same name with other columns.
-/

namespace VersionedFlags

namespace Sqlite

structure Row where
  scope : String
  key : String
  version : Cell
  deleted : Cell
  data : Cell
  deriving DecidableEq, Repr

inductive Table (α : Type) where
  | absent
  | foreign
  | own (content : α)
  deriving DecidableEq, Repr

namespace Table

variable {α : Type}

def content (table : Table α) : Except StoreError α :=
  match table with
  | .own content => .ok content
  | .absent | .foreign => .error .database

def create (table : Table α) (content : α) : Except StoreError (Table α) :=
  match table with
  | .absent => .ok (.own content)
  | .foreign | .own _ => .error .database

def clear (table : Table α) (none : α) : Except StoreError (Table α) :=
  match table with
  | .absent => .error .database
  | .foreign => .ok .foreign
  | .own _ => .ok (.own none)

end Table

/-- The rows of items are listed in the order in which they were inserted. -/
structure Tables where
  items : Table (List Row)
  markers : Table (KeyMap Unit)
  schema : Table (List Int)
  others : KeyMap Unit
  deriving DecidableEq, Repr

namespace Tables

def unmade : Tables := ⟨.absent, .absent, .absent, .empty⟩

/-! ## Schema versions -/

def currentVersion : Nat := 1

def insertVersion (version : Int) : List Int → Option (List Int)
  | [] => some [version]
  | first :: rest =>
      if version < first then some (version :: first :: rest)
      else if version = first then none
      else (insertVersion version rest).map (first :: ·)

inductive Migration where
  | done (tables : Tables)
  | failed (error : StoreError)
  /-- The version after the recorded one does not fit its word. -/
  | aborted
  deriving DecidableEq, Repr

/-- Tables and indexes share their names. -/
def indexName : String := "idx_items_scope_live"

def createAll (tables : Tables) (versions : List Int) :
    Except StoreError Tables := do
  let items ← tables.items.create []
  let markers ← tables.markers.create .empty
  if tables.others.contains indexName then .error .database
  match insertVersion currentVersion versions with
  | some versions =>
      return { tables with items, markers, schema := .own versions }
  | none => .error .database

/-- Brings the tables to the current schema or leaves them as they are. -/
def migrate (tables : Tables) : Migration :=
  match tables.schema with
  | .foreign => .failed .database
  | .absent =>
      match tables.createAll [] with
      | .ok tables => .done tables
      | .error error => .failed error
  | .own versions =>
      let recorded := (versions.max?).getD 0
      if recorded < 0 ∨ 2 ^ 32 ≤ recorded then
        .failed (.integerOutOfRange recorded 0)
      else if recorded = 2 ^ 32 - 1 then .aborted
      else if currentVersion ≤ recorded then .done tables
      else
        match tables.createAll versions with
        | .ok tables => .done tables
        | .error error => .failed error

def migrated : Tables :=
  ⟨.own [], .own .empty, .own [(currentVersion : Int)], .empty⟩

theorem migrate_unmade : unmade.migrate = .done migrated := rfl

/-! ## Reading rows -/

def row? (rows : List Row) (scope key : String) : Option Row :=
  rows.find? fun row => row.scope == scope && row.key == key

/-- What is read from a row before its payload is. -/
structure Reading where
  key : String
  version : Int
  deleted : Bool
  data : String
  deriving DecidableEq, Repr

def Reading.ofRow (row : Row) : Except StoreError Reading :=
  match row.version, row.deleted, row.data with
  | .integer version, .integer deleted, .text data =>
      .ok ⟨row.key, version, deleted != 0, data⟩
  | .integer _, .integer _, data => .error (.wrongCell data.type 3 "data")
  | .integer _, deleted, _ => .error (.wrongCell deleted.type 2 "deleted")
  | version, _, _ => .error (.wrongCell version.type 1 "version")

def Reading.toItem (reading : Reading) : Except StoreError Item :=
  if reading.version < 0 then .error (.negativeVersion reading.key)
  else
    match Json.parse reading.data with
    | .ok data =>
        .ok (.live reading.key (UInt64.ofNat reading.version.toNat) data)
    | .error error => .error (.payload error)

def get? (tables : Tables) (realm : Realm) (kind : Kind) (key : String) :
    Except StoreError (Option Item) := do
  match row? (← tables.items.content) (realm.scope kind) key with
  | none => return none
  | some row =>
      let reading ← Reading.ofRow row
      if reading.deleted then return none
      else return some (← reading.toItem)

def all (tables : Tables) (realm : Realm) (kind : Kind) :
    Except StoreError (KeyMap Item) := do
  let rows := (← tables.items.content).filter fun row =>
    row.scope == realm.scope kind && row.deleted == .integer 0
  let items ← (← rows.mapM Reading.ofRow).mapM Reading.toItem
  return .ofList (items.map fun item => (item.key, item))

/-- The stored version; a negative one counts as none. -/
def version? (tables : Tables) (realm : Realm) (kind : Kind) (key : String) :
    Except StoreError (Option UInt64) := do
  match row? (← tables.items.content) (realm.scope kind) key with
  | none => return none
  | some ⟨_, _, .integer version, _, _⟩ =>
      if version < 0 then return none
      else return some (UInt64.ofNat version.toNat)
  | some row => .error (.wrongCell row.version.type 0 "version")

def isInitialized (tables : Tables) (realm : Realm) : Except StoreError Bool := do
  return (← tables.markers.content).contains realm.marker

/-! ## Writing rows -/

def versionCell (item : Item) : Except StoreError Int :=
  if item.version.toNat < 2 ^ 63 then .ok item.version.toNat
  else .error (.versionOutOfRange item.version item.key)

def rowOf (scope : String) (item : Item) (version : Int) : Row :=
  ⟨scope, item.key, .integer version, .integer (if item.deleted then 1 else 0),
    .text item.data.text⟩

def insertAll (scope : String) (rows : List Row) (items : List Item) :
    Except StoreError (List Row) := do
  let added ← items.mapM fun item => do
    return rowOf scope item (← versionCell item)
  return rows ++ added

def replaceScope (tables : Tables) (scope : String) (items : List Item) :
    Except StoreError Tables := do
  let kept := (← tables.items.content).filter fun row => row.scope != scope
  return { tables with items := .own (← insertAll scope kept items) }

def mark (tables : Tables) (marker : String) : Except StoreError Tables := do
  let markers := (← tables.markers.content).insert marker ()
  return { tables with markers := .own markers }

/-- A transaction: an error leaves the tables as they were. -/
def init (tables : Tables) (realm : Realm) (data : DataSet) :
    Except StoreError Tables := do
  let tables ← data.parts.foldlM
    (fun tables part =>
      replaceScope tables (realm.scope part.1) part.2.values) tables
  tables.mark realm.marker

/-- Compares and writes in one statement. -/
def putRow (row : Row) (version : Int) : List Row → Outcome × List Row
  | [] => (.applied, [row])
  | first :: rest =>
      if first.scope = row.scope ∧ first.key = row.key then
        if first.version.ltInteger version then (.applied, row :: rest)
        else (.superseded, first :: rest)
      else
        let (outcome, rest) := putRow row version rest
        (outcome, first :: rest)

def write (tables : Tables) (realm : Realm) (kind : Kind) (item : Item)
    (version : Int) : Except StoreError (Outcome × Tables) := do
  let row := rowOf (realm.scope kind) item version
  let (outcome, rows) := putRow row version (← tables.items.content)
  return (outcome, { tables with items := .own rows })

/-- Deletes all items and then all markers, of every realm. -/
def clear (tables : Tables) : Except StoreError Unit × Tables :=
  match tables.items.clear [] with
  | .error error => (.error error, tables)
  | .ok items =>
      let tables := { tables with items }
      match tables.markers.clear .empty with
      | .error error => (.error error, tables)
      | .ok markers => (.ok (), { tables with markers })

/-! ## Access past the store -/

/-- Names of tables do not tell the case of ASCII letters. -/
def caseless (name : String) : String := name.map Char.toLower

/-- Names that the database keeps for itself. -/
def isReserved (name : String) : Bool := name.startsWith "sqlite_"

/-- The index comes and goes with the table of items. -/
def hasIndex (tables : Tables) : Bool :=
  match tables.items with
  | .own _ => true
  | .absent | .foreign => false

def itemsName : String := "items"

def markersName : String := "init_markers"

def schemaName : String := "schema_migrations"

/-- Replaces a row; cells take the affinity of their columns and may not be
null. -/
def overwrite (tables : Tables) (row : Row) : Except StoreError Tables := do
  let rows ← tables.items.content
  let version := row.version.inIntegerColumn
  let deleted := row.deleted.inIntegerColumn
  let data := row.data.inTextColumn
  if [version, deleted, data].contains .null then .error .database
  else
    let kept := rows.filter fun other =>
      !(other.scope == row.scope && other.key == row.key)
    let row := { row with version, deleted, data }
    return { tables with items := .own (kept ++ [row]) }

def drop (tables : Tables) (table : String) : Except StoreError Tables :=
  let name := caseless table
  if name = itemsName then
    if tables.items = .absent then .error .database
    else .ok { tables with items := .absent }
  else if name = markersName then
    if tables.markers = .absent then .error .database
    else .ok { tables with markers := .absent }
  else if name = schemaName then
    if tables.schema = .absent then .error .database
    else .ok { tables with schema := .absent }
  else if tables.others.contains name then
    .ok { tables with others := tables.others.erase name }
  else .error .database

def createForeign (tables : Tables) (table : String) :
    Except StoreError Tables :=
  let name := caseless table
  if name = itemsName then
    if tables.items = .absent then .ok { tables with items := .foreign }
    else .error .database
  else if name = markersName then
    if tables.markers = .absent then .ok { tables with markers := .foreign }
    else .error .database
  else if name = schemaName then
    if tables.schema = .absent then .ok { tables with schema := .foreign }
    else .error .database
  else if isReserved name ∨ name = indexName ∧ tables.hasIndex then
    .error .database
  else if tables.others.contains name then .error .database
  else .ok { tables with others := tables.others.insert name () }

/-- Records a schema version, in a new table if there is none. -/
def recordVersion (tables : Tables) (version : Int) :
    Except StoreError Tables :=
  let versions? :=
    match tables.schema with
    | .absent => some [version]
    | .foreign => none
    | .own versions => insertVersion version versions
  match versions? with
  | some versions => .ok { tables with schema := .own versions }
  | none => .error .database

end Tables

/-! ## Files -/

inductive Image where
  | damaged
  | intact (tables : Tables)
  deriving DecidableEq, Repr

namespace Image

/-- A file that is empty or not there yet. -/
def fresh : Image := .intact .unmade

def ofBytes (bytes : ByteArray) : Image :=
  if bytes.isEmpty then fresh else .damaged

def tables (image : Image) : Except StoreError Tables :=
  match image with
  | .damaged => .error .database
  | .intact tables => .ok tables

end Image

end Sqlite

end VersionedFlags
