import VersionedFlags.Files.Definition
import VersionedFlags.Proofs.Fallible
import VersionedFlags.Proofs.KeyMap

/-!
# Definitions that become items

A definition is accepted when it is an object whose key, version and deletion,
as far as it states them, suit an item under its key.  The sections of a file
list its definitions, and each of them becomes the item under its own key.
-/

namespace VersionedFlags

theorem WordInt.toUInt64?_eq_some {number : WordInt} {word : UInt64} :
    number.toUInt64? = some word ↔ number = .ofUInt64 word := by
  obtain ⟨value, hlow, hhigh⟩ := number
  have hword := word.toNat_lt
  simp only [WordInt.toUInt64?, WordInt.ofUInt64, WordInt.mk.injEq]
  split
  · rw [Option.some_inj, ← UInt64.toNat_inj, UInt64.toNat_ofNat',
      Nat.mod_eq_of_lt (by omega)]
    omega
  · constructor
    · intro h
      cases h
    · intro h
      omega

namespace Files

/-! ## Accepted definitions -/

/-- What the members of a definition state suits an item under the key. -/
structure Suits (key : String) (members : List (String × Json)) : Prop where
  key : ∀ value, Assoc.lookup "key" members = some value → value = .string key
  version : ∀ value, Assoc.lookup "version" members = some value →
    ∃ version : UInt64, value = .ofWord version
  deleted : ∀ value, Assoc.lookup "deleted" members = some value →
    ∃ deleted : Bool, value = .bool deleted

def IsValid (key : String) (definition : Json) : Prop :=
  ∃ members, definition = .object members ∧ Suits key members

theorem versionOf_ok {stated : Option Json} :
    (∃ version, versionOf stated = .ok version) ↔
      ∀ value, stated = some value → ∃ version : UInt64, value = .ofWord version := by
  match stated with
  | none => simp [versionOf]
  | some (.integer number) =>
      simp only [versionOf, Option.some.injEq, forall_eq', Json.ofWord,
        Json.integer.injEq, ← WordInt.toUInt64?_eq_some]
      cases number.toUInt64? <;> simp
  | some .null | some (.bool _) | some (.double _) | some (.string _)
  | some (.array _) | some (.object _) => simp [versionOf, Json.ofWord]

theorem deletedOf_ok {stated : Option Json} :
    (∃ deleted, deletedOf stated = .ok deleted) ↔
      ∀ value, stated = some value → ∃ deleted : Bool, value = .bool deleted := by
  match stated with
  | none => simp [deletedOf]
  | some (.bool deleted) => simp [deletedOf]
  | some .null | some (.integer _) | some (.double _) | some (.string _)
  | some (.array _) | some (.object _) => simp [deletedOf]

/-- Filling in the key leaves the other members as they are. -/
theorem withKey_cases (key : String) (members : List (String × Json)) :
    (∃ filled, withKey key members = .ok filled ∧
      (∀ value, Assoc.lookup "key" members = some value → value = .string key) ∧
      ∀ name, name ≠ "key" →
        Assoc.lookup name filled = Assoc.lookup name members) ∨
    withKey key members = .error .foreignKey ∧
      ∃ value, Assoc.lookup "key" members = some value ∧ value ≠ .string key := by
  simp only [withKey]
  cases Assoc.lookup "key" members with
  | none =>
      refine .inl ⟨_, rfl, by simp, fun name hname => ?_⟩
      rw [Assoc.lookup_insert, if_neg (Ne.symm hname)]
  | some value =>
      by_cases hvalue : value = .string key
      · exact .inl ⟨members, by simp [hvalue], by simp [hvalue], by simp⟩
      · exact .inr ⟨by simp [hvalue], value, rfl, hvalue⟩

theorem itemOf_ok {key : String} {definition : Json} :
    (∃ item, itemOf key definition = .ok item) ↔ IsValid key definition := by
  match definition with
  | .null | .bool _ | .integer _ | .double _ | .string _ | .array _ =>
      simp [itemOf, IsValid]
  | .object members =>
      have hvalid : IsValid key (.object members) ↔ Suits key members := by
        simp [IsValid]
      rw [hvalid]
      rcases withKey_cases key members with
        ⟨filled, heq, hkey, hkept⟩ | ⟨heq, value, hvalue, hforeign⟩
      · simp only [itemOf, heq, ok_bind, hkept "version" (by decide),
          hkept "deleted" (by decide)]
        constructor
        · rintro ⟨item, hitem⟩
          obtain ⟨version, hversion, hitem⟩ := exists_of_bind_eq_ok hitem
          obtain ⟨deleted, hdeleted, -⟩ := exists_of_bind_eq_ok hitem
          exact ⟨hkey, versionOf_ok.mp ⟨version, hversion⟩,
            deletedOf_ok.mp ⟨deleted, hdeleted⟩⟩
        · rintro ⟨-, hversion, hdeleted⟩
          obtain ⟨version, hversion⟩ := versionOf_ok.mpr hversion
          obtain ⟨deleted, hdeleted⟩ := deletedOf_ok.mpr hdeleted
          exact ⟨_, by rw [hversion, hdeleted]; rfl⟩
      · simp only [itemOf, heq, error_bind, reduceCtorEq, exists_false,
          false_iff]
        exact fun hsuits => hforeign (hsuits.key value hvalue)

theorem key_of_itemOf {key : String} {definition : Json} {item : Item}
    (h : itemOf key definition = .ok item) : item.key = key := by
  cases definition with
  | object members =>
      obtain ⟨filled, -, h⟩ := exists_of_bind_eq_ok h
      obtain ⟨version, -, h⟩ := exists_of_bind_eq_ok h
      obtain ⟨deleted, -, h⟩ := exists_of_bind_eq_ok h
      cases h
      cases deleted <;> rfl
  | _ => cases h

/-- A flag that stands for a bare value is accepted whatever the value is. -/
theorem isValid_flagServing (key : String) (value : Json) :
    IsValid key (flagServing key value) := by
  refine ⟨_, rfl, ?_⟩
  constructor <;> intro stated hstated
  all_goals
    have hm := (KeyMap.get?_ofList (by simp) _ stated).mp hstated
    simp only [List.mem_cons, List.not_mem_nil, Prod.mk.injEq] at hm
  · simpa using hm
  · simp at hm
  · simp at hm

/-! ## Definitions of a file -/

/-- A definition of a file: the kind and the key of its item, and its text. -/
structure Definition where
  kind : Kind
  key : String
  value : Json

namespace Definition

def place (definition : Definition) : Kind × String :=
  (definition.kind, definition.key)

def item (definition : Definition) : Except Flaw Item :=
  itemOf definition.key definition.value

def ofEntry (kind : Kind) (entry : String × Json) : Definition :=
  ⟨kind, entry.1, entry.2⟩

end Definition

namespace Sections

variable {sections : Sections}

/-- The definitions in the order in which they become items. -/
def definitions (sections : Sections) : List Definition :=
  sections.flags.entries.map (.ofEntry .features) ++
    (sections.flagValues.map flagServing).entries.map (.ofEntry .features) ++
    sections.segments.entries.map (.ofEntry .segments)

/-- The flags and the segments are accepted; flag values always are. -/
structure IsValid (sections : Sections) : Prop where
  flags : ∀ key definition, sections.flags.get? key = some definition →
    Files.IsValid key definition
  segments : ∀ key definition, sections.segments.get? key = some definition →
    Files.IsValid key definition

theorem isValid_iff :
    sections.IsValid ↔
      ∀ definition ∈ sections.definitions,
        ∃ item, definition.item = .ok item := by
  simp only [Definition.item, itemOf_ok]
  constructor
  · intro h definition hm
    simp only [definitions, List.mem_append, List.mem_map] at hm
    obtain (⟨⟨key, value⟩, hm, rfl⟩ | ⟨⟨key, value⟩, hm, rfl⟩) |
      ⟨⟨key, value⟩, hm, rfl⟩ := hm
    · exact h.flags key value (KeyMap.mem_entries.mp hm)
    · rw [KeyMap.mem_entries, KeyMap.get?_map, Option.map_eq_some_iff] at hm
      obtain ⟨bare, -, rfl⟩ := hm
      exact isValid_flagServing key bare
    · exact h.segments key value (KeyMap.mem_entries.mp hm)
  · intro h
    constructor <;> intro key value hget
    · refine h (.ofEntry .features (key, value)) ?_
      simp only [definitions, List.append_assoc, List.mem_append]
      exact .inl (List.mem_map_of_mem (KeyMap.mem_entries.mpr hget))
    · refine h (.ofEntry .segments (key, value)) ?_
      simp only [definitions, List.mem_append]
      exact .inr (List.mem_map_of_mem (KeyMap.mem_entries.mpr hget))

end Sections

/-! ## Items of a file -/

/-- The item of a definition with its kind, as the items of a file are listed. -/
def Definition.entry (definition : Definition) :
    Except BadDefinition (Kind × Item) :=
  match definition.item with
  | .ok item => .ok (definition.kind, item)
  | .error flaw => .error ⟨definition.kind, definition.key, flaw⟩

theorem Definition.entry_eq_ok {definition : Definition} {entry : Kind × Item} :
    definition.entry = .ok entry ↔
      definition.kind = entry.1 ∧ definition.item = .ok entry.2 := by
  obtain ⟨kind, item⟩ := entry
  simp only [Definition.entry]
  cases definition.item <;> simp

theorem itemsOf_eq (kind : Kind) (entries : List (String × Json)) :
    itemsOf kind entries =
      (entries.map (Definition.ofEntry kind)).mapM Definition.entry := by
  rw [itemsOf, List.mapM_map]
  rfl

theorem Sections.items_eq (sections : Sections) :
    sections.items = sections.definitions.mapM Definition.entry := by
  simp [Sections.items, Sections.definitions, itemsOf_eq, List.mapM_append]

end Files

end VersionedFlags
