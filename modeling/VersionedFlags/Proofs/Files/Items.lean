import VersionedFlags.Proofs.Files.Loading

/-!
# Items of a file

Each definition of a file becomes one item, in the order of the sections and of the
keys in each.  What a definition leaves out is filled in, what it states is kept, and
a bare value becomes a flag that serves it.  A file with a definition that is not
accepted has no items, and the first such definition is named with the first check
that it fails.
-/

namespace VersionedFlags

namespace Files

/-! ## Failed checks -/

/-- The check that the definition of a key fails first. -/
inductive Fails (key : String) : Json → Flaw → Prop
  | notObject {definition : Json} (h : ∀ members, definition ≠ .object members) :
      Fails key definition .notObject
  | foreignKey {members : List (String × Json)} {stated : Json}
      (hkey : Assoc.lookup "key" members = some stated) (h : stated ≠ .string key) :
      Fails key (.object members) .foreignKey
  | badVersion {members : List (String × Json)} {stated : Json}
      (hkey : ∀ value, Assoc.lookup "key" members = some value → value = .string key)
      (hversion : Assoc.lookup "version" members = some stated)
      (h : ∀ version : UInt64, stated ≠ .ofWord version) :
      Fails key (.object members) .badVersion
  | badDeleted {members : List (String × Json)} {stated : Json}
      (hkey : ∀ value, Assoc.lookup "key" members = some value → value = .string key)
      (hversion : ∀ value, Assoc.lookup "version" members = some value →
        ∃ version : UInt64, value = .ofWord version)
      (hdeleted : Assoc.lookup "deleted" members = some stated)
      (h : ∀ deleted : Bool, stated ≠ .bool deleted) :
      Fails key (.object members) .badDeleted

theorem versionOf_eq_error {stated : Option Json} {flaw : Flaw} :
    versionOf stated = .error flaw ↔ flaw = .badVersion ∧
      ∃ value, stated = some value ∧ ∀ version : UInt64, value ≠ .ofWord version := by
  match stated with
  | none => simp [versionOf]
  | some (.integer number) =>
      simp only [versionOf, Option.some.injEq, exists_eq_left', Json.ofWord, ne_eq,
        Json.integer.injEq, ← WordInt.toUInt64?_eq_some]
      cases number.toUInt64? <;> simp [eq_comm]
  | some .null | some (.bool _) | some (.double _) | some (.string _)
  | some (.array _) | some (.object _) => simp [versionOf, Json.ofWord, eq_comm]

theorem deletedOf_eq_error {stated : Option Json} {flaw : Flaw} :
    deletedOf stated = .error flaw ↔ flaw = .badDeleted ∧
      ∃ value, stated = some value ∧ ∀ deleted : Bool, value ≠ .bool deleted := by
  match stated with
  | none => simp [deletedOf]
  | some (.bool deleted) => simp [deletedOf]
  | some .null | some (.integer _) | some (.double _) | some (.string _)
  | some (.array _) | some (.object _) => simp [deletedOf, eq_comm]

theorem exists_withKey {key : String} {members : List (String × Json)}
    (hkey : ∀ value, Assoc.lookup "key" members = some value → value = .string key) :
    ∃ filled, withKey key members = .ok filled ∧ ∀ name, name ≠ "key" →
      Assoc.lookup name filled = Assoc.lookup name members := by
  rcases withKey_cases key members with ⟨filled, hfilled, -, hkept⟩ |
    ⟨-, value, hvalue, hforeign⟩
  · exact ⟨filled, hfilled, hkept⟩
  · exact absurd (hkey value hvalue) hforeign

theorem Fails.itemOf_eq {key : String} {definition : Json} {flaw : Flaw}
    (h : Fails key definition flaw) : itemOf key definition = .error flaw := by
  cases h with
  | notObject h =>
      cases definition with
      | object members => exact absurd rfl (h members)
      | _ => rfl
  | foreignKey hkey h => simp [itemOf, withKey, hkey, h]
  | badVersion hkey hversion h =>
      obtain ⟨filled, hfilled, hkept⟩ := exists_withKey hkey
      have hbad := versionOf_eq_error.mpr ⟨rfl, _, hversion, h⟩
      rw [itemOf, hfilled, ok_bind, hkept "version" (by decide), hbad, error_bind]
  | badDeleted hkey hversion hdeleted h =>
      obtain ⟨filled, hfilled, hkept⟩ := exists_withKey hkey
      obtain ⟨version, hversion⟩ := versionOf_ok.mpr hversion
      have hbad := deletedOf_eq_error.mpr ⟨rfl, _, hdeleted, h⟩
      rw [itemOf, hfilled, ok_bind, hkept "version" (by decide), hversion, ok_bind,
        hkept "deleted" (by decide), hbad, error_bind]

theorem fails_of_itemOf {key : String} {definition : Json} {flaw : Flaw}
    (h : itemOf key definition = .error flaw) : Fails key definition flaw := by
  cases definition with
  | object members =>
      rcases withKey_cases key members with ⟨filled, hfilled, hkey, hkept⟩ |
        ⟨hforeign, value, hvalue, hne⟩
      · rw [itemOf, hfilled, ok_bind, hkept "version" (by decide),
          hkept "deleted" (by decide)] at h
        cases hversion : versionOf (Assoc.lookup "version" members) with
        | error found =>
            rw [hversion] at h
            cases h
            obtain ⟨rfl, stated, hstated, hbad⟩ := versionOf_eq_error.mp hversion
            exact .badVersion hkey hstated hbad
        | ok version =>
            rw [hversion, ok_bind] at h
            cases hdeleted : deletedOf (Assoc.lookup "deleted" members) with
            | error found =>
                rw [hdeleted] at h
                cases h
                obtain ⟨rfl, stated, hstated, hbad⟩ := deletedOf_eq_error.mp hdeleted
                exact .badDeleted hkey (versionOf_ok.mp ⟨version, hversion⟩) hstated
                  hbad
            | ok deleted =>
                rw [hdeleted] at h
                cases h
      · rw [itemOf, hforeign] at h
        cases h
        exact .foreignKey hvalue hne
  | _ =>
      cases h
      exact .notObject (by simp)

/-- A definition is refused with the check that it fails first. -/
theorem itemOf_eq_error {key : String} {definition : Json} {flaw : Flaw} :
    itemOf key definition = .error flaw ↔ Fails key definition flaw :=
  ⟨fails_of_itemOf, Fails.itemOf_eq⟩

example : itemOf "a" (.object [("deleted", .null), ("version", .null)]) =
    .error .badVersion := rfl

/-! ## What an item keeps -/

/-- The members with the key among them and nothing else changed. -/
structure Filled (key : String) (members filled : List (String × Json)) : Prop where
  own : Assoc.lookup "key" filled = some (.string key)
  others : ∀ name, name ≠ "key" →
    Assoc.lookup name filled = Assoc.lookup name members
  ordered : Assoc.Ordered members → filled = Assoc.insert "key" (.string key) members

/-- The item of a definition with the members, under its key. -/
structure StandsFor (key : String) (members : List (String × Json)) (item : Item) :
    Prop where
  named : item.key = key
  version : Assoc.lookup "version" members = some (.ofWord item.version) ∨
    Assoc.lookup "version" members = none ∧ item.version = 1
  deleted : Assoc.lookup "deleted" members = some (.bool item.deleted) ∨
    Assoc.lookup "deleted" members = none ∧ item.deleted = false
  dropped : item.deleted = true → item.data = .null
  kept : item.deleted = false →
    ∃ filled, item.data = .object filled ∧ Filled key members filled

theorem filled_of_withKey {key : String} {members filled : List (String × Json)}
    (h : withKey key members = .ok filled) : Filled key members filled := by
  unfold withKey at h
  cases hkey : Assoc.lookup "key" members with
  | none =>
      rw [hkey] at h
      cases h
      exact ⟨by rw [Assoc.lookup_insert, if_pos rfl], fun name hname => by
        rw [Assoc.lookup_insert, if_neg (Ne.symm hname)], fun _ => rfl⟩
  | some value =>
      rw [hkey] at h
      simp only at h
      split at h
      · rename_i hvalue
        cases h
        rw [hvalue] at hkey
        refine ⟨hkey, fun _ _ => rfl, fun hordered => ?_⟩
        -- Writing what is there already changes nothing.
        refine Assoc.ordered_ext hordered (Assoc.ordered_insert _ _ hordered) ?_
        intro name
        rw [Assoc.lookup_insert]
        split
        · rename_i hname
          rw [← hname, hkey]
        · rfl
      · cases h

theorem versionOf_eq_ok {stated : Option Json} {version : UInt64}
    (h : versionOf stated = .ok version) :
    stated = some (.ofWord version) ∨ stated = none ∧ version = 1 := by
  match stated, h with
  | none, h =>
      cases h
      exact .inr ⟨rfl, rfl⟩
  | some (.integer number), h =>
      simp only [versionOf] at h
      cases hword : number.toUInt64? with
      | none =>
          rw [hword] at h
          cases h
      | some word =>
          rw [hword] at h
          cases h
          rw [WordInt.toUInt64?_eq_some.mp hword]
          exact .inl rfl

theorem deletedOf_eq_ok {stated : Option Json} {deleted : Bool}
    (h : deletedOf stated = .ok deleted) :
    stated = some (.bool deleted) ∨ stated = none ∧ deleted = false := by
  match stated with
  | none =>
      cases h
      exact .inr ⟨rfl, rfl⟩
  | some (.bool _) =>
      cases h
      exact .inl rfl
  | some .null | some (.integer _) | some (.double _) | some (.string _)
  | some (.array _) | some (.object _) => cases h

theorem standsFor_of_itemOf {key : String} {members : List (String × Json)}
    {item : Item} (h : itemOf key (.object members) = .ok item) :
    StandsFor key members item := by
  obtain ⟨filled, hfilled, h⟩ := exists_of_bind_eq_ok h
  obtain ⟨version, hversion, h⟩ := exists_of_bind_eq_ok h
  obtain ⟨deleted, hdeleted, h⟩ := exists_of_bind_eq_ok h
  have hkept := filled_of_withKey hfilled
  rw [hkept.others "version" (by decide)] at hversion
  rw [hkept.others "deleted" (by decide)] at hdeleted
  have hversion := versionOf_eq_ok hversion
  have hdeleted := deletedOf_eq_ok hdeleted
  cases h
  cases deleted with
  | true => exact ⟨rfl, hversion, hdeleted, fun _ => rfl, nofun⟩
  | false => exact ⟨rfl, hversion, hdeleted, nofun, fun _ => ⟨filled, rfl, hkept⟩⟩

/-! ## Flags that serve a value -/

/-- A live flag at the first version that has the value as its only variation and
serves it. -/
structure Serves (key : String) (value : Json) (item : Item) : Prop where
  item_eq : item = .live key 1 (flagServing key value)
  key : item.data.member? "key" = some (.string key)
  on : item.data.member? "on" = some (.bool true)
  variations : item.data.member? "variations" = some (.array [value])
  served : ∃ (rule : Json) (index : UInt64),
    item.data.member? "fallthrough" = some rule ∧
    rule.member? "variation" = some (.ofWord index) ∧
    [value][index.toNat]? = some value

theorem member?_ofMembers {members : List (String × Json)}
    (h : members.Pairwise fun a b => a.1 ≠ b.1) {name : String} {value : Json}
    (hm : (name, value) ∈ members) :
    (Json.ofMembers members).member? name = some value :=
  (KeyMap.get?_ofList h name value).mpr hm

theorem member?_ofMembers_eq_none {members : List (String × Json)}
    (h : members.Pairwise fun a b => a.1 ≠ b.1) {name : String}
    (habsent : ∀ member ∈ members, member.1 ≠ name) :
    (Json.ofMembers members).member? name = none := by
  cases hfound : (Json.ofMembers members).member? name with
  | none => rfl
  | some value =>
      exact absurd rfl
        (habsent _ ((KeyMap.get?_ofList h name value).mp hfound))

theorem itemOf_flagServing (key : String) (value : Json) :
    itemOf key (flagServing key value) = .ok (.live key 1 (flagServing key value)) := by
  have hkey : (flagServing key value).member? "key" = some (.string key) :=
    member?_ofMembers (by simp) (by simp)
  have hversion : (flagServing key value).member? "version" = none :=
    member?_ofMembers_eq_none (by simp) (by simp)
  have hdeleted : (flagServing key value).member? "deleted" = none :=
    member?_ofMembers_eq_none (by simp) (by simp)
  simp only [flagServing, Json.ofMembers, Json.member?] at hkey hversion hdeleted ⊢
  simp only [itemOf, withKey, hkey, if_true, ok_bind, hversion, hdeleted]
  rfl

theorem serves_flagServing (key : String) (value : Json) :
    Serves key value (.live key 1 (flagServing key value)) where
  item_eq := rfl
  key := member?_ofMembers (by simp) (by simp)
  on := member?_ofMembers (by simp) (by simp)
  variations := member?_ofMembers (by simp) (by simp)
  served := ⟨_, 0, member?_ofMembers (by simp) (by simp; rfl),
    member?_ofMembers (by simp) (by simp), rfl⟩

/-! ## Items of the sections -/

/-- An entry of a section of definitions, and what becomes of it. -/
def Becomes (kind : Kind) (entry : String × Json) (result : Kind × Item) : Prop :=
  result.1 = kind ∧ ∃ members, entry.2 = .object members ∧
    StandsFor entry.1 members result.2

theorem becomes_of_entry {kind : Kind} {entry : String × Json}
    {result : Kind × Item}
    (h : (Definition.ofEntry kind entry).entry = .ok result) :
    Becomes kind entry result := by
  obtain ⟨hkind, hitem⟩ := Definition.entry_eq_ok.mp h
  obtain ⟨members, hmembers, -⟩ := itemOf_ok.mp ⟨_, hitem⟩
  refine ⟨hkind.symm, members, hmembers, standsFor_of_itemOf ?_⟩
  rw [← hmembers]
  exact hitem

theorem serves_of_entry {entry : String × Json} {result : Kind × Item}
    (h : (Definition.ofEntry .features
      (entry.1, flagServing entry.1 entry.2)).entry = .ok result) :
    result.1 = .features ∧ Serves entry.1 entry.2 result.2 := by
  obtain ⟨hkind, hitem⟩ := Definition.entry_eq_ok.mp h
  have hserving := itemOf_flagServing entry.1 entry.2
  refine ⟨hkind.symm, ?_⟩
  rw [Definition.item, Definition.ofEntry, hserving, Except.ok.injEq] at hitem
  rw [← hitem]
  exact serves_flagServing entry.1 entry.2

theorem becomes_of_itemsOf {kind : Kind} {entries : List (String × Json)}
    {items : List (Kind × Item)} (h : itemsOf kind entries = .ok items) :
    List.Forall₂ (Becomes kind) entries items := by
  rw [itemsOf_eq] at h
  exact (List.forall₂_map_left_iff.mp (entriesOf_of_mapM h)).imp
    fun _ _ => becomes_of_entry

theorem serves_of_itemsOf {values : KeyMap Json} {items : List (Kind × Item)}
    (h : itemsOf .features (values.map flagServing).entries = .ok items) :
    List.Forall₂ (fun entry result =>
      result.1 = Kind.features ∧ Serves entry.1 entry.2 result.2)
      values.entries items := by
  rw [itemsOf_eq, KeyMap.map, List.map_map] at h
  exact (List.forall₂_map_left_iff.mp (entriesOf_of_mapM h)).imp
    fun _ _ => serves_of_entry

theorem Definition.entry_eq_error {definition : Definition} {bad : BadDefinition} :
    definition.entry = .error bad ↔ ∃ flaw,
      Fails definition.key definition.value flaw ∧
        bad = ⟨definition.kind, definition.key, flaw⟩ := by
  simp only [← itemOf_eq_error, Definition.entry, Definition.item]
  cases itemOf definition.key definition.value <;> simp [eq_comm]

theorem Definition.exists_entry_iff {definition : Definition} :
    (∃ entry, definition.entry = .ok entry) ↔
      IsValid definition.key definition.value := by
  simp only [← itemOf_ok, Definition.entry, Definition.item]
  cases itemOf definition.key definition.value <;> simp

theorem itemsOfSections_eq_error {path : Path} {sections : Sections}
    {error : LoadError} :
    itemsOfSections path sections = .error error ↔
      ∃ before definition after flaw,
        sections.definitions = before ++ definition :: after ∧
        (∀ earlier ∈ before, IsValid earlier.key earlier.value) ∧
        Fails definition.key definition.value flaw ∧
        error = .invalidItem path ⟨definition.kind, definition.key, flaw⟩ := by
  have hbad : itemsOfSections path sections = .error error ↔
      ∃ bad, sections.definitions.mapM Definition.entry = .error bad ∧
        error = .invalidItem path bad := by
    rw [itemsOfSections, Sections.items_eq]
    cases sections.definitions.mapM Definition.entry <;> simp [eq_comm]
  simp only [hbad, mapM_eq_error_iff, Definition.exists_entry_iff,
    Definition.entry_eq_error]
  constructor
  · rintro ⟨bad, ⟨before, definition, after, hsplit, hbefore, flaw, hfails, rfl⟩, rfl⟩
    exact ⟨before, definition, after, flaw, hsplit, hbefore, hfails, rfl⟩
  · rintro ⟨before, definition, after, flaw, hsplit, hbefore, hfails, rfl⟩
    exact ⟨_, ⟨before, definition, after, hsplit, hbefore, flaw, hfails, rfl⟩, rfl⟩

theorem exists_itemsOfSections {path : Path} {sections : Sections} :
    (∃ items, itemsOfSections path sections = .ok items) ↔ sections.IsValid := by
  simp only [itemsOfSections_eq_ok, exists_mapM_eq_ok, Definition.exists_entry_iff,
    Sections.isValid_iff, Definition.item, itemOf_ok]

/-- A file has items if its flags and segments are accepted, and then one for each
entry: of the flags, of the values and of the segments, each in key order.  What a
definition leaves out has its default, and what it states is kept under its key; of a
deleted item nothing else stays.  A value is served by a live flag at version one.
Otherwise the first definition that is not accepted is named, with the first check
that it fails. -/
theorem items_stand_for_definitions (path : Path) (sections : Sections) :
    ((∃ items, itemsOfSections path sections = .ok items) ↔
      ∀ key definition,
        sections.flags.get? key = some definition ∨
          sections.segments.get? key = some definition →
        IsValid key definition) ∧
    (∀ items, itemsOfSections path sections = .ok items →
      ∃ flags values segments, items = flags ++ values ++ segments ∧
        List.Forall₂ (Becomes .features) sections.flags.entries flags ∧
        List.Forall₂ (fun entry result =>
          result.1 = Kind.features ∧ Serves entry.1 entry.2 result.2)
          sections.flagValues.entries values ∧
        List.Forall₂ (Becomes .segments) sections.segments.entries segments) ∧
    ∀ error, itemsOfSections path sections = .error error ↔
      ∃ before definition after flaw,
        sections.definitions = before ++ definition :: after ∧
        (∀ earlier ∈ before, IsValid earlier.key earlier.value) ∧
        Fails definition.key definition.value flaw ∧
        error = .invalidItem path ⟨definition.kind, definition.key, flaw⟩ := by
  refine ⟨?_, ?_, fun _ => itemsOfSections_eq_error⟩
  · rw [exists_itemsOfSections]
    constructor
    · rintro ⟨hflags, hsegments⟩ key definition (hflag | hsegment)
      · exact hflags key definition hflag
      · exact hsegments key definition hsegment
    · intro h
      exact ⟨fun key definition hflag => h key definition (.inl hflag),
        fun key definition hsegment => h key definition (.inr hsegment)⟩
  · intro items hitems
    have hsections : sections.items = .ok items := by
      rw [Sections.items_eq]
      exact itemsOfSections_eq_ok.mp hitems
    obtain ⟨flags, hflags, hrest⟩ := exists_of_bind_eq_ok hsections
    obtain ⟨values, hvalues, hrest⟩ := exists_of_bind_eq_ok hrest
    obtain ⟨segments, hsegments, hrest⟩ := exists_of_bind_eq_ok hrest
    cases hrest
    exact ⟨flags, values, segments, rfl, becomes_of_itemsOf hflags,
      serves_of_itemsOf hvalues, becomes_of_itemsOf hsegments⟩

/-- Definitions of every kind, one of them deleted and a value under the empty key. -/
def mixedSections : Sections where
  flags := .ofList [("a", .object [("version", .ofWord 3)]),
    ("b", .object [("deleted", .bool true), ("key", .string "b")])]
  flagValues := .ofList [("", .null)]
  segments := .ofList [("a", .object [])]

theorem items_of_mixedSections :
    ∃ items, itemsOfSections ⟨"f"⟩ mixedSections = .ok items ∧
      ∃ flags values segments, items = flags ++ values ++ segments ∧
        List.Forall₂ (Becomes .features) mixedSections.flags.entries flags ∧
        List.Forall₂ (fun entry result =>
          result.1 = Kind.features ∧ Serves entry.1 entry.2 result.2)
          mixedSections.flagValues.entries values ∧
        List.Forall₂ (Becomes .segments) mixedSections.segments.entries segments :=
  ⟨_, rfl, (items_stand_for_definitions ⟨"f"⟩ mixedSections).2.1 _ rfl⟩

end Files

end VersionedFlags
