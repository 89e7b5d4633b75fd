import VersionedFlags.Proofs.Files.Items

/-!
# Data sets that are written out and read again

The live items of a data set are written out in full: each payload is the definition
under its key, and there are no bare values.  The payload of an item that a load made
states all that the load had filled in, so it becomes the same item again.
-/

namespace VersionedFlags

namespace Files

open DataSet (Builder)

/-! ## Writing out and reading again -/

/-- The payloads of the live items of a kind under their keys. -/
def payloads (data : DataSet) (kind : Kind) : KeyMap Json :=
  (((data.items? kind).getD .empty).filter fun _ item => !item.deleted).map
    fun _ item => item.data

/-- The sections of a file that defines the live items of a data set. -/
def exported (data : DataSet) : Sections :=
  ⟨payloads data .features, .empty, payloads data .segments⟩

/-- The data set of a file with the live items of a data set. -/
def reimport (path : Path) (data : DataSet) : Except LoadError DataSet := do
  let items ← itemsOfSections path (exported data)
  let builder ← items.foldlM (merge path) Builder.start
  return builder.build

/-- The items of the one data set are the live items of the other. -/
def LiveOf (live data : DataSet) : Prop :=
  ∀ kind key item, live.get? kind key = some item ↔
    data.get? kind key = some item ∧ item.deleted = false

/-! ## Payloads that are definitions -/

theorem withKey_of_own {key : String} {members : List (String × Json)}
    (h : Assoc.lookup "key" members = some (.string key)) :
    withKey key members = .ok members := by
  simp [withKey, h]

/-- The payload of a live item is a definition of this item. -/
theorem itemOf_data {key : String} {definition : Json} {item : Item}
    (h : itemOf key definition = .ok item) (hlive : item.deleted = false) :
    itemOf key item.data = .ok item := by
  cases definition with
  | object members =>
      obtain ⟨filled, hfilled, h⟩ := exists_of_bind_eq_ok h
      obtain ⟨version, hversion, h⟩ := exists_of_bind_eq_ok h
      obtain ⟨deleted, hdeleted, h⟩ := exists_of_bind_eq_ok h
      have hown := (filled_of_withKey hfilled).own
      cases h
      cases deleted with
      | true => cases hlive
      | false =>
          -- The version and the deletion were read from the filled members already.
          change itemOf key (.object filled) = .ok (.live key version (.object filled))
          rw [itemOf, withKey_of_own hown, ok_bind, hversion, ok_bind, hdeleted, ok_bind]
          rfl
  | _ => cases h

/-- Every item is that of a definition under its key. -/
def Defined (data : DataSet) : Prop :=
  ∀ kind key item, data.get? kind key = some item →
    key ≠ "" ∧ ∃ definition, itemOf key definition = .ok item

variable {tree : FileTree} {here : Location} {paths : List Path} {path : Path}
  {data again : DataSet}

theorem defined_of_load (h : load tree here paths = .ok data) : Defined data := by
  intro kind key item hget
  obtain ⟨sections, hsections⟩ := exists_sections_of_load h
  obtain ⟨hadmissible, hgathers⟩ := (load_eq_ok hsections).mp h
  obtain ⟨definition, hm, hplace, hitem⟩ := (hgathers.get? kind key item).mp hget
  cases hplace
  exact ⟨hadmissible.keys definition hm, definition.value, hitem⟩

/-! ## Definitions that are written out -/

theorem get?_payloads (data : DataSet) (kind : Kind) (key : String) :
    (payloads data kind).get? key =
      ((data.get? kind key).filter fun item => !item.deleted).map Item.data := by
  rw [payloads, KeyMap.get?_map, KeyMap.get?_filter, DataSet.get?]
  cases data.items? kind <;> rfl

theorem get?_payloads_eq_some {kind : Kind} {key : String} {value : Json} :
    (payloads data kind).get? key = some value ↔
      ∃ item, data.get? kind key = some item ∧ item.deleted = false ∧
        item.data = value := by
  simp [get?_payloads, Option.filter_eq_some_iff, and_assoc]

theorem definitions_exported (data : DataSet) :
    (exported data).definitions =
      Kind.all.flatMap fun kind =>
        (payloads data kind).entries.map (Definition.ofEntry kind) := by
  simp [Sections.definitions, exported, Kind.all, KeyMap.map, KeyMap.empty]

theorem mem_definitions_exported {definition : Definition} :
    definition ∈ (exported data).definitions ↔
      ∃ item, data.get? definition.kind definition.key = some item ∧
        item.deleted = false ∧ item.data = definition.value := by
  obtain ⟨kind, key, value⟩ := definition
  have hkind : kind ∈ Kind.all := by cases kind <;> decide
  simp only [definitions_exported, List.mem_flatMap, List.mem_map, Prod.exists,
    KeyMap.mem_entries, Definition.ofEntry, Definition.mk.injEq,
    ← get?_payloads_eq_some]
  constructor
  · rintro ⟨_, -, _, _, hget, rfl, rfl, rfl⟩
    exact hget
  · intro hget
    exact ⟨kind, hkind, key, value, hget, rfl, rfl, rfl⟩

theorem nodup_definitions_exported (data : DataSet) :
    ((exported data).definitions.map Definition.place).Nodup := by
  rw [definitions_exported, List.map_flatMap, List.nodup_flatMap]
  constructor
  · intro kind _
    have hkeys := Assoc.nodup_keys (payloads data kind).ordered
    have hinjective : Function.Injective fun key : String => (kind, key) :=
      fun _ _ h => (Prod.mk.inj h).2
    have hplaces := hkeys.map hinjective
    rw [List.map_map] at hplaces ⊢
    exact hplaces
  · have hkinds : Kind.all.Pairwise (· ≠ ·) := by decide
    refine hkinds.imp fun {kind other} hne place hm hother => hne ?_
    simp only [List.map_map, List.mem_map, Function.comp_apply] at hm hother
    obtain ⟨_, -, rfl⟩ := hm
    obtain ⟨_, -, hplace⟩ := hother
    exact (congrArg Prod.fst hplace).symm

theorem admissible_exported (h : Defined data) :
    Admissible (exported data).definitions where
  valid := by
    intro definition hm
    obtain ⟨item, hget, hlive, hdata⟩ := mem_definitions_exported.mp hm
    obtain ⟨-, source, hsource⟩ := h _ _ _ hget
    exact ⟨item, by rw [Definition.item, ← hdata, itemOf_data hsource hlive]⟩
  keys := by
    intro definition hm
    obtain ⟨item, hget, -⟩ := mem_definitions_exported.mp hm
    exact (h _ _ _ hget).1
  distinct := nodup_definitions_exported data

/-- What the definitions are gathered into has the live items as they were. -/
theorem Gathers.liveOf (h : Defined data)
    (hgathers : Gathers again (exported data).definitions) : LiveOf again data := by
  intro kind key item
  rw [hgathers.get? kind key item]
  constructor
  · rintro ⟨definition, hm, hplace, hitem⟩
    cases hplace
    obtain ⟨found, hget, hlive, hdata⟩ := mem_definitions_exported.mp hm
    obtain ⟨-, source, hsource⟩ := h _ _ _ hget
    rw [Definition.item, ← hdata, itemOf_data hsource hlive, Except.ok.injEq] at hitem
    rw [← hitem]
    exact ⟨hget, hlive⟩
  · rintro ⟨hget, hlive⟩
    obtain ⟨-, source, hsource⟩ := h _ _ _ hget
    exact ⟨⟨kind, key, item.data⟩, mem_definitions_exported.mpr ⟨item, hget, hlive, rfl⟩,
      rfl, itemOf_data hsource hlive⟩

theorem LiveOf.exported_eq (h : LiveOf again data) : exported again = exported data := by
  have hpayloads : ∀ kind, payloads again kind = payloads data kind := by
    intro kind
    refine KeyMap.ext_get? fun key => Option.ext fun value => ?_
    simp only [get?_payloads_eq_some, h kind key, and_assoc, and_self_left]
  simp only [exported, hpayloads]

/-! ## Reading again -/

theorem reimport_eq_ok :
    reimport path data = .ok again ↔
      Admissible (exported data).definitions ∧
        Gathers again (exported data).definitions := by
  rw [← entries_gathered, reimport]
  constructor
  · intro h
    obtain ⟨items, hitems, h⟩ := exists_of_bind_eq_ok h
    obtain ⟨builder, hbuilder, h⟩ := exists_of_bind_eq_ok h
    cases h
    obtain ⟨hdisjoint, rfl⟩ := foldlM_merge.mp hbuilder
    exact ⟨items, itemsOfSections_eq_ok.mp hitems, hdisjoint, rfl⟩
  · rintro ⟨items, hitems, hdisjoint, rfl⟩
    rw [itemsOfSections_eq_ok.mpr hitems, ok_bind,
      foldlM_merge.mpr ⟨hdisjoint, rfl⟩]
    rfl

/-- What a load gives can be written out and read again, and then has the live items
of the load with their keys, versions and payloads.  From there on writing out and
reading again changes nothing. -/
theorem reimport_keeps_live (h : load tree here paths = .ok data) (path : Path) :
    ∃ again, reimport path data = .ok again ∧
      (∀ kind key item, again.get? kind key = some item ↔
        data.get? kind key = some item ∧ item.deleted = false) ∧
      ∀ other, reimport other again = .ok again := by
  have hdefined := defined_of_load h
  have hadmissible := admissible_exported hdefined
  obtain ⟨entries, hentries, hdisjoint⟩ := exists_entries hadmissible
  have hgathers := (entriesOf_of_mapM hentries).gathers hdisjoint
  have hlive := hgathers.liveOf hdefined
  refine ⟨_, reimport_eq_ok.mpr ⟨hadmissible, hgathers⟩, hlive, fun other => ?_⟩
  rw [reimport_eq_ok, hlive.exported_eq]
  exact ⟨hadmissible, hgathers⟩

def variedText : String :=
  "\x7b\"flags\":\x7b\"a\":\x7b\"version\":3,\"deleted\":false\x7d," ++
    "\"b\":\x7b\"deleted\":true\x7d\x7d," ++
    "\"flagValues\":\x7b\"c\":[null]\x7d,\"segments\":\x7b\"a\":\x7b\x7d\x7d\x7d"

/-- A file with a flag, a deleted one, a bare value and a segment that leaves out all. -/
def variedFile : FileTree := FileTree.empty.put ["f"] (.file variedText.toUTF8)

theorem reimport_variedFile :
    ∃ data, load variedFile [] [⟨"/f"⟩] = .ok data ∧
      ((data.get? .features "b").map Item.deleted == some true) = true ∧
      ∃ again, reimport ⟨"/g"⟩ data = .ok again ∧
        (∀ kind key item, again.get? kind key = some item ↔
          data.get? kind key = some item ∧ item.deleted = false) ∧
        ∀ other, reimport other again = .ok again := by
  have hloaded : ((load variedFile [] [⟨"/f"⟩]).toOption.any fun data =>
      (data.get? .features "b").map Item.deleted == some true) = true := by
    decide +kernel
  obtain ⟨data, hload, hdeleted⟩ := exists_of_any_toOption hloaded
  exact ⟨data, hload, hdeleted, reimport_keeps_live hload ⟨"/g"⟩⟩

end Files

end VersionedFlags
