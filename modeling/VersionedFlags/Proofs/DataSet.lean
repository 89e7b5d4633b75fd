import VersionedFlags.DataSet.Basic
import VersionedFlags.Proofs.KeyMap

/-!
# Data sets that can be made

A data set is either the bare one or comes out of a builder, so each of its
items lies under its own key.
-/

namespace VersionedFlags

/-! ## Maps of items -/

def KeyMap.Keyed (items : KeyMap Item) : Prop :=
  ∀ key item, items.get? key = some item → item.key = key

theorem KeyMap.Keyed.nodup_keys {items : KeyMap Item} (h : items.Keyed) :
    (items.values.map Item.key).Nodup := by
  rw [List.Nodup, List.pairwise_map]
  apply pairwise_values
  intro key item other more hitem hmore hne
  rw [h key item hitem, h other more hmore]
  exact hne

namespace DataSet

/-! ## Builders -/

/-- The builders that a fresh one leads to; adding several items, or an item
under a new key only, adds items one by one. -/
inductive Builder.Reachable : Builder → Prop
  | start : Reachable .start
  | add {builder : Builder} (kind : Kind) (item : Item) :
      Reachable builder → Reachable (builder.add kind item)

namespace Builder

theorem Reachable.key_eq {builder : Builder} (h : builder.Reachable)
    {kind : Kind} {key : String} {item : Item}
    (hget : (builder.items.get kind).get? key = some item) : item.key = key := by
  induction h with
  | start => simp [Builder.start] at hget
  | add kind' item' _ ih =>
      simp only [Builder.add, PerKind.modify, PerKind.get_set] at hget
      split at hget
      · rename_i heq
        subst heq
        rw [KeyMap.get?_insert] at hget
        split at hget
        · cases hget
          assumption
        · exact ih hget
      · exact ih hget

end Builder

/-! ## Data sets -/

inductive Made : DataSet → Prop
  | bare : Made .bare
  | build {builder : Builder} : builder.Reachable → Made builder.build

/-- Every item lies under its own key. -/
def Keyed (data : DataSet) : Prop :=
  ∀ kind key item, data.get? kind key = some item → item.key = key

theorem Made.keyed {data : DataSet} (h : data.Made) : data.Keyed := by
  intro kind key item hget
  cases h with
  | bare => simp [DataSet.get?, items?, DataSet.bare] at hget
  | @build builder hreach =>
      have hbuilt : (builder.items.get kind).get? key = some item := by
        simpa [DataSet.get?, items?, Builder.build] using hget
      exact hreach.key_eq hbuilt

theorem Keyed.items {data : DataSet} (h : data.Keyed) {kind : Kind}
    {items : KeyMap Item} (hitems : data.items? kind = some items) :
    items.Keyed := by
  intro key item hget
  apply h kind key item
  rw [DataSet.get?, hitems, Option.bind_some, hget]

theorem mem_parts {data : DataSet} {kind : Kind} {items : KeyMap Item} :
    (kind, items) ∈ data.parts ↔ data.items? kind = some items := by
  cases kind <;>
    simp [parts, items?, PerKind.toList, Kind.all, eq_comm, Option.map_eq_some_iff]

theorem Made.keyed_parts {data : DataSet} (h : data.Made) :
    ∀ part ∈ data.parts, part.2.Keyed :=
  fun _ hm => h.keyed.items (mem_parts.mp hm)

end DataSet

end VersionedFlags
