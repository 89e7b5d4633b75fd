import VersionedFlags.Proofs.DataSet
import VersionedFlags.Realm
import VersionedFlags.Store.Call

/-!
# Ledgers

A ledger is a shared backend as its users understand it: an item, possibly a
tombstone, for each realm, kind and key, and the realms that are initialized.
What the media do is stated of the ledgers that they hold.
-/

namespace VersionedFlags

structure Ledger where
  items : Realm → Kind → KeyMap Item
  initialized : Realm → Bool

namespace Ledger

def empty : Ledger := ⟨fun _ _ => .empty, fun _ => false⟩

/-! ## Reading -/

def stored? (ledger : Ledger) (realm : Realm) (kind : Kind) (key : String) :
    Option Item :=
  (ledger.items realm kind).get? key

def version? (ledger : Ledger) (realm : Realm) (kind : Kind) (key : String) :
    Option UInt64 :=
  (ledger.stored? realm kind key).map Item.version

def get? (ledger : Ledger) (realm : Realm) (kind : Kind) (key : String) :
    Option Item :=
  (ledger.stored? realm kind key).bind Item.visible?

def all (ledger : Ledger) (realm : Realm) (kind : Kind) : KeyMap Item :=
  (ledger.items realm kind).filter fun _ item => !item.deleted

/-! ## Writing -/

def replace (ledger : Ledger) (realm : Realm) (kind : Kind)
    (items : KeyMap Item) : Ledger :=
  { ledger with
    items := fun other part =>
      if other = realm ∧ part = kind then items else ledger.items other part }

def mark (ledger : Ledger) (realm : Realm) : Ledger :=
  { ledger with
    initialized := fun other => decide (other = realm) || ledger.initialized other }

/-- Replaces the kinds that the data set covers. -/
def init (ledger : Ledger) (realm : Realm) (data : DataSet) : Ledger where
  items := fun other kind =>
    if other = realm then (data.items? kind).getD (ledger.items other kind)
    else ledger.items other kind
  initialized := fun other =>
    decide (other = realm) || ledger.initialized other

def put (ledger : Ledger) (realm : Realm) (kind : Kind) (item : Item) :
    Ledger :=
  ledger.replace realm kind ((ledger.items realm kind).insert item.key item)

/-- An item is stored unless a version as great is. -/
def upsert (ledger : Ledger) (realm : Realm) (kind : Kind) (item : Item) :
    Outcome × Ledger :=
  if item.supersedes (ledger.version? realm kind item.key) then
    (.applied, ledger.put realm kind item)
  else (.superseded, ledger)

def serve (ledger : Ledger) (realm : Realm) (call : Call) :
    call.Answer × Ledger :=
  match call with
  | .init data => ((), ledger.init realm data)
  | .get kind key => (ledger.get? realm kind key, ledger)
  | .all kind => (ledger.all realm kind, ledger)
  | .upsert kind item => ledger.upsert realm kind item
  | .initialized => (ledger.initialized realm, ledger)
  | .close => ((), ledger)

/-! ## What a write leaves behind -/

theorem stored?_replace (ledger : Ledger) (realm other : Realm)
    (kind part : Kind) (items : KeyMap Item) (key : String) :
    (ledger.replace realm kind items).stored? other part key =
      if other = realm ∧ part = kind then items.get? key
      else ledger.stored? other part key := by
  simp only [stored?, replace]
  split <;> rfl

theorem stored?_init (ledger : Ledger) (realm : Realm) (data : DataSet)
    (kind : Kind) (key : String) :
    (ledger.init realm data).stored? realm kind key =
      match data.items? kind with
      | some items => items.get? key
      | none => ledger.stored? realm kind key := by
  simp only [stored?, init, if_true]
  cases data.items? kind <;> rfl

theorem stored?_put (ledger : Ledger) (realm other : Realm) (kind part : Kind)
    (item : Item) (key : String) :
    (ledger.put realm kind item).stored? other part key =
      if other = realm ∧ part = kind ∧ item.key = key then some item
      else ledger.stored? other part key := by
  rw [put, stored?_replace, KeyMap.get?_insert]
  by_cases hplace : other = realm ∧ part = kind
  · obtain ⟨rfl, rfl⟩ := hplace
    simp [stored?]
  · rw [if_neg hplace, if_neg fun h => hplace ⟨h.1, h.2.1⟩]

theorem init_eq_foldl (ledger : Ledger) (realm : Realm) (data : DataSet) :
    ledger.init realm data =
      (data.parts.foldl
        (fun ledger part => ledger.replace realm part.1 part.2) ledger).mark
          realm := by
  obtain ⟨⟨features, segments⟩⟩ := data
  simp only [init, mk.injEq, mark]
  refine ⟨?_, ?_⟩
  · funext other kind
    by_cases hrealm : other = realm <;> cases features <;> cases segments <;>
      cases kind <;>
      simp [DataSet.parts, DataSet.items?, PerKind.toList, PerKind.get,
        Kind.all, replace, hrealm]
  · cases features <;> cases segments <;>
      simp [DataSet.parts, PerKind.toList, PerKind.get, Kind.all, replace]

end Ledger

end VersionedFlags
