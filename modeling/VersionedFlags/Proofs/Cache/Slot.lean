import VersionedFlags.Cache.Progress
import VersionedFlags.Proofs.Store.Medium

/-!
# Slots

A cache has a slot for every key of a kind and one for the live items of a
kind.  A slot answers the read that it is for, and so does the ledger of the
backend; the two are compared slot by slot.
-/

namespace VersionedFlags

inductive Slot where
  | item (kind : Kind) (key : String)
  | live (kind : Kind)
  deriving DecidableEq, Repr

abbrev Slot.call : Slot → Call
  | .item kind key => .get kind key
  | .live kind => .all kind

/-- What a cache that starts over with a data set shows. -/
def DataSet.shown? (data : DataSet) : (slot : Slot) → Option slot.call.Answer
  | .item kind key => (data.get? kind key).map Item.visible?
  | .live kind => (data.items? kind).map fun items =>
      items.filter fun _ item => !item.deleted

/-! ## Answers of a ledger -/

namespace Ledger

def answer (ledger : Ledger) (realm : Realm) (slot : Slot) :
    slot.call.Answer :=
  (ledger.serve realm slot.call).1

variable {ledger : Ledger} {realm : Realm}

theorem serve_slot (ledger : Ledger) (realm : Realm) (slot : Slot) :
    ledger.serve realm slot.call = (ledger.answer realm slot, ledger) := by
  cases slot <;> rfl

theorem answer_init {data : DataSet} {slot : Slot}
    {value : slot.call.Answer} (h : data.shown? slot = some value) :
    (ledger.init realm data).answer realm slot = value := by
  cases slot with
  | item kind key =>
      obtain ⟨item, hitem, rfl⟩ := Option.map_eq_some_iff.mp h
      obtain ⟨items, hitems, hget⟩ := Option.bind_eq_some_iff.mp hitem
      have hstored := stored?_init ledger realm data kind key
      rw [hitems] at hstored
      exact congrArg (Option.bind · Item.visible?) (hstored.trans hget)
  | live kind =>
      obtain ⟨items, hitems, rfl⟩ := Option.map_eq_some_iff.mp h
      simp only [answer, Ledger.serve, Ledger.all, init, if_true, hitems,
        Option.getD_some]

theorem answer_put_item (kind : Kind) (item : Item) :
    (ledger.put realm kind item).answer realm (.item kind item.key) =
      item.visible? := by
  have hstored := stored?_put ledger realm realm kind kind item item.key
  rw [if_pos ⟨rfl, rfl, rfl⟩] at hstored
  exact congrArg (Option.bind · Item.visible?) hstored

theorem answer_put_of_ne {kind : Kind} {item : Item} {slot : Slot}
    (hitem : slot ≠ .item kind item.key) (hlive : slot ≠ .live kind) :
    (ledger.put realm kind item).answer realm slot =
      ledger.answer realm slot := by
  cases slot with
  | item other key =>
      have hstored := stored?_put ledger realm realm kind other item key
      rw [if_neg fun h => hitem (by rw [h.2.1, h.2.2])] at hstored
      exact congrArg (Option.bind · Item.visible?) hstored
  | live other =>
      have hother : other ≠ kind := fun h => hlive (by rw [h])
      simp [answer, Ledger.serve, Ledger.all, put, replace, hother]

end Ledger

theorem Cluster.Holds.serve_slot {cluster : Cluster} {index store : Nat}
    {realm : Realm} {file : Bool} {ledger : Ledger}
    (h : cluster.Holds index file ledger)
    (hhandle : cluster.handles[store]? = some ⟨index, realm, false⟩)
    (slot : Slot) :
    cluster.serve store slot.call = (.ok (ledger.answer realm slot), cluster) := by
  obtain ⟨medium, hmedium, hholds, -⟩ := h
  have hopened := openHandle_eq hhandle hmedium
  cases slot with
  | item kind key =>
      simp only [Cluster.serve, hopened, ok_bind, hholds.get?]
      rfl
  | live kind =>
      simp only [Cluster.serve, hopened, ok_bind, hholds.all]
      rfl

theorem Cluster.Holds.answer_eq {cluster : Cluster} {index store : Nat}
    {realm : Realm} {file closed : Bool} {ledger : Ledger}
    (h : cluster.Holds index file ledger)
    (hhandle : cluster.handles[store]? = some ⟨index, realm, closed⟩)
    {slot : Slot} {value : slot.call.Answer}
    (hread : (cluster.serve store slot.call).1 = .ok value) :
    ledger.answer realm slot = value := by
  cases closed with
  | true =>
      rw [serve_closed hhandle (by cases slot <;> simp)] at hread
      cases hread
  | false =>
      rw [h.serve_slot hhandle slot] at hread
      exact Except.ok.inj hread

/-! ## Answers of a cache -/

namespace Cache

theorem Entry.value_of_fresh? {α : Type} {entry : Entry α} {now : Instant}
    {value : α} (h : entry.fresh? now = some value) : entry.value = value := by
  simp only [Entry.fresh?] at h
  split at h
  · simpa using h
  · split at h
    · simpa using h
    · cases h

namespace State

/-- What a slot would answer while its entry is fresh; readers do not see
tombstones. -/
def shown? (state : State) : (slot : Slot) → Option slot.call.Answer
  | .item kind key =>
      ((state.items.get kind).get? key).map fun entry =>
        entry.value.bind Item.visible?
  | .live kind => (state.live.get kind).map Entry.value

variable {state : State}

theorem shown?_of_item? {now : Instant} {kind : Kind} {key : String}
    {found : Option Item} (h : state.item? now kind key = some found) :
    state.shown? (.item kind key) = some (found.bind Item.visible?) := by
  obtain ⟨entry, hentry, hfresh⟩ := Option.bind_eq_some_iff.mp h
  simp only [shown?, hentry, Option.map_some, Entry.value_of_fresh? hfresh]

theorem shown?_of_live? {now : Instant} {kind : Kind} {items : KeyMap Item}
    (h : state.live? now kind = some items) :
    state.shown? (.live kind) = some items := by
  obtain ⟨entry, hentry, hfresh⟩ := Option.bind_eq_some_iff.mp h
  simp only [shown?, hentry, Option.map_some, Entry.value_of_fresh? hfresh]

@[simp] theorem shown?_start (slot : Slot) : start.shown? slot = none := by
  cases slot <;> simp [shown?, start]

@[simp] theorem shown?_hit (slot : Slot) :
    state.hit.shown? slot = state.shown? slot := by
  cases slot <;> rfl

@[simp] theorem shown?_miss (slot : Slot) :
    state.miss.shown? slot = state.shown? slot := by
  cases slot <;> rfl

@[simp] theorem shown?_latch (slot : Slot) :
    state.latch.shown? slot = state.shown? slot := by
  cases slot <;> rfl

@[simp] theorem shown?_advance (slot : Slot) :
    state.advance.shown? slot = state.shown? slot := by
  cases slot <;> rfl

/-! ## What recording does to the generation -/

@[simp] theorem generation_hit : state.hit.generation = state.generation := rfl

@[simp] theorem generation_miss : state.miss.generation = state.generation := rfl

@[simp] theorem generation_latch :
    state.latch.generation = state.generation := rfl

@[simp] theorem generation_advance :
    state.advance.generation = state.generation + 1 := rfl

@[simp] theorem generation_setItem (kind : Kind) (key : String)
    (entry : Entry (Option Item)) :
    (state.setItem kind key entry).generation = state.generation := rfl

@[simp] theorem generation_dropLive (kind : Kind) :
    (state.dropLive kind).generation = state.generation := rfl

@[simp] theorem generation_reset (data : DataSet) (expires : Option Instant) :
    (state.reset data expires).generation = state.generation + 1 := rfl

@[simp] theorem generation_fillItem (kind : Kind) (key : String)
    (entry : Entry (Option Item)) (seen : Nat) :
    (state.fillItem kind key entry seen).generation = state.generation := by
  simp only [fillItem]
  split <;> rfl

@[simp] theorem generation_fillLive (kind : Kind) (entry : Entry (KeyMap Item))
    (seen : Nat) :
    (state.fillLive kind entry seen).generation = state.generation := by
  simp only [fillLive]
  split <;> rfl

/-! ## What recording does to the slots -/

@[simp] theorem shown?_setItem_self (kind : Kind) (key : String)
    (entry : Entry (Option Item)) :
    (state.setItem kind key entry).shown? (.item kind key) =
      some (entry.value.bind Item.visible?) := by
  simp [shown?, setItem, PerKind.modify]

theorem shown?_setItem_of_ne {kind : Kind} {key : String}
    (entry : Entry (Option Item)) {slot : Slot} (h : slot ≠ .item kind key) :
    (state.setItem kind key entry).shown? slot = state.shown? slot := by
  cases slot with
  | live other => rfl
  | item other name =>
      simp only [shown?, setItem, PerKind.modify, PerKind.get_set]
      split
      · rename_i hkind
        subst hkind
        have hkey : key ≠ name := fun hkey => h (by rw [hkey])
        rw [KeyMap.get?_insert, if_neg hkey]
      · rfl

def dropItem (state : State) (kind : Kind) (key : String) : State :=
  { state.advance with
    items := state.items.modify kind fun items => items.erase key }

@[simp] theorem generation_dropItem (kind : Kind) (key : String) :
    (state.dropItem kind key).generation = state.generation + 1 := rfl

@[simp] theorem shown?_dropItem_self (kind : Kind) (key : String) :
    (state.dropItem kind key).shown? (.item kind key) = none := by
  simp [shown?, dropItem, PerKind.modify, KeyMap.get?_erase]

theorem shown?_dropItem_of_ne {kind : Kind} {key : String} {slot : Slot}
    (h : slot ≠ .item kind key) :
    (state.dropItem kind key).shown? slot = state.shown? slot := by
  cases slot with
  | live other => rfl
  | item other name =>
      simp only [shown?, dropItem, PerKind.modify, PerKind.get_set]
      split
      · rename_i hkind
        subst hkind
        have hkey : name ≠ key := fun hkey => h (by rw [hkey])
        rw [KeyMap.get?_erase, if_neg hkey]
      · rfl

@[simp] theorem shown?_dropLive_self (kind : Kind) :
    (state.dropLive kind).shown? (.live kind) = none := by
  simp [shown?, dropLive]

theorem shown?_dropLive_of_ne {kind : Kind} {slot : Slot}
    (h : slot ≠ .live kind) :
    (state.dropLive kind).shown? slot = state.shown? slot := by
  cases slot with
  | item other name => rfl
  | live other =>
      have hkind : kind ≠ other := fun hkind => h (by rw [hkind])
      simp [shown?, dropLive, hkind]

/-- A read is recorded in its own slot, if at all. -/
theorem shown?_fillItem (state : State) (kind : Kind) (key : String)
    (entry : Entry (Option Item)) (seen : Nat) (slot : Slot) :
    (state.fillItem kind key entry seen).shown? slot = state.shown? slot ∨
      seen = state.generation ∧ slot = .item kind key := by
  by_cases hseen : state.generation = seen
  · by_cases hslot : slot = .item kind key
    · exact .inr ⟨hseen.symm, hslot⟩
    · exact .inl (by rw [fillItem, if_pos hseen, shown?_setItem_of_ne entry hslot])
  · exact .inl (by rw [fillItem, if_neg hseen])

@[simp] theorem shown?_fillItem_self (kind : Kind) (key : String)
    (entry : Entry (Option Item)) :
    (state.fillItem kind key entry state.generation).shown? (.item kind key) =
      some (entry.value.bind Item.visible?) := by
  simp [fillItem]

theorem shown?_fillLive (state : State) (kind : Kind)
    (entry : Entry (KeyMap Item)) (seen : Nat) (slot : Slot) :
    (state.fillLive kind entry seen).shown? slot = state.shown? slot ∨
      seen = state.generation ∧ slot = .live kind := by
  by_cases hseen : state.generation = seen
  · by_cases hslot : slot = .live kind
    · exact .inr ⟨hseen.symm, hslot⟩
    · refine .inl ?_
      rw [fillLive, if_pos hseen]
      cases slot with
      | item other name => rfl
      | live other =>
          have hkind : kind ≠ other := fun hkind => hslot (by rw [hkind])
          simp [shown?, hkind]
  · exact .inl (by rw [fillLive, if_neg hseen])

@[simp] theorem shown?_fillLive_self (kind : Kind)
    (entry : Entry (KeyMap Item)) :
    (state.fillLive kind entry state.generation).shown? (.live kind) =
      some entry.value := by
  simp [shown?, fillLive]

theorem shown?_reset (data : DataSet) (expires : Option Instant)
    (slot : Slot) :
    (state.reset data expires).shown? slot = data.shown? slot := by
  cases slot with
  | item kind key =>
      simp only [shown?, reset, PerKind.get_map, KeyMap.get?_map,
        DataSet.shown?, DataSet.get?, DataSet.items?]
      cases data.kinds.get kind with
      | none => simp
      | some items => simp [Function.comp_def]
  | live kind =>
      simp [shown?, reset, DataSet.shown?, DataSet.items?, Function.comp_def]

end State

end Cache

end VersionedFlags
