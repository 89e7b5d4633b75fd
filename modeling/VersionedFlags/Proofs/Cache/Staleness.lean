import VersionedFlags.Proofs.Cache.Sequential
import VersionedFlags.Proofs.Cache.Slot
import VersionedFlags.Proofs.Store.Shared

/-!
# How old a cached answer can be

A cache whose entries live for a while is used by one caller, the clock moves
between the calls, and others change the backend behind it.  Every entry holds
what the backend would have answered when the entry was made, and it is used for
its lifetime at most.
-/

namespace VersionedFlags

namespace Cache

/-! ## Entries -/

namespace State

/-- The entry that a slot is answered from; readers do not see tombstones. -/
def held? (state : State) : (slot : Slot) → Option (Entry slot.call.Answer)
  | .item kind key =>
      ((state.items.get kind).get? key).map fun entry =>
        ⟨entry.value.bind Item.visible?, entry.expires⟩
  | .live kind => state.live.get kind

/-- A condition holds of every entry. -/
def All (state : State) (p : (slot : Slot) → Entry slot.call.Answer → Prop) :
    Prop :=
  ∀ slot entry, state.held? slot = some entry → p slot entry

variable {state : State} {p : (slot : Slot) → Entry slot.call.Answer → Prop}

theorem all_start : start.All p := by
  intro slot entry h
  cases slot <;> simp [held?, start] at h

theorem All.mono {q : (slot : Slot) → Entry slot.call.Answer → Prop}
    (h : state.All p) (hle : ∀ slot entry, p slot entry → q slot entry) :
    state.All q :=
  fun slot entry hentry => hle slot entry (h slot entry hentry)

theorem All.setItem (h : state.All p) {kind : Kind} {key : String}
    {entry : Entry (Option Item)}
    (hentry : p (.item kind key) ⟨entry.value.bind Item.visible?, entry.expires⟩) :
    (state.setItem kind key entry).All p := by
  intro slot found hfound
  cases slot with
  | live other => exact h (.live other) found hfound
  | item other name =>
      simp only [held?, State.setItem, PerKind.modify, PerKind.get_set] at hfound
      split at hfound
      · rename_i hkind
        subst hkind
        rw [KeyMap.get?_insert] at hfound
        split at hfound
        · rename_i hkey
          subst hkey
          cases hfound
          exact hentry
        · exact h (.item kind name) found hfound
      · exact h (.item other name) found hfound

theorem All.dropItem (h : state.All p) (kind : Kind) (key : String) :
    (state.dropItem kind key).All p := by
  intro slot found hfound
  cases slot with
  | live other => exact h (.live other) found hfound
  | item other name =>
      simp only [held?, State.dropItem, PerKind.modify, PerKind.get_set]
        at hfound
      split at hfound
      · rename_i hkind
        subst hkind
        rw [KeyMap.get?_erase] at hfound
        split at hfound
        · cases hfound
        · exact h (.item kind name) found hfound
      · exact h (.item other name) found hfound

theorem All.setLive (h : state.All p) {kind : Kind}
    {live : Option (Entry (KeyMap Item))}
    (hentry : ∀ entry, live = some entry → p (.live kind) entry) :
    State.All { state with live := state.live.set kind live } p := by
  intro slot found hfound
  cases slot with
  | item other name => exact h (.item other name) found hfound
  | live other =>
      simp only [State.held?, PerKind.get_set] at hfound
      split at hfound
      · rename_i hkind
        subst hkind
        exact hentry found hfound
      · exact h (.live other) found hfound

theorem All.fillItem (h : state.All p) {kind : Kind} {key : String}
    {entry : Entry (Option Item)}
    (hentry : p (.item kind key) ⟨entry.value.bind Item.visible?, entry.expires⟩)
    (seen : Nat) : (state.fillItem kind key entry seen).All p := by
  unfold State.fillItem
  split
  · exact h.setItem hentry
  · exact h

theorem All.fillLive (h : state.All p) {kind : Kind}
    {entry : Entry (KeyMap Item)} (hentry : p (.live kind) entry) (seen : Nat) :
    (state.fillLive kind entry seen).All p := by
  unfold State.fillLive
  split
  · exact h.setLive fun found hfound => Option.some.inj hfound ▸ hentry
  · exact h

theorem All.dropLive (h : state.All p) (kind : Kind) :
    (state.dropLive kind).All p :=
  h.setLive nofun

theorem All.advance (h : state.All p) : state.advance.All p := h

theorem All.miss (h : state.All p) : state.miss.All p := h

theorem All.recordWrite (h : state.All p) {kind : Kind} {item : Item}
    {expires : Option Instant}
    (hentry : p (.item kind item.key) ⟨item.visible?, expires⟩) :
    (state.recordWrite kind item expires).All p :=
  (h.advance.setItem hentry).dropLive kind

theorem All.recordLoss (h : state.All p) (kind : Kind) (key : String) :
    (state.recordLoss kind key).All p :=
  (h.dropItem kind key).dropLive kind

theorem held?_reset (state : State) (data : DataSet) (expires : Option Instant)
    (slot : Slot) :
    (state.reset data expires).held? slot =
      (data.shown? slot).map fun value => ⟨value, expires⟩ := by
  cases slot with
  | item kind key =>
      simp only [held?, reset, PerKind.get_map, KeyMap.get?_map,
        DataSet.shown?, DataSet.get?, DataSet.items?]
      cases data.kinds.get kind with
      | none => simp
      | some items => simp [Function.comp_def]
  | live kind =>
      simp [held?, reset, DataSet.shown?, DataSet.items?, Function.comp_def]

theorem all_reset (state : State) {data : DataSet} {expires : Option Instant}
    (h : ∀ slot value, data.shown? slot = some value →
      p slot ⟨value, expires⟩) :
    (state.reset data expires).All p := by
  intro slot entry hentry
  rw [held?_reset] at hentry
  obtain ⟨value, hshown, rfl⟩ := Option.map_eq_some_iff.mp hentry
  exact h slot value hshown

theorem all_clear : state.clear.All p := by
  intro slot entry h
  cases slot <;> simp [held?, State.clear] at h

theorem exists_entry_of_item? {now : Instant} {kind : Kind} {key : String}
    {found : Option Item} (h : state.item? now kind key = some found) :
    ∃ entry, state.held? (.item kind key) = some entry ∧
      entry.fresh? now = some (found.bind Item.visible?) := by
  obtain ⟨entry, hentry, hfresh⟩ := Option.bind_eq_some_iff.mp h
  have hvalue := Entry.value_of_fresh? hfresh
  refine ⟨⟨entry.value.bind Item.visible?, entry.expires⟩,
    by simp only [held?, hentry, Option.map_some], ?_⟩
  simp only [Entry.fresh?] at hfresh ⊢
  split at hfresh
  · simp only [hvalue]
  · split at hfresh
    · rename_i hbefore
      rw [if_pos hbefore, hvalue]
    · cases hfresh

end State

/-! ## Reads after writes -/

end Cache

namespace Cluster

variable {cluster : Cluster} {store : Nat} {file : Bool}

/-- Readers do not see tombstones. -/
theorem visible_of_get {kind : Kind} {key : String} {item : Option Item}
    (hok : (cluster.serve store (.get kind key)).1 = .ok item) :
    item.bind Item.visible? = item := by
  obtain ⟨⟨handle, medium⟩, -, hget⟩ := exists_of_bind_eq_ok hok
  match medium with
  | .memory database =>
      cases hget
      rw [MemoryDatabase.get?, Option.bind_assoc]
      congr 1
      funext stored
      cases hdeleted : stored.deleted <;> simp [Item.visible?, hdeleted]
  | .sqlite image =>
      obtain ⟨tables, -, hget⟩ := exists_of_bind_eq_ok hget
      obtain ⟨rows, -, hget⟩ := exists_of_bind_eq_ok hget
      split at hget
      · cases hget
        rfl
      · obtain ⟨reading, -, hget⟩ := exists_of_bind_eq_ok hget
        split at hget
        · cases hget
          rfl
        · obtain ⟨found, hfound, hget⟩ := exists_of_bind_eq_ok hget
          cases hget
          simp only [Sqlite.Tables.Reading.toItem] at hfound
          split at hfound
          · cases hfound
          · split at hfound
            · cases hfound
              rfl
            · cases hfound

/-- After an initialization the slots it covers are read as it sets them. -/
theorem Backs.read_init (h : cluster.Backs store file) {data : DataSet}
    (hkept : (Call.init data).Kept file)
    (hok : (cluster.serve store (.init data)).1 = .ok ()) {slot : Slot}
    {value : slot.call.Answer} (hshown : data.shown? slot = some value) :
    ((cluster.serve store (.init data)).2.serve store slot.call).1 =
      .ok value := by
  obtain ⟨index, realm, ledger, hhandle, hholds, -⟩ :=
    h.ok_cases (by simp) hkept hok
  rw [hholds.serve_slot hhandle slot]
  exact congrArg Except.ok (Ledger.answer_init hshown)

/-- After an upsert that was applied its item is read. -/
theorem Backs.read_applied (h : cluster.Backs store file) {kind : Kind}
    {item : Item} (hkept : (Call.upsert kind item).Kept file)
    (hok : (cluster.serve store (.upsert kind item)).1 = .ok .applied) :
    ((cluster.serve store (.upsert kind item)).2.serve store
      (.get kind item.key)).1 = .ok item.visible? := by
  obtain ⟨index, realm, ledger, hhandle, hholds, hanswer⟩ :=
    h.ok_cases (by simp) hkept hok
  rw [hholds.serve_slot hhandle (.item kind item.key)]
  have hput : (ledger.upsert realm kind item).2 = ledger.put realm kind item := by
    have hanswer : .applied = (ledger.upsert realm kind item).1 := hanswer
    simp only [Ledger.upsert] at hanswer ⊢
    split at hanswer
    · rename_i hnewer
      rw [if_pos hnewer]
    · cases hanswer
  have hafter : (ledger.serve realm (.upsert kind item)).2 =
      ledger.put realm kind item := hput
  rw [hafter, Ledger.answer_put_item]

end Cluster

namespace Cache

namespace Desk

/-- The condition holds of an entry that is recorded now. -/
def Records (mode : Mode) (clock : Nat → Instant)
    (p : (slot : Slot) → Entry slot.call.Answer → Prop) (handle : Nat)
    (cluster : Cluster) : Prop :=
  ∀ slot value expires n, (cluster.serve handle slot.call).1 = .ok value →
    mode.expiry? (clock n) = some expires → p slot ⟨value, expires⟩

variable {mode : Mode} {handle : Nat} {clock : Nat → Instant} {file : Bool}
  {p : (slot : Slot) → Entry slot.call.Answer → Prop}

/-- A call that is aborted leaves its cache. -/
theorem all_withExpiry {call : Call} {now : Instant} {state : State}
    {next : Option Instant → State × Progress call} {questions reads : Nat}
    {cluster : Cluster} (hall : state.All p)
    (hnext : ∀ expires, mode.expiry? now = some expires →
      (follow mode handle clock questions (next expires).2
        ⟨reads, (next expires).1, cluster⟩).2.state.All p) :
    (follow mode handle clock questions (withExpiry mode now state next).2
      ⟨reads, (withExpiry mode now state next).1, cluster⟩).2.state.All p := by
  simp only [withExpiry]
  cases hexpires : mode.expiry? now with
  | none =>
      simp only [follow_aborted]
      exact hall
  | some expires => exact hnext expires hexpires

theorem all_init {desk : Desk} {data : DataSet}
    (hbacks : desk.cluster.Backs handle file)
    (hkept : (Call.init data).Kept file) (hall : desk.state.All p)
    (hnew : Records mode clock p handle
      (desk.cluster.serve handle (.init data)).2) :
    (desk.serve mode handle clock (.init data)).2.state.All p := by
  simp only [serve_eq, Cache.start, follow_asking]
  cases hreply : (desk.cluster.serve handle (.init data)).1 with
  | error error =>
      simp only [resume, follow_answered]
      exact hall
  | ok =>
      simp only [resume]
      split
      · refine all_withExpiry hall fun expires hexpires => ?_
        simp only [follow_answered]
        refine desk.state.all_reset fun slot value hshown => ?_
        have hread := hbacks.read_init hkept hreply hshown
        exact hnew slot value expires _ hread hexpires
      · simp only [follow_answered]
        exact hall

theorem all_get {desk : Desk} {kind : Kind} {key : String}
    (hall : desk.state.All p)
    (hnew : Records mode clock p handle desk.cluster) :
    (desk.serve mode handle clock (.get kind key)).2.state.All p := by
  simp only [serve_eq, Cache.start]
  split
  · simp only [startGet]
    split
    · simp only [follow_answered]
      exact hall
    · simp only [follow_asking]
      cases hreply : (desk.cluster.serve handle (.get kind key)).1 with
      | error error =>
          simp only [resume, follow_answered]
          exact hall
      | ok item =>
          refine all_withExpiry hall.miss fun expires hexpires => ?_
          simp only [follow_answered]
          refine hall.miss.fillItem ?_ _
          rw [Cluster.visible_of_get hreply]
          exact hnew (.item kind key) item expires _ hreply hexpires
  · simp only [follow_asking, resume, follow_answered]
    exact hall

theorem all_all {desk : Desk} {kind : Kind} (hall : desk.state.All p)
    (hnew : Records mode clock p handle desk.cluster) :
    (desk.serve mode handle clock (.all kind)).2.state.All p := by
  simp only [serve_eq, Cache.start]
  split
  · simp only [startAll]
    split
    · simp only [follow_answered]
      exact hall
    · simp only [follow_asking]
      cases hreply : (desk.cluster.serve handle (.all kind)).1 with
      | error error =>
          simp only [resume, follow_answered]
          exact hall
      | ok items =>
          refine all_withExpiry hall.miss fun expires hexpires => ?_
          simp only [follow_answered]
          have hentry := hnew (.live kind) items expires _ hreply hexpires
          exact hall.miss.fillLive hentry _
  · simp only [follow_asking, resume, follow_answered]
    exact hall

theorem all_reread {desk : Desk} {kind : Kind} {item : Item} (seen : Nat)
    (hall : desk.state.All p)
    (hnew : Records mode clock p handle desk.cluster) :
    (follow mode handle clock 1 (.asking (.reread kind item seen))
      desk).2.state.All p := by
  simp only [follow_asking]
  cases hreply : (desk.cluster.serve handle (.get kind item.key)).1 with
  | error error =>
      simp only [resume, follow_answered]
      exact hall
  | ok current =>
      refine all_withExpiry hall fun expires hexpires => ?_
      simp only [follow_answered]
      refine hall.fillItem ?_ _
      rw [Cluster.visible_of_get hreply]
      exact hnew (.item kind item.key) current expires _ hreply hexpires

theorem all_upsert {desk : Desk} {kind : Kind} {item : Item}
    (hbacks : desk.cluster.Backs handle file)
    (hkept : (Call.upsert kind item).Kept file) (hall : desk.state.All p)
    (hnew : Records mode clock p handle
      (desk.cluster.serve handle (.upsert kind item)).2) :
    (desk.serve mode handle clock (.upsert kind item)).2.state.All p := by
  simp only [serve_eq, Cache.start]
  split
  · simp only [follow_asking]
    cases hreply : (desk.cluster.serve handle (.upsert kind item)).1 with
    | error error =>
        simp only [resume, follow_answered]
        exact hall
    | ok outcome =>
        refine all_withExpiry hall fun expires hexpires => ?_
        cases outcome with
        | applied =>
            simp only [follow_answered]
            have hread := hbacks.read_applied hkept hreply
            have hentry := hnew (.item kind item.key) _ expires _ hread hexpires
            exact hall.recordWrite hentry
        | superseded => exact all_reread _ (hall.recordLoss kind item.key) hnew
  · simp only [follow_asking, resume, follow_answered]
    exact hall

theorem all_initialized {desk : Desk} (hall : desk.state.All p) :
    (desk.serve mode handle clock .initialized).2.state.All p := by
  have hasked : ∀ cluster : Cluster,
      (follow mode handle clock 2 (.asking .initialized)
        ⟨desk.reads + 1, desk.state, cluster⟩).2.state.All p := by
    intro cluster
    simp only [follow_asking]
    cases (cluster.serve handle .initialized).1 with
    | error error =>
        simp only [resume, follow_answered]
        exact hall
    | ok initialized =>
        cases initialized with
        | true =>
            simp only [resume, follow_answered]
            exact hall
        | false =>
            refine all_withExpiry hall fun expires _ => ?_
            simp only [follow_answered]
            exact hall
  simp only [serve_eq, Cache.start, startInitialized]
  split
  · simp only [follow_answered]
    exact hall
  · split
    · split
      · simp only [follow_answered]
        exact hall
      · exact hasked desk.cluster
    · exact hasked desk.cluster

/-- After a call every entry is an old one, or it was recorded in the call and
holds what the backend answers after it. -/
theorem serve_all {desk : Desk} {call : Call}
    (hbacks : desk.cluster.Backs handle file) (hkept : call.Kept file)
    (hall : desk.state.All p)
    (hnew : Records mode clock p handle (desk.cluster.serve handle call).2) :
    (desk.serve mode handle clock call).2.state.All p := by
  cases call with
  | init data => exact all_init hbacks hkept hall hnew
  | get kind key => exact all_get hall hnew
  | all kind => exact all_all hall hnew
  | upsert kind item => exact all_upsert hbacks hkept hall hnew
  | initialized => exact all_initialized hall
  | close =>
      simp only [serve_eq, Cache.start, follow_asking, resume, follow_answered]
      exact State.all_clear

/-- A read is answered from a fresh entry, or as the backend answers it. -/
theorem reply_cases {desk : Desk} {slot : Slot} {reply : slot.call.Reply}
    (h : (desk.serve mode handle clock slot.call).1 = some reply) :
    (∃ entry value, mode.isEnabled = true ∧
      desk.state.held? slot = some entry ∧
      entry.fresh? (clock desk.reads) = some value ∧ reply = .ok value) ∨
    (desk.cluster.serve handle slot.call).1 = reply := by
  cases slot with
  | item kind key =>
      simp only [serve_eq, Cache.start, startGet] at h
      split at h
      · rename_i henabled
        split at h
        · rename_i found hitem
          rw [follow_answered] at h
          cases h
          obtain ⟨entry, hentry, hfresh⟩ := State.exists_entry_of_item? hitem
          exact .inl ⟨entry, _, henabled, hentry, hfresh, rfl⟩
        · refine .inr ?_
          rw [follow_asking] at h
          cases hreply : (desk.cluster.serve handle (.get kind key)).1 with
          | error error =>
              simp only [hreply, resume, follow_answered] at h
              exact Option.some.inj h
          | ok item =>
              simp only [hreply, resume, withExpiry] at h
              split at h
              · rw [follow_aborted] at h
                cases h
              · rw [follow_answered] at h
                exact Option.some.inj h
      · rw [follow_asking] at h
        simp only [resume, follow_answered] at h
        exact .inr (Option.some.inj h)
  | live kind =>
      simp only [serve_eq, Cache.start, startAll] at h
      split at h
      · rename_i henabled
        split at h
        · rename_i items hlive
          rw [follow_answered] at h
          cases h
          obtain ⟨entry, hentry, hfresh⟩ := Option.bind_eq_some_iff.mp hlive
          exact .inl ⟨entry, _, henabled, hentry, hfresh, rfl⟩
        · refine .inr ?_
          rw [follow_asking] at h
          cases hreply : (desk.cluster.serve handle (.all kind)).1 with
          | error error =>
              simp only [hreply, resume, follow_answered] at h
              exact Option.some.inj h
          | ok items =>
              simp only [hreply, resume, withExpiry] at h
              split at h
              · rw [follow_aborted] at h
                cases h
              · rw [follow_answered] at h
                exact Option.some.inj h
      · rw [follow_asking] at h
        simp only [resume, follow_answered] at h
        exact .inr (Option.some.inj h)

/-- What a read gives is in a fresh entry or is the backend's answer. -/
theorem read_cases {desk : Desk} {slot : Slot} {value : slot.call.Answer}
    (h : (desk.serve mode handle clock slot.call).1 = some (.ok value)) :
    (∃ entry, desk.state.held? slot = some entry ∧
      entry.fresh? (clock desk.reads) = some value) ∨
    (desk.cluster.serve handle slot.call).1 = .ok value := by
  rcases reply_cases h with ⟨entry, found, -, hentry, hfresh, hfound⟩ | hreply
  · cases hfound
    exact .inl ⟨entry, hentry, hfresh⟩
  · exact .inr hreply

end Desk

/-! ## Runs -/

/-- The clock, a cache and the cluster of its backend, between calls. -/
structure Scene where
  now : Instant
  state : State
  cluster : Cluster

namespace Scene

inductive Step where
  | tick (nanos : Nat)
  /-- A call through the cache. -/
  | own (call : Call)
  /-- A call through any handle, past the cache. -/
  | other (handle : Nat) (call : Call)
  /-- Clears the medium of any handle, past the cache. -/
  | clear (handle : Nat)
  deriving DecidableEq, Repr

def start (now : Instant) (cluster : Cluster) : Scene := ⟨now, .start, cluster⟩

def serve (mode : Mode) (handle : Nat) (scene : Scene) (call : Call) :
    Option call.Reply × Desk :=
  Desk.serve mode handle (fun _ => scene.now) call
    ⟨0, scene.state, scene.cluster⟩

def step (mode : Mode) (handle : Nat) (scene : Scene) : Step → Scene
  | .tick nanos => { scene with now := ⟨scene.now.nanos + nanos⟩ }
  | .own call =>
      let desk := (scene.serve mode handle call).2
      { scene with state := desk.state, cluster := desk.cluster }
  | .other other call =>
      { scene with cluster := (scene.cluster.serve other call).2 }
  | .clear other => { scene with cluster := (scene.cluster.clear other).2 }

def run (mode : Mode) (handle : Nat) (scene : Scene) (steps : List Step) :
    Scene :=
  steps.foldl (step mode handle) scene

def Step.Kept (file : Bool) : Step → Prop
  | .own call | .other _ call => call.Kept file
  | .tick _ | .clear _ => True

variable {mode : Mode} {handle : Nat} {scene : Scene} {file : Bool}

theorem now_le_step (first : Step) :
    scene.now.nanos ≤ (scene.step mode handle first).now.nanos := by
  cases first with
  | tick nanos => exact Nat.le_add_right _ _
  | own _ | other _ _ | clear _ => exact Nat.le_refl _

theorem now_le_run (steps : List Step) :
    scene.now.nanos ≤ (scene.run mode handle steps).now.nanos := by
  induction steps generalizing scene with
  | nil => exact Nat.le_refl _
  | cons first rest ih => exact Nat.le_trans (now_le_step first) ih

theorem run_append (scene : Scene) (past rest : List Step) :
    scene.run mode handle (past ++ rest) =
      (scene.run mode handle past).run mode handle rest :=
  List.foldl_append

/-! ## Where entries come from -/

variable {nanos : Nat} {initial : Scene} {past : List Step}

/-- An entry was made at a moment of the run, to live for the lifetime, and
holds what the backend would have answered at that moment. -/
def MadeIn (nanos handle : Nat) (initial : Scene) (past : List Step)
    (slot : Slot) (entry : Entry slot.call.Answer) : Prop :=
  ∃ before, before <+: past ∧
    entry.expires = some
      ⟨(initial.run (.ttl nanos) handle before).now.nanos + nanos⟩ ∧
    ((initial.run (.ttl nanos) handle before).cluster.serve handle
      slot.call).1 = .ok entry.value

theorem MadeIn.append {slot : Slot} {entry : Entry slot.call.Answer}
    (h : MadeIn nanos handle initial past slot entry) (rest : List Step) :
    MadeIn nanos handle initial (past ++ rest) slot entry := by
  obtain ⟨before, hbefore, hentry⟩ := h
  exact ⟨before, hbefore.trans (List.prefix_append past rest), hentry⟩

/-- What holds after some steps. -/
structure Recorded (nanos handle : Nat) (file : Bool) (initial : Scene)
    (past : List Step) (scene : Scene) : Prop where
  ran : initial.run (.ttl nanos) handle past = scene
  backs : scene.cluster.Backs handle file
  entries : scene.state.All (MadeIn nanos handle initial past)

theorem recorded_start {cluster : Cluster} (h : cluster.Backs handle file)
    (nanos : Nat) (now : Instant) :
    Recorded nanos handle file (start now cluster) [] (start now cluster) where
  ran := rfl
  backs := h
  entries := State.all_start

theorem expires_of_ttl {now : Instant} {expires : Option Instant}
    (h : Mode.expiry? (.ttl nanos) now = some expires) :
    expires = some ⟨now.nanos + nanos⟩ := by
  obtain ⟨moment, hafter, rfl⟩ := Option.map_eq_some_iff.mp h
  simp only [Instant.after?] at hafter
  split at hafter
  · cases hafter
    rfl
  · cases hafter

theorem Recorded.run_step (h : Recorded nanos handle file initial past scene)
    (next : Step) :
    initial.run (.ttl nanos) handle (past ++ [next]) =
      scene.step (.ttl nanos) handle next := by
  rw [run_append, h.ran]
  rfl

/-- A step past the cache leaves its entries. -/
theorem Recorded.aside (h : Recorded nanos handle file initial past scene)
    {next : Step}
    (hstate : (scene.step (.ttl nanos) handle next).state = scene.state)
    (hbacks : (scene.step (.ttl nanos) handle next).cluster.Backs handle file) :
    Recorded nanos handle file initial (past ++ [next])
      (scene.step (.ttl nanos) handle next) where
  ran := h.run_step next
  backs := hbacks
  entries := hstate ▸ h.entries.mono fun _ _ hentry => hentry.append [next]

/-- A call through the cache records what its backend answers after it. -/
theorem Recorded.own (h : Recorded nanos handle file initial past scene)
    {call : Call} (hkept : call.Kept file) :
    Recorded nanos handle file initial (past ++ [.own call])
      (scene.step (.ttl nanos) handle (.own call)) := by
  have hcluster : (scene.step (.ttl nanos) handle (.own call)).cluster =
      (scene.cluster.serve handle call).2 :=
    Desk.serve_cluster ⟨0, scene.state, scene.cluster⟩
  refine ⟨h.run_step _, hcluster ▸ h.backs.serve handle hkept, ?_⟩
  refine Desk.serve_all h.backs hkept
    (h.entries.mono fun slot entry hentry => hentry.append [.own call]) ?_
  intro slot value expires n hok hexpires
  refine ⟨past ++ [.own call], List.prefix_refl _, ?_, ?_⟩
  · rw [h.run_step]
    exact expires_of_ttl hexpires
  · rw [h.run_step, hcluster]
    exact hok

theorem Recorded.step (h : Recorded nanos handle file initial past scene)
    {next : Step} (hkept : next.Kept file) :
    Recorded nanos handle file initial (past ++ [next])
      (scene.step (.ttl nanos) handle next) := by
  cases next with
  | own call => exact h.own hkept
  | tick nanos => exact h.aside rfl h.backs
  | other other call => exact h.aside rfl (h.backs.serve other hkept)
  | clear other => exact h.aside rfl (h.backs.clear other)

theorem Recorded.run {steps : List Step}
    (h : Recorded nanos handle file initial past scene)
    (hkept : ∀ step ∈ steps, step.Kept file) :
    Recorded nanos handle file initial (past ++ steps)
      (scene.run (.ttl nanos) handle steps) := by
  induction steps generalizing past scene with
  | nil =>
      rw [List.append_nil]
      exact h
  | cons first rest ih =>
      obtain ⟨hfirst, hrest⟩ := List.forall_mem_cons.mp hkept
      rw [List.append_cons]
      exact ih (h.step hfirst) hrest

/-- Whatever a read through the cache gives, the backend would have given at a
moment of the run less than a lifetime ago; without a lifetime, now. -/
theorem read_within_lifetime {cluster : Cluster}
    (hbacks : cluster.Backs handle file) (now : Instant) {steps : List Step}
    (hkept : ∀ step ∈ steps, step.Kept file) {slot : Slot}
    {value : slot.call.Answer}
    (hread : (((start now cluster).run (.ttl nanos) handle steps).serve
      (.ttl nanos) handle slot.call).1 = some (.ok value)) :
    ∃ past rest, steps = past ++ rest ∧
      (((start now cluster).run (.ttl nanos) handle past).cluster.serve handle
        slot.call).1 = .ok value ∧
      ((start now cluster).run (.ttl nanos) handle past).now.nanos ≤
        ((start now cluster).run (.ttl nanos) handle steps).now.nanos ∧
      (((start now cluster).run (.ttl nanos) handle steps).now.nanos <
          ((start now cluster).run (.ttl nanos) handle past).now.nanos + nanos ∨
        nanos = 0 ∧ past = steps) := by
  have h : Recorded nanos handle file (start now cluster) steps
      ((start now cluster).run (.ttl nanos) handle steps) :=
    (recorded_start hbacks nanos now).run hkept
  rcases Desk.read_cases hread with ⟨entry, hentry, hfresh⟩ | hok
  · obtain ⟨past, ⟨rest, rfl⟩, hexpires, hok⟩ := h.entries slot entry hentry
    have hvalue := Entry.value_of_fresh? hfresh
    simp only [Entry.fresh?, hexpires] at hfresh
    split at hfresh
    · rename_i hbefore
      refine ⟨past, rest, rfl, hvalue ▸ hok, ?_, .inl hbefore⟩
      rw [run_append]
      exact now_le_run rest
    · cases hfresh
  · refine ⟨steps, [], (List.append_nil steps).symm, hok, Nat.le_refl _, ?_⟩
    rcases Nat.eq_zero_or_pos nanos with hzero | hpos
    · exact .inr ⟨hzero, rfl⟩
    · exact .inl (Nat.lt_add_of_pos_right hpos)

/-- A known absence is told on after an upsert past the cache. -/
theorem read_within_lifetime_absent :
    ∃ (cluster : Cluster) (steps : List Step),
      steps =
        [.own (.get .features "a"),
          .other 1 (.upsert .features (.live "a" 1 .null)), .tick 4] ∧
      (((start ⟨0⟩ cluster).run (.ttl 5) 0 steps).cluster.serve 0
        (.get .features "a")).1 = .ok (some (.live "a" 1 .null)) ∧
      (((start ⟨0⟩ cluster).run (.ttl 5) 0 steps).serve (.ttl 5) 0
        (.get .features "a")).1 = some (.ok none) ∧
      ∃ past rest, steps = past ++ rest ∧
        (((start ⟨0⟩ cluster).run (.ttl 5) 0 past).cluster.serve 0
          (.get .features "a")).1 = .ok none ∧
        ((start ⟨0⟩ cluster).run (.ttl 5) 0 past).now.nanos ≤ 4 ∧
        (4 < ((start ⟨0⟩ cluster).run (.ttl 5) 0 past).now.nanos + 5 ∨
          5 = 0 ∧ past = steps) := by
  have hbacks : Cluster.Backs
      ⟨[.memory .empty], [⟨0, .standard, false⟩, ⟨0, .standard, false⟩]⟩ 0
      false :=
    ⟨0, .standard, false, _, rfl, .memory .empty, rfl, rfl, rfl⟩
  have hkept : ∀ step ∈ [Step.own (.get .features "a"),
      .other 1 (.upsert .features (.live "a" 1 .null)), .tick 4],
      step.Kept false := by
    simp only [List.forall_mem_cons, Step.Kept]
    exact ⟨⟨trivial, nofun⟩, ⟨trivial, nofun⟩, trivial, nofun⟩
  have hread : (((start ⟨0⟩ ⟨[.memory .empty],
      [⟨0, .standard, false⟩, ⟨0, .standard, false⟩]⟩).run (.ttl 5) 0
        [.own (.get .features "a"),
          .other 1 (.upsert .features (.live "a" 1 .null)), .tick 4]).serve
      (.ttl 5) 0 (Slot.item .features "a").call).1 = some (.ok none) := rfl
  exact ⟨_, _, rfl, rfl, hread, read_within_lifetime hbacks ⟨0⟩ hkept hread⟩

end Scene

end Cache

end VersionedFlags
