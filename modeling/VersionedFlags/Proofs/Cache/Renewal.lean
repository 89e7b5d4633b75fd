import VersionedFlags.Proofs.Cache.Overrun
import VersionedFlags.Proofs.Store.Evolution

/-!
# A write renews what it touches

Others may come between the advisory read of an upsert and its conditional
write.  However stale a cache was, after an upsert that was answered the item and
the live items of its kind are read through it as the store gives them, and after
an initialization every slot is.
-/

namespace VersionedFlags

theorem Ledger.upsert_of_applied {ledger : Ledger} {realm : Realm} {kind : Kind}
    {item : Item} (h : (ledger.upsert realm kind item).1 = .applied) :
    (ledger.upsert realm kind item).2 = ledger.put realm kind item := by
  simp only [Ledger.upsert] at h ⊢
  split at h
  · rename_i hnewer
    rw [if_pos hnewer]
  · cases h

/-! ## Upserts that others come between -/

namespace Cluster

/-- What others do to the media. -/
inductive Deed where
  | access (access : Access)
  | clear (place : Nat)
  deriving DecidableEq, Repr

def deed (cluster : Cluster) : Deed → Cluster
  | .access access => cluster.access access
  | .clear place => (cluster.clear place).2

/-- Written items are read back unchanged, and the handle stays open. -/
def Deed.Spares (file : Bool) (store : Nat) : Deed → Prop
  | .access (.serve place call) =>
      call.Kept file ∧ (call = .close → place ≠ store)
  | .access (.commit _ kind item) => (Call.upsert kind item).Kept file
  | .clear _ => True

/-- An upsert with deeds after its advisory read. -/
def upsertAmid (deeds : List Deed) (cluster : Cluster) (store : Nat)
    (kind : Kind) (item : Item) : Except StoreError Outcome × Cluster :=
  let later := deeds.foldl deed cluster
  match cluster.advise store kind item with
  | .error error => (.error error, later)
  | .ok false => (.ok .superseded, later)
  | .ok true => later.commit store kind item

theorem upsertAmid_nil (cluster : Cluster) (store : Nat) (kind : Kind)
    (item : Item) :
    cluster.upsertAmid [] store kind item = cluster.upsert store kind item :=
  rfl

theorem serve_slot_snd (cluster : Cluster) (store : Nat) (slot : Slot) :
    (cluster.serve store slot.call).2 = cluster := by
  cases slot <;> rfl

variable {cluster : Cluster} {store index : Nat} {realm : Realm} {file : Bool}
  {ledger : Ledger}

theorem handles_deed
    (hhandle : cluster.handles[store]? = some ⟨index, realm, false⟩) {deed : Deed}
    (hspares : deed.Spares file store) :
    (cluster.deed deed).handles[store]? = some ⟨index, realm, false⟩ := by
  match deed, hspares with
  | .clear place, _ =>
      simp only [Cluster.deed, handles_clear]
      exact hhandle
  | .access (.commit place kind item), _ =>
      simp only [Cluster.deed, Cluster.access, handles_commit]
      exact hhandle
  | .access (.serve place call), ⟨_, hstays⟩ =>
      simp only [Cluster.deed, Cluster.access]
      by_cases hclose : call = .close
      · subst hclose
        simp only [Cluster.serve, Cluster.close, List.getElem?_modify,
          if_neg (hstays rfl), hhandle]
        rfl
      · rw [handles_serve _ _ hclose]
        exact hhandle

theorem Holds.deed (h : cluster.Holds index file ledger) {deed : Deed}
    (hspares : deed.Spares file store) :
    ∃ next, (cluster.deed deed).Holds index file next := by
  match deed, hspares with
  | .clear place, _ => exact h.clear_any place
  | .access (.serve place call), ⟨hkept, _⟩ => exact h.serve_any place hkept
  | .access (.commit place kind item), hkept =>
      obtain ⟨next, hnext, -⟩ := h.commit_any place hkept
      exact ⟨next, hnext⟩

theorem Holds.deeds (h : cluster.Holds index file ledger)
    (hhandle : cluster.handles[store]? = some ⟨index, realm, false⟩)
    {deeds : List Deed} (hspares : ∀ deed ∈ deeds, deed.Spares file store) :
    ∃ next, (deeds.foldl Cluster.deed cluster).Holds index file next ∧
      (deeds.foldl Cluster.deed cluster).handles[store]? =
        some ⟨index, realm, false⟩ := by
  induction deeds generalizing cluster ledger with
  | nil => exact ⟨ledger, h, hhandle⟩
  | cons first rest ih =>
      obtain ⟨hfirst, hrest⟩ := List.forall_mem_cons.mp hspares
      obtain ⟨next, hnext⟩ := h.deed hfirst
      exact ih hnext (handles_deed hhandle hfirst) hrest

/-- The conditional write through an open handle. -/
theorem Holds.commit_ok (h : cluster.Holds index file ledger)
    (hhandle : cluster.handles[store]? = some ⟨index, realm, false⟩)
    {kind : Kind} {item : Item} (hkept : (Call.upsert kind item).Kept file)
    {outcome : Outcome}
    (hok : (cluster.commit store kind item).1 = .ok outcome) :
    outcome = (ledger.upsert realm kind item).1 ∧
      (cluster.commit store kind item).2.Holds index file
        (ledger.upsert realm kind item).2 := by
  obtain ⟨medium, hmedium, hholds, rfl⟩ := id h
  simp only [Cluster.commit, handle_eq hhandle hmedium, ok_bind] at hok ⊢
  rcases hholds.commit realm kind item fun hfile =>
      hkept.reads hfile item rfl with
    ⟨next, heq, hnext, hfile⟩ | ⟨-, error, heq⟩
  · rw [heq] at hok ⊢
    cases hok
    exact ⟨rfl, h.setMedium hnext hfile⟩
  · rw [heq] at hok
    cases hok

/-- What an answered upsert leaves, whatever others did meanwhile. -/
theorem Backs.upsertAmid_ok (h : cluster.Backs store file) {deeds : List Deed}
    (hspares : ∀ deed ∈ deeds, deed.Spares file store) {kind : Kind}
    {item : Item} (hkept : (Call.upsert kind item).Kept file)
    {outcome : Outcome} {after : Cluster}
    (hupsert : cluster.upsertAmid deeds store kind item = (.ok outcome, after)) :
    ∃ index realm, ∃ ledger : Ledger,
      after.handles[store]? = some ⟨index, realm, false⟩ ∧
      after.Holds index file ledger ∧
      (outcome = .applied →
        ledger.answer realm (.item kind item.key) = item.visible?) := by
  obtain ⟨index, realm, closed, ledger, hhandle, hholds⟩ := h
  cases closed with
  | true =>
      have hclosed : cluster.advise store kind item = .error .closed := by
        simp only [Cluster.advise, Cluster.openHandle, Cluster.handle, hhandle]
        cases cluster.media[index]? <;> rfl
      simp only [upsertAmid, hclosed] at hupsert
      cases hupsert
  | false =>
      obtain ⟨next, hnext, hstays⟩ := hholds.deeds hhandle hspares
      simp only [upsertAmid] at hupsert
      split at hupsert
      · cases hupsert
      · cases hupsert
        exact ⟨index, realm, next, hstays, hnext, by simp⟩
      · obtain ⟨houtcome, hafter⟩ := hnext.commit_ok hstays hkept
          (congrArg Prod.fst hupsert)
        have hhandles :=
          handles_commit (deeds.foldl Cluster.deed cluster) store kind item
        rw [hupsert] at hafter hhandles
        refine ⟨index, realm, _, ?_, hafter, ?_⟩
        · rw [hhandles, hstays]
        · rintro rfl
          rw [Ledger.upsert_of_applied houtcome.symm, Ledger.answer_put_item]

end Cluster

/-! ## What a write leaves of a cache -/

namespace Cache

namespace State

theorem held?_recordWrite (state : State) (kind : Kind) (item : Item)
    (expires : Option Instant) :
    (state.recordWrite kind item expires).held? (.item kind item.key) =
        some ⟨item.visible?, expires⟩ ∧
      (state.recordWrite kind item expires).held? (.live kind) = none := by
  simp [held?, recordWrite, setItem, dropLive, advance, PerKind.modify,
    PerKind.get_set, KeyMap.get?_insert]

theorem Drops.held? {kind : Kind} {key : String} {before after : State}
    (h : before.Drops kind key after) :
    after.held? (.item kind key) = none ∧ after.held? (.live kind) = none := by
  simp [State.held?, h.get?_items, h.get_live]

end State

section Resume

variable {mode : Mode} {now : Instant} {state : State}

theorem Resumes.init_ok {data : DataSet} {reply : (Call.init data).Reply}
    {next : State × Progress (.init data)}
    (h : Resumes mode now state (.init data) reply next)
    (hends : next.2.Ends (some (.ok ()))) :
    reply = .ok () ∧ (mode.isEnabled = true →
      ∃ expires, next.1 = (state.reset data expires).latch) := by
  cases h with
  | failed | aborted => cases hends
  | initBare _ hmode =>
      refine ⟨rfl, fun henabled => ?_⟩
      rw [hmode] at henabled
      cases henabled
  | init => exact ⟨rfl, fun _ => ⟨_, rfl⟩⟩

variable {kind : Kind} {item : Item} {outcome : Outcome}
  {next : State × Progress (.upsert kind item)}

theorem Resumes.upsert_ok {reply : Except StoreError Outcome}
    (h : Resumes mode now state (.upsert kind item) reply next)
    (hends : next.2.Ends (some (.ok outcome))) :
    outcome = .applied ∧ reply = .ok .applied ∧
      ∃ expires, next.1 = state.recordWrite kind item expires := by
  cases h with
  | failed | aborted | superseded => cases hends
  | applied =>
      cases hends
      exact ⟨rfl, rfl, _, rfl⟩

theorem Resumes.reread_ok {seen : Nat} {reply : Except StoreError (Option Item)}
    (h : Resumes mode now state (.reread kind item seen) reply next)
    (hends : next.2.Ends (some (.ok outcome))) :
    outcome = .superseded ∧ ∃ current expires, reply = .ok current ∧
      next.1 = state.fillItem kind item.key ⟨current, expires⟩ seen := by
  cases h with
  | failed | aborted => cases hends
  | reread _ _ _ current =>
      cases hends
      exact ⟨rfl, current, _, rfl, rfl⟩

theorem reply_of_ends {call : Call} {reply answer : call.Reply}
    (h : (Progress.answered reply).Ends (some answer)) : reply = answer := by
  cases h
  rfl

end Resume

namespace Station

section Writes

variable {σ : Type} {backend : Backend σ} {mode : Mode} {clock : Nat → Instant}
  {station after : Station σ} {kind : Kind} {item : Item} {outcome : Outcome}

/-- How an upsert through a cache was answered, and what it leaves. -/
inductive Upserted (backend : Backend σ) (mode : Mode) (station : Station σ)
    (kind : Kind) (item : Item) (after : Station σ) : Outcome → Prop
  | passed {outcome : Outcome} (hmode : mode.isEnabled = false)
      (hreply : backend station.store (.upsert kind item) =
        (.ok outcome, after.store)) :
      Upserted backend mode station kind item after outcome
  | applied (expires : Option Instant)
      (hreply : backend station.store (.upsert kind item) =
        (.ok .applied, after.store))
      (hstate : after.state = station.state.recordWrite kind item expires) :
      Upserted backend mode station kind item after .applied
  | superseded (current : Option Item) (expires : Option Instant)
      (hlost : (backend station.store (.upsert kind item)).1 = .ok .superseded)
      (hread : backend (backend station.store (.upsert kind item)).2
        (.get kind item.key) = (.ok current, after.store))
      (hstate : after.state =
        (station.state.recordLoss kind item.key).fillItem kind item.key
          ⟨current, expires⟩ (station.state.generation + 1)) :
      Upserted backend mode station kind item after .superseded

theorem upserted_of_ok
    (h : station.serve backend mode clock (.upsert kind item) =
      (some (.ok outcome), after)) :
    Upserted backend mode station kind item after outcome := by
  rcases serve_cases backend mode clock station (.upsert kind item) with
    ⟨answer, hstart, -⟩ | ⟨pending, middle, result, hasks, hends, hserve⟩
  · simp only [begin, Cache.start] at hstart
    split at hstart <;> cases hstart
  · rw [hserve] at h
    cases h
    have hresumes := resumes_goOn backend mode clock middle pending
    cases hasks with
    | first hstart =>
        have hstate : (station.begin mode clock (.upsert kind item)).2.state =
            station.state := start_upsert mode _ station.state kind item
        simp only [Cache.start] at hstart
        split at hstart
        · cases hstart
          obtain ⟨rfl, hreply, expires, hresume⟩ := hresumes.upsert_ok hends
          exact .applied expires (Prod.ext hreply rfl)
            (hresume.trans (by rw [hstate]))
        · rename_i hmode
          cases hstart
          exact .passed (by simpa using hmode)
            (Prod.ext (reply_of_ends hends) rfl)
    | again kind item hlost =>
        obtain ⟨rfl, current, expires, hreply, hresume⟩ := hresumes.reread_ok hends
        exact .superseded current expires hlost (Prod.ext hreply rfl) hresume

theorem reset_of_ok {data : DataSet}
    (h : station.serve backend mode clock (.init data) =
      (some (.ok ()), after)) :
    backend station.store (.init data) = (.ok (), after.store) ∧
      (mode.isEnabled = true → ∃ expires,
        after.state = (station.state.reset data expires).latch) := by
  rcases serve_cases backend mode clock station (.init data) with
    ⟨answer, hstart, -⟩ | ⟨pending, middle, result, hasks, hends, hserve⟩
  · cases hstart
  · rw [hserve] at h
    cases h
    have hresumes := resumes_goOn backend mode clock middle pending
    cases hasks with
    | first hstart =>
        cases hstart
        obtain ⟨hreply, hreset⟩ := hresumes.init_ok hends
        exact ⟨Prod.ext hreply rfl, hreset⟩

end Writes

/-! ## Reads after a write -/

/-- The slots that a call sets or starts over. -/
inductive Renews : Call → Slot → Prop
  | init (data : DataSet) (slot : Slot) : Renews (.init data) slot
  | item (kind : Kind) (item : Item) :
      Renews (.upsert kind item) (.item kind item.key)
  | live (kind : Kind) (item : Item) : Renews (.upsert kind item) (.live kind)

/-- A handle whose upserts others come between. -/
def amid (deeds : List Cluster.Deed) (handle : Nat) : Backend Cluster
  | cluster, .upsert kind item => cluster.upsertAmid deeds handle kind item
  | cluster, call => cluster.serve handle call

/-- What the cache holds for these slots is what its handle replies. -/
def Agrees (handle : Nat) (slots : Slot → Prop) (station : Station Cluster) :
    Prop :=
  station.state.All fun slot entry => slots slot →
    (station.store.serve handle slot.call).1 = .ok entry.value

section Reads

variable {handle : Nat} {slots : Slot → Prop} {mode : Mode}
  {clock : Nat → Instant} {station after : Station Cluster} {slot : Slot}

theorem store_read (station : Station Cluster) (slot : Slot) :
    (station.serve (.ofHandle handle) mode clock slot.call).2.store =
      station.store := by
  rcases serve_cases (.ofHandle handle) mode clock station slot.call with
    ⟨answer, -, hserve⟩ | ⟨pending, middle, result, hasks, -, hserve⟩
  · rw [hserve]
    rfl
  · rw [hserve]
    obtain ⟨hcall, rfl⟩ := hasks.first_of_ne (by cases slot <;> simp)
    have hasked : (station.store.serve handle pending.asks).2 =
        station.store := by
      rw [hcall]
      exact station.store.serve_slot_snd handle slot
    exact hasked

theorem reply_of_supplies {cluster : Cluster} {other : Slot}
    {value : other.call.Answer}
    (h : (⟨slot.call, (cluster.serve handle slot.call).1⟩ :
      Exchange).Supplies other value) :
    (cluster.serve handle other.call).1 = .ok value := by
  generalize hreply : (cluster.serve handle slot.call).1 = reply at h
  cases slot with
  | item kind key =>
      cases h with
      | get kind key item => exact hreply
      | visible kind key item =>
          rw [Cluster.visible_of_get hreply]
          exact hreply
  | live kind =>
      cases h with
      | all kind items => exact hreply

theorem Agrees.read (h : station.Agrees handle slots) (slot : Slot) :
    (station.serve (.ofHandle handle) mode clock slot.call).2.Agrees handle
      slots := by
  simp only [Agrees, store_read]
  rcases serve_cases (.ofHandle handle) mode clock station slot.call with
    ⟨answer, -, hserve⟩ | ⟨pending, middle, result, hasks, -, hserve⟩
  · rw [hserve]
    exact all_start_step mode _ _ h
  · rw [hserve]
    obtain ⟨hcall, rfl⟩ := hasks.first_of_ne (by cases slot <;> simp)
    refine (resumes_goOn (.ofHandle handle) mode clock _ pending).entries
      (all_start_step mode _ _ h) ?_
    intro other value expires hsupplies hother
    rw [hcall] at hsupplies
    exact reply_of_supplies hsupplies

theorem Agrees.reads (h : station.Agrees handle slots) (reads : List Slot) :
    (station.run (.ofHandle handle) mode clock
      (reads.map fun slot => .own slot.call)).Agrees handle slots := by
  induction reads generalizing station with
  | nil => exact h
  | cons first rest ih => exact ih (h.read first)

theorem store_reads (station : Station Cluster) (reads : List Slot) :
    (station.run (.ofHandle handle) mode clock
      (reads.map fun slot => .own slot.call)).store = station.store := by
  induction reads generalizing station with
  | nil => rfl
  | cons first rest ih => exact (ih _).trans (store_read station first)

theorem Agrees.reply_eq (hclock : ∀ n, mode.expiry? (clock n) ≠ none)
    (h : mode.isEnabled = true → station.Agrees handle slots)
    (hslot : slots slot) :
    (station.serve (.ofHandle handle) mode clock slot.call).1 =
      some (station.store.serve handle slot.call).1 := by
  obtain ⟨reply, hreply⟩ := Option.ne_none_iff_exists'.mp
    (serve_ne_none hclock (.ofHandle handle) station slot.call)
  rw [hreply]
  rcases read_cases (Prod.ext hreply rfl) with
    ⟨entry, value, hmode, hentry, hfresh, rfl⟩ | ⟨hsame, -⟩
  · rw [h hmode slot entry hentry hslot, Entry.value_of_fresh? hfresh]
  · exact congrArg some hsame

end Reads

section Renewal

variable {handle : Nat} {file : Bool} {deeds : List Cluster.Deed} {mode : Mode}
  {clock : Nat → Instant} {station after : Station Cluster}

theorem agrees_of_init (hbacks : station.store.Backs handle file)
    {data : DataSet} (hkept : (Call.init data).Kept file)
    (hreply : station.store.serve handle (.init data) = (.ok (), after.store))
    {expires : Option Instant}
    (hstate : after.state = (station.state.reset data expires).latch) :
    after.Agrees handle (Renews (.init data)) := by
  intro slot entry hentry _
  rw [hstate] at hentry
  have hread : ∀ slot value, data.shown? slot = some value →
      (after.store.serve handle slot.call).1 = .ok value := by
    intro slot value hshown
    have hread := hbacks.read_init hkept (congrArg Prod.fst hreply) hshown
    rw [hreply] at hread
    exact hread
  have hall : (station.state.reset data expires).All fun slot entry =>
      (after.store.serve handle slot.call).1 = .ok entry.value :=
    station.state.all_reset hread
  exact hall slot entry hentry

theorem agrees_of_applied {kind : Kind} {item : Item}
    (hread : (after.store.serve handle (.get kind item.key)).1 =
      .ok item.visible?) {expires : Option Instant}
    (hstate : after.state = station.state.recordWrite kind item expires) :
    after.Agrees handle (Renews (.upsert kind item)) := by
  intro slot entry hentry hslot
  obtain ⟨hitem, hlive⟩ :=
    station.state.held?_recordWrite kind item expires
  rw [hstate] at hentry
  cases hslot with
  | item =>
      rw [hitem] at hentry
      cases hentry
      exact hread
  | live =>
      rw [hlive] at hentry
      cases hentry

theorem agrees_of_superseded {kind : Kind} {item : Item} {current : Option Item}
    (hread : (after.store.serve handle (.get kind item.key)).1 = .ok current)
    {expires : Option Instant} {seen : Nat}
    (hstate : after.state = (station.state.recordLoss kind item.key).fillItem kind
      item.key ⟨current, expires⟩ seen) :
    after.Agrees handle (Renews (.upsert kind item)) := by
  -- the loss drops both slots, so only the fill of the item is left to judge
  have hdropped : (station.state.recordLoss kind item.key).All
      fun slot entry => Renews (.upsert kind item) slot →
        (after.store.serve handle slot.call).1 = .ok entry.value := by
    intro slot entry hentry hslot
    obtain ⟨hitem, hlive⟩ :=
      (State.drops_recordLoss station.state kind item.key).held?
    cases hslot with
    | item =>
        rw [hitem] at hentry
        cases hentry
    | live =>
        rw [hlive] at hentry
        cases hentry
  rw [Agrees, hstate]
  refine hdropped.fillItem (fun _ => ?_) seen
  rw [Cluster.visible_of_get hread]
  exact hread

/-- The handle is open, its medium holds a ledger, and what an enabled cache
holds for these slots is what the handle replies. -/
def Renewed (mode : Mode) (file : Bool) (handle : Nat) (slots : Slot → Prop)
    (station : Station Cluster) : Prop :=
  (∃ index realm ledger,
    station.store.handles[handle]? = some ⟨index, realm, false⟩ ∧
      station.store.Holds index file ledger) ∧
    (mode.isEnabled = true → station.Agrees handle slots)

theorem renewed_of_init (hbacks : station.store.Backs handle file)
    {data : DataSet} (hkept : (Call.init data).Kept file)
    (hserve : station.serve (amid deeds handle) mode clock (.init data) =
      (some (.ok ()), after)) :
    after.Renewed mode file handle (Renews (.init data)) := by
  obtain ⟨hreply, hreset⟩ := reset_of_ok hserve
  have hreply : station.store.serve handle (.init data) =
      (.ok (), after.store) := hreply
  obtain ⟨index, realm, ledger, hhandle, hholds, -⟩ :=
    hbacks.ok_cases (by simp) hkept (congrArg Prod.fst hreply)
  rw [hreply] at hhandle hholds
  refine ⟨⟨index, realm, _, hhandle, hholds⟩, fun hmode => ?_⟩
  obtain ⟨expires, hstate⟩ := hreset hmode
  exact agrees_of_init hbacks hkept hreply hstate

theorem renewed_of_upsert
    (hspares : ∀ deed ∈ deeds, deed.Spares file handle)
    (hbacks : station.store.Backs handle file) {kind : Kind} {item : Item}
    (hkept : (Call.upsert kind item).Kept file) {outcome : Outcome}
    (hserve : station.serve (amid deeds handle) mode clock (.upsert kind item) =
      (some (.ok outcome), after)) :
    after.Renewed mode file handle (Renews (.upsert kind item)) := by
  cases upserted_of_ok hserve with
  | passed hmode hreply =>
      obtain ⟨index, realm, ledger, hhandle, hholds, -⟩ :=
        hbacks.upsertAmid_ok hspares hkept hreply
      refine ⟨⟨index, realm, ledger, hhandle, hholds⟩, fun henabled => ?_⟩
      rw [hmode] at henabled
      cases henabled
  | applied expires hreply hstate =>
      obtain ⟨index, realm, ledger, hhandle, hholds, happlied⟩ :=
        hbacks.upsertAmid_ok hspares hkept hreply
      refine ⟨⟨index, realm, ledger, hhandle, hholds⟩, fun _ => ?_⟩
      have hserve := hholds.serve_slot hhandle (.item kind item.key)
      rw [happlied rfl] at hserve
      exact agrees_of_applied (congrArg Prod.fst hserve) hstate
  | superseded current expires hlost hread hstate =>
      -- what won was read from the store that the call has left
      have hstore : (station.store.upsertAmid deeds handle kind item).2 =
          after.store := congrArg Prod.snd hread
      obtain ⟨index, realm, ledger, hhandle, hholds, -⟩ :=
        hbacks.upsertAmid_ok hspares hkept (Prod.ext hlost hstore)
      refine ⟨⟨index, realm, ledger, hhandle, hholds⟩, fun _ => ?_⟩
      have hread : ((station.store.upsertAmid deeds handle kind item).2.serve
          handle (.get kind item.key)).1 = .ok current := congrArg Prod.fst hread
      rw [hstore] at hread
      exact agrees_of_superseded hread hstate

/-- After an initialization or an upsert that was answered, whatever the cache
held and whatever others did meanwhile, its slots are read through the cache as
the store gives them. -/
theorem write_renews (hclock : ∀ n, mode.expiry? (clock n) ≠ none)
    (hspares : ∀ deed ∈ deeds, deed.Spares file handle)
    (hbacks : station.store.Backs handle file) {call : Call}
    (hkept : call.Kept file) {answer : call.Answer}
    (hserve : station.serve (amid deeds handle) mode clock call =
      (some (.ok answer), after))
    (reads : List Slot) {slot : Slot} (hslot : Renews call slot) :
    ∃ value, (after.store.serve handle slot.call).1 = .ok value ∧
      ((after.run (.ofHandle handle) mode clock
        (reads.map fun slot => .own slot.call)).serve (.ofHandle handle) mode
          clock slot.call).1 = some (.ok value) := by
  have hrenewed : after.Renewed mode file handle (Renews call) := by
    cases call with
    | init data => exact renewed_of_init hbacks hkept hserve
    | upsert kind item => exact renewed_of_upsert hspares hbacks hkept hserve
    | get _ _ | all _ | initialized | close => cases hslot
  obtain ⟨⟨index, realm, ledger, hhandle, hholds⟩, hagrees⟩ := hrenewed
  have hvalue := congrArg Prod.fst (hholds.serve_slot hhandle slot)
  refine ⟨ledger.answer realm slot, hvalue, ?_⟩
  rw [Agrees.reply_eq hclock (fun hmode => (hagrees hmode).reads reads) hslot,
    store_reads, hvalue]

/-- A cache that knows of no items. -/
def unaware : State :=
  { State.start with live := .const (some ⟨.empty, none⟩) }

/-- A newer item is stored between the halves of the upsert. -/
theorem write_renews_superseded :
    ∃ (after : Station Cluster) (items : KeyMap Item),
      (start unaware Cluster.pair).serve
          (amid [.access (.serve 1 (.upsert .features (.live "a" 3 .null)))] 0)
          (.ttl 5) (fun n => ⟨9 - n⟩) (.upsert .features (.live "a" 2 .null)) =
        (some (.ok .superseded), after) ∧
      items.get? "a" = some (.live "a" 3 .null) ∧
      ((after.run (.ofHandle 0) (.ttl 5) (fun n => ⟨9 - n⟩)
          [.own (.get .features "a")]).serve (.ofHandle 0) (.ttl 5)
          (fun n => ⟨9 - n⟩) (.all .features)).1 = some (.ok items) := by
  have hclock : ∀ n, (Mode.ttl 5).expiry? ⟨9 - n⟩ ≠ none := by
    have hlimit : 14 < Instant.limit := by decide
    have hlater : ∀ n, 9 - n + 5 < Instant.limit := fun n => by omega
    simp [Mode.expiry?, Instant.after?, hlater]
  have hkept : ∀ version, (Call.upsert .features (.live "a" version .null)).Kept
      false := fun _ => ⟨trivial, by simp⟩
  have hspares : ∀ deed ∈
      [Cluster.Deed.access (.serve 1 (.upsert .features (.live "a" 3 .null)))],
      deed.Spares false 0 := by
    intro deed hm
    cases List.mem_singleton.mp hm
    exact ⟨hkept 3, by simp⟩
  have hserve : ∃ after : Station Cluster,
      (start unaware Cluster.pair).serve
          (amid [.access (.serve 1 (.upsert .features (.live "a" 3 .null)))] 0)
          (.ttl 5) (fun n => ⟨9 - n⟩) (.upsert .features (.live "a" 2 .null)) =
        (some (.ok .superseded), after) ∧
      ((after.store.serve 0 (.all .features)).1.map
        fun items => items.get? "a") = .ok (some (.live "a" 3 .null)) :=
    ⟨_, rfl, rfl⟩
  obtain ⟨after, hserve, hstored⟩ := hserve
  obtain ⟨items, hitems, hread⟩ := write_renews hclock hspares
    Cluster.backs_pair (hkept 2) hserve [.item .features "a"]
    (.live .features (.live "a" 2 .null))
  refine ⟨after, items, hserve, ?_, hread⟩
  have hitems : (after.store.serve 0 (.all .features)).1 = .ok items := hitems
  rw [hitems] at hstored
  exact Except.ok.inj hstored

end Renewal

end Station

end Cache

end VersionedFlags
