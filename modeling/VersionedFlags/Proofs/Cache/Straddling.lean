import VersionedFlags.Proofs.Cache.Reading
import VersionedFlags.Proofs.Cache.Tracking
import VersionedFlags.Proofs.Store.Evolution

/-!
# Gets that straddle a write

Gets overlap on a cache while others write to the backend past it.  A get that
begins later returns something older than was returned before exactly when it is
answered from an entry that is behind: the get that recorded the entry brought
an item older than one that another get had returned in the meantime.
-/

namespace VersionedFlags

namespace Cache

namespace Traffic

/-! ## Events -/

inductive Event where
  /-- A move of the calls through the cache. -/
  | own (move : Move)
  | past (access : Cluster.Access)
  deriving DecidableEq, Repr

/-- Nothing but gets goes through the cache, and past it nothing is
initialized. -/
def Event.Suits (file : Bool) : Event → Prop
  | .own move => ∀ call, move = .begin call → ∃ kind key, call = .get kind key
  | .past access => access.Suits file

def meet (mode : Mode) (handle : Nat) (traffic : Traffic) : Event → Traffic
  | .own move => traffic.step mode handle move
  | .past access => { traffic with cluster := traffic.cluster.access access }

def proceed (mode : Mode) (handle : Nat) (traffic : Traffic)
    (events : List Event) : Traffic :=
  events.foldl (meet mode handle) traffic

/-! ## Entries that are behind -/

/-- Some get has returned the item. -/
def Returned (traffic : Traffic) (kind : Kind) (key : String) (item : Item) :
    Prop :=
  (⟨.get kind key, .answered (.ok (some item))⟩ : Flight) ∈ traffic.flights

/-- A get is to record what its backend replied. -/
def Fills (mode : Mode) (kind : Kind) (key : String) (traffic : Traffic)
    (event : Event) (found : Option Item) : Prop :=
  ∃ position seen, event = .own (.record position) ∧
    traffic.flights[position]? =
      some ⟨.get kind key, .replied (.get kind key seen) (.ok found)⟩ ∧
    mode.expiry? traffic.now ≠ none

/-- Whether the entry is behind after an event: a get records an item older than
one that was returned, or no get records anything and it was behind. -/
def behindAfter (mode : Mode) (kind : Kind) (key : String) (traffic : Traffic)
    (event : Event) (behind : Prop) : Prop :=
  (∃ item newer, traffic.Fills mode kind key event (some item) ∧
      traffic.Returned kind key newer ∧ item.version < newer.version) ∨
    (∀ found, ¬ traffic.Fills mode kind key event found) ∧ behind

def behindIn (mode : Mode) (handle : Nat) (kind : Kind) (key : String)
    (traffic : Traffic) (behind : Prop) : List Event → Prop
  | [] => behind
  | event :: rest =>
      behindIn mode handle kind key (traffic.meet mode handle event)
        (behindAfter mode kind key traffic event behind) rest

variable {mode : Mode} {handle : Nat} {traffic next : Traffic} {kind : Kind}
  {key : String} {event : Event} {behind : Prop}

/-- An event that fills nothing leaves what is behind. -/
theorem behindAfter_of_not_fills
    (h : ∀ found, ¬ traffic.Fills mode kind key event found) :
    behindAfter mode kind key traffic event behind = behind := by
  simp [behindAfter, h]

theorem behindAfter_of_not_record (event : Event)
    (h : ∀ position, event ≠ .own (.record position)) :
    behindAfter mode kind key traffic event behind = behind := by
  refine behindAfter_of_not_fills ?_
  rintro found ⟨position, -, hevent, -⟩
  exact h position hevent

theorem behindAfter_of_flight (kind : Kind) (key : String) {position : Nat}
    {flight : Flight} (hflight : traffic.flights[position]? = some flight)
    (hother : ∀ seen found, flight ≠
      ⟨.get kind key, .replied (.get kind key seen) (.ok found)⟩) :
    behindAfter mode kind key traffic (.own (.record position)) behind =
      behind := by
  refine behindAfter_of_not_fills ?_
  rintro found ⟨place, seen, hevent, hfound, -⟩
  cases hevent
  rw [hflight] at hfound
  exact hother seen found (Option.some.inj hfound)

theorem behindAfter_of_clock (h : mode.expiry? traffic.now = none) :
    behindAfter mode kind key traffic event behind = behind := by
  refine behindAfter_of_not_fills ?_
  rintro found ⟨position, seen, -, -, hclock⟩
  exact hclock h

/-! ## Gets under way -/

/-- An item that a get is given has not evolved beyond what is stored. -/
def Sent (ledger : Ledger) (realm : Realm) (kind : Kind) (key : String)
    (reply : (Call.get kind key).Reply) : Prop :=
  ∀ item, reply = .ok (some item) → item.deleted = false ∧
    Item.Evolves (some item) (ledger.stored? realm kind key)

/-- A get through an enabled cache whose generation has not changed since. -/
inductive Getting (ledger : Ledger) (realm : Realm) (seen : Nat) : Flight → Prop
  | asking (kind : Kind) (key : String) :
      Getting ledger realm seen ⟨.get kind key, .asking (.get kind key seen)⟩
  | replied {kind : Kind} {key : String} {reply : (Call.get kind key).Reply} :
      Sent ledger realm kind key reply →
        Getting ledger realm seen
          ⟨.get kind key, .replied (.get kind key seen) reply⟩
  | answered {kind : Kind} {key : String} {reply : (Call.get kind key).Reply} :
      Sent ledger realm kind key reply →
        Getting ledger realm seen ⟨.get kind key, .answered reply⟩
  | aborted (kind : Kind) (key : String) :
      Getting ledger realm seen ⟨.get kind key, .aborted⟩

variable {index seen : Nat} {realm : Realm} {file : Bool} {ledger later : Ledger}

theorem Getting.evolve {flight : Flight} (h : Getting ledger realm seen flight)
    (hlater : ledger.Evolves later) : Getting later realm seen flight := by
  cases h with
  | asking kind key => exact .asking kind key
  | replied hsent =>
      exact .replied fun item heq =>
        (hsent item heq).imp_right fun h => h.trans (hlater _ _ _)
  | answered hsent =>
      exact .answered fun item heq =>
        (hsent item heq).imp_right fun h => h.trans (hlater _ _ _)
  | aborted kind key => exact .aborted kind key

/-- A call that has not ended has not been answered. -/
theorem ne_answered {flight : Flight} {call : Call} {reply : call.Reply}
    (h : flight.stage.ended = false) : flight ≠ ⟨call, .answered reply⟩ := by
  rintro rfl
  cases h

/-- What holds while gets overlap.  The entry of the key is behind if an item
was returned that is newer than the one it shows. -/
structure Overlapping (handle index : Nat) (realm : Realm) (file : Bool)
    (kind : Kind) (key : String) (ledger : Ledger) (behind : Prop)
    (traffic : Traffic) : Prop where
  handle_eq : ∃ closed,
    traffic.cluster.handles[handle]? = some ⟨index, realm, closed⟩
  holds : traffic.cluster.Holds index file ledger
  getting : ∀ flight ∈ traffic.flights,
    Getting ledger realm traffic.state.generation flight
  evolves : ∀ kind key item,
    traffic.state.shown? (.item kind key) = some (some item) →
      Item.Evolves (some item) (ledger.stored? realm kind key)
  exists_item : behind →
    ∃ item, traffic.state.shown? (.item kind key) = some (some item)
  behind_iff : ∀ item,
    traffic.state.shown? (.item kind key) = some (some item) →
      (behind ↔ ∃ newer, traffic.Returned kind key newer ∧
        item.version < newer.version)

theorem overlapping_start {cluster : Cluster} {closed : Bool} (now : Instant)
    (hhandle : cluster.handles[handle]? = some ⟨index, realm, closed⟩)
    (hholds : cluster.Holds index file ledger) :
    Overlapping handle index realm file kind key ledger False
      (start now cluster) where
  handle_eq := ⟨closed, hhandle⟩
  holds := hholds
  getting := by simp [start]
  evolves := by simp [start]
  exists_item := False.elim
  behind_iff := by simp [start]

/-- The backend goes on, and what is behind stays so. -/
theorem Overlapping.access
    (h : Overlapping handle index realm file kind key ledger behind traffic)
    {access : Cluster.Access} (hsuits : access.Suits file) :
    ∃ later, ledger.Evolves later ∧
      Overlapping handle index realm file kind key later behind
        (traffic.meet mode handle (.past access)) := by
  obtain ⟨closed, hhandle⟩ := h.handle_eq
  obtain ⟨later, hholds, hlater⟩ := h.holds.access hsuits
  exact ⟨later, hlater,
    { handle_eq := Cluster.exists_handle_access hhandle access
      holds := hholds
      getting := fun flight hm => (h.getting flight hm).evolve hlater
      evolves := fun kind key item hitem =>
        (h.evolves kind key item hitem).trans (hlater realm kind key)
      exists_item := h.exists_item
      behind_iff := h.behind_iff }⟩

theorem Overlapping.sent
    (h : Overlapping handle index realm file kind key ledger behind traffic)
    (other : Kind) (name : String) :
    Sent ledger realm other name
      (traffic.cluster.serve handle (.get other name)).1 := by
  intro item hread
  obtain ⟨closed, hhandle⟩ := h.handle_eq
  have hread : (traffic.cluster.serve handle (Slot.item other name).call).1 =
      .ok (some item) := hread
  have hanswer := h.holds.answer_eq hhandle hread
  obtain ⟨hstored, hlive⟩ := Ledger.stored?_of_get? hanswer
  rw [hstored]
  exact ⟨hlive, .refl _⟩

/-! ## What a move preserves -/

/-- The slot of the key shows what it did, and nothing else was returned. -/
theorem Overlapping.of_same
    (h : Overlapping handle index realm file kind key ledger behind traffic)
    (hcluster : next.cluster = traffic.cluster)
    (hgetting : ∀ flight ∈ next.flights,
      Getting ledger realm next.state.generation flight)
    (hevolves : ∀ kind key item,
      next.state.shown? (.item kind key) = some (some item) →
        Item.Evolves (some item) (ledger.stored? realm kind key))
    (hshown : next.state.shown? (.item kind key) =
      traffic.state.shown? (.item kind key))
    (hkept : ∀ item, traffic.Returned kind key item →
      next.Returned kind key item)
    (hreturned : ∀ item, next.Returned kind key item →
      traffic.Returned kind key item ∨
        traffic.state.shown? (.item kind key) = some (some item)) :
    Overlapping handle index realm file kind key ledger behind next where
  handle_eq := by
    rw [hcluster]
    exact h.handle_eq
  holds := by
    rw [hcluster]
    exact h.holds
  getting := hgetting
  evolves := hevolves
  exists_item := by
    rw [hshown]
    exact h.exists_item
  behind_iff := by
    intro item hitem
    rw [hshown] at hitem
    rw [h.behind_iff item hitem]
    constructor
    · rintro ⟨newer, hnewer, hlt⟩
      exact ⟨newer, hkept newer hnewer, hlt⟩
    · rintro ⟨newer, hnewer, hlt⟩
      rcases hreturned newer hnewer with hbefore | hanswered
      · exact ⟨newer, hbefore, hlt⟩
      · -- a get that was answered at once returned the item itself
        rw [hitem] at hanswered
        cases hanswered
        exact absurd hlt (UInt64.lt_irrefl _)

/-- A get begins; if it is answered at once, then from the entry. -/
theorem Overlapping.append
    (h : Overlapping handle index realm file kind key ledger behind traffic)
    (state : State) (hgeneration : state.generation = traffic.state.generation)
    (hshown : ∀ slot, state.shown? slot = traffic.state.shown? slot)
    {flight : Flight}
    (hflight : Getting ledger realm traffic.state.generation flight)
    (hanswered : ∀ item, flight = ⟨.get kind key, .answered (.ok (some item))⟩ →
      traffic.state.shown? (.item kind key) = some (some item)) :
    Overlapping handle index realm file kind key ledger behind
      { traffic with state, flights := traffic.flights ++ [flight] } := by
  refine h.of_same rfl ?_ ?_ (hshown _) ?_ ?_
  · intro other hm
    rw [hgeneration]
    rcases List.mem_append.mp hm with hm | hm
    · exact h.getting other hm
    · rw [List.mem_singleton.mp hm]
      exact hflight
  · simpa only [hshown] using h.evolves
  · exact fun item hm => List.mem_append_left _ hm
  · intro item hm
    rcases List.mem_append.mp hm with hm | hm
    · exact .inl hm
    · exact .inr (hanswered item (List.mem_singleton.mp hm).symm)

theorem Overlapping.begin (hmode : mode.isEnabled = true)
    (h : Overlapping handle index realm file kind key ledger behind traffic)
    (other : Kind) (name : String) :
    Overlapping handle index realm file kind key ledger behind
      (traffic.step mode handle (.begin (.get other name))) := by
  simp only [step, Cache.start, hmode, if_true, startGet]
  cases hitem : traffic.state.item? traffic.now other name with
  | none =>
      simp only [Stage.ofProgress]
      exact h.append traffic.state.miss rfl (fun _ => State.shown?_miss _)
        (.asking other name) fun _ hanswered =>
          absurd hanswered (ne_answered rfl)
  | some found =>
      simp only [Stage.ofProgress]
      have hshown := State.shown?_of_item? hitem
      have hlive : ∀ item, found.bind Item.visible? = some item →
          item.deleted = false := by
        intro item hfound
        obtain ⟨stored, -, hvisible⟩ := Option.bind_eq_some_iff.mp hfound
        exact (Item.visible?_eq_some hvisible).2
      generalize found.bind Item.visible? = value at hshown hlive ⊢
      refine h.append traffic.state.hit rfl (fun _ => State.shown?_hit _)
        (.answered ?_) ?_
      · rintro item ⟨⟩
        exact ⟨hlive item rfl, h.evolves other name item hshown⟩
      · rintro item ⟨⟩
        exact hshown

/-- What was returned after a call went on that had not returned before. -/
theorem returned_set_iff (kind : Kind) (key : String) {position : Nat}
    {before : Flight} (hbefore : traffic.flights[position]? = some before)
    (hunanswered : before.stage.ended = false) (state : State) (after : Flight)
    (item : Item) :
    Returned
        { traffic with state, flights := traffic.flights.set position after }
        kind key item ↔
      traffic.Returned kind key item ∨
        after = ⟨.get kind key, .answered (.ok (some item))⟩ := by
  constructor
  · intro h
    exact (List.mem_or_eq_of_mem_set h).imp_right Eq.symm
  · rintro (h | rfl)
    · rcases exists_mem_set after hbefore ⟨_, h, rfl⟩ with heq | ⟨_, hm, rfl⟩
      · exact absurd heq.symm (ne_answered hunanswered)
      · exact hm
    · exact mem_set_self hbefore _

theorem Overlapping.getting_set
    (h : Overlapping handle index realm file kind key ledger behind traffic)
    (position : Nat) {after : Flight}
    (hafter : Getting ledger realm traffic.state.generation after) :
    ∀ flight ∈ traffic.flights.set position after,
      Getting ledger realm traffic.state.generation flight := by
  intro flight hm
  rcases List.mem_or_eq_of_mem_set hm with hm | rfl
  · exact h.getting flight hm
  · exact hafter

/-- A get goes on that neither returns nor records an item. -/
theorem Overlapping.set
    (h : Overlapping handle index realm file kind key ledger behind traffic)
    {position : Nat} {before after : Flight}
    (hbefore : traffic.flights[position]? = some before)
    (hafter : Getting ledger realm traffic.state.generation after)
    (hunanswered : before.stage.ended = false)
    (hempty : ∀ item, after ≠ ⟨.get kind key, .answered (.ok (some item))⟩) :
    Overlapping handle index realm file kind key ledger behind
      { traffic with flights := traffic.flights.set position after } := by
  have hreturned := returned_set_iff kind key hbefore hunanswered traffic.state after
  refine h.of_same rfl (h.getting_set position hafter) h.evolves rfl ?_ ?_
  · exact fun item hm => (hreturned item).mpr (.inl hm)
  · intro item hm
    rcases (hreturned item).mp hm with hm | heq
    · exact .inl hm
    · exact absurd heq (hempty item)

theorem Overlapping.reply
    (h : Overlapping handle index realm file kind key ledger behind traffic)
    (position : Nat) :
    Overlapping handle index realm file kind key ledger behind
      (traffic.step mode handle (.reply position)) := by
  rcases step_reply_cases mode handle traffic position with
    hidle | ⟨call, pending, hflight, hstep⟩
  · rw [hidle]
    exact h
  · rw [hstep]
    cases h.getting _ (List.mem_of_getElem? hflight) with
    | asking other name =>
        exact h.set hflight (.replied (h.sent other name)) rfl fun _ =>
          ne_answered rfl

theorem Overlapping.fail
    (h : Overlapping handle index realm file kind key ledger behind traffic)
    (position : Nat) (error : StoreError) :
    Overlapping handle index realm file kind key ledger behind
      (traffic.step mode handle (.fail position error)) := by
  rcases step_fail_cases mode handle traffic position error with
    hidle | ⟨call, pending, hflight, hstep⟩
  · rw [hidle]
    exact h
  · rw [hstep]
    cases h.getting _ (List.mem_of_getElem? hflight) with
    | asking other name =>
        exact h.set hflight (.replied nofun) rfl fun _ => ne_answered rfl

theorem shown?_setItem_of_sent {other : Kind} {name : String}
    {found : Option Item} (hsent : Sent ledger realm other name (.ok found))
    (state : State) (expires : Option Instant) :
    (state.setItem other name ⟨found, expires⟩).shown? (.item other name) =
      some found := by
  rw [State.shown?_setItem_self]
  cases found with
  | none => rfl
  | some item => simp [Item.visible?, (hsent item rfl).1]

theorem Overlapping.evolves_setItem
    (h : Overlapping handle index realm file kind key ledger behind traffic)
    {other : Kind} {name : String} {found : Option Item}
    (hsent : Sent ledger realm other name (.ok found))
    (expires : Option Instant) (part : Kind) (word : String) (item : Item)
    (hitem : (traffic.state.setItem other name ⟨found, expires⟩).shown?
      (.item part word) = some (some item)) :
    Item.Evolves (some item) (ledger.stored? realm part word) := by
  by_cases hslot : Slot.item part word = .item other name
  · cases hslot
    rw [shown?_setItem_of_sent hsent] at hitem
    cases hitem
    exact (hsent item rfl).2
  · rw [State.shown?_setItem_of_ne _ hslot] at hitem
    exact h.evolves part word item hitem

theorem fills_iff {position seen : Nat} {found : Option Item}
    (hflight : traffic.flights[position]? =
      some ⟨.get kind key, .replied (.get kind key seen) (.ok found)⟩)
    (hclock : mode.expiry? traffic.now ≠ none) (other : Option Item) :
    traffic.Fills mode kind key (.own (.record position)) other ↔
      other = found := by
  constructor
  · rintro ⟨place, _, hevent, hother, -⟩
    cases hevent
    rw [hflight] at hother
    cases hother
    rfl
  · rintro rfl
    exact ⟨position, seen, rfl, hflight, hclock⟩

/-- A get of the key records what it was given and returns it. -/
theorem Overlapping.fill_self
    (h : Overlapping handle index realm file kind key ledger behind traffic)
    {position seen : Nat} {found : Option Item}
    (hflight : traffic.flights[position]? =
      some ⟨.get kind key, .replied (.get kind key seen) (.ok found)⟩)
    (hsent : Sent ledger realm kind key (.ok found))
    (hclock : mode.expiry? traffic.now ≠ none) (expires : Option Instant) :
    Overlapping handle index realm file kind key ledger
      (behindAfter mode kind key traffic (.own (.record position)) behind)
      { traffic with
        state := traffic.state.setItem kind key ⟨found, expires⟩
        flights := traffic.flights.set position
          ⟨.get kind key, .answered (.ok found)⟩ } := by
  have hshown := shown?_setItem_of_sent hsent traffic.state expires
  have hfills := fills_iff hflight hclock
  have hreturned := returned_set_iff kind key hflight rfl
    (traffic.state.setItem kind key ⟨found, expires⟩)
    ⟨.get kind key, .answered (.ok found)⟩
  refine ⟨h.handle_eq, h.holds, h.getting_set position (.answered hsent),
    h.evolves_setItem hsent expires, ?_, ?_⟩
  · rintro (⟨item, newer, hfill, -⟩ | ⟨hnone, -⟩)
    · refine ⟨item, ?_⟩
      rw [hshown, (hfills _).mp hfill]
    · exact absurd ((hfills found).mpr rfl) (hnone found)
  · intro item hitem
    rw [hshown] at hitem
    cases hitem
    constructor
    · rintro (⟨other, newer, hfill, hnewer, hlt⟩ | ⟨hnone, -⟩)
      · cases (hfills _).mp hfill
        exact ⟨newer, (hreturned newer).mpr (.inl hnewer), hlt⟩
      · exact absurd ((hfills _).mpr rfl) (hnone _)
    · rintro ⟨newer, hnewer, hlt⟩
      rcases (hreturned newer).mp hnewer with hbefore | hsame
      · exact .inl ⟨item, newer, (hfills _).mpr rfl, hbefore, hlt⟩
      · cases hsame
        exact absurd hlt (UInt64.lt_irrefl _)

/-- A get of another key records what it was given and returns it. -/
theorem Overlapping.fill_other
    (h : Overlapping handle index realm file kind key ledger behind traffic)
    {position seen : Nat} {other : Kind} {name : String} {found : Option Item}
    (hflight : traffic.flights[position]? =
      some ⟨.get other name, .replied (.get other name seen) (.ok found)⟩)
    (hsent : Sent ledger realm other name (.ok found))
    (hslot : Slot.item kind key ≠ .item other name) (expires : Option Instant) :
    Overlapping handle index realm file kind key ledger behind
      { traffic with
        state := traffic.state.setItem other name ⟨found, expires⟩
        flights := traffic.flights.set position
          ⟨.get other name, .answered (.ok found)⟩ } := by
  have hreturned := returned_set_iff kind key hflight rfl
    (traffic.state.setItem other name ⟨found, expires⟩)
    ⟨.get other name, .answered (.ok found)⟩
  refine h.of_same rfl (h.getting_set position (.answered hsent))
    (h.evolves_setItem hsent expires) (State.shown?_setItem_of_ne _ hslot) ?_ ?_
  · exact fun item hm => (hreturned item).mpr (.inl hm)
  · intro item hm
    rcases (hreturned item).mp hm with hm | heq
    · exact .inl hm
    · cases heq
      exact absurd rfl hslot

theorem step_record_eq_self {position : Nat} {call : Call} {stage : Stage call}
    (hflight : traffic.flights[position]? = some ⟨call, stage⟩)
    (hstage : stage.record mode traffic.now traffic.state =
      (traffic.state, stage)) :
    traffic.step mode handle (.record position) = traffic := by
  obtain ⟨hlt, hget⟩ := List.getElem?_eq_some_iff.mp hflight
  have hflights : traffic.flights.set position ⟨call, stage⟩ =
      traffic.flights := by
    rw [← hget]
    exact List.set_getElem_self hlt
  simp only [step, hflight, hstage, hflights]

theorem Overlapping.record
    (h : Overlapping handle index realm file kind key ledger behind traffic)
    (position : Nat) :
    Overlapping handle index realm file kind key ledger
      (behindAfter mode kind key traffic (.own (.record position)) behind)
      (traffic.step mode handle (.record position)) := by
  rcases step_record_cases mode handle traffic position with
    ⟨hidle, hnone⟩ | ⟨call, stage, hflight, hstep⟩
  · rw [hidle, behindAfter_of_not_fills]
    · exact h
    · rintro found ⟨place, seen, hevent, hflight, -⟩
      cases hevent
      rw [hnone] at hflight
      cases hflight
  · cases h.getting _ (List.mem_of_getElem? hflight) with
    | asking | aborted | answered =>
        rw [behindAfter_of_flight kind key hflight nofun,
          step_record_eq_self hflight rfl]
        exact h
    | @replied other name reply hsent =>
        rw [hstep]
        cases reply with
        | error error =>
            rw [behindAfter_of_flight kind key hflight nofun]
            refine h.set hflight (.answered ?_) rfl ?_
            · rintro item ⟨⟩
            · rintro item ⟨⟩
        | ok found =>
            simp only [Stage.record, Stage.recordReply, resume, withExpiry]
            cases hexpires : mode.expiry? traffic.now with
            | none =>
                rw [behindAfter_of_clock hexpires]
                refine h.set hflight (.aborted other name) rfl ?_
                rintro item ⟨⟩
            | some expires =>
                simp only [State.fillItem, if_true, Stage.ofProgress]
                by_cases hslot : Slot.item kind key = .item other name
                · cases hslot
                  exact h.fill_self hflight hsent (by simp [hexpires]) expires
                · rw [behindAfter_of_flight kind key hflight (by
                    rintro seen found ⟨⟩
                    exact hslot rfl)]
                  exact h.fill_other hflight hsent hslot expires

theorem Overlapping.meet (hmode : mode.isEnabled = true)
    (h : Overlapping handle index realm file kind key ledger behind traffic)
    {event : Event} (hsuits : event.Suits file) :
    ∃ later, ledger.Evolves later ∧
      Overlapping handle index realm file kind key later
        (behindAfter mode kind key traffic event behind)
        (traffic.meet mode handle event) := by
  cases event with
  | past access =>
      rw [behindAfter_of_not_record (.past access) nofun]
      exact h.access hsuits
  | own move =>
      refine ⟨ledger, .refl ledger, ?_⟩
      simp only [Traffic.meet]
      cases move with
      | record position => exact h.record position
      | reply position =>
          rw [behindAfter_of_not_record (.own (.reply position)) nofun]
          exact h.reply position
      | fail position error =>
          rw [behindAfter_of_not_record (.own (.fail position error)) nofun]
          exact h.fail position error
      | begin call =>
          obtain ⟨other, name, rfl⟩ := hsuits call rfl
          rw [behindAfter_of_not_record (.own (.begin (.get other name))) nofun]
          exact h.begin hmode other name
      | tick nanos =>
          rw [behindAfter_of_not_record (.own (.tick nanos)) nofun]
          exact ⟨h.handle_eq, h.holds, h.getting, h.evolves, h.exists_item,
            h.behind_iff⟩

theorem Overlapping.proceed (hmode : mode.isEnabled = true)
    (h : Overlapping handle index realm file kind key ledger behind traffic)
    {events : List Event} (hsuits : ∀ event ∈ events, event.Suits file) :
    ∃ later, ledger.Evolves later ∧
      Overlapping handle index realm file kind key later
        (behindIn mode handle kind key traffic behind events)
        (traffic.proceed mode handle events) := by
  induction events generalizing ledger behind traffic with
  | nil => exact ⟨ledger, .refl ledger, h⟩
  | cons event rest ih =>
      obtain ⟨hevent, hrest⟩ := List.forall_mem_cons.mp hsuits
      obtain ⟨next, hnext, hmet⟩ := h.meet hmode hevent
      obtain ⟨later, hlater, hproceeded⟩ := ih hmet hrest
      exact ⟨later, hnext.trans hlater, hproceeded⟩

/-! ## A get that begins later -/

/-- A get that asks its backend is told an item that has evolved from what was
stored. -/
theorem Overlapping.told (hmode : mode.isEnabled = true)
    (h : Overlapping handle index realm file kind key ledger behind traffic)
    {events : List Event} (hsuits : ∀ event ∈ events, event.Suits file)
    {position : Nat} {stage : Stage (.get kind key)}
    (hstage : traffic.flights[position]? = some ⟨.get kind key, stage⟩)
    {stored : Option Item}
    (hstored : Item.Evolves stored (ledger.stored? realm kind key))
    (htold : ∀ item, stage.Tells (some item) → Item.Evolves stored (some item)) :
    ∃ next : Stage (.get kind key),
      (traffic.proceed mode handle events).flights[position]? =
          some ⟨.get kind key, next⟩ ∧
        ∀ item, next.Tells (some item) → Item.Evolves stored (some item) := by
  induction events generalizing ledger behind traffic stage with
  | nil => exact ⟨stage, hstage, htold⟩
  | cons event rest ih =>
      obtain ⟨hevent, hrest⟩ := List.forall_mem_cons.mp hsuits
      obtain ⟨later, hlater, hmet⟩ := h.meet hmode hevent
      have hstored' := hstored.trans (hlater realm kind key)
      cases event with
      | past access => exact ih hmet hrest hstage hstored' htold
      | own move =>
          have hfound : traffic.flights[position]? =
              some ⟨(Slot.item kind key).call, stage⟩ := hstage
          obtain ⟨next, hnext, htells⟩ := exists_stage_step hfound move
          refine ih hmet hrest hnext hstored' fun item hitem => ?_
          rcases htells (some item) hitem with hbefore | hserved
          · exact htold item hbefore
          · obtain ⟨closed, hhandle⟩ := h.handle_eq
            have hanswer := h.holds.answer_eq hhandle hserved
            rw [← (Ledger.stored?_of_get? hanswer).1]
            exact hstored

theorem proceed_of_answered {position : Nat} {call : Call} {reply : call.Reply}
    (h : traffic.flights[position]? = some ⟨call, .answered reply⟩)
    (events : List Event) :
    (traffic.proceed mode handle events).flights[position]? =
      some ⟨call, .answered reply⟩ := by
  induction events generalizing traffic with
  | nil => exact h
  | cons event rest ih =>
      cases event with
      | past access => exact ih h
      | own move => exact ih (step_of_ended h rfl move)

/-- A get that begins now and returns an item later returns one that is older
than an item returned before now exactly when there is a fresh entry and it is
behind. -/
theorem returns_older_iff_behind {cluster : Cluster} {now : Instant}
    {before after : List Event} {last : Item} {moment : Traffic}
    (hmode : mode.isEnabled = true) (hbacks : cluster.Backs handle file)
    (hbefore : ∀ event ∈ before, event.Suits file)
    (hafter : ∀ event ∈ after, event.Suits file)
    (hmoment : proceed mode handle (start now cluster) before = moment)
    (hlast : (proceed mode handle
        (moment.step mode handle (.begin (.get kind key))) after).flights[
          moment.flights.length]? =
      some ⟨.get kind key, .answered (.ok (some last))⟩) :
    (∃ newer, moment.Returned kind key newer ∧ last.version < newer.version) ↔
      (moment.state.item? moment.now kind key).isSome ∧
        behindIn mode handle kind key (start now cluster) False before := by
  obtain ⟨index, realm, closed, initial, hhandle, hholds⟩ := hbacks
  have hstart : Overlapping handle index realm file kind key initial False
    (start now cluster) := overlapping_start now hhandle hholds
  obtain ⟨ledger, -, h⟩ := hstart.proceed hmode hbefore
  rw [hmoment] at h
  cases hitem : moment.state.item? moment.now kind key with
  | some found =>
      have hshown := State.shown?_of_item? hitem
      have hflight : (moment.step mode handle (.begin (.get kind key))).flights[
          moment.flights.length]? =
            some ⟨.get kind key, .answered (.ok (found.bind Item.visible?))⟩ := by
        simp [step, Cache.start, hmode, startGet, hitem, Stage.ofProgress]
      rw [proceed_of_answered hflight] at hlast
      generalize found.bind Item.visible? = value at hshown hlast
      cases hlast
      rw [h.behind_iff last hshown]
      simp
  | none =>
      have hflight : (moment.step mode handle (.begin (.get kind key))).flights[
          moment.flights.length]? =
            some ⟨.get kind key,
              .asking (.get kind key moment.state.generation)⟩ := by
        simp [step, Cache.start, hmode, startGet, hitem, Stage.ofProgress]
      constructor
      · rintro ⟨newer, hnewer, hlt⟩
        have hstored : Item.Evolves (some newer)
            (ledger.stored? realm kind key) := by
          cases h.getting _ hnewer with
          | answered hsent => exact (hsent newer rfl).2
        obtain ⟨next, hnext, htold⟩ := (h.begin hmode kind key).told hmode
          hafter hflight hstored (fun _ htells => by cases htells)
        rw [hnext] at hlast
        cases hlast
        have hle := (htold last (.answered _)).version_le
        exact absurd hlt (UInt64.not_lt.mpr hle)
      · rintro ⟨hsome, -⟩
        cases hsome

/-! ## A read that straddles a write -/

/-- The first get is given version 1, version 2 is written past the cache, and
the second get returns it before the first get records. -/
def straddle : List Event :=
  [.past (.serve 1 (.upsert .features (.live "a" 1 .null))),
    .own (.begin (.get .features "a")), .own (.reply 0),
    .past (.serve 1 (.upsert .features (.live "a" 2 .null))),
    .own (.begin (.get .features "a")), .own (.reply 1), .own (.record 1),
    .own (.record 0)]

/-- A third get, which begins when both have returned, returns version 1. -/
theorem older_item_returned :
    ∃ moment : Traffic,
      proceed .forever 0 (start ⟨0⟩ .pair) straddle = moment ∧
        moment.Returned .features "a" (.live "a" 2 .null) ∧
        (moment.step .forever 0 (.begin (.get .features "a"))).flights[2]? =
          some ⟨.get .features "a",
            .answered (.ok (some (.live "a" 1 .null)))⟩ :=
  ⟨_, rfl, .tail _ (.head _), rfl⟩

theorem behind_straddle :
    behindIn .forever 0 .features "a" (start ⟨0⟩ .pair) False straddle := by
  have hkept : ∀ item, (Call.upsert .features item).Kept false :=
    fun _ => ⟨trivial, nofun⟩
  have hsuits : ∀ event ∈ straddle, event.Suits false := by
    simp [straddle, Event.Suits, Cluster.Access.Suits, hkept]
  have hafter : ∀ event ∈ [], Event.Suits false event := by simp
  have hreturned : (proceed .forever 0 (start ⟨0⟩ .pair) straddle).Returned
      .features "a" (.live "a" 2 .null) := .tail _ (.head _)
  have hlast : (proceed .forever 0 ((proceed .forever 0 (start ⟨0⟩ .pair)
      straddle).step .forever 0 (.begin (.get .features "a"))) []).flights[2]? =
        some ⟨.get .features "a",
          .answered (.ok (some (.live "a" 1 .null)))⟩ := rfl
  have h := returns_older_iff_behind rfl Cluster.backs_pair hsuits hafter rfl hlast
  exact (h.mp ⟨_, hreturned, by decide⟩).2

end Traffic

end Cache

end VersionedFlags
