import VersionedFlags.Proofs.Cache.Reading
import VersionedFlags.Proofs.Cache.Sequential
import VersionedFlags.Proofs.Cache.Tracking
import VersionedFlags.Proofs.Store.Evolution

/-!
# Calls after a close

A close drops the items of a cache and then the live items, and closes the
backend.  A call that begins when a close has returned is refused as closed,
unless the cache still answers it: calls that were under way may have filled
slots again, and a close leaves what is known of the initialization.
-/

namespace VersionedFlags

namespace Cache

/-! ## What a cache answers by itself -/

/-- The call is answered without asking the backend. -/
def State.Remembers (mode : Mode) (now : Instant) (state : State) : Call → Prop
  | .get kind key =>
      mode.isEnabled = true ∧ (state.item? now kind key).isSome
  | .all kind => mode.isEnabled = true ∧ (state.live? now kind).isSome
  | .initialized =>
      state.latched = true ∨
        ∃ nanos moment, mode = .ttl nanos ∧
          state.uninitializedUntil = some moment ∧ now.nanos < moment.nanos
  | .init _ | .upsert _ _ | .close => False

variable {mode : Mode} {now : Instant} {state : State} {call : Call}

theorem start_of_remembers (h : state.Remembers mode now call) :
    ∃ answer, (Cache.start mode now state call).2 = .answered (.ok answer) := by
  cases call with
  | init | upsert | close => exact h.elim
  | get kind key =>
      obtain ⟨hmode, hitem⟩ := h
      obtain ⟨found, hfound⟩ := Option.isSome_iff_exists.mp hitem
      simp only [Cache.start, hmode, if_true, startGet, hfound]
      exact ⟨_, rfl⟩
  | all kind =>
      obtain ⟨hmode, hlive⟩ := h
      obtain ⟨items, hitems⟩ := Option.isSome_iff_exists.mp hlive
      simp only [Cache.start, hmode, if_true, startAll, hitems]
      exact ⟨_, rfl⟩
  | initialized =>
      simp only [Cache.start, startInitialized]
      rcases h with hlatched | ⟨nanos, moment, rfl, hmoment, hbefore⟩
      · rw [if_pos hlatched]
        exact ⟨true, rfl⟩
      · split
        · exact ⟨true, rfl⟩
        · simp only [hmoment, if_pos hbefore]
          exact ⟨false, rfl⟩

theorem start_of_not_remembers (h : ¬ state.Remembers mode now call) :
    ∃ pending, (Cache.start mode now state call).2 = .asking pending := by
  cases call with
  | init data => exact ⟨_, rfl⟩
  | close => exact ⟨_, rfl⟩
  | upsert kind item =>
      simp only [Cache.start]
      split <;> exact ⟨_, rfl⟩
  | get kind key =>
      simp only [Cache.start]
      split
      · rename_i hmode
        have hitem : state.item? now kind key = none := by
          simpa [State.Remembers, hmode] using h
        simp only [startGet, hitem]
        exact ⟨_, rfl⟩
      · exact ⟨_, rfl⟩
  | all kind =>
      simp only [Cache.start]
      split
      · rename_i hmode
        have hlive : state.live? now kind = none := by
          simpa [State.Remembers, hmode] using h
        simp only [startAll, hlive]
        exact ⟨_, rfl⟩
      · exact ⟨_, rfl⟩
  | initialized =>
      simp only [Cache.start, startInitialized]
      split
      · rename_i hlatched
        exact absurd (.inl hlatched) h
      · split
        · rename_i nanos moment hmoment
          split
          · rename_i hbefore
            exact absurd (.inr ⟨nanos, moment, rfl, hmoment, hbefore⟩) h
          · exact ⟨_, rfl⟩
        · exact ⟨_, rfl⟩

namespace Traffic

/-! ## Acts -/

inductive Act where
  /-- A move of the calls through the cache. -/
  | own (move : Move)
  | past (access : Cluster.Access)
  /-- The backend of a call replies otherwise than it would serve the call now,
  since it looked at the medium at some other moment. -/
  | answer (index : Nat) (reply : (call : Call) → call.Reply)
  /-- The first section of a close. -/
  | dropItems
  /-- The second section of a close, after which it asks its backend. -/
  | dropLive

def act (mode : Mode) (handle : Nat) (traffic : Traffic) : Act → Traffic
  | .own move => traffic.step mode handle move
  | .past access => { traffic with cluster := traffic.cluster.access access }
  | .answer index reply =>
      match traffic.flights[index]? with
      | some ⟨call, .asking pending⟩ =>
          if call = .close then traffic
          else
            { traffic with
              flights := traffic.flights.set index
                ⟨call, .replied pending (reply pending.asks)⟩ }
      | _ => traffic
  | .dropItems =>
      { traffic with state := { traffic.state with items := .const .empty } }
  | .dropLive =>
      { traffic with
        state := { traffic.state with live := .const none }
        flights := traffic.flights ++ [⟨.close, .asking (.pass .close)⟩] }

def enact (mode : Mode) (handle : Nat) (traffic : Traffic) (acts : List Act) :
    Traffic :=
  acts.foldl (act mode handle) traffic

/-- The two sections, one right after the other, begin a close. -/
theorem act_dropLive_dropItems (mode : Mode) (handle : Nat) (traffic : Traffic) :
    (traffic.act mode handle .dropItems).act mode handle .dropLive =
      traffic.step mode handle (.begin .close) :=
  rfl

/-- The first calls may have any reply, the others one from the backend as it
is. -/
def Act.Early (calls : Nat) : Act → Prop
  | .answer index _ | .own (.fail index _) => index < calls
  | .own _ | .past _ | .dropItems | .dropLive => True

variable {handle position : Nat} {traffic next : Traffic} {cluster : Cluster}

/-! ## What an act does -/

/-- A close whose backend has closed. -/
inductive Closes : Flight → Prop
  | replied : Closes ⟨.close, .replied (.pass .close) (.ok ())⟩
  | answered : Closes ⟨.close, .answered (.ok ())⟩

theorem Closes.call_eq {flight : Flight} (h : Closes flight) :
    flight.call = .close := by
  cases h <;> rfl

theorem not_closes_begin (call : Call) :
    ¬ Closes ⟨call, .ofProgress (Cache.start mode now state call).2⟩ := by
  cases call <;> exact nofun

theorem closes_of_record {stage : Stage call}
    (h : Closes ⟨call, (stage.record mode now state).2⟩) :
    Closes ⟨call, stage⟩ := by
  cases call with
  | close =>
      cases stage with
      | asking | answered | aborted => exact h
      | replied pending reply =>
          cases pending
          cases h
          exact .replied
  | _ => cases h

/-- What an act does that is possible. -/
inductive Effect (mode : Mode) (handle : Nat) (traffic : Traffic) :
    Act → Traffic → Prop
  | tick (nanos : Nat) :
      Effect mode handle traffic (.own (.tick nanos))
        { traffic with now := ⟨traffic.now.nanos + nanos⟩ }
  | begin (call : Call) :
      Effect mode handle traffic (.own (.begin call))
        { traffic with
          state := (Cache.start mode traffic.now traffic.state call).1
          flights := traffic.flights ++
            [⟨call, .ofProgress
              (Cache.start mode traffic.now traffic.state call).2⟩] }
  | reply {index : Nat} {call : Call} {pending : Pending call}
      (hflight : traffic.flights[index]? = some ⟨call, .asking pending⟩) :
      Effect mode handle traffic (.own (.reply index))
        { traffic with
          cluster := (traffic.cluster.serve handle pending.asks).2
          flights := traffic.flights.set index
            ⟨call, .replied pending
              (traffic.cluster.serve handle pending.asks).1⟩ }
  /-- A reply that is not the one of the backend as it is. -/
  | give {act : Act} {index : Nat} {call : Call} {pending : Pending call}
      (hflight : traffic.flights[index]? = some ⟨call, .asking pending⟩)
      (reply : pending.asks.Reply)
      (hplace : ∀ calls, act.Early calls → index < calls)
      (hcloses : ¬ Closes ⟨call, .replied pending reply⟩) :
      Effect mode handle traffic act
        { traffic with
          flights := traffic.flights.set index ⟨call, .replied pending reply⟩ }
  | record {index : Nat} {call : Call} {stage : Stage call}
      (hflight : traffic.flights[index]? = some ⟨call, stage⟩) :
      Effect mode handle traffic (.own (.record index))
        { traffic with
          state := (stage.record mode traffic.now traffic.state).1
          flights := traffic.flights.set index
            ⟨call, (stage.record mode traffic.now traffic.state).2⟩ }
  | past (access : Cluster.Access) :
      Effect mode handle traffic (.past access)
        { traffic with cluster := traffic.cluster.access access }
  | dropItems :
      Effect mode handle traffic .dropItems
        { traffic with state := { traffic.state with items := .const .empty } }
  | dropLive :
      Effect mode handle traffic .dropLive
        { traffic with
          state := { traffic.state with live := .const none }
          flights := traffic.flights ++ [⟨.close, .asking (.pass .close)⟩] }

theorem act_cases (mode : Mode) (handle : Nat) (traffic : Traffic) (act : Act) :
    traffic.act mode handle act = traffic ∨
      Effect mode handle traffic act (traffic.act mode handle act) := by
  cases act with
  | past access => exact .inr (.past access)
  | dropItems => exact .inr .dropItems
  | dropLive => exact .inr .dropLive
  | answer index reply =>
      simp only [Traffic.act]
      split
      · rename_i call pending hflight
        split
        · exact .inl rfl
        · rename_i hopen
          exact .inr (.give hflight _ (fun _ => id) fun hcloses =>
            hopen hcloses.call_eq)
      · exact .inl rfl
  | own move =>
      simp only [Traffic.act]
      cases move with
      | tick nanos => exact .inr (.tick nanos)
      | begin call => exact .inr (.begin call)
      | reply index =>
          refine (step_reply_cases mode handle traffic index).imp_right ?_
          rintro ⟨call, pending, hflight, hstep⟩
          rw [hstep]
          exact .reply hflight
      | fail index error =>
          refine (step_fail_cases mode handle traffic index error).imp_right ?_
          rintro ⟨call, pending, hflight, hstep⟩
          rw [hstep]
          refine .give hflight _ (fun _ => id) fun hcloses => ?_
          cases hcloses
      | record index =>
          refine (step_record_cases mode handle traffic index).imp And.left ?_
          rintro ⟨call, stage, hflight, hstep⟩
          rw [hstep]
          exact .record hflight

/-- How a call goes on while something is done. -/
inductive Goes (mode : Mode) (handle : Nat) (traffic : Traffic) (act : Act)
    (position : Nat) : {call : Call} → Stage call → Stage call → Prop
  | stay {call : Call} (stage : Stage call) :
      Goes mode handle traffic act position stage stage
  | reply {call : Call} (pending : Pending call) :
      Goes mode handle traffic act position (.asking pending)
        (.replied pending (traffic.cluster.serve handle pending.asks).1)
  | give {call : Call} (pending : Pending call) (reply : pending.asks.Reply)
      (hplace : ∀ calls, act.Early calls → position < calls) :
      Goes mode handle traffic act position (.asking pending)
        (.replied pending reply)
  | record {call : Call} (stage : Stage call) :
      Goes mode handle traffic act position stage
        (stage.record mode traffic.now traffic.state).2

/-- Every call stays in its place. -/
theorem exists_goes {stage : Stage call}
    (h : traffic.flights[position]? = some ⟨call, stage⟩) (act : Act) :
    ∃ later : Stage call,
      (traffic.act mode handle act).flights[position]? = some ⟨call, later⟩ ∧
        Goes mode handle traffic act position stage later := by
  have hlt := (List.getElem?_eq_some_iff.mp h).1
  have happend : ∀ other : Flight, ∃ later : Stage call,
      (traffic.flights ++ [other])[position]? = some ⟨call, later⟩ ∧
        Goes mode handle traffic act position stage later :=
    fun other => ⟨stage, (List.getElem?_append_left hlt).trans h, .stay stage⟩
  have hset : ∀ (place : Nat) (other : Flight),
      (place = position → ∃ later : Stage call, other = ⟨call, later⟩ ∧
        Goes mode handle traffic act position stage later) →
      ∃ later : Stage call,
        (traffic.flights.set place other)[position]? = some ⟨call, later⟩ ∧
          Goes mode handle traffic act position stage later := by
    intro place other hother
    by_cases hplace : place = position
    · obtain ⟨later, rfl, hlater⟩ := hother hplace
      subst hplace
      exact ⟨later, List.getElem?_set_self hlt, hlater⟩
    · exact ⟨stage, (List.getElem?_set_ne hplace).trans h, .stay stage⟩
  rcases act_cases mode handle traffic act with hidle | heffect
  · rw [hidle]
    exact ⟨stage, h, .stay stage⟩
  · generalize traffic.act mode handle act = next at heffect
    cases heffect with
    | tick _ | past _ | dropItems => exact ⟨stage, h, .stay stage⟩
    | begin _ | dropLive => exact happend _
    | reply hflight =>
        refine hset _ _ ?_
        rintro rfl
        rw [h] at hflight
        cases hflight
        exact ⟨_, rfl, .reply _⟩
    | give hflight reply hplace =>
        refine hset _ _ ?_
        rintro rfl
        rw [h] at hflight
        cases hflight
        exact ⟨_, rfl, .give _ reply hplace⟩
    | record hflight =>
        refine hset _ _ ?_
        rintro rfl
        rw [h] at hflight
        cases hflight
        exact ⟨_, rfl, .record stage⟩

theorem act_of_ended {flight : Flight}
    (h : traffic.flights[position]? = some flight)
    (hended : flight.stage.ended = true) (act : Act) :
    (traffic.act mode handle act).flights[position]? = some flight := by
  obtain ⟨call, stage⟩ := flight
  obtain ⟨later, hlater, hgoes⟩ := exists_goes h act
  rw [hlater]
  cases hgoes with
  | stay => rfl
  | reply | give => cases hended
  | record =>
      cases stage with
      | answered | aborted => rfl
      | asking | replied | dropping => cases hended

theorem enact_of_ended {flight : Flight}
    (h : traffic.flights[position]? = some flight)
    (hended : flight.stage.ended = true) (acts : List Act) :
    (traffic.enact mode handle acts).flights[position]? = some flight := by
  induction acts generalizing traffic with
  | nil => exact h
  | cons act rest ih => exact ih (act_of_ended h hended act)

theorem length_le_act (traffic : Traffic) (act : Act) :
    traffic.flights.length ≤ (traffic.act mode handle act).flights.length := by
  rcases act_cases mode handle traffic act with hidle | heffect
  · rw [hidle]
  · generalize traffic.act mode handle act = next at heffect
    cases heffect <;> simp

theorem length_le_enact (traffic : Traffic) (acts : List Act) :
    traffic.flights.length ≤ (traffic.enact mode handle acts).flights.length := by
  induction acts generalizing traffic with
  | nil => exact Nat.le_refl _
  | cons act rest ih => exact (length_le_act traffic act).trans (ih _)

/-! ## Closed backends -/

/-- The handle is there and it is closed. -/
def Shut (handle : Nat) (cluster : Cluster) : Prop :=
  ∃ index realm, cluster.handles[handle]? = some ⟨index, realm, true⟩

theorem Shut.serve (h : Shut handle cluster) (other : Nat) (call : Call) :
    Shut handle (cluster.serve other call).2 := by
  obtain ⟨index, realm, hhandle⟩ := h
  refine ⟨index, realm, ?_⟩
  by_cases hclose : call = .close
  · subst hclose
    simp only [Cluster.serve, Cluster.close, List.getElem?_modify, hhandle]
    split <;> rfl
  · rw [cluster.handles_serve other hclose, hhandle]

theorem Shut.access (h : Shut handle cluster) (access : Cluster.Access) :
    Shut handle (cluster.access access) := by
  cases access with
  | serve place call => exact h.serve place call
  | commit place kind item =>
      obtain ⟨index, realm, hhandle⟩ := h
      refine ⟨index, realm, ?_⟩
      rw [Cluster.access, Cluster.handles_commit]
      exact hhandle

theorem Shut.act (h : Shut handle traffic.cluster) (act : Act) :
    Shut handle (traffic.act mode handle act).cluster := by
  rcases act_cases mode handle traffic act with hidle | heffect
  · rw [hidle]
    exact h
  · generalize traffic.act mode handle act = next at heffect
    cases heffect with
    | tick _ | begin _ | give _ _ _ _ | record _ | dropItems | dropLive => exact h
    | reply hflight => exact h.serve handle _
    | past access => exact h.access access

theorem Shut.enact (h : Shut handle traffic.cluster) (acts : List Act) :
    Shut handle (traffic.enact mode handle acts).cluster := by
  induction acts generalizing traffic with
  | nil => exact h
  | cons act rest ih => exact ih (h.act act)

/-! ## Closes that have returned -/

/-- The handle is there, and it is closed once a close has returned. -/
structure Closable (handle : Nat) (traffic : Traffic) : Prop where
  handle_eq : ∃ index realm closed,
    traffic.cluster.handles[handle]? = some ⟨index, realm, closed⟩
  shut : ∀ flight ∈ traffic.flights, Closes flight → Shut handle traffic.cluster

theorem closable_start {index : Nat} {realm : Realm} {closed : Bool}
    (now : Instant)
    (hhandle : cluster.handles[handle]? = some ⟨index, realm, closed⟩) :
    Closable handle (start now cluster) where
  handle_eq := ⟨index, realm, closed, hhandle⟩
  shut := by simp [start]

/-- A flight is new or has changed, and the handle is as closed as it was. -/
theorem Closable.of_flights (h : Closable handle traffic) {added : Flight}
    (hhandle : ∃ index realm closed,
      next.cluster.handles[handle]? = some ⟨index, realm, closed⟩)
    (hshut : Shut handle traffic.cluster → Shut handle next.cluster)
    (hflights : ∀ flight ∈ next.flights,
      flight ∈ traffic.flights ∨ flight = added)
    (hadded : Closes added → Shut handle next.cluster) :
    Closable handle next where
  handle_eq := hhandle
  shut := by
    intro flight hm hcloses
    rcases hflights flight hm with hold | rfl
    · exact hshut (h.shut flight hold hcloses)
    · exact hadded hcloses

theorem mem_append_singleton_cases {flights : List Flight} {added : Flight} :
    ∀ flight ∈ flights ++ [added], flight ∈ flights ∨ flight = added := by
  simp

theorem Closable.act (h : Closable handle traffic) (act : Act) :
    Closable handle (traffic.act mode handle act) := by
  obtain ⟨place, realm, closed, hhandle⟩ := h.handle_eq
  rcases act_cases mode handle traffic act with hidle | heffect
  · rw [hidle]
    exact h
  · generalize traffic.act mode handle act = next at heffect
    cases heffect with
    | tick _ | dropItems => exact ⟨h.handle_eq, h.shut⟩
    | begin call =>
        exact h.of_flights h.handle_eq id mem_append_singleton_cases
          fun hcloses => absurd hcloses (not_closes_begin call)
    | dropLive =>
        refine h.of_flights h.handle_eq id mem_append_singleton_cases ?_
        rintro ⟨⟩
    | give _ _ _ hcloses =>
        exact h.of_flights h.handle_eq id
          (fun flight => List.mem_or_eq_of_mem_set) fun h => absurd h hcloses
    | record hflight =>
        exact h.of_flights h.handle_eq id
          (fun flight => List.mem_or_eq_of_mem_set) fun hcloses =>
            h.shut _ (List.mem_of_getElem? hflight) (closes_of_record hcloses)
    | reply hflight =>
        obtain ⟨after, hafter⟩ := Cluster.exists_handle_serve hhandle handle _
        refine h.of_flights ⟨place, realm, after, hafter⟩
          (fun hshut => hshut.serve handle _)
          (fun flight => List.mem_or_eq_of_mem_set) fun hcloses => ?_
        cases hcloses
        refine ⟨place, realm, ?_⟩
        simp [Cluster.serve, Cluster.close, hhandle]
    | past access =>
        obtain ⟨after, hafter⟩ := Cluster.exists_handle_access hhandle access
        exact ⟨⟨place, realm, after, hafter⟩, fun flight hm hcloses =>
          (h.shut flight hm hcloses).access access⟩

theorem Closable.enact (h : Closable handle traffic) (acts : List Act) :
    Closable handle (traffic.enact mode handle acts) := by
  induction acts generalizing traffic with
  | nil => exact h
  | cons act rest ih => exact ih (h.act act)

/-! ## Calls that are refused -/

/-- The backend will refuse the call as closed, or it has. -/
inductive Refused : {call : Call} → Stage call → Prop
  | asking {call : Call} (pending : Pending call) : Refused (.asking pending)
  | replied {call : Call} (pending : Pending call) :
      Refused (.replied pending (.error .closed))
  | answered (call : Call) :
      Refused (.answered (.error .closed) : Stage call)

theorem asks_ne_close {pending : Pending call} (hopen : call ≠ .close) :
    pending.asks ≠ .close := by
  cases pending <;> first | exact hopen | simp

theorem Shut.serve_eq (h : Shut handle cluster) (hopen : call ≠ .close) :
    cluster.serve handle call = (.error .closed, cluster) := by
  obtain ⟨index, realm, hhandle⟩ := h
  exact Cluster.serve_closed hhandle hopen

theorem record_error (pending : Pending call) (error : StoreError) :
    (Stage.replied pending (.error error)).record mode now state =
      (state, .answered (.error error)) := by
  cases pending <;> rfl

theorem Refused.record {stage : Stage call} (h : Refused stage)
    (mode : Mode) (now : Instant) (state : State) :
    (stage.record mode now state).1 = state ∧
      Refused (stage.record mode now state).2 := by
  cases h with
  | asking pending => exact ⟨rfl, .asking pending⟩
  | answered => exact ⟨rfl, .answered call⟩
  | replied pending =>
      rw [record_error]
      exact ⟨rfl, .answered call⟩

variable {calls : Nat} {stage : Stage call}

/-- A later call goes on to be refused, whatever is done. -/
theorem Refused.goes {act : Act} {later : Stage call} (h : Refused stage)
    (hgoes : Goes mode handle traffic act position stage later)
    (hshut : Shut handle traffic.cluster) (hopen : call ≠ .close)
    (hlate : calls ≤ position) (hearly : act.Early calls) : Refused later := by
  cases hgoes with
  | stay => exact h
  | reply pending =>
      rw [hshut.serve_eq (asks_ne_close hopen)]
      exact .replied pending
  | give _ _ hplace => exact absurd (hplace calls hearly) (Nat.not_lt.mpr hlate)
  | record => exact (h.record mode traffic.now traffic.state).2

theorem Refused.enact (h : Refused stage) (hshut : Shut handle traffic.cluster)
    (hopen : call ≠ .close)
    (hstage : traffic.flights[position]? = some ⟨call, stage⟩)
    (hlate : calls ≤ position) {acts : List Act}
    (hearly : ∀ act ∈ acts, act.Early calls) :
    ∃ next : Stage call,
      (traffic.enact mode handle acts).flights[position]? = some ⟨call, next⟩ ∧
        Refused next := by
  induction acts generalizing traffic stage with
  | nil => exact ⟨stage, hstage, h⟩
  | cons act rest ih =>
      obtain ⟨hact, hrest⟩ := List.forall_mem_cons.mp hearly
      obtain ⟨later, hlater, hgoes⟩ := exists_goes hstage act
      exact ih (h.goes hgoes hshut hopen hlate hact) (hshut.act act) hlater hrest

theorem flight_record
    (hstage : traffic.flights[position]? = some ⟨call, stage⟩) :
    (traffic.step mode handle (.record position)).flights[position]? =
      some ⟨call, (stage.record mode traffic.now traffic.state).2⟩ := by
  simp only [step, hstage]
  exact List.getElem?_set_self (List.getElem?_eq_some_iff.mp hstage).1

/-- It is refused for good once its backend has replied and it has recorded. -/
theorem Refused.finish (h : Refused stage) (hshut : Shut handle traffic.cluster)
    (hopen : call ≠ .close)
    (hstage : traffic.flights[position]? = some ⟨call, stage⟩) :
    (traffic.enact mode handle
        [.own (.reply position), .own (.record position)]).flights[position]? =
      some ⟨call, .answered (.error .closed)⟩ := by
  have hreplied : ∃ next : Stage call,
      (traffic.step mode handle (.reply position)).flights[position]? =
          some ⟨call, next⟩ ∧
        ∀ now state, (next.record mode now state).2 =
          .answered (.error .closed) := by
    cases h with
    | asking pending =>
        refine ⟨.replied pending (.error .closed), ?_, fun now state => ?_⟩
        · simp only [Traffic.step, hstage, hshut.serve_eq (asks_ne_close hopen)]
          exact List.getElem?_set_self (List.getElem?_eq_some_iff.mp hstage).1
        · rw [record_error]
    | replied pending =>
        refine ⟨.replied pending (.error .closed), ?_, fun now state => ?_⟩
        · simp only [Traffic.step, hstage]
        · rw [record_error]
    | answered =>
        refine ⟨.answered (.error .closed), ?_, fun now state => rfl⟩
        simp only [Traffic.step, hstage]
  obtain ⟨next, hnext, hrecord⟩ := hreplied
  have hfinished : ((traffic.step mode handle (.reply position)).step mode
      handle (.record position)).flights[position]? = _ := flight_record hnext
  rw [hrecord] at hfinished
  exact hfinished

/-! ## Caches that stay empty -/

/-- Nothing that the call may still record is shown. -/
def Idle (flight : Flight) : Prop :=
  flight.stage.ended = true ∨ Refused flight.stage ∨ flight.call = .close

theorem Idle.record {stage : Stage call} (h : Idle ⟨call, stage⟩)
    (mode : Mode) (now : Instant) (state : State) :
    (stage.record mode now state).1 = state ∧
      Idle ⟨call, (stage.record mode now state).2⟩ := by
  rcases h with hended | hrefused | hclose
  · cases stage with
    | answered | aborted => exact ⟨rfl, .inl rfl⟩
    | asking | replied | dropping => cases hended
  · obtain ⟨hstate, hnext⟩ := hrefused.record mode now state
    exact ⟨hstate, .inr (.inl hnext)⟩
  · cases hclose
    refine ⟨?_, .inr (.inr rfl)⟩
    cases stage with
    | asking | answered | aborted => rfl
    | replied pending reply =>
        cases pending
        rfl

theorem idle_begin (call : Call) :
    Idle ⟨call, .ofProgress (Cache.start mode now state call).2⟩ := by
  cases hprogress : (Cache.start mode now state call).2 with
  | answered reply => exact .inl rfl
  | aborted => exact .inl rfl
  | asking pending => exact .inr (.inl (.asking pending))

/-- A close has returned with nothing under way and nothing held: nothing can be
recorded any more. -/
structure Emptied (handle calls : Nat) (traffic : Traffic) : Prop where
  shut : Shut handle traffic.cluster
  shown_eq : ∀ slot, traffic.state.shown? slot = none
  calls_le : calls ≤ traffic.flights.length
  ended : ∀ position flight, position < calls →
    traffic.flights[position]? = some flight → flight.stage.ended = true
  idle : ∀ flight ∈ traffic.flights, Idle flight

/-- A flight is new or has gone on, and it will record nothing. -/
theorem Emptied.of_flights (h : Emptied handle calls traffic) {act : Act}
    {added : Flight} (hact : traffic.act mode handle act = next)
    (hshown : ∀ slot, next.state.shown? slot = none)
    (hflights : ∀ flight ∈ next.flights,
      flight ∈ traffic.flights ∨ flight = added)
    (hadded : Idle added) : Emptied handle calls next where
  shut := hact ▸ h.shut.act act
  shown_eq := hshown
  calls_le := hact ▸ h.calls_le.trans (length_le_act traffic act)
  ended := by
    intro position flight hposition hflight
    obtain ⟨before, hbefore⟩ : ∃ before,
        traffic.flights[position]? = some before :=
      ⟨_, List.getElem?_eq_getElem (hposition.trans_le h.calls_le)⟩
    have hended := h.ended position before hposition hbefore
    have hkept : (traffic.act mode handle act).flights[position]? = some before :=
      act_of_ended hbefore hended act
    rw [hact, hflight] at hkept
    cases hkept
    exact hended
  idle := by
    intro flight hm
    rcases hflights flight hm with hm | rfl
    · exact h.idle flight hm
    · exact hadded

/-- What waits for its backend began after the close. -/
theorem Emptied.calls_le_of_asking (h : Emptied handle calls traffic)
    {pending : Pending call}
    (hflight : traffic.flights[position]? = some ⟨call, .asking pending⟩) :
    calls ≤ position := by
  by_contra hlt
  have hended := h.ended position _ (Nat.lt_of_not_le hlt) hflight
  cases hended

theorem shown?_begin (mode : Mode) (now : Instant)
    (h : ∀ slot, state.shown? slot = none) (call : Call) (slot : Slot) :
    (Cache.start mode now state call).1.shown? slot = none := by
  by_cases hopen : call = .close
  · subst hopen
    cases slot <;> simp [Cache.start, State.clear, State.shown?]
  · rw [(begun_start mode now state hopen).shown_eq, h]

theorem Emptied.act (h : Emptied handle calls traffic) {act : Act}
    (hearly : act.Early calls) :
    Emptied handle calls (traffic.act mode handle act) := by
  rcases act_cases mode handle traffic act with hidle | heffect
  · rw [hidle]
    exact h
  · generalize hact : traffic.act mode handle act = next at heffect
    cases heffect with
    | tick _ => exact ⟨h.shut, h.shown_eq, h.calls_le, h.ended, h.idle⟩
    | past access =>
        exact ⟨h.shut.access access, h.shown_eq, h.calls_le, h.ended, h.idle⟩
    | dropItems =>
        refine ⟨h.shut, fun slot => ?_, h.calls_le, h.ended, h.idle⟩
        cases slot with
        | item kind key => simp [State.shown?]
        | live kind => exact h.shown_eq (.live kind)
    | dropLive =>
        refine h.of_flights hact (fun slot => ?_) mem_append_singleton_cases
          (.inr (.inr rfl))
        cases slot with
        | item kind key => exact h.shown_eq (.item kind key)
        | live kind => simp [State.shown?]
    | begin call =>
        exact h.of_flights hact (shown?_begin mode traffic.now h.shown_eq call)
          mem_append_singleton_cases (idle_begin call)
    | @reply _ call pending _ =>
        refine h.of_flights hact h.shown_eq
          (fun flight => List.mem_or_eq_of_mem_set) ?_
        by_cases hopen : call = .close
        · exact .inr (.inr hopen)
        · rw [h.shut.serve_eq (asks_ne_close hopen)]
          exact .inr (.inl (.replied pending))
    | give hflight _ hplace _ =>
        exact absurd (hplace calls hearly)
          (Nat.not_lt.mpr (h.calls_le_of_asking hflight))
    | record hflight =>
        obtain ⟨hstate, hidle⟩ := (h.idle _ (List.mem_of_getElem? hflight)).record
          mode traffic.now traffic.state
        refine h.of_flights hact ?_ (fun flight => List.mem_or_eq_of_mem_set) hidle
        simp only [hstate]
        exact h.shown_eq

theorem Emptied.enact (h : Emptied handle calls traffic) {acts : List Act}
    (hearly : ∀ act ∈ acts, act.Early calls) :
    Emptied handle calls (traffic.enact mode handle acts) := by
  induction acts generalizing traffic with
  | nil => exact h
  | cons act rest ih =>
      obtain ⟨hact, hrest⟩ := List.forall_mem_cons.mp hearly
      exact ih (h.act hact) hrest

theorem Emptied.eq_initialized (h : Emptied handle calls traffic) {now : Instant}
    (hremembers : traffic.state.Remembers mode now call) :
    call = .initialized := by
  cases call with
  | init | upsert | close => exact hremembers.elim
  | initialized => rfl
  | get kind key =>
      obtain ⟨found, hfound⟩ := Option.isSome_iff_exists.mp hremembers.2
      have hshown := State.shown?_of_item? hfound
      rw [h.shown_eq] at hshown
      cases hshown
  | all kind =>
      obtain ⟨items, hitems⟩ := Option.isSome_iff_exists.mp hremembers.2
      have hshown := State.shown?_of_live? hitems
      rw [h.shown_eq] at hshown
      cases hshown

/-! ## After a close -/

/-- A call that begins after a close has returned is answered at once if the
cache remembers an answer; otherwise it is refused as closed.  If nothing was
under way or held when the close returned, then at most `initialized` is
remembered. -/
theorem refused_after_close {cluster : Cluster} {index : Nat} {realm : Realm}
    {closed : Bool} {before between after : List Act} {moment begun : Traffic}
    (hhandle : cluster.handles[handle]? = some ⟨index, realm, closed⟩)
    (hmoment : enact mode handle (start now cluster) before = moment)
    (hclosed : (⟨.close, .answered (.ok ())⟩ : Flight) ∈ moment.flights)
    (hbegun : enact mode handle moment between = begun)
    (hbetween : ∀ act ∈ between, act.Early moment.flights.length)
    (hafter : ∀ act ∈ after, act.Early moment.flights.length)
    (hopen : call ≠ .close) :
    let position := begun.flights.length
    let next := begun.step mode handle (.begin call)
    (begun.state.Remembers mode begun.now call → ∃ answer,
      (next.enact mode handle after).flights[position]? =
        some ⟨call, .answered (.ok answer)⟩) ∧
    (¬ begun.state.Remembers mode begun.now call →
      (∃ stage : Stage call,
        (next.enact mode handle after).flights[position]? =
            some ⟨call, stage⟩ ∧ Refused stage) ∧
      (next.enact mode handle (after ++
          [.own (.reply position), .own (.record position)])).flights[
            position]? =
        some ⟨call, .answered (.error .closed)⟩) ∧
    ((∀ flight ∈ moment.flights, flight.stage.ended = true) →
      (∀ slot, moment.state.shown? slot = none) →
      begun.state.Remembers mode begun.now call → call = .initialized) := by
  intro position next
  have hshut : Shut handle moment.cluster := by
    subst hmoment
    exact ((closable_start now hhandle).enact before).shut _ hclosed .answered
  have hflight : next.flights[position]? = some ⟨call, .ofProgress
      (Cache.start mode begun.now begun.state call).2⟩ := by
    simp [next, position, Traffic.step]
  refine ⟨fun hremembers => ?_, fun hforgets => ?_, fun hended hshown => ?_⟩
  · obtain ⟨answer, hstart⟩ := start_of_remembers hremembers
    rw [hstart] at hflight
    exact ⟨answer, enact_of_ended hflight rfl after⟩
  · obtain ⟨pending, hstart⟩ := start_of_not_remembers hforgets
    rw [hstart] at hflight
    have hbegan : Shut handle next.cluster := by
      subst hbegun
      exact (hshut.enact between).act (.own (.begin call))
    have hlate : moment.flights.length ≤ position := by
      subst hbegun
      exact length_le_enact moment between
    obtain ⟨stage, hstage, hrefused⟩ :=
      (Refused.asking pending).enact hbegan hopen hflight hlate hafter
    refine ⟨⟨stage, hstage, hrefused⟩, ?_⟩
    rw [enact, List.foldl_append]
    exact hrefused.finish (hbegan.enact after) hopen hstage
  · have hemptied : Emptied handle moment.flights.length moment :=
      ⟨hshut, hshown, Nat.le_refl _,
        fun position flight _ hflight =>
          hended flight (List.mem_of_getElem? hflight),
        fun flight hm => .inl (hended flight hm)⟩
    subst hbegun
    exact (hemptied.enact hbetween).eq_initialized

/-! ## A cache that goes on answering -/

/-- A get has its reply when the close begins, and records it when the close has
returned. -/
def refilled : List Act :=
  [.past (.serve 1 (.upsert .features (.live "a" 1 .null))),
    .own (.begin (.get .features "a")), .own (.reply 0), .dropItems, .dropLive,
    .own (.reply 1), .own (.record 1), .own (.record 0)]

/-- The store is initialized through the cache before the close. -/
def latched : List Act :=
  [.own (.begin (.init .empty)), .own (.reply 0), .own (.record 0), .dropItems,
    .dropLive, .own (.reply 1), .own (.record 1)]

/-- In both runs the close has returned, and the call after it is answered. -/
theorem answered_after_close :
    (∃ moment : Traffic,
      enact .forever 0 (start ⟨0⟩ .pair) refilled = moment ∧
        (⟨.close, .answered (.ok ())⟩ : Flight) ∈ moment.flights ∧
        (moment.step .forever 0 (.begin (.get .features "a"))).flights[2]? =
          some ⟨.get .features "a",
            .answered (.ok (some (.live "a" 1 .null)))⟩) ∧
    ∃ moment : Traffic,
      enact .forever 0 (start ⟨0⟩ .pair) latched = moment ∧
        (⟨.close, .answered (.ok ())⟩ : Flight) ∈ moment.flights ∧
        (moment.step .forever 0 (.begin .initialized)).flights[2]? =
          some ⟨.initialized, .answered (.ok true)⟩ :=
  ⟨⟨_, rfl, .tail _ (.head _), rfl⟩, ⟨_, rfl, .tail _ (.head _), rfl⟩⟩

/-- After the close the get of another key is refused. -/
theorem refused_refilled :
    ∃ moment : Traffic,
      enact .forever 0 (start ⟨0⟩ .pair) refilled = moment ∧
        ((moment.step .forever 0 (.begin (.get .features "b"))).enact .forever 0
            [.own (.reply 2), .own (.record 2)]).flights[2]? =
          some ⟨.get .features "b", .answered (.error .closed)⟩ := by
  refine ⟨_, rfl, ?_⟩
  have hhandle : Cluster.pair.handles[0]? = some ⟨0, .standard, false⟩ := rfl
  have hrun : enact .forever 0 (start ⟨0⟩ .pair) refilled =
    enact .forever 0 (start ⟨0⟩ .pair) refilled := rfl
  have hclosed : (⟨.close, .answered (.ok ())⟩ : Flight) ∈
    (enact .forever 0 (start ⟨0⟩ .pair) refilled).flights := .tail _ (.head _)
  have hforgets : ¬ (enact .forever 0 (start ⟨0⟩ .pair) refilled).state.Remembers
      .forever (enact .forever 0 (start ⟨0⟩ .pair) refilled).now
        (.get .features "b") := by
    rintro ⟨-, h⟩
    cases h
  have hnone : ∀ act ∈ ([] : List Act),
      act.Early (enact .forever 0 (start ⟨0⟩ .pair) refilled).flights.length := by
    simp
  have hbegun : enact .forever 0 (enact .forever 0 (start ⟨0⟩ .pair) refilled) [] =
    enact .forever 0 (start ⟨0⟩ .pair) refilled := rfl
  have h := refused_after_close hhandle hrun hclosed hbegun hnone hnone
    (by simp : Call.get .features "b" ≠ .close)
  exact (h.2.1 hforgets).2

end Traffic

end Cache

end VersionedFlags
