import VersionedFlags.Proofs.Cache.Reading
import VersionedFlags.Proofs.Cache.Tracking

/-!
# One write at a time

When at most one write is under way through a cache at any time, no slot is ever
late, however many reads overlap.  So while no write is under way every slot
shows what the backend answers, and a read that begins then has an answer that
the backend gave while the read was under way.
-/

namespace VersionedFlags

/-- Whether a call may change what the backend holds. -/
def Call.isWrite : Call → Bool
  | .init _ | .upsert _ _ => true
  | .get _ _ | .all _ | .initialized | .close => false

namespace Cache

namespace Traffic

variable {mode : Mode} {handle : Nat} {traffic : Traffic}

/-! ## Writes under way -/

def Calm (traffic : Traffic) : Prop :=
  ∀ flight ∈ traffic.flights, flight.call.isWrite = true →
    flight.stage.ended = true

instance : Decidable traffic.Calm :=
  inferInstanceAs (Decidable (∀ flight ∈ traffic.flights, _ → _))

/-- A write begins only when none is under way. -/
def OneWriter (mode : Mode) (handle : Nat) (traffic : Traffic) :
    List Move → Prop
  | [] => True
  | move :: rest =>
      (∀ call, move = .begin call → call.isWrite = true → traffic.Calm) ∧
        OneWriter mode handle (traffic.step mode handle move) rest

def Writing (flight : Flight) : Prop :=
  flight.call.isWrite = true ∧ flight.stage.ended = false

theorem writing_of_unrecorded {call : Call} {stage : Stage call} {slot : Slot}
    (h : stage.Unrecorded slot) : Writing ⟨call, stage⟩ := by
  cases h <;> exact ⟨rfl, rfl⟩

theorem writing_of_outdates {call : Call} {stage : Stage call} {slot : Slot}
    (h : stage.Outdates slot) : Writing ⟨call, stage⟩ := by
  cases h with
  | unrecorded h => exact writing_of_unrecorded h
  | dropping kind item => exact ⟨rfl, rfl⟩

theorem unrecorded_of_enters {call : Call} {stage : Stage call} {slot : Slot}
    {shown : Option slot.call.Answer} (h : stage.Enters slot shown) :
    stage.Unrecorded slot := by
  cases h with
  | init data => exact .init data slot
  | item kind item => exact .item kind item

theorem Calm.not_outdated (h : traffic.Calm) (slot : Slot) :
    ¬ traffic.Outdated slot := by
  rintro ⟨⟨call, stage⟩, hm, houtdates⟩
  obtain ⟨hwrite, hunderway⟩ := writing_of_outdates houtdates
  rw [h _ hm hwrite] at hunderway
  cases hunderway

/-- What holds when writes do not overlap: the item that a write is about to
enter is what the backend answers. -/
structure Sole (handle : Nat) (traffic : Traffic) : Prop where
  one : ∀ (first second : Nat) (flight other : Flight),
    traffic.flights[first]? = some flight →
      traffic.flights[second]? = some other →
        Writing flight → Writing other → first = second
  current : ∀ flight ∈ traffic.flights, ∀ slot value,
    flight.stage.Enters slot (some value) →
      (traffic.cluster.serve handle slot.call).1 = .ok value

theorem sole_start (handle : Nat) (now : Instant) (cluster : Cluster) :
    Sole handle (start now cluster) where
  one := by simp [start]
  current := by simp [start]

/-! ## What a move preserves -/

theorem Sole.begin (h : Sole handle traffic) {call : Call}
    (hcalm : call.isWrite = true → traffic.Calm) :
    Sole handle (traffic.step mode handle (.begin call)) := by
  simp only [step]
  generalize Cache.start mode traffic.now traffic.state call = result
  obtain ⟨state, progress⟩ := result
  have hcases : ∀ (place : Nat) (flight : Flight),
      (traffic.flights ++ [⟨call, .ofProgress progress⟩])[place]? = some flight →
        traffic.flights[place]? = some flight ∨
          place = traffic.flights.length ∧
            flight = ⟨call, .ofProgress progress⟩ := by
    intro place flight hfound
    rcases Nat.lt_trichotomy place traffic.flights.length with hlt | rfl | hgt
    · exact .inl (by rwa [List.getElem?_append_left hlt] at hfound)
    · exact .inr ⟨rfl, by simpa [eq_comm] using hfound⟩
    · rw [List.getElem?_eq_none (by simp; omega)] at hfound
      cases hfound
  have halone : Writing ⟨call, .ofProgress progress⟩ → ∀ (place : Nat)
      (flight : Flight), traffic.flights[place]? = some flight →
        ¬ Writing flight := by
    rintro ⟨hwrite, -⟩ place flight hfound ⟨hother, hunderway⟩
    rw [hcalm hwrite flight (List.mem_of_getElem? hfound) hother] at hunderway
    cases hunderway
  refine ⟨?_, ?_⟩
  · intro first second flight other hfirst hsecond hflight hother
    rcases hcases first flight hfirst with hfirst | ⟨rfl, rfl⟩ <;>
      rcases hcases second other hsecond with hsecond | ⟨rfl, rfl⟩
    · exact h.one first second flight other hfirst hsecond hflight hother
    · exact absurd hflight (halone hother first flight hfirst)
    · exact absurd hother (halone hflight second other hsecond)
    · rfl
  · intro flight hm slot value henters
    obtain ⟨place, hfound⟩ := List.mem_iff_getElem?.mp hm
    rcases hcases place flight hfound with hfound | ⟨-, rfl⟩
    · exact h.current flight (List.mem_of_getElem? hfound) slot value henters
    · exact absurd (.unrecorded (unrecorded_of_enters henters))
        (Stage.not_outdates_ofProgress _ _)

/-- A flight goes on; the backend changes only if it is a write. -/
theorem Sole.set (h : Sole handle traffic) {position : Nat} {call : Call}
    {before after : Stage call}
    (hbefore : traffic.flights[position]? = some ⟨call, before⟩)
    {next : Traffic}
    (hflights : next.flights = traffic.flights.set position ⟨call, after⟩)
    (hended : before.ended = true → after.ended = true)
    (hcluster : ¬ Writing ⟨call, before⟩ → next.cluster = traffic.cluster)
    (hcurrent : ∀ slot value, after.Enters slot (some value) →
      (next.cluster.serve handle slot.call).1 = .ok value) :
    Sole handle next := by
  have hcases : ∀ (place : Nat) (flight : Flight),
      next.flights[place]? = some flight →
        place = position ∧ flight = ⟨call, after⟩ ∨
          place ≠ position ∧ traffic.flights[place]? = some flight := by
    intro place flight hfound
    rw [hflights] at hfound
    by_cases hplace : place = position
    · subst hplace
      rw [List.getElem?_set_self (List.getElem?_eq_some_iff.mp hbefore).1] at hfound
      exact .inl ⟨rfl, (Option.some.inj hfound).symm⟩
    · rw [List.getElem?_set_ne (Ne.symm hplace)] at hfound
      exact .inr ⟨hplace, hfound⟩
  have hwriting : Writing ⟨call, after⟩ → Writing ⟨call, before⟩ := by
    rintro ⟨hwrite, hunderway⟩
    refine ⟨hwrite, Bool.eq_false_iff.mpr fun hbefore => ?_⟩
    rw [hended hbefore] at hunderway
    cases hunderway
  refine ⟨?_, ?_⟩
  · intro first second flight other hfirst hsecond hflight hother
    rcases hcases first flight hfirst with ⟨rfl, rfl⟩ | ⟨-, hfirst⟩ <;>
      rcases hcases second other hsecond with ⟨rfl, rfl⟩ | ⟨-, hsecond⟩
    · rfl
    · exact h.one _ _ _ _ hbefore hsecond (hwriting hflight) hother
    · exact h.one _ _ _ _ hfirst hbefore hflight (hwriting hother)
    · exact h.one _ _ _ _ hfirst hsecond hflight hother
  · intro flight hm slot value henters
    obtain ⟨place, hfound⟩ := List.mem_iff_getElem?.mp hm
    rcases hcases place flight hfound with ⟨-, rfl⟩ | ⟨hplace, hfound⟩
    · exact hcurrent slot value henters
    · have hother := writing_of_unrecorded (unrecorded_of_enters henters)
      rw [hcluster fun hmine => hplace
        (h.one _ _ _ _ hfound hbefore hother hmine)]
      exact h.current flight (List.mem_of_getElem? hfound) slot value henters

variable {index : Nat} {realm : Realm} {file : Bool} {ledger : Ledger}
  {late : Slot → Prop}

theorem answer_of_enters {call : Call} {pending : Pending call} {slot : Slot}
    {value : slot.call.Answer}
    (h : (Stage.replied pending
      (.ok (ledger.serve realm pending.asks).1)).Enters slot (some value)) :
    (ledger.serve realm pending.asks).2.answer realm slot = value := by
  cases pending with
  | init data =>
      generalize hshown : some value = shown at h
      cases h
      exact Ledger.answer_init hshown.symm
  | upsert kind item =>
      simp only [Pending.asks, Ledger.serve, Ledger.upsert] at h ⊢
      split at h
      · rename_i hnewer
        cases h
        rw [if_pos hnewer]
        exact Ledger.answer_put_item kind item
      · cases h
  | get | all | reread | initialized | pass => cases h

theorem serve_asks {cluster : Cluster} {call : Call} (pending : Pending call)
    (hopen : call ≠ .close) (hread : call.isWrite = false) :
    (cluster.serve handle pending.asks).2 = cluster := by
  cases pending with
  | init | upsert | reread => cases hread
  | get | all | initialized => rfl
  | pass call =>
      cases call with
      | init | upsert => cases hread
      | get | all | initialized => rfl
      | close => exact absurd rfl hopen

theorem Sole.reply (h : Sole handle traffic)
    (htracked : Tracked mode handle index realm file ledger late traffic)
    (position : Nat) :
    Sole handle (traffic.step mode handle (.reply position)) := by
  rcases step_reply_cases mode handle traffic position with
    hidle | ⟨call, pending, hflight, hstep⟩
  · rw [hidle]
    exact h
  · obtain ⟨hopen, hkept⟩ := htracked.kept _ (List.mem_of_getElem? hflight)
    have hasks := asks_kept pending hopen hkept
    rw [hstep]
    refine h.set hflight rfl nofun ?_ ?_
    · intro hidle
      have hread : call.isWrite = false := by
        simpa [Writing, Stage.ended] using hidle
      exact serve_asks pending hopen hread
    · intro slot value henters
      rcases htracked.holds.serve htracked.handle_eq hasks.1 hasks.2 with
        ⟨hanswer, hholds, hhandles⟩ | ⟨-, error, herror⟩
      · rw [hanswer] at henters
        rw [hholds.serve_slot (hhandles ▸ htracked.handle_eq),
          answer_of_enters henters]
      · rw [herror] at henters
        cases pending <;> cases henters

theorem Sole.fail (h : Sole handle traffic) (position : Nat)
    (error : StoreError) :
    Sole handle (traffic.step mode handle (.fail position error)) := by
  rcases step_fail_cases mode handle traffic position error with
    hidle | ⟨call, pending, hflight, hstep⟩
  · rw [hidle]
    exact h
  · rw [hstep]
    refine h.set hflight rfl nofun (fun _ => rfl) ?_
    intro slot value henters
    cases pending <;> cases henters

theorem Sole.record (h : Sole handle traffic)
    (htracked : Tracked mode handle index realm file ledger late traffic)
    (hclock : mode.expiry? traffic.now ≠ none) (position : Nat) :
    Sole handle (traffic.step mode handle (.record position)) := by
  rcases step_record_cases mode handle traffic position with
    ⟨hidle, -⟩ | ⟨call, stage, hflight, hstep⟩
  · rw [hidle]
    exact h
  · have hm := List.mem_of_getElem? hflight
    have hrecorded :=
      recorded_record hclock (htracked.suits _ hm) (htracked.seen_le _ hm)
    rw [hstep]
    refine h.set hflight rfl ?_ (fun _ => rfl) ?_
    · intro hended
      cases stage with
      | asking | replied | dropping => cases hended
      | answered | aborted => rfl
    · intro slot value henters
      exact absurd (unrecorded_of_enters henters) (hrecorded.not_unrecorded slot)

/-- A write that nothing overtakes enters what the backend answers. -/
theorem Sole.not_late (h : Sole handle traffic)
    (htracked : Tracked mode handle index realm file ledger late traffic)
    (hclock : mode.expiry? traffic.now ≠ none)
    (hgood : ∀ slot, ¬ late slot) (move : Move) (slot : Slot) :
    ¬ lateAfter mode handle traffic move late slot := by
  rintro (⟨⟨position, ⟨call, stage⟩, shown, rfl, hflight, henters⟩, value,
    hvalue, hdiffers⟩ | ⟨-, hlate, -⟩)
  · have hm := List.mem_of_getElem? hflight
    have hrecorded :=
      recorded_record hclock (htracked.suits _ hm) (htracked.seen_le _ hm)
    simp only [step, hflight] at hvalue hdiffers
    cases hmode : mode.isEnabled with
    | true =>
        rw [hrecorded.shown_of_enters hmode slot shown henters] at hvalue
        subst hvalue
        exact hdiffers (h.current _ hm slot value henters)
    | false =>
        rw [hrecorded.shown_eq hmode, htracked.bare hmode] at hvalue
        cases hvalue
  · exact hgood slot hlate

/-! ## Runs -/

theorem Sole.run {moves : List Move} (h : Sole handle traffic)
    (htracked : Tracked mode handle index realm file ledger late traffic)
    (hgood : ∀ slot, ¬ late slot)
    (hadmits : Admits mode handle file traffic moves)
    (hone : OneWriter mode handle traffic moves) :
    ∃ next, Sole handle (run mode handle traffic moves) ∧
      Tracked mode handle index realm file next (fun _ => False)
        (Traffic.run mode handle traffic moves) := by
  induction moves generalizing traffic ledger late with
  | nil =>
      have hlate : late = fun _ => False := by
        funext slot
        simp [hgood slot]
      exact ⟨ledger, h, hlate ▸ htracked⟩
  | cons move rest ih =>
      obtain ⟨hclock, hcall, hrest⟩ := hadmits
      obtain ⟨next, hnext⟩ := htracked.step hclock hcall
      refine ih ?_ hnext (h.not_late htracked hclock hgood move) hrest hone.2
      cases move with
      | tick nanos => exact ⟨h.one, h.current⟩
      | begin call => exact h.begin (hone.1 call rfl)
      | reply position => exact h.reply htracked position
      | fail position error => exact h.fail position error
      | record position => exact h.record htracked hclock position

theorem OneWriter.append {before after : List Move}
    (h : OneWriter mode handle traffic (before ++ after)) :
    OneWriter mode handle traffic before ∧
      OneWriter mode handle (Traffic.run mode handle traffic before) after := by
  induction before generalizing traffic with
  | nil => exact ⟨trivial, h⟩
  | cons move rest ih => exact ⟨⟨h.1, (ih h.2).1⟩, (ih h.2).2⟩

theorem Calm.answer_eq (hcalm : traffic.Calm)
    (h : Tracked mode handle index realm file ledger (fun _ => False) traffic)
    {slot : Slot} {value : slot.call.Answer}
    (hshown : traffic.state.shown? slot = some value) :
    (traffic.cluster.serve handle slot.call).1 = .ok value := by
  rcases h.shown slot value hshown with hiff | houtdated
  · rw [h.holds.serve_slot h.handle_eq, hiff.mpr not_false]
  · exact absurd houtdated (hcalm.not_outdated slot)

theorem Calm.cluster_step (hcalm : traffic.Calm)
    (h : Tracked mode handle index realm file ledger late traffic)
    (move : Move) :
    (traffic.step mode handle move).cluster = traffic.cluster := by
  cases move with
  | tick | begin => rfl
  | fail position error =>
      rcases step_fail_cases mode handle traffic position error with
        hidle | ⟨call, pending, -, hstep⟩
      · rw [hidle]
      · rw [hstep]
  | record position =>
      rcases step_record_cases mode handle traffic position with
        ⟨hidle, -⟩ | ⟨call, stage, -, hstep⟩
      · rw [hidle]
      · rw [hstep]
  | reply position =>
      rcases step_reply_cases mode handle traffic position with
        hidle | ⟨call, pending, hflight, hstep⟩
      · rw [hidle]
      · have hm := List.mem_of_getElem? hflight
        rw [hstep]
        refine serve_asks pending (h.kept _ hm).1 (Bool.eq_false_iff.mpr ?_)
        intro hwrite
        cases hcalm _ hm hwrite

theorem cluster_run {moves : List Move}
    (h : Tracked mode handle index realm file ledger late traffic)
    (hadmits : Admits mode handle file traffic moves)
    (hcalm : ∀ middle rest, moves = middle ++ rest →
      (Traffic.run mode handle traffic middle).Calm) :
    (Traffic.run mode handle traffic moves).cluster = traffic.cluster := by
  induction moves generalizing traffic ledger late with
  | nil => rfl
  | cons move rest ih =>
      obtain ⟨hclock, hcall, hrest⟩ := hadmits
      obtain ⟨next, hnext⟩ := h.step hclock hcall
      have hcluster := ih hnext hrest fun middle more heq =>
        hcalm (move :: middle) more (by rw [heq]; rfl)
      exact hcluster.trans (Calm.cluster_step (hcalm [] _ rfl) h move)

/-- A read that begins while no write is under way is answered as the backend
answers at some moment until it ends, and as it answers at the end if no write
was under way meanwhile. -/
theorem Calm.read {moves : List Move} (hcalm : traffic.Calm)
    (htracked : Tracked mode handle index realm file ledger (fun _ => False)
      traffic)
    {slot : Slot}
    (hadmits : Admits mode handle file traffic (.begin slot.call :: moves))
    {value : slot.call.Answer}
    (hanswer : (Traffic.run mode handle traffic
        (.begin slot.call :: moves)).flights[traffic.flights.length]? =
      some ⟨slot.call, .answered (.ok value)⟩) :
    (∃ middle rest, moves = middle ++ rest ∧
      ((Traffic.run mode handle traffic
        (.begin slot.call :: middle)).cluster.serve handle slot.call).1 =
          .ok value) ∧
      ((∀ middle rest, moves = middle ++ rest →
          (Traffic.run mode handle traffic (.begin slot.call :: middle)).Calm) →
        ((Traffic.run mode handle traffic
          (.begin slot.call :: moves)).cluster.serve handle slot.call).1 =
            .ok value) := by
  have hfirst : (traffic.step mode handle
      (.begin slot.call)).flights[traffic.flights.length]? =
        some ⟨slot.call, .ofProgress
          (Cache.start mode traffic.now traffic.state slot.call).2⟩ := by
    simp [step]
  have hmoment : ∃ middle rest, moves = middle ++ rest ∧
      ((Traffic.run mode handle traffic
        (.begin slot.call :: middle)).cluster.serve handle slot.call).1 =
          .ok value := by
    obtain ⟨next, hnext, htells⟩ := exists_stage_run hfirst
      (p := fun value => ∃ middle rest, moves = middle ++ rest ∧
        ((Traffic.run mode handle traffic
          (.begin slot.call :: middle)).cluster.serve handle slot.call).1 =
            .ok value)
      (fun value htold => ⟨[], moves, rfl, hcalm.answer_eq htracked
        (Stage.shown?_of_tells_start htold)⟩)
      (fun middle rest heq value hserve => ⟨middle, rest, heq, hserve⟩)
    have hsame : some (⟨slot.call, next⟩ : Flight) =
        some ⟨slot.call, .answered (.ok value)⟩ := hnext.symm.trans hanswer
    cases hsame
    exact htells value (.answered value)
  refine ⟨hmoment, fun hquiet => ?_⟩
  obtain ⟨middle, rest, rfl, hserve⟩ := hmoment
  have hsplit : ∀ more, Traffic.run mode handle traffic
      (.begin slot.call :: (middle ++ more)) =
        Traffic.run mode handle (Traffic.run mode handle traffic
          (.begin slot.call :: middle)) more := by
    intro more
    rw [← List.cons_append, Traffic.run, List.foldl_append]
    rfl
  rw [← List.cons_append] at hadmits
  obtain ⟨hbefore, hafter⟩ := hadmits.append
  obtain ⟨next, hnext⟩ := htracked.run hbefore
  rw [hsplit, cluster_run hnext hafter fun more others heq => ?_, hserve]
  rw [← hsplit]
  exact hquiet (middle ++ more) others (by rw [heq, List.append_assoc])

/-- However reads overlap with one write at a time, while no write is under way
every entry has what the backend answers.  No call is aborted, and a read that
begins while no write is under way has an answer that the backend gave
meanwhile. -/
theorem coherent_of_one_writer {cluster : Cluster} {now : Instant}
    {moves : List Move} {final : Traffic}
    (hhandle : cluster.handles[handle]? = some ⟨index, realm, false⟩)
    (hholds : cluster.Holds index file ledger)
    (hadmits : Admits mode handle file (start now cluster) moves)
    (hone : OneWriter mode handle (start now cluster) moves)
    (hfinal : Traffic.run mode handle (start now cluster) moves = final) :
    (final.Calm →
      (∀ moment kind key found,
        final.state.item? moment kind key = some found →
          (final.cluster.serve handle (.get kind key)).1 =
            .ok (found.bind Item.visible?)) ∧
      ∀ moment kind items, final.state.live? moment kind = some items →
        (final.cluster.serve handle (.all kind)).1 = .ok items) ∧
    (∀ flight ∈ final.flights, flight.stage.ended = true →
      ∃ reply, flight.stage = .answered reply) ∧
    ∀ (before after : List Move) (slot : Slot) (value : slot.call.Answer),
      moves = before ++ .begin slot.call :: after →
      let beginning := Traffic.run mode handle (start now cluster) before
      beginning.Calm →
      final.flights[beginning.flights.length]? =
          some ⟨slot.call, .answered (.ok value)⟩ →
      (∃ middle rest, after = middle ++ rest ∧
        ((Traffic.run mode handle beginning
          (.begin slot.call :: middle)).cluster.serve handle slot.call).1 =
            .ok value) ∧
      ((∀ middle rest, after = middle ++ rest →
          (Traffic.run mode handle beginning
            (.begin slot.call :: middle)).Calm) →
        (final.cluster.serve handle slot.call).1 = .ok value) := by
  have htracked := tracked_start mode (fun _ => False) now hhandle hholds
  have hsole := sole_start handle now cluster
  subst hfinal
  obtain ⟨last, -, hlast⟩ := hsole.run htracked (fun _ => id) hadmits hone
  refine ⟨fun hcalm => ⟨?_, ?_⟩, ?_, ?_⟩
  · intro moment kind key found hitem
    exact hcalm.answer_eq hlast (State.shown?_of_item? hitem)
  · intro moment kind items hlive
    exact hcalm.answer_eq hlast (State.shown?_of_live? hlive)
  · rintro ⟨call, stage⟩ hm hended
    have hsuits := hlast.suits _ hm
    cases stage with
    | answered reply => exact ⟨reply, rfl⟩
    | aborted => exact hsuits.elim
    | asking | replied | dropping => cases hended
  · rintro before after slot value rfl beginning hcalm hanswer
    obtain ⟨hbefore, hafter⟩ := hadmits.append
    obtain ⟨middle, -, htracked'⟩ :=
      hsole.run htracked (fun _ => id) hbefore (OneWriter.append hone).1
    have hsplit : Traffic.run mode handle (start now cluster)
        (before ++ .begin slot.call :: after) =
          Traffic.run mode handle beginning (.begin slot.call :: after) :=
      List.foldl_append
    rw [hsplit] at hanswer ⊢
    exact hcalm.read htracked' hafter hanswer

/-- A read that its backend answered before a write of its key, and that ends
after it. -/
def straggling : List Move :=
  [.begin (.get .features "a"), .reply 0,
    .begin (.upsert .features (.live "a" 1 .null)), .reply 1, .record 1,
    .record 1, .record 0, .tick 3]

/-- What the straggler read is not in the cache. -/
theorem coherent_straggling :
    (run (.ttl 5) 0 blank straggling).Calm ∧
      (run (.ttl 5) 0 blank straggling).state.item? ⟨3⟩ .features "a" =
        some (some (.live "a" 1 .null)) ∧
      ((run (.ttl 5) 0 blank straggling).cluster.serve 0
          (.get .features "a")).1 = .ok (some (.live "a" 1 .null)) := by
  have hkept : ∀ call : Call, call.Made → call.Kept false :=
    fun _ hmade => ⟨hmade, nofun⟩
  have hadmits : Admits (.ttl 5) 0 false blank straggling := by
    refine ⟨by decide, ?_, by decide, ?_, by decide, ?_, by decide, ?_,
      by decide, ?_, by decide, ?_, by decide, ?_, by decide, ?_,
      (by decide : Mode.expiry? (.ttl 5) ⟨3⟩ ≠ none)⟩ <;>
      rintro call ⟨⟩ <;> exact ⟨nofun, hkept _ trivial⟩
  have hone : OneWriter (.ttl 5) 0 blank straggling := by
    refine ⟨?_, ?_, ?_, ?_, ?_, ?_, ?_, ?_, trivial⟩ <;> rintro call ⟨⟩ <;>
      decide
  have hcalm : (run (.ttl 5) 0 blank straggling).Calm := by decide
  have h := coherent_of_one_writer rfl holds_blank hadmits hone rfl
  exact ⟨hcalm, rfl, (h.1 hcalm).1 ⟨3⟩ .features "a" _ rfl⟩

end Traffic

end Cache

end VersionedFlags
