import VersionedFlags.Files.Watching

/-!
# The watch loop loses no change and makes up none

Events arrive at any moment, also while the loop takes events off its queue one
by one.  When the loop waits and its queue is empty, every relevant event came
before the start of the last reload, and no reload starts without a relevant
event since the start of the one before.
-/

namespace VersionedFlags

namespace Files

namespace WatchLoop

/-! ## What the steps of the loop do -/

variable {loop next : WatchLoop}

theorem wake?_cases (h : loop.wake? = some next) :
    loop.phase = .waiting ∧
      ((∃ event ∈ loop.queue, loop.watch.isRelevant event = true ∧
          next = { loop with phase := .debouncing, queue := [] }) ∨
        (∀ event ∈ loop.queue, loop.watch.isRelevant event = false) ∧
          next = { loop with queue := [] }) := by
  obtain ⟨watch, phase, queue, stopping⟩ := loop
  cases phase with
  | waiting =>
      cases queue with
      | nil => cases h
      | cons event more =>
          simp only [wake?] at h
          split at h
          · rename_i hany
            cases h
            obtain ⟨found, hm, hrelevant⟩ := List.any_eq_true.mp hany
            exact ⟨rfl, .inl ⟨found, hm, hrelevant, rfl⟩⟩
          · rename_i hnone
            cases h
            refine ⟨rfl, .inr ⟨fun found hm => ?_, rfl⟩⟩
            simpa using fun hrelevant =>
              hnone (List.any_eq_true.mpr ⟨found, hm, hrelevant⟩)
  | debouncing | reloading | stopped => cases queue <;> cases h

theorem reload?_cases (h : loop.reload? = some next) :
    loop.phase = .debouncing ∧
      next = { loop with phase := .reloading, queue := [] } := by
  simp only [reload?] at h
  split at h
  · rename_i hphase
    exact ⟨hphase, (Option.some.inj h).symm⟩
  · cases h

theorem finish?_cases (h : loop.finish? = some next) :
    loop.phase = .reloading ∧ next = { loop with phase := .waiting } := by
  simp only [finish?] at h
  split at h
  · rename_i hphase
    exact ⟨hphase, (Option.some.inj h).symm⟩
  · cases h

theorem watch_wake (loop : WatchLoop) :
    (loop.wake?.getD loop).watch = loop.watch := by
  cases hwake : loop.wake? with
  | none => rfl
  | some next =>
      obtain ⟨-, ⟨_, -, -, rfl⟩ | ⟨-, rfl⟩⟩ := wake?_cases hwake <;> rfl

theorem watch_finish (loop : WatchLoop) :
    (loop.finish?.getD loop).watch = loop.watch := by
  cases hfinish : loop.finish? with
  | none => rfl
  | some next =>
      obtain ⟨-, rfl⟩ := finish?_cases hfinish
      rfl

theorem halt?_eq (h : loop.halt? = some next) :
    next = { loop with phase := .stopped } := by
  simp only [halt?] at h
  split at h
  · exact (Option.some.inj h).symm
  · exact (Option.some.inj h).symm
  · cases h

/-! ## Runs of the loop -/

/-- What happens in a run: an event arrives or a reload starts. -/
inductive Happening where
  | delivered (event : Event)
  | reload
  deriving DecidableEq, Repr

inductive Move where
  | deliver (event : Event)
  /-- The loop takes the next event; a waiting loop starts a batch with it. -/
  | take
  /-- The quiet interval ends. -/
  | expire
  /-- The loop finds that there is nothing more to take. -/
  | settle
  | finish
  | signal
  | halt
  deriving DecidableEq, Repr

/-- A loop at any moment of its run.  It takes events one by one; those that it
has taken so far are counted and stay in the queue until it has taken all. -/
structure Moment where
  loop : WatchLoop
  taken : Option Nat
  history : List Happening
  deriving DecidableEq, Repr

namespace Moment

def start (watch : WatchList) : Moment := ⟨.start watch, none, []⟩

def take (moment : Moment) : Moment :=
  match moment.taken with
  | some n =>
      if n < moment.loop.queue.length then { moment with taken := some (n + 1) }
      else moment
  | none =>
      if moment.loop.phase = .waiting ∧ moment.loop.queue ≠ [] then
        { moment with taken := some 1 }
      else moment

def expire (moment : Moment) : Moment :=
  if moment.taken = none ∧ moment.loop.phase = .debouncing then
    { moment with taken := some 0 }
  else moment

/-- A batch is looked through when all of it is taken; a reload starts when the
events of the quiet interval are all taken. -/
def settle (moment : Moment) : Moment :=
  if moment.taken = some moment.loop.queue.length then
    match moment.loop.wake?, moment.loop.reload? with
    | some loop, _ => { moment with loop, taken := none }
    | none, some loop =>
        ⟨loop, none, moment.history ++ [.reload]⟩
    | none, none => moment
  else moment

/-- A move that is not possible changes nothing. -/
def step (moment : Moment) : Move → Moment
  | .deliver event =>
      { moment with
        loop := moment.loop.deliver event
        history := moment.history ++ [.delivered event] }
  | .take => moment.take
  | .expire => moment.expire
  | .settle => moment.settle
  | .finish =>
      { moment with loop := moment.loop.finish?.getD moment.loop }
  | .signal => { moment with loop := moment.loop.signal }
  | .halt =>
      if moment.taken = none then
        { moment with loop := moment.loop.halt?.getD moment.loop }
      else moment

def run (moment : Moment) (moves : List Move) : Moment := moves.foldl step moment

/-- The loop waits, and there is nothing in its queue. -/
structure Quiet (moment : Moment) : Prop where
  phase : moment.loop.phase = .waiting
  queue : moment.loop.queue = []

end Moment

/-! ## Events since a reload -/

/-- The events delivered since the last reload started, or since the creation
of the watcher. -/
def sinceReload (history : List Happening) : List Event :=
  history.foldl
    (fun events happening =>
      match happening with
      | .delivered event => events ++ [event]
      | .reload => [])
    []

variable {history recent : List Happening} {event : Event}

@[simp] theorem sinceReload_nil : sinceReload [] = [] := rfl

@[simp] theorem sinceReload_delivered (history : List Happening)
    (event : Event) :
    sinceReload (history ++ [.delivered event]) = sinceReload history ++ [event] := by
  simp [sinceReload]

@[simp] theorem sinceReload_reload (history : List Happening) :
    sinceReload (history ++ [.reload]) = [] := by
  simp [sinceReload]

theorem mem_of_sinceReload_append
    (h : event ∈ sinceReload (history ++ recent)) :
    event ∈ sinceReload history ∨ .delivered event ∈ recent := by
  induction recent generalizing history with
  | nil => simpa using h
  | cons first rest ih =>
      rw [List.append_cons] at h
      rcases ih h with hold | hm
      · cases first with
        | reload => simp at hold
        | delivered other =>
            rw [sinceReload_delivered, List.mem_append, List.mem_singleton] at hold
            rcases hold with hold | rfl
            · exact .inl hold
            · exact .inr List.mem_cons_self
      · exact .inr (List.mem_cons_of_mem _ hm)

theorem mem_sinceReload_append (history : List Happening)
    (hnone : Happening.reload ∉ recent) (h : .delivered event ∈ recent) :
    event ∈ sinceReload (history ++ recent) := by
  have hkept : ∀ {history recent : List Happening}, .reload ∉ recent →
      event ∈ sinceReload history → event ∈ sinceReload (history ++ recent) := by
    intro history recent hnone hm
    induction recent generalizing history with
    | nil => simpa using hm
    | cons first rest ih =>
        obtain ⟨hfirst, hrest⟩ := not_or.mp (mt List.mem_cons.mpr hnone)
        rw [List.append_cons]
        refine ih hrest ?_
        cases first with
        | reload => exact absurd rfl hfirst
        | delivered other => simp [hm]
  obtain ⟨before, after, rfl⟩ := List.append_of_mem h
  have hafter : Happening.reload ∉ after := fun hm => hnone (by simp [hm])
  have hlast : event ∈ sinceReload (history ++ before ++ [.delivered event]) := by
    rw [sinceReload_delivered]
    exact List.mem_append_right _ List.mem_cons_self
  have hall := hkept hafter hlast
  rwa [List.append_assoc, List.append_assoc, List.singleton_append] at hall

/-- The last entry of a history is a given reload, or the reload is earlier. -/
theorem split_last {last : Happening} {before after : List Happening}
    (h : history ++ [last] = before ++ .reload :: after) :
    (last = .reload ∧ history = before) ∨
      ∃ rest, history = before ++ .reload :: rest := by
  rcases List.eq_nil_or_concat after with rfl | ⟨rest, other, rfl⟩
  · obtain ⟨rfl, hlast⟩ := List.append_inj' h rfl
    cases hlast
    exact .inl ⟨rfl, rfl⟩
  · refine .inr ⟨rest, ?_⟩
    rw [List.concat_eq_append, ← List.cons_append, ← List.append_assoc] at h
    exact (List.append_inj' h rfl).1

/-! ## What holds at every moment -/

namespace Moment

/-- Every relevant event since the last reload waits in the queue or has started
the quiet interval, and nothing else has. -/
structure Sound (watch : WatchList) (moment : Moment) : Prop where
  watches : moment.loop.watch = watch
  fresh : ∀ event ∈ moment.loop.queue, event ∈ sinceReload moment.history
  pending : ∀ event ∈ sinceReload moment.history, watch.isRelevant event = true →
    moment.loop.phase = .stopped ∨ moment.loop.phase = .debouncing ∨
      event ∈ moment.loop.queue
  cause : moment.loop.phase = .debouncing →
    ∃ event ∈ sinceReload moment.history, watch.isRelevant event = true
  caused : ∀ before after, moment.history = before ++ .reload :: after →
    ∃ event ∈ sinceReload before, watch.isRelevant event = true

variable {watch : WatchList} {moment : Moment}

theorem sound_start (watch : WatchList) : Sound watch (start watch) where
  watches := rfl
  fresh := nofun
  pending := nofun
  cause := nofun
  caused := by simp [start]

theorem Sound.deliver (h : moment.Sound watch) (event : Event) :
    Sound watch (moment.step (.deliver event)) := by
  simp only [step, WatchLoop.deliver]
  constructor
  · exact h.watches
  · intro other hm
    rw [sinceReload_delivered]
    rcases List.mem_append.mp hm with hm | hm
    · exact List.mem_append_left _ (h.fresh other hm)
    · exact List.mem_append_right _ hm
  · intro other hm hrelevant
    rw [sinceReload_delivered] at hm
    rcases List.mem_append.mp hm with hm | hm
    · rcases h.pending other hm hrelevant with hstopped | hdebouncing | hqueued
      · exact .inl hstopped
      · exact .inr (.inl hdebouncing)
      · exact .inr (.inr (List.mem_append_left _ hqueued))
    · exact .inr (.inr (List.mem_append_right _ hm))
  · intro hphase
    obtain ⟨other, hm, hrelevant⟩ := h.cause hphase
    exact ⟨other, by simp [hm], hrelevant⟩
  · intro before after heq
    rcases split_last heq with ⟨hlast, -⟩ | ⟨rest, hrest⟩
    · cases hlast
    · exact h.caused before rest hrest

theorem Sound.wake (h : moment.Sound watch) {loop : WatchLoop}
    (hwake : moment.loop.wake? = some loop) :
    Sound watch { moment with loop, taken := none } := by
  obtain ⟨hphase, ⟨event, hm, hrelevant, rfl⟩ | ⟨hnone, rfl⟩⟩ := wake?_cases hwake
  · rw [h.watches] at hrelevant
    exact ⟨h.watches, nofun, fun _ _ _ => .inr (.inl rfl),
      fun _ => ⟨event, h.fresh event hm, hrelevant⟩, h.caused⟩
  · refine ⟨h.watches, nofun, fun event hm hrelevant => ?_, ?_, h.caused⟩
    · rcases h.pending event hm hrelevant with hstopped | hdebouncing | hqueued
      · exact .inl hstopped
      · exact .inr (.inl hdebouncing)
      · rw [← h.watches, hnone event hqueued] at hrelevant
        cases hrelevant
    · exact h.cause

theorem Sound.reload (h : moment.Sound watch) {loop : WatchLoop}
    (hreload : moment.loop.reload? = some loop) :
    Sound watch ⟨loop, none, moment.history ++ [.reload]⟩ := by
  obtain ⟨hphase, rfl⟩ := reload?_cases hreload
  refine ⟨h.watches, nofun, by simp, nofun, fun before after heq => ?_⟩
  rcases split_last heq with ⟨-, rfl⟩ | ⟨rest, hrest⟩
  · exact h.cause hphase
  · exact h.caused before rest hrest

/-- What the loop has taken is of no account until it has taken all. -/
theorem Sound.taking (h : moment.Sound watch) (taken : Option Nat) :
    Sound watch { moment with taken } :=
  ⟨h.watches, h.fresh, h.pending, h.cause, h.caused⟩

theorem Sound.settle (h : moment.Sound watch) : moment.settle.Sound watch := by
  simp only [Moment.settle]
  split
  · split
    · rename_i hwake
      exact h.wake hwake
    · rename_i hreload
      exact h.reload hreload
    · exact h
  · exact h

theorem Sound.step (h : moment.Sound watch) (move : Move) :
    Sound watch (moment.step move) := by
  cases move with
  | deliver event => exact h.deliver event
  | take =>
      simp only [Moment.step, Moment.take]
      split
      · split
        · exact h.taking _
        · exact h
      · split
        · exact h.taking _
        · exact h
  | expire =>
      simp only [Moment.step, Moment.expire]
      split
      · exact h.taking _
      · exact h
  | settle => exact h.settle
  | finish =>
      simp only [Moment.step]
      cases hfinish : moment.loop.finish? with
      | none => exact h
      | some loop =>
          obtain ⟨hphase, rfl⟩ := finish?_cases hfinish
          refine ⟨h.watches, h.fresh, fun event hm hrelevant => ?_, nofun, h.caused⟩
          have hpending := h.pending event hm hrelevant
          rw [hphase] at hpending
          exact .inr (.inr (by simpa using hpending))
  | signal => exact ⟨h.watches, h.fresh, h.pending, h.cause, h.caused⟩
  | halt =>
      simp only [Moment.step]
      split
      · cases hhalt : moment.loop.halt? with
        | none => exact h
        | some loop =>
            obtain rfl := halt?_eq hhalt
            exact ⟨h.watches, h.fresh, fun _ _ _ => .inl rfl, nofun, h.caused⟩
      · exact h

theorem Sound.run (h : moment.Sound watch) (moves : List Move) :
    Sound watch (moment.run moves) := by
  induction moves generalizing moment with
  | nil => exact h
  | cons move rest ih => exact ih (h.step move)

/-- A quiet loop has reloaded after every relevant event. -/
theorem Sound.not_relevant (h : moment.Sound watch) (hquiet : moment.Quiet)
    {event : Event} (hm : event ∈ sinceReload moment.history) :
    watch.isRelevant event = false := by
  cases hrelevant : watch.isRelevant event with
  | false => rfl
  | true =>
      have hpending := h.pending event hm hrelevant
      rw [hquiet.phase, hquiet.queue] at hpending
      simp at hpending

theorem exists_recent (moment : Moment) (moves : List Move) :
    ∃ recent, (moment.run moves).history = moment.history ++ recent := by
  have hstep : ∀ (moment : Moment) (move : Move),
      ∃ recent, (moment.step move).history = moment.history ++ recent := by
    intro moment move
    cases move with
    | deliver event => exact ⟨[.delivered event], rfl⟩
    | settle =>
        simp only [step, settle]
        split
        · split
          · exact ⟨[], (List.append_nil _).symm⟩
          · exact ⟨[.reload], rfl⟩
          · exact ⟨[], (List.append_nil _).symm⟩
        · exact ⟨[], (List.append_nil _).symm⟩
    | take =>
        refine ⟨[], ?_⟩
        simp only [step, take, List.append_nil]
        split <;> split <;> rfl
    | expire =>
        refine ⟨[], ?_⟩
        simp only [step, expire, List.append_nil]
        split <;> rfl
    | halt =>
        refine ⟨[], ?_⟩
        simp only [step, List.append_nil]
        split <;> rfl
    | finish | signal => exact ⟨[], (List.append_nil _).symm⟩
  induction moves generalizing moment with
  | nil => exact ⟨[], (List.append_nil _).symm⟩
  | cons move rest ih =>
      obtain ⟨first, hfirst⟩ := hstep moment move
      obtain ⟨others, hothers⟩ := ih (moment.step move)
      refine ⟨first ++ others, ?_⟩
      rw [← List.append_assoc, ← hfirst]
      exact hothers

section Recent

variable {later : Moment}

/-- A reload of the later part of a run has its cause before it. -/
theorem Sound.cause_of_recent (h : later.Sound watch)
    (hrecent : later.history = moment.history ++ recent)
    {before after : List Happening} (heq : recent = before ++ .reload :: after) :
    ∃ event ∈ sinceReload (moment.history ++ before),
      watch.isRelevant event = true := by
  refine h.caused _ after ?_
  rw [hrecent, heq, List.append_assoc]

theorem Sound.reload_not_mem (h : moment.Sound watch) (hquiet : moment.Quiet)
    (hlater : later.Sound watch)
    (hrecent : later.history = moment.history ++ recent)
    (hirrelevant : ∀ event, .delivered event ∈ recent →
      watch.isRelevant event = false) :
    Happening.reload ∉ recent := by
  intro hreload
  obtain ⟨before, after, heq⟩ := List.append_of_mem hreload
  obtain ⟨event, hm, hrelevant⟩ := hlater.cause_of_recent hrecent heq
  have hfalse : watch.isRelevant event = false := by
    rcases mem_of_sinceReload_append hm with hold | hnew
    · exact h.not_relevant hquiet hold
    · exact hirrelevant event (heq ▸ List.mem_append_left _ hnew)
  rw [hrelevant] at hfalse
  cases hfalse

theorem Sound.reload_mem (hlater : later.Sound watch) (hquiet : later.Quiet)
    (hrecent : later.history = moment.history ++ recent) {event : Event}
    (hm : .delivered event ∈ recent) (hrelevant : watch.isRelevant event = true) :
    Happening.reload ∈ recent := by
  refine Classical.byContradiction fun hnone => ?_
  have hsince := mem_sinceReload_append moment.history hnone hm
  rw [← hrecent] at hsince
  have hfalse := hlater.not_relevant hquiet hsince
  rw [hrelevant] at hfalse
  cases hfalse

/-- A reload after which nothing relevant comes is the last one. -/
theorem Sound.reload_not_mem_after (hlater : later.Sound watch)
    (hrecent : later.history = moment.history ++ recent)
    {before after : List Happening} (heq : recent = before ++ .reload :: after)
    (hburst : ∀ event, .delivered event ∈ after →
      watch.isRelevant event = false) :
    Happening.reload ∉ after := by
  intro hagain
  obtain ⟨between, rest, rfl⟩ := List.append_of_mem hagain
  have hsplit : recent = (before ++ .reload :: between) ++ .reload :: rest := by
    simp [heq]
  obtain ⟨other, hother, hcaused⟩ := hlater.cause_of_recent hrecent hsplit
  rw [List.append_cons, ← List.append_assoc, ← List.append_assoc] at hother
  rcases mem_of_sinceReload_append hother with hold | hnew
  · rw [sinceReload_reload] at hold
    cases hold
  · have hfalse := hburst other (List.mem_append_left _ hnew)
    rw [hcaused] at hfalse
    cases hfalse

end Recent

/-- At every moment of a run, however events arrive: a quiet loop has started a
reload after every relevant event; every reload had a relevant event since the
start of the one before, so irrelevant events cause none; and relevant events
that all come before the next reload starts cause one reload, once the loop is
quiet again. -/
theorem run_covers_changes (watch : WatchList) (moves more : List Move) :
    let moment := (start watch).run moves
    (moment.Quiet → ∀ event ∈ sinceReload moment.history,
      watch.isRelevant event = false) ∧
    (∀ before after, moment.history = before ++ .reload :: after →
      ∃ event ∈ sinceReload before, watch.isRelevant event = true) ∧
    ∃ recent, (moment.run more).history = moment.history ++ recent ∧
      (moment.Quiet →
        (∀ event, .delivered event ∈ recent → watch.isRelevant event = false) →
          .reload ∉ recent) ∧
      ((moment.run more).Quiet →
        (∃ event, .delivered event ∈ recent ∧ watch.isRelevant event = true) →
        (∀ before after event, recent = before ++ .reload :: after →
          .delivered event ∈ after → watch.isRelevant event = false) →
          recent.count .reload = 1) := by
  intro moment
  have hsound := (sound_start watch).run moves
  have hlater := hsound.run more
  obtain ⟨recent, hrecent⟩ := exists_recent moment more
  refine ⟨fun hquiet event hm => hsound.not_relevant hquiet hm, hsound.caused,
    recent, hrecent, fun hquiet hirrelevant => ?_, ?_⟩
  · exact hsound.reload_not_mem hquiet hlater hrecent hirrelevant
  · rintro hquiet ⟨event, hm, hrelevant⟩ hburst
    obtain ⟨before, after, heq, hbefore⟩ := List.eq_append_cons_of_mem
      (hlater.reload_mem hquiet hrecent hm hrelevant)
    have hafter := hlater.reload_not_mem_after hrecent heq fun event =>
      hburst before after event heq
    rw [heq, List.count_append, List.count_cons_self,
      List.count_eq_zero.mpr hbefore, List.count_eq_zero.mpr hafter]

/-- A watched file and another one change while the loop waits, takes a batch
and lets the quiet interval pass. -/
def burst : List Move :=
  [.deliver ⟨.modify, [⟨"/g"⟩]⟩, .take, .deliver ⟨.modify, [⟨"/f"⟩]⟩, .take,
    .settle, .deliver ⟨.modify, [⟨"/f"⟩]⟩, .expire, .take,
    .deliver ⟨.modify, [⟨"/g"⟩]⟩, .take, .settle, .finish]

theorem run_covers_changes_burst :
    ((start ⟨[⟨"/f"⟩], []⟩).run burst).Quiet ∧
      ((start ⟨[⟨"/f"⟩], []⟩).run burst).history.count .reload = 1 := by
  have hquiet : ((start ⟨[⟨"/f"⟩], []⟩).run burst).Quiet :=
    ⟨by decide +kernel, by decide +kernel⟩
  have hhistory : ((start ⟨[⟨"/f"⟩], []⟩).run burst).history =
      [.delivered ⟨.modify, [⟨"/g"⟩]⟩, .delivered ⟨.modify, [⟨"/f"⟩]⟩,
        .delivered ⟨.modify, [⟨"/f"⟩]⟩, .delivered ⟨.modify, [⟨"/g"⟩]⟩] ++
          [.reload] := by
    decide +kernel
  have hnothing : ∀ before after event,
      ((start ⟨[⟨"/f"⟩], []⟩).run burst).history = before ++ .reload :: after →
        .delivered event ∈ after →
          WatchList.isRelevant ⟨[⟨"/f"⟩], []⟩ event = false := by
    intro before after event heq hm
    rcases split_last (hhistory.symm.trans heq) with ⟨-, hbefore⟩ | ⟨rest, hrest⟩
    · rw [hhistory, hbefore, List.append_cancel_left_eq] at heq
      cases heq
      cases hm
    · have hreload : Happening.reload ∈ before ++ .reload :: rest := by simp
      rw [← hrest] at hreload
      simp at hreload
  obtain ⟨-, -, recent, hrecent, -, hburst⟩ :=
    run_covers_changes ⟨[⟨"/f"⟩], []⟩ [] burst
  have hall : ((start ⟨[⟨"/f"⟩], []⟩).run burst).history = recent := hrecent
  rw [hall] at hnothing hhistory ⊢
  have hrelevant : WatchList.isRelevant ⟨[⟨"/f"⟩], []⟩ ⟨.modify, [⟨"/f"⟩]⟩ = true := by
    decide +kernel
  exact ⟨hquiet,
    hburst hquiet ⟨⟨.modify, [⟨"/f"⟩]⟩, by simp [hhistory], hrelevant⟩ hnothing⟩

end Moment

end WatchLoop

end Files

end VersionedFlags
