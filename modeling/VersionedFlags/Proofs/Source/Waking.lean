import VersionedFlags.Proofs.Source.Lifecycle

/-!
# Loops that may still reload

A signal does not stop a loop at once: it ends a reload first, and it may take an
event before it sees the signal.  In a closed source no start claims any more, so
every loop that may reload was there before or comes from a start that had claimed
the source.  A start that has finished before the close has left its loop in the
slot, where the close finds it and waits for it.
-/

namespace VersionedFlags

namespace Source

open Files (FileTree Location WatchLoop WatchList Event)

/-! ## Loops that may reload -/

/-- The loop may reload some time, be it signalled or not. -/
def Wakes (loop : WatchLoop) : Prop :=
  loop.phase = .debouncing ∨ loop.phase ≠ .stopped ∧ loop.watch.files ≠ []

theorem files_ne_nil_of_isRelevant {watch : WatchList} {event : Event}
    (h : watch.isRelevant event = true) : watch.files ≠ [] := by
  intro hnone
  simp [WatchList.isRelevant, WatchList.contains, hnone] at h

/-- Every watched file is reason enough for a reload. -/
theorem exists_relevant {watch : WatchList} (h : watch.files ≠ []) :
    ∃ event, watch.isRelevant event = true := by
  obtain ⟨file, hfile⟩ := List.exists_mem_of_ne_nil _ h
  refine ⟨⟨.modify, [file]⟩, ?_⟩
  simp only [WatchList.isRelevant, WatchList.contains, List.any_cons,
    List.any_nil, Bool.or_false, Bool.and_eq_true, List.any_eq_true]
  exact ⟨rfl, file, hfile, beq_self_eq_true _⟩

/-- How the phase of a loop goes on in a turn. -/
inductive Proceeds (watch : WatchList) :
    Lifecycle.Turn → Files.WatchPhase → Files.WatchPhase → Prop
  | stay (turn : Lifecycle.Turn) (phase : Files.WatchPhase) :
      Proceeds watch turn phase phase
  | wake (h : watch.files ≠ []) : Proceeds watch .wake .waiting .debouncing
  | reload : Proceeds watch .reload .debouncing .reloading
  | finish : Proceeds watch .finish .reloading .waiting
  | stop (turn : Lifecycle.Turn) (phase : Files.WatchPhase) :
      Proceeds watch turn phase .stopped

theorem proceeds_change (turn : Lifecycle.Turn) (loop : WatchLoop) :
    (turn.change loop).watch = loop.watch ∧
      Proceeds loop.watch turn loop.phase (turn.change loop).phase := by
  cases turn with
  | deliver event => exact ⟨rfl, .stay _ _⟩
  | wake =>
      simp only [Lifecycle.Turn.change]
      cases hwake : loop.wake? with
      | none => exact ⟨rfl, .stay _ _⟩
      | some next =>
          obtain ⟨hphase, ⟨event, -, hrelevant, rfl⟩ | ⟨-, rfl⟩⟩ :=
            WatchLoop.wake?_cases hwake
          · rw [hphase]
            exact ⟨rfl, .wake (files_ne_nil_of_isRelevant hrelevant)⟩
          · exact ⟨rfl, .stay _ _⟩
  | reload =>
      simp only [Lifecycle.Turn.change]
      cases hreload : loop.reload? with
      | none => exact ⟨rfl, .stay _ _⟩
      | some next =>
          obtain ⟨hphase, rfl⟩ := WatchLoop.reload?_cases hreload
          rw [hphase]
          exact ⟨rfl, .reload⟩
  | finish =>
      simp only [Lifecycle.Turn.change]
      cases hfinish : loop.finish? with
      | none => exact ⟨rfl, .stay _ _⟩
      | some next =>
          obtain ⟨hphase, rfl⟩ := WatchLoop.finish?_cases hfinish
          rw [hphase]
          exact ⟨rfl, .finish⟩
  | halt =>
      simp only [Lifecycle.Turn.change]
      cases hhalt : loop.halt? with
      | none => exact ⟨rfl, .stay _ _⟩
      | some next =>
          cases WatchLoop.halt?_eq hhalt
          exact ⟨rfl, .stop _ _⟩
  | lose =>
      simp only [Lifecycle.Turn.change]
      split
      · exact ⟨rfl, .stop _ _⟩
      · exact ⟨rfl, .stay _ _⟩

/-- A turn does not wake a loop that may not reload any more. -/
theorem wakes_of_change {turn : Lifecycle.Turn} {loop : WatchLoop}
    (h : Wakes (turn.change loop)) : Wakes loop := by
  obtain ⟨hwatch, hphase⟩ := proceeds_change turn loop
  unfold Wakes at h ⊢
  rw [hwatch] at h
  generalize (turn.change loop).phase = after at h hphase
  generalize loop.phase = before at hphase ⊢
  cases hphase with
  | stay _ _ => exact h
  | wake hfiles => exact .inr ⟨nofun, hfiles⟩
  | reload => exact .inl rfl
  | finish => exact .inr ⟨nofun, (h.resolve_left nofun).2⟩
  | stop _ _ => exact absurd rfl (h.resolve_left nofun).1

/-- A reload begins in one sort of turn only. -/
theorem phase_of_change {turn : Lifecycle.Turn} {loop : WatchLoop}
    (hturn : turn ≠ .reload) (h : (turn.change loop).phase = .reloading) :
    loop.phase = .reloading := by
  obtain ⟨-, hphase⟩ := proceeds_change turn loop
  rw [h] at hphase
  generalize loop.phase = before at hphase ⊢
  cases hphase with
  | stay _ _ => rfl
  | reload => exact absurd rfl hturn

namespace Lifecycle

variable {life after : Lifecycle} {index : Nat}

/-- Some tree has all that the source would watch, and that is something. -/
def CanWatch (settings : Settings) : Prop :=
  ∃ tree here loop, watchLoop? settings tree here = some loop ∧
    loop.watch.files ≠ []

/-- A start that has not created its watcher yet would find something to watch, or
a loop may reload. -/
def Wakeful (life : Lifecycle) : Prop :=
  (∃ visit ∈ life.visits, visit.active = true ∧ visit.created = false ∧
    CanWatch life.settings) ∨
  ∃ loop ∈ life.loops, Wakes loop

theorem settings_step (life : Lifecycle) (move : Move) :
    (life.step move).settings = life.settings := by
  cases move with
  | start | close | turn _ _ | publish _ => rfl
  | advance index outcome tree here =>
      rcases life.step_advance_cases index outcome tree here with
        heq | ⟨old, new, after, -, hsection, heq⟩
      · rw [heq]
      · rw [heq]
        cases hsection with
        | drop _ loop | signal loop => cases loop <;> rfl
        | _ => rfl

/-- The loop that a start creates watches what the settings name. -/
theorem step_reloaded (hvisit : life.visits[index]? = some (.start .reloaded))
    (outcome : ReloadOutcome) (tree : FileTree) (here : Location) :
    (life.step (.advance index outcome tree here)).loops =
      life.loops ++ (watchLoop? life.settings tree here).toList := by
  rw [step_start hvisit, advanceStart]
  cases watchLoop? life.settings tree here with
  | none => exact (List.append_nil _).symm
  | some loop => rfl

/-- No section but the creation of a watcher does more to a loop than signal it. -/
theorem Section.loop_cases {old new : Visit} (h : life.Section old new after)
    (hold : old ≠ .start .reloaded) {n : Nat} {loop : WatchLoop}
    (hn : after.loops[n]? = some loop) :
    ∃ before, life.loops[n]? = some before ∧
      (loop = before ∨ loop = before.signal) := by
  have hsignal : ∀ m, (life.signal m).loops[n]? = some loop →
      ∃ before, life.loops[n]? = some before ∧
        (loop = before ∨ loop = before.signal) := by
    intro m hn
    cases m with
    | none => exact ⟨loop, hn, .inl rfl⟩
    | some m =>
        rcases loops_modify_cases hn with ⟨-, hsame⟩ | ⟨before, -, hbefore, rfl⟩
        · exact ⟨loop, hsame, .inl rfl⟩
        · exact ⟨before, hbefore, .inr rfl⟩
  cases h with
  | spawn _ | pass => exact absurd rfl hold
  | drop _ m | signal m => exact hsignal m hn
  | _ => exact ⟨loop, hn, .inl rfl⟩

theorem Wakeful.of_turn {n : Nat} {turn : Turn}
    (h : Wakeful { life with loops := life.loops.modify n turn.change }) :
    life.Wakeful := by
  apply h.imp_right
  rintro ⟨loop, hm, hwakes⟩
  obtain ⟨m, hm⟩ := List.mem_iff_getElem?.mp hm
  rcases loops_modify_cases hm with ⟨-, hsame⟩ | ⟨before, -, hbefore, rfl⟩
  · exact ⟨loop, List.mem_of_getElem? hsame, hwakes⟩
  · exact ⟨before, List.mem_of_getElem? hbefore, wakes_of_change hwakes⟩

/-- A start of a closed source that is past its claim and has not created its
watcher has been so before. -/
theorem Section.not_created {old new : Visit} (h : life.Section old new after)
    (hclosed : life.phase = .closed) (hactive : new.active = true)
    (hcreated : new.created = false) :
    old.active = true ∧ old.created = false := by
  cases h with
  | claim hphase =>
      rw [hclosed] at hphase
      cases hphase
  | reload _ => exact ⟨rfl, rfl⟩
  | spawn _ | pass => cases hcreated
  | _ => cases hactive

/-- Nothing wakes in a closed source. -/
theorem Wakeful.of_step (hclosed : life.phase = .closed) {move : Move}
    (h : (life.step move).Wakeful) : life.Wakeful := by
  cases move with
  | start | close =>
      apply h.imp_left
      rintro ⟨visit, hm, hactive, hcreated, hwatch⟩
      rcases List.mem_append.mp hm with hm | hm
      · exact ⟨visit, hm, hactive, hcreated, hwatch⟩
      · rw [List.mem_singleton.mp hm] at hactive
        cases hactive
  | publish outcome => exact h
  | turn n turn => exact Wakeful.of_turn h
  | advance index outcome tree here =>
      have hsettings := life.settings_step (.advance index outcome tree here)
      rcases life.step_advance_cases index outcome tree here with
        heq | ⟨old, new, after, hold, hsection, heq⟩
      · rwa [heq] at h
      · rcases h with ⟨visit, hm, hactive, hcreated, hwatch⟩ | ⟨loop, hm, hwakes⟩
        · rw [hsettings] at hwatch
          rw [heq] at hm
          rcases (hsection.changes hold).mem_cases hm with rfl | hm
          · obtain ⟨hactive, hcreated⟩ :=
              hsection.not_created hclosed hactive hcreated
            exact .inl ⟨old, List.mem_of_getElem? hold, hactive, hcreated, hwatch⟩
          · exact .inl ⟨visit, hm, hactive, hcreated, hwatch⟩
        · by_cases hreloaded : old = .start .reloaded
          · subst hreloaded
            rw [step_reloaded hold] at hm
            rcases List.mem_append.mp hm with hm | hm
            · exact .inr ⟨loop, hm, hwakes⟩
            · have hloop : watchLoop? life.settings tree here = some loop := by
                simpa using hm
              obtain ⟨watch, -, rfl⟩ := watchLoop?_eq hloop
              have hfiles := (hwakes.resolve_left nofun).2
              exact .inl ⟨_, List.mem_of_getElem? hold, rfl, rfl, tree, here, _,
                hloop, hfiles⟩
          · rw [heq] at hm
            obtain ⟨n, hn⟩ := List.mem_iff_getElem?.mp hm
            obtain ⟨before, hbefore, rfl | rfl⟩ := hsection.loop_cases hreloaded hn
            · exact .inr ⟨loop, List.mem_of_getElem? hbefore, hwakes⟩
            · exact .inr ⟨before, List.mem_of_getElem? hbefore, hwakes⟩

/-- No reload of a start begins in a closed source. -/
theorem reloading_of_step (hclosed : life.phase = .closed) {move : Move}
    (h : (life.step move).visits[index]? = some (.start .reloading)) :
    life.visits[index]? = some (.start .reloading) := by
  cases move with
  | start | close =>
      rcases (changes_concat life.visits _ index _).mp h with
        ⟨-, hnew⟩ | ⟨-, hbefore⟩
      · cases hnew
      · exact hbefore
  | turn _ _ | publish _ => exact h
  | advance other outcome tree here =>
      rcases life.step_advance_cases other outcome tree here with
        heq | ⟨old, new, after, hold, hsection, heq⟩
      · rwa [heq] at h
      · rw [heq] at h
        rcases (hsection.changes hold index _).mp h with ⟨-, rfl⟩ | ⟨-, hbefore⟩
        · cases hsection with
          | claim hphase =>
              rw [hclosed] at hphase
              cases hphase
        · exact hbefore

/-- No reload of a loop begins in another move. -/
theorem loop_reloading_of_step {n : Nat} {move : Move} {loop : WatchLoop}
    (hmove : ∀ m, move ≠ .turn m .reload)
    (hn : (life.step move).loops[n]? = some loop)
    (hphase : loop.phase = .reloading) :
    ∃ before, life.loops[n]? = some before ∧ before.phase = .reloading := by
  cases move with
  | start | close | publish _ => exact ⟨loop, hn, hphase⟩
  | turn m turn =>
      rcases loops_modify_cases hn with ⟨-, hsame⟩ | ⟨before, -, hbefore, rfl⟩
      · exact ⟨loop, hsame, hphase⟩
      · have hturn : turn ≠ .reload := by
          rintro rfl
          exact hmove m rfl
        exact ⟨before, hbefore, phase_of_change hturn hphase⟩
  | advance index outcome tree here =>
      rcases life.step_advance_cases index outcome tree here with
        heq | ⟨old, new, after, hold, hsection, heq⟩
      · rw [heq] at hn
        exact ⟨loop, hn, hphase⟩
      · by_cases hreloaded : old = .start .reloaded
        · subst hreloaded
          rw [step_reloaded hold] at hn
          by_cases hlt : n < life.loops.length
          · rw [List.getElem?_append_left hlt] at hn
            exact ⟨loop, hn, hphase⟩
          · rw [List.getElem?_append_right (by omega)] at hn
            have hm := List.mem_of_getElem? hn
            have hloop : watchLoop? life.settings tree here = some loop := by
              simpa using hm
            obtain ⟨watch, -, rfl⟩ := watchLoop?_eq hloop
            cases hphase
        · rw [heq] at hn
          obtain ⟨before, hbefore, rfl | rfl⟩ := hsection.loop_cases hreloaded hn
          · exact ⟨loop, hbefore, hphase⟩
          · exact ⟨before, hbefore, hphase⟩

/-! ## Loops that a close waits for -/

/-- Only a closed source signals its loop. -/
def Unsignalled (life : Lifecycle) : Prop :=
  life.phase ≠ .closed → ∀ loop ∈ life.loops, loop.stopping = false

theorem Unsignalled.step (h : life.Unsignalled) (hlawful : life.Lawful)
    (move : Move) : (life.step move).Unsignalled := by
  intro hopen loop hm
  have hbefore := h fun hclosed => hopen (hlawful.closed_run hclosed [move])
  cases move with
  | start | close | publish _ => exact hbefore loop hm
  | turn n turn =>
      obtain ⟨m, hm⟩ := List.mem_iff_getElem?.mp hm
      rcases loops_modify_cases hm with ⟨-, hsame⟩ | ⟨before, -, hn, rfl⟩
      · exact hbefore loop (List.mem_of_getElem? hsame)
      · rw [turn.stopping_change]
        exact hbefore before (List.mem_of_getElem? hn)
  | advance index outcome tree here =>
      rcases life.step_advance_cases index outcome tree here with
        heq | ⟨old, new, after, hold, hsection, heq⟩
      · rw [heq] at hm
        exact hbefore loop hm
      · by_cases hreloaded : old = .start .reloaded
        · subst hreloaded
          rw [step_reloaded hold] at hm
          rcases List.mem_append.mp hm with hm | hm
          · exact hbefore loop hm
          · have hloop : watchLoop? life.settings tree here = some loop := by
              simpa using hm
            obtain ⟨watch, -, rfl⟩ := watchLoop?_eq hloop
            rfl
        · rw [heq] at hm hopen
          have hloops : after.loops = life.loops := by
            cases hsection with
            | spawn _ | pass => exact absurd rfl hreloaded
            | drop hclosed _ => exact absurd ((phase_signal ..).trans hclosed) hopen
            | signal _ =>
                have hclosed :=
                  hlawful.ordered.closed _ (List.mem_of_getElem? hold) rfl
                exact absurd ((phase_signal ..).trans hclosed) hopen
            | _ => rfl
          exact hbefore loop (hloops ▸ hm)

theorem Unsignalled.run (h : life.Unsignalled) (hlawful : life.Lawful)
    (moves : List Move) : (life.run moves).Unsignalled := by
  induction moves generalizing life with
  | nil => exact h
  | cons move rest ih => exact ih (h.step hlawful move) (hlawful.step move)

/-- A close has this loop in its hands, to signal it or to wait for it. -/
def Awaits (visit : Visit) (n : Nat) : Prop :=
  visit = .close (.signalling (some n)) ∨ visit = .close (.joining n)

/-- The start has finished, and every loop has stopped, waits in the slot or is in
the hands of a close. -/
structure Joined (life : Lifecycle) : Prop where
  begun : life.phase = .running ∨ life.phase = .closed
  finished : ∀ visit ∈ life.visits, visit.active = false
  joined : ∀ n phase, (life.loops[n]?).map WatchLoop.phase = some phase →
    phase = .stopped ∨ life.slot = some n ∨ ∃ visit ∈ life.visits, Awaits visit n

/-- A running source keeps its loop in the slot. -/
theorem Lawful.joined (h : life.Lawful) (hunsignalled : life.Unsignalled)
    (hrunning : life.phase = .running) : life.Joined := by
  have hopen : life.phase ≠ .closed := by simp [hrunning]
  have hfinished : ∀ visit ∈ life.visits, visit.active = false := by
    intro visit hm
    by_contra hactive
    rcases h.ordered.starting visit hm (by simpa using hactive) with h | h <;>
      simp [hrunning] at h
  refine ⟨.inl hrunning, hfinished, fun n phase hphase => ?_⟩
  obtain ⟨loop, hn, rfl⟩ := Option.map_eq_some_iff.mp hphase
  rcases h.kept.placed n loop hn with hstopping | hslot | ⟨visit, hm, hheld⟩
  · rw [hunsignalled hopen loop (List.mem_of_getElem? hn)] at hstopping
    cases hstopping
  · exact .inr (.inl hslot)
  · cases visit with
    | start stage =>
        have hidle := hfinished _ hm
        cases stage with
        | handing _ => cases hidle
        | _ => cases hheld
    | close stage =>
        cases stage with
        | signalling _ => exact absurd (h.ordered.closed _ hm rfl) hopen
        | _ => cases hheld

theorem phase_of_stopped {turn : Turn} {loop : WatchLoop}
    (h : loop.phase = .stopped) : (turn.change loop).phase = .stopped := by
  obtain ⟨-, hphase⟩ := proceeds_change turn loop
  rw [h] at hphase
  generalize (turn.change loop).phase = after at hphase ⊢
  cases hphase <;> rfl

/-- A close that waits for a loop goes on when the loop has stopped. -/
theorem step_joining {n : Nat} (h : life.visits[index]? = some (.close (.joining n)))
    (outcome : ReloadOutcome) (tree : FileTree) (here : Location) :
    life.step (.advance index outcome tree here) = life ∨
      (life.loops[n]?).map WatchLoop.phase = some .stopped := by
  rw [step_close h, advanceClose]
  split
  · rename_i hstopped
    exact .inr hstopped
  · exact .inl rfl

theorem Section.phases {old new : Visit} (h : life.Section old new after)
    (hold : old ≠ .start .reloaded) (n : Nat) :
    (after.loops[n]?).map WatchLoop.phase =
      (life.loops[n]?).map WatchLoop.phase := by
  have hsignal : ∀ loop, ((life.signal loop).loops[n]?).map WatchLoop.phase =
      (life.loops[n]?).map WatchLoop.phase := by
    intro loop
    cases loop with
    | none => rfl
    | some m =>
        simp only [Lifecycle.signal, List.getElem?_modify, Option.map_eq_map,
          Option.map_map]
        apply congrArg (fun phase => Option.map phase life.loops[n]?)
        funext loop
        simp only [Function.comp_apply]
        split <;> rfl
  cases h with
  | spawn _ | pass => exact absurd rfl hold
  | drop _ loop | signal loop => exact hsignal loop
  | _ => rfl

theorem Joined.goOn (h : life.Joined) {new : Visit}
    (hvisits : Changes life.visits after.visits index new)
    (hphase : after.phase = life.phase ∨ after.phase = .closed)
    (hactive : new.active = false)
    (hloops : ∀ n : Nat, (after.loops[n]?).map WatchLoop.phase =
      (life.loops[n]?).map WatchLoop.phase)
    (hslot : ∀ n, life.slot = some n → after.slot = some n ∨ Awaits new n)
    (hold : ∀ (old : Visit) (n : Nat), life.visits[index]? = some old → Awaits old n →
      Awaits new n ∨ (life.loops[n]?).map WatchLoop.phase = some .stopped) :
    after.Joined where
  begun := by
    rcases hphase with heq | hclosed
    · exact heq ▸ h.begun
    · exact .inr hclosed
  finished := by
    intro visit hm
    rcases hvisits.mem_cases hm with rfl | hm
    · exact hactive
    · exact h.finished visit hm
  joined := by
    intro n phase hn
    rw [hloops] at hn
    rcases h.joined n phase hn with hstopped | hfull | ⟨visit, hm, hawaits⟩
    · exact .inl hstopped
    · exact .inr ((hslot n hfull).imp_right fun h => ⟨new, hvisits.new_mem, h⟩)
    · rcases hvisits.mem_or hm with hm | hindex
      · exact .inr (.inr ⟨visit, hm, hawaits⟩)
      · rcases hold visit n hindex hawaits with hawaits | hstopped
        · exact .inr (.inr ⟨new, hvisits.new_mem, hawaits⟩)
        · exact .inl (Option.some.inj (hn.symm.trans hstopped))

theorem Joined.sections (h : life.Joined) {old new : Visit}
    (hsection : life.Section old new after)
    (hold : life.visits[index]? = some old)
    (hjoining : ∀ n, old = .close (.joining n) →
      (life.loops[n]?).map WatchLoop.phase = some .stopped) :
    (after.put index new).Joined := by
  have hidle := h.finished old (List.mem_of_getElem? hold)
  have hreloaded : old ≠ .start .reloaded := by
    rintro rfl
    cases hidle
  have hhands : (∀ n, Awaits old n → Awaits new n ∨ old = .close (.joining n)) →
      ∀ other n, life.visits[index]? = some other → Awaits other n →
        Awaits new n ∨ (life.loops[n]?).map WatchLoop.phase = some .stopped := by
    intro hkeeps other n hother hawaits
    rw [hold] at hother
    cases hother
    exact (hkeeps n hawaits).imp_right (hjoining n)
  have hvisits := hsection.changes hold
  have hloops := hsection.phases hreloaded
  cases hsection with
  | claim hphase => exact absurd hphase (by rcases h.begun with h | h <;> simp [h])
  | reload _ | spawn _ | pass | hand _ _ | drop _ _ => cases hidle
  | ignore _ =>
      apply h.goOn hvisits (.inl rfl) rfl hloops (fun n => .inl)
      exact hhands (by simp [Awaits])
  | mark =>
      apply h.goOn hvisits (.inr rfl) rfl hloops (fun n => .inl)
      exact hhands (by simp [Awaits])
  | take =>
      apply h.goOn hvisits (.inl rfl) rfl hloops
      · intro n hslot
        exact .inr (.inl (by rw [hslot]))
      · exact hhands (by simp [Awaits])
  | signal loop =>
      apply h.goOn hvisits (.inl (phase_signal ..)) rfl hloops
      · intro n hslot
        exact .inl (by cases loop <;> exact hslot)
      · apply hhands
        rintro n (heq | heq)
        · cases heq
          exact .inl (.inr rfl)
        · cases heq
  | join m =>
      apply h.goOn hvisits (.inl rfl) rfl hloops (fun n => .inl)
      apply hhands
      rintro n (heq | heq)
      · cases heq
      · exact .inr heq

theorem Joined.step (h : life.Joined) (move : Move) : (life.step move).Joined := by
  have hissue : ∀ new : Visit, new.active = false → (life.issue new).Joined := by
    intro new hactive
    refine h.goOn (changes_concat life.visits new) (.inl rfl) hactive
      (fun _ => rfl) (fun n hslot => .inl hslot) ?_
    intro old n hold
    simp at hold
  cases move with
  | start => exact hissue _ rfl
  | close => exact hissue _ rfl
  | publish _ => exact ⟨h.begun, h.finished, h.joined⟩
  | turn m turn =>
      refine ⟨h.begun, h.finished, fun n phase hphase => ?_⟩
      obtain ⟨loop, hn, rfl⟩ := Option.map_eq_some_iff.mp hphase
      rcases loops_modify_cases hn with ⟨-, hsame⟩ | ⟨before, -, hbefore, rfl⟩
      · exact h.joined n _ (congrArg _ hsame)
      · exact (h.joined n _ (congrArg _ hbefore)).imp_left phase_of_stopped
  | advance index outcome tree here =>
      rcases life.step_advance_cases index outcome tree here with
        heq | ⟨old, new, after, hold, hsection, heq⟩
      · rwa [heq]
      · by_cases hsame : life.step (.advance index outcome tree here) = life
        · rwa [hsame]
        · rw [heq]
          apply h.sections hsection hold
          rintro n rfl
          exact (step_joining hold outcome tree here).resolve_left hsame

theorem Joined.run (h : life.Joined) (moves : List Move) :
    (life.run moves).Joined := by
  induction moves generalizing life with
  | nil => exact h
  | cons move rest ih => exact ih (h.step move)

/-- Once the closes that began have returned, the loop has stopped. -/
theorem Joined.stopped (h : life.Joined) (hlawful : life.Lawful)
    (hreturned : ∀ stage, .close stage ∈ life.visits → stage = .done)
    (hclosed : life.phase = .closed) {loop : WatchLoop} (hm : loop ∈ life.loops) :
    loop.phase = .stopped := by
  obtain ⟨n, hn⟩ := List.mem_iff_getElem?.mp hm
  rcases h.joined n loop.phase (congrArg _ hn) with
    hstopped | hslot | ⟨visit, hm, rfl | rfl⟩
  · exact hstopped
  · cases hreturned _ (hlawful.kept.taking hclosed (by simp [hslot]))
  · cases hreturned _ hm
  · cases hreturned _ hm

end Lifecycle

end Source

end VersionedFlags
