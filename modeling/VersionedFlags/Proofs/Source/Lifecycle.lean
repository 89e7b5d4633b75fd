import VersionedFlags.Proofs.Source.Watching

/-!
# The lifecycle of a source

Calls of start and close overlap in any way.  A start claims the source, loads
the files and creates its watcher with nothing locked, and hands the watch loop
over at its end; a close marks the source closed first and takes the loop
afterwards.  One start at most gets through its claim, so there is one loop at
most, and whoever finds the source closed while it holds the loop signals it.
-/

namespace VersionedFlags

namespace Source

open Files (FileTree Location WatchLoop Event)

/-- How the phase goes on. -/
inductive Phase.Leads : Phase → Phase → Prop where
  | stay (phase : Phase) : Leads phase phase
  | claim : Leads .stopped .starting
  | finish : Leads .starting .running
  | close (phase : Phase) : Leads phase .closed

theorem Phase.Leads.eq_closed {phase : Phase} (h : Leads .closed phase) :
    phase = .closed := by
  cases h <;> rfl

/-! ## Calls -/

inductive StartStage where
  | entered
  /-- The initial reload is under way. -/
  | reloading
  | reloaded
  /-- A loop of this number is to be handed over, if there is one. -/
  | handing (loop : Option Nat)
  | done
  | ignored
  deriving DecidableEq, Repr

inductive CloseStage where
  | entered
  /-- The source is marked closed. -/
  | taking
  | signalling (loop : Option Nat)
  | joining (loop : Nat)
  | done
  deriving DecidableEq, Repr

/-- A loop that was signalled is waited for. -/
def CloseStage.join : Option Nat → CloseStage
  | some loop => .joining loop
  | none => .done

inductive Visit where
  | start (stage : StartStage)
  | close (stage : CloseStage)
  deriving DecidableEq, Repr

namespace Visit

def ended : Visit → Bool
  | .start .done | .start .ignored | .close .done => true
  | .start _ | .close _ => false

/-- A start past its claim of the source. -/
def claims : Visit → Bool
  | .start .entered | .start .ignored | .close _ => false
  | .start _ => true

/-- A start past its claim that has not ended. -/
def active : Visit → Bool
  | .start .reloading | .start .reloaded | .start (.handing _) => true
  | .start _ | .close _ => false

/-- A start past the creation of its watcher. -/
def created : Visit → Bool
  | .start (.handing _) | .start .done => true
  | .start _ | .close _ => false

/-- A close past its mark. -/
def hasClosed : Visit → Bool
  | .close .entered | .start _ => false
  | .close _ => true

/-- The loop that the call has in its hands and has not signalled. -/
def held? : Visit → Option Nat
  | .start (.handing loop) | .close (.signalling loop) => loop
  | .start _ | .close _ => none

variable {visit : Visit}

theorem claims_of_active (h : visit.active = true) : visit.claims = true := by
  rcases visit with (_ | _ | _ | _ | _ | _) | _ <;> first | rfl | cases h

theorem held?_of_ended (h : visit.ended = true) : visit.held? = none := by
  rcases visit with (_ | _ | _ | _ | _ | _) | (_ | _ | _ | _ | _) <;>
    first | rfl | cases h

theorem claims_of_created (h : visit.created = true) : visit.claims = true := by
  rcases visit with (_ | _ | _ | _ | _ | _) | _ <;> first | rfl | cases h

end Visit

/-! ## Courses -/

/-- A source with its calls of start and close, each between two of its
sections. -/
structure Lifecycle where
  settings : Settings
  phase : Phase
  initialized : Bool
  outcomes : Channel ReloadOutcome
  /-- Every loop that was ever spawned. -/
  loops : List WatchLoop
  /-- The number of the loop that a close may take. -/
  slot : Option Nat
  visits : List Visit
  deriving DecidableEq, Repr

namespace Lifecycle

/-- What a loop does on its own.  It reads what was delivered before it finds
that its watcher has stopped. -/
inductive Turn where
  | deliver (event : Event)
  | wake
  | reload
  | finish
  | halt
  | lose
  deriving DecidableEq, Repr

def Turn.change (turn : Turn) (loop : WatchLoop) : WatchLoop :=
  match turn with
  | .deliver event => loop.deliver event
  | .wake => loop.wake?.getD loop
  | .reload => loop.reload?.getD loop
  | .finish => loop.finish?.getD loop
  | .halt => loop.halt?.getD loop
  | .lose =>
      if loop.phase = .waiting ∧ loop.queue = [] then
        { loop with phase := .stopped }
      else loop

inductive Move where
  | start
  | close
  /-- A call runs its next section.  The reload of a start comes to the outcome,
  and its watcher is created in the tree. -/
  | advance (index : Nat) (outcome : ReloadOutcome) (tree : FileTree)
      (here : Location)
  | turn (loop : Nat) (turn : Turn)
  /-- A reload of the loop or on demand ends. -/
  | publish (outcome : ReloadOutcome)

def initial (settings : Settings) : Lifecycle :=
  let source := ofSettings settings
  ⟨settings, source.phase, source.initialized, source.outcomes, [], none, []⟩

/-- The source as everybody sees it. -/
def source (life : Lifecycle) : Source :=
  ⟨life.settings, life.phase, life.initialized, life.outcomes,
    life.slot.bind (life.loops[·]?)⟩

def adopt (life : Lifecycle) (source : Source) : Lifecycle :=
  { life with
    phase := source.phase
    initialized := source.initialized
    outcomes := source.outcomes }

def put (life : Lifecycle) (index : Nat) (visit : Visit) : Lifecycle :=
  { life with visits := life.visits.set index visit }

def issue (life : Lifecycle) (visit : Visit) : Lifecycle :=
  { life with visits := life.visits ++ [visit] }

def signal (life : Lifecycle) : Option Nat → Lifecycle
  | some loop => { life with loops := life.loops.modify loop WatchLoop.signal }
  | none => life

/-- The last section of a start: if the source was closed meanwhile the loop is
signalled.  It fills the slot while it keeps the phase locked, and a close empties
the slot after it has locked the phase, so nothing comes between. -/
def hand (life : Lifecycle) (loop : Option Nat) : Lifecycle :=
  match life.phase with
  | .closed => life.signal loop
  | _ =>
      { life.adopt (life.source.finishStart (loop.bind (life.loops[·]?))) with
        slot := loop }

def advanceStart (life : Lifecycle) (index : Nat) (outcome : ReloadOutcome)
    (tree : FileTree) (here : Location) : StartStage → Lifecycle
  | .entered =>
      match life.source.claim? with
      | some source => (life.adopt source).put index (.start .reloading)
      | none => life.put index (.start .ignored)
  | .reloading =>
      (life.adopt (life.source.publish outcome)).put index (.start .reloaded)
  | .reloaded =>
      match watchLoop? life.settings tree here with
      | some loop =>
          { life with loops := life.loops ++ [loop] }.put index
            (.start (.handing (some life.loops.length)))
      | none => life.put index (.start (.handing none))
  | .handing loop => (life.hand loop).put index (.start .done)
  | .done | .ignored => life

def advanceClose (life : Lifecycle) (index : Nat) : CloseStage → Lifecycle
  | .entered => { life with phase := .closed }.put index (.close .taking)
  | .taking =>
      { life with slot := none }.put index (.close (.signalling life.slot))
  | .signalling loop => (life.signal loop).put index (.close (.join loop))
  | .joining loop =>
      if life.loops[loop]?.map WatchLoop.phase = some .stopped then
        life.put index (.close .done)
      else life
  | .done => life

/-- A move that is not possible changes nothing. -/
def step (life : Lifecycle) : Move → Lifecycle
  | .start => life.issue (.start .entered)
  | .close => life.issue (.close .entered)
  | .advance index outcome tree here =>
      match life.visits[index]? with
      | some (.start stage) => life.advanceStart index outcome tree here stage
      | some (.close stage) => life.advanceClose index stage
      | none => life
  | .turn loop turn =>
      { life with loops := life.loops.modify loop turn.change }
  | .publish outcome => life.adopt (life.source.publish outcome)

def run (life : Lifecycle) (moves : List Move) : Lifecycle := moves.foldl step life

/-! ## Sections and calls -/

variable {life after : Lifecycle} {index : Nat} {old new visit : Visit}
  {outcome : ReloadOutcome} {tree : FileTree} {here : Location}

theorem step_start {stage : StartStage}
    (h : life.visits[index]? = some (.start stage)) :
    life.step (.advance index outcome tree here) =
      life.advanceStart index outcome tree here stage := by
  rw [step, h]

theorem step_close {stage : CloseStage}
    (h : life.visits[index]? = some (.close stage)) :
    life.step (.advance index outcome tree here) =
      life.advanceClose index stage := by
  rw [step, h]

theorem step_put_start {stage : StartStage} (h : index < life.visits.length) :
    (life.put index (.start stage)).step (.advance index outcome tree here) =
      (life.put index (.start stage)).advanceStart index outcome tree here stage :=
  step_start (List.getElem?_set_self h)

theorem step_put_close {stage : CloseStage} (h : index < life.visits.length) :
    (life.put index (.close stage)).step (.advance index outcome tree here) =
      (life.put index (.close stage)).advanceClose index stage :=
  step_close (List.getElem?_set_self h)

@[simp] theorem phase_signal (life : Lifecycle) (loop : Option Nat) :
    (life.signal loop).phase = life.phase := by
  cases loop <;> rfl

@[simp] theorem visits_signal (life : Lifecycle) (loop : Option Nat) :
    (life.signal loop).visits = life.visits := by
  cases loop <;> rfl

theorem hand_of_closed (h : life.phase = .closed) (loop : Option Nat) :
    life.hand loop = life.signal loop := by
  rw [hand, h]

theorem hand_of_open (h : life.phase ≠ .closed) (loop : Option Nat) :
    life.hand loop = { life with phase := .running, slot := loop } := by
  obtain ⟨settings, phase, initialized, outcomes, loops, slot, visits⟩ := life
  cases phase with
  | stopped | starting | running => rfl
  | closed => exact absurd rfl h

/-- A start that nothing interrupts after its reload hands over what watches the
files. -/
theorem source_hand_alone (hvisit : life.visits[index]? = some (.start .reloaded))
    (hphase : life.phase = .starting) (outcome : ReloadOutcome) (tree : FileTree)
    (here : Location) :
    (life.run (.replicate 2 (.advance index outcome tree here))).source =
      life.source.finishStart (watchLoop? life.settings tree here) := by
  have hlt : index < life.visits.length := (List.getElem?_eq_some_iff.mp hvisit).1
  have hopen : life.phase ≠ .closed := by simp [hphase]
  simp only [run, List.replicate, List.foldl_cons, List.foldl_nil,
    step_start hvisit, advanceStart]
  cases hloop : watchLoop? life.settings tree here with
  | none =>
      simp only
      rw [step_put_start hlt, advanceStart, hand_of_open, finishStart_eq hphase]
      · rfl
      · exact hopen
  | some loop =>
      simp only
      rw [step_put_start, advanceStart, hand_of_open, finishStart_eq hphase]
      · simp [source, put]
      · exact hopen
      · exact hlt

/-- A start that nothing interrupts claims the source, reloads and watches, one
after the other. -/
theorem source_start_alone (hvisit : life.visits[index]? = some (.start .entered))
    {next : Source} (hclaim : life.source.claim? = some next)
    (outcome : ReloadOutcome) (tree : FileTree) (here : Location) :
    (life.run (.replicate 4 (.advance index outcome tree here))).source =
      (next.publish outcome).finishStart (watchLoop? life.settings tree here) := by
  have hlt : index < life.visits.length := (List.getElem?_eq_some_iff.mp hvisit).1
  obtain ⟨hphase, rfl⟩ := claim?_eq hclaim
  simp only [run, List.replicate, List.foldl_cons, List.foldl_nil,
    step_start hvisit, advanceStart, hclaim]
  rw [step_put_start]
  · refine source_hand_alone (List.getElem?_set_self ?_) rfl outcome tree here
    exact (List.length_set ..).symm ▸ hlt
  · exact hlt

/-- A close that nothing interrupts leaves the source closed and without its
loop. -/
theorem source_close_alone (hvisit : life.visits[index]? = some (.close .entered))
    (outcome : ReloadOutcome) (tree : FileTree) (here : Location) :
    (life.run (.replicate 2 (.advance index outcome tree here))).source =
      life.source.close := by
  have hlt : index < life.visits.length := (List.getElem?_eq_some_iff.mp hvisit).1
  simp only [run, List.replicate, List.foldl_cons, List.foldl_nil,
    step_close hvisit, advanceClose]
  rw [step_put_close]
  · rfl
  · exact hlt

/-- What a section does: the call goes on from one stage to another, and the
source becomes `after`. -/
inductive Section (life : Lifecycle) : Visit → Visit → Lifecycle → Prop where
  | claim (h : life.phase = .stopped) :
      Section life (.start .entered) (.start .reloading)
        { life with phase := .starting }
  | ignore (h : life.phase ≠ .stopped) :
      Section life (.start .entered) (.start .ignored) life
  | reload (outcome : ReloadOutcome) :
      Section life (.start .reloading) (.start .reloaded)
        (life.adopt (life.source.publish outcome))
  | spawn (loop : WatchLoop) :
      Section life (.start .reloaded) (.start (.handing (some life.loops.length)))
        { life with loops := life.loops ++ [loop] }
  | pass : Section life (.start .reloaded) (.start (.handing none)) life
  | hand (h : life.phase ≠ .closed) (loop : Option Nat) :
      Section life (.start (.handing loop)) (.start .done)
        { life with phase := .running, slot := loop }
  | drop (h : life.phase = .closed) (loop : Option Nat) :
      Section life (.start (.handing loop)) (.start .done) (life.signal loop)
  | mark :
      Section life (.close .entered) (.close .taking)
        { life with phase := .closed }
  | take :
      Section life (.close .taking) (.close (.signalling life.slot))
        { life with slot := none }
  | signal (loop : Option Nat) :
      Section life (.close (.signalling loop)) (.close (.join loop))
        (life.signal loop)
  | join (loop : Nat) : Section life (.close (.joining loop)) (.close .done) life

theorem step_advance_cases (life : Lifecycle) (index : Nat)
    (outcome : ReloadOutcome) (tree : FileTree) (here : Location) :
    life.step (.advance index outcome tree here) = life ∨
      ∃ old new after, life.visits[index]? = some old ∧
        life.Section old new after ∧
        life.step (.advance index outcome tree here) = after.put index new := by
  cases hvisit : life.visits[index]? with
  | none => exact .inl (by rw [step, hvisit])
  | some visit =>
      cases visit with
      | start stage =>
          rw [step_start hvisit]
          cases stage with
          | entered =>
              refine .inr ?_
              cases hclaim : life.source.claim? with
              | none =>
                  have hphase : life.phase ≠ .stopped := fun h => by
                    simp [claim?, source, h] at hclaim
                  exact ⟨_, _, _, rfl, .ignore hphase, by
                    simp only [advanceStart, hclaim]⟩
              | some next =>
                  obtain ⟨hphase, rfl⟩ := claim?_eq hclaim
                  exact ⟨_, _, _, rfl, .claim hphase, by
                    simp only [advanceStart, hclaim]; rfl⟩
          | reloading => exact .inr ⟨_, _, _, rfl, .reload outcome, rfl⟩
          | reloaded =>
              refine .inr ?_
              cases hloop : watchLoop? life.settings tree here with
              | none =>
                  exact ⟨_, _, _, rfl, .pass, by
                    simp only [advanceStart, hloop]⟩
              | some loop =>
                  exact ⟨_, _, _, rfl, .spawn loop, by
                    simp only [advanceStart, hloop]⟩
          | handing loop =>
              refine .inr ?_
              by_cases hphase : life.phase = .closed
              · exact ⟨_, _, _, rfl, .drop hphase loop, by
                  rw [advanceStart, hand_of_closed hphase]⟩
              · exact ⟨_, _, _, rfl, .hand hphase loop, by
                  rw [advanceStart, hand_of_open hphase]⟩
          | done | ignored => exact .inl rfl
      | close stage =>
          rw [step_close hvisit]
          cases stage with
          | entered => exact .inr ⟨_, _, _, rfl, .mark, rfl⟩
          | taking => exact .inr ⟨_, _, _, rfl, .take, rfl⟩
          | signalling loop => exact .inr ⟨_, _, _, rfl, .signal loop, rfl⟩
          | joining loop =>
              simp only [advanceClose]
              split
              · exact .inr ⟨_, _, _, rfl, .join loop, rfl⟩
              · exact .inl rfl
          | done => exact .inl rfl

theorem Section.visits (h : life.Section old new after) :
    after.visits = life.visits := by
  cases h with
  | drop _ loop | signal loop => exact life.visits_signal loop
  | _ => rfl

/-! ## The order of the phases -/

/-- One call is new or has gone on; the others are as before. -/
def Changes (before after : List Visit) (index : Nat) (new : Visit) : Prop :=
  ∀ i visit, after[i]? = some visit ↔
    (i = index ∧ visit = new) ∨ (i ≠ index ∧ before[i]? = some visit)

section Changes

variable {before later : List Visit}

theorem changes_set (h : before[index]? = some old) :
    Changes before (before.set index new) index new := by
  intro i visit
  rw [List.getElem?_set]
  by_cases heq : index = i
  · subst heq
    simp [(List.getElem?_eq_some_iff.mp h).1, eq_comm]
  · simp [heq, Ne.symm heq]

theorem changes_concat (before : List Visit) (new : Visit) :
    Changes before (before ++ [new]) before.length new := by
  intro i visit
  rcases Nat.lt_trichotomy i before.length with hlt | rfl | hlt
  · simp [List.getElem?_append_left hlt, Nat.ne_of_lt hlt]
  · simp [eq_comm]
  · have hnone : (before ++ [new])[i]? = none :=
      List.getElem?_eq_none (by simpa using Nat.succ_le_of_lt hlt)
    simp [hnone, Nat.ne_of_gt hlt, List.getElem?_eq_none (Nat.le_of_lt hlt)]

theorem Changes.mem_cases (h : Changes before later index new)
    (hm : visit ∈ later) : visit = new ∨ visit ∈ before := by
  obtain ⟨i, hi⟩ := List.mem_iff_getElem?.mp hm
  exact ((h i visit).mp hi).imp And.right fun hbefore =>
    List.mem_of_getElem? hbefore.2

theorem Changes.new_mem (h : Changes before later index new) : new ∈ later :=
  List.mem_of_getElem? ((h index new).mpr (.inl ⟨rfl, rfl⟩))

/-- A call that was there is there still, unless it is the one that has gone
on. -/
theorem Changes.mem_or (h : Changes before later index new) (hm : visit ∈ before) :
    visit ∈ later ∨ before[index]? = some visit := by
  obtain ⟨i, hi⟩ := List.mem_iff_getElem?.mp hm
  by_cases heq : i = index
  · exact .inr (heq ▸ hi)
  · exact .inl (List.mem_of_getElem? ((h i visit).mpr (.inr ⟨heq, hi⟩)))

theorem Changes.mem_of_ne (h : Changes before later index new)
    (hold : before[index]? = some old) (hm : visit ∈ before) (hne : visit ≠ old) :
    visit ∈ later := by
  refine (h.mem_or hm).resolve_right fun hindex => hne ?_
  exact Option.some.inj (hindex.symm.trans hold)

/-- Only the start in one place is past its claim. -/
def Single (visits : List Visit) : Prop :=
  ∃ place, ∀ (i : Nat) (visit : Visit),
    visits[i]? = some visit → visit.claims = true → i = place

theorem Single.eq (h : Single before) {i j : Nat} {first second : Visit}
    (hfirst : before[i]? = some first) (hsecond : before[j]? = some second)
    (hi : first.claims = true) (hj : second.claims = true) : i = j := by
  obtain ⟨place, hplace⟩ := h
  exact (hplace i first hfirst hi).trans (hplace j second hsecond hj).symm

theorem Single.goOn (hsingle : Single before)
    (h : Changes before later index new)
    (hclaims : new.claims = true →
      ∃ old, before[index]? = some old ∧ old.claims = true) : Single later := by
  obtain ⟨place, hplace⟩ := hsingle
  refine ⟨place, fun i visit hi hclaimed => ?_⟩
  rcases (h i visit).mp hi with ⟨rfl, rfl⟩ | ⟨-, hi⟩
  · obtain ⟨old, hold, hbefore⟩ := hclaims hclaimed
    exact hplace i old hold hbefore
  · exact hplace i visit hi hclaimed

end Changes

theorem Section.changes (h : life.Section old new after)
    (hold : life.visits[index]? = some old) :
    Changes life.visits (after.put index new).visits index new := by
  rw [put, h.visits]
  exact changes_set hold

/-- One start at most is past its claim, and the phase tells how far the calls
have come. -/
structure Ordered (life : Lifecycle) : Prop where
  single : Single life.visits
  fresh : life.phase = .stopped → ∀ visit ∈ life.visits, visit.claims = false
  starting : ∀ visit ∈ life.visits, visit.active = true →
    life.phase = .starting ∨ life.phase = .closed
  closed : ∀ visit ∈ life.visits, visit.hasClosed = true → life.phase = .closed

/-- A call begins, or goes on where it stands. -/
theorem Ordered.goOn (h : life.Ordered)
    (hvisits : Changes life.visits after.visits index new)
    (hphase : after.phase = life.phase ∨ after.phase = .closed)
    (hclaims : new.claims = true →
      ∃ old, life.visits[index]? = some old ∧ old.claims = true)
    (hactive : new.active = true → ∃ old ∈ life.visits, old.active = true)
    (hclosed : new.hasClosed = true → after.phase = .closed) : after.Ordered where
  single := h.single.goOn hvisits hclaims
  fresh := by
    intro hstopped visit hm
    have hbefore : life.phase = .stopped := by
      rcases hphase with heq | heq
      · exact heq ▸ hstopped
      · rw [hstopped] at heq
        cases heq
    rcases hvisits.mem_cases hm with rfl | hm
    · refine Bool.eq_false_iff.mpr fun hnew => ?_
      obtain ⟨old, hold, hclaimed⟩ := hclaims hnew
      rw [h.fresh hbefore old (List.mem_of_getElem? hold)] at hclaimed
      cases hclaimed
    · exact h.fresh hbefore visit hm
  starting := by
    intro visit hm hrunning
    obtain ⟨other, hother, hbefore⟩ : ∃ old ∈ life.visits, old.active = true := by
      rcases hvisits.mem_cases hm with rfl | hm
      · exact hactive hrunning
      · exact ⟨visit, hm, hrunning⟩
    rcases hphase with heq | heq
    · exact heq ▸ h.starting other hother hbefore
    · exact .inr heq
  closed := by
    intro visit hm hpast
    rcases hvisits.mem_cases hm with rfl | hm
    · exact hclosed hpast
    · rcases hphase with heq | heq
      · exact heq.trans (h.closed visit hm hpast)
      · exact heq

/-- The claim is made when no start is past it. -/
theorem Ordered.claim (h : life.Ordered) (hphase : life.phase = .stopped)
    (hvisits : Changes life.visits after.visits index (.start .reloading))
    (hafter : after.phase = .starting) : after.Ordered where
  single := by
    refine ⟨index, fun i visit hi hclaimed => ?_⟩
    rcases (hvisits i visit).mp hi with ⟨rfl, -⟩ | ⟨-, hi⟩
    · rfl
    · rw [h.fresh hphase visit (List.mem_of_getElem? hi)] at hclaimed
      cases hclaimed
  fresh := by simp [hafter]
  starting := fun _ _ _ => .inl hafter
  closed := by
    intro visit hm hpast
    rcases hvisits.mem_cases hm with rfl | hm
    · cases hpast
    · rw [h.closed visit hm hpast] at hphase
      cases hphase

/-- The start that is past its claim comes to its end, and the source runs. -/
theorem Ordered.hand (h : life.Ordered) {loop : Option Nat}
    (hold : life.visits[index]? = some (.start (.handing loop)))
    (hphase : life.phase ≠ .closed)
    (hvisits : Changes life.visits after.visits index (.start .done))
    (hafter : after.phase = .running) : after.Ordered where
  single := h.single.goOn hvisits fun _ => ⟨_, hold, rfl⟩
  fresh := by simp [hafter]
  starting := by
    intro visit hm hactive
    obtain ⟨i, hi⟩ := List.mem_iff_getElem?.mp hm
    rcases (hvisits i visit).mp hi with ⟨-, rfl⟩ | ⟨hne, hi⟩
    · cases hactive
    · exact absurd (h.single.eq hi hold (Visit.claims_of_active hactive) rfl) hne
  closed := by
    intro visit hm hpast
    rcases hvisits.mem_cases hm with rfl | hm
    · cases hpast
    · exact absurd (h.closed visit hm hpast) hphase

theorem Ordered.sections (h : life.Ordered) (hsection : life.Section old new after)
    (hold : life.visits[index]? = some old) : (after.put index new).Ordered := by
  have hvisits := hsection.changes hold
  have hm := List.mem_of_getElem? hold
  cases hsection with
  | claim hphase => exact h.claim hphase hvisits rfl
  | hand hphase loop => exact h.hand hold hphase hvisits rfl
  | ignore _ => exact h.goOn hvisits (.inl rfl) nofun nofun nofun
  | reload _ | spawn _ | pass =>
      exact h.goOn hvisits (.inl rfl) (fun _ => ⟨_, hold, rfl⟩)
        (fun _ => ⟨_, hm, rfl⟩) nofun
  | drop hphase loop =>
      exact h.goOn hvisits (.inl (life.phase_signal loop))
        (fun _ => ⟨_, hold, rfl⟩) nofun nofun
  | mark => exact h.goOn hvisits (.inr rfl) nofun nofun fun _ => rfl
  | take | join _ =>
      exact h.goOn hvisits (.inl rfl) nofun nofun fun _ => h.closed _ hm rfl
  | signal loop =>
      have hphase := life.phase_signal loop
      exact h.goOn hvisits (.inl hphase) nofun nofun fun _ =>
        hphase.trans (h.closed _ hm rfl)

/-! ## Where the loop is -/

theorem loops_modify_cases {loops : List WatchLoop}
    {change : WatchLoop → WatchLoop} {n m : Nat} {found : WatchLoop}
    (h : (loops.modify n change)[m]? = some found) :
    (m ≠ n ∧ loops[m]? = some found) ∨
      ∃ loop, m = n ∧ loops[m]? = some loop ∧ found = change loop := by
  rw [List.getElem?_modify] at h
  obtain ⟨loop, hloop, rfl⟩ := Option.map_eq_some_iff.mp h
  by_cases heq : n = m
  · exact .inr ⟨loop, heq.symm, hloop, if_pos heq⟩
  · exact .inl ⟨Ne.symm heq, hloop.trans (congrArg some (if_neg heq).symm)⟩

/-- The loop of this number is signalled, or it waits for that in the slot or in
the hands of a call. -/
def Placed (life : Lifecycle) (n : Nat) (loop : WatchLoop) : Prop :=
  loop.stopping = true ∨ life.slot = some n ∨
    ∃ visit ∈ life.visits, visit.held? = some n

theorem Placed.goOn {n : Nat} {loop : WatchLoop} (h : life.Placed n loop)
    (hvisits : Changes life.visits after.visits index new)
    (hslot : life.slot = some n → after.Placed n loop)
    (hheld : ∀ old, life.visits[index]? = some old → old.held? = some n →
      after.Placed n loop) : after.Placed n loop := by
  rcases h with hstopping | hkept | ⟨visit, hm, hvisit⟩
  · exact .inl hstopping
  · exact hslot hkept
  · rcases hvisits.mem_or hm with hm | hindex
    · exact .inr (.inr ⟨visit, hm, hvisit⟩)
    · exact hheld visit hindex hvisit

/-- There is one loop at most.  While it is in the slot of a closed source, a
close is going to take it. -/
structure Kept (life : Lifecycle) : Prop where
  few : life.loops.length ≤ 1
  created : life.loops ≠ [] → ∃ visit ∈ life.visits, visit.created = true
  filled : life.slot ≠ none → life.phase = .running ∨ life.phase = .closed
  placed : ∀ n loop, life.loops[n]? = some loop → life.Placed n loop
  taking : life.phase = .closed → life.slot ≠ none → .close .taking ∈ life.visits

/-- A call that has no loop in its hands begins or goes on. -/
theorem Kept.goOn (h : life.Kept)
    (hvisits : Changes life.visits after.visits index new)
    (hloops : after.loops = life.loops) (hslot : after.slot = life.slot)
    (hold : ∀ old, life.visits[index]? = some old → old.held? = none ∧
      (old.created = true → new.created = true) ∧ old ≠ .close .taking)
    (hfilled : life.slot ≠ none → after.phase = .running ∨ after.phase = .closed)
    (hclosed : after.phase = .closed →
      life.phase = .closed ∨ new = .close .taking) : after.Kept where
  few := hloops ▸ h.few
  created := by
    intro hne
    obtain ⟨visit, hm, hcreated⟩ := h.created (hloops ▸ hne)
    rcases hvisits.mem_or hm with hm | hindex
    · exact ⟨visit, hm, hcreated⟩
    · exact ⟨new, hvisits.new_mem, (hold visit hindex).2.1 hcreated⟩
  filled := hslot ▸ hfilled
  placed := by
    rw [hloops]
    intro n loop hn
    refine (h.placed n loop hn).goOn hvisits (fun hkept => ?_) ?_
    · exact .inr (.inl (hslot.trans hkept))
    · intro old hindex hheld
      rw [(hold old hindex).1] at hheld
      cases hheld
  taking := by
    rw [hslot]
    intro hphase hfull
    rcases hclosed hphase with hbefore | rfl
    · rcases hvisits.mem_or (h.taking hbefore hfull) with hm | hindex
      · exact hm
      · exact absurd rfl (hold _ hindex).2.2
    · exact hvisits.new_mem

/-- A start that creates its watcher is the first to do so. -/
theorem Kept.spawn (h : life.Kept) (hordered : life.Ordered)
    (hold : life.visits[index]? = some (.start .reloaded))
    (hvisits : Changes life.visits after.visits index
      (.start (.handing (some life.loops.length)))) (loop : WatchLoop)
    (hloops : after.loops = life.loops ++ [loop]) (hslot : after.slot = life.slot)
    (hphase : after.phase = life.phase) : after.Kept where
  few := by
    have hempty : life.loops = [] := by
      by_contra hne
      obtain ⟨visit, hm, hcreated⟩ := h.created hne
      obtain ⟨i, hi⟩ := List.mem_iff_getElem?.mp hm
      obtain rfl :=
        hordered.single.eq hi hold (Visit.claims_of_created hcreated) rfl
      rw [hold] at hi
      cases hi
      cases hcreated
    simp [hloops, hempty]
  created := fun _ => ⟨_, hvisits.new_mem, rfl⟩
  filled := by
    rw [hslot, hphase]
    exact h.filled
  placed := by
    rw [hloops]
    intro n found hn
    rcases Nat.lt_trichotomy n life.loops.length with hlt | rfl | hlt
    · rw [List.getElem?_append_left hlt] at hn
      refine (h.placed n found hn).goOn hvisits (fun hkept => ?_) ?_
      · exact .inr (.inl (hslot.trans hkept))
      · intro old hindex hheld
        rw [hold] at hindex
        cases hindex
        cases hheld
    · exact .inr (.inr ⟨_, hvisits.new_mem, rfl⟩)
    · rw [List.getElem?_eq_none (by simpa using Nat.succ_le_of_lt hlt)] at hn
      cases hn
  taking := by
    rw [hslot, hphase]
    exact fun hclosed hfull =>
      hvisits.mem_of_ne hold (h.taking hclosed hfull) nofun

/-- The slot is empty when a start hands its loop over. -/
theorem Kept.hand (h : life.Kept) (hordered : life.Ordered) {loop : Option Nat}
    (hold : life.visits[index]? = some (.start (.handing loop)))
    (hopen : life.phase ≠ .closed)
    (hvisits : Changes life.visits after.visits index (.start .done))
    (hloops : after.loops = life.loops) (hslot : after.slot = loop)
    (hphase : after.phase = .running) : after.Kept where
  few := hloops ▸ h.few
  created := fun _ => ⟨_, hvisits.new_mem, rfl⟩
  filled := fun _ => .inl hphase
  placed := by
    have hstarting : life.phase = .starting :=
      (hordered.starting _ (List.mem_of_getElem? hold) rfl).resolve_right hopen
    have hempty : life.slot = none := by
      by_contra hfull
      rcases h.filled hfull with hrunning | hclosed
      · rw [hstarting] at hrunning
        cases hrunning
      · exact hopen hclosed
    rw [hloops]
    intro n found hn
    refine (h.placed n found hn).goOn hvisits (fun hkept => ?_) ?_
    · rw [hempty] at hkept
      cases hkept
    · intro old hindex hheld
      rw [hold] at hindex
      cases hindex
      exact .inr (.inl (hslot.trans hheld))
  taking := by simp [hphase]

theorem Kept.take (h : life.Kept)
    (hold : life.visits[index]? = some (.close .taking))
    (hvisits : Changes life.visits after.visits index
      (.close (.signalling life.slot)))
    (hloops : after.loops = life.loops) (hslot : after.slot = none) :
    after.Kept where
  few := hloops ▸ h.few
  created := by
    intro hne
    obtain ⟨visit, hm, hcreated⟩ := h.created (hloops ▸ hne)
    refine ⟨visit, hvisits.mem_of_ne hold hm ?_, hcreated⟩
    rintro rfl
    cases hcreated
  filled := fun hfull => absurd hslot hfull
  placed := by
    rw [hloops]
    intro n found hn
    refine (h.placed n found hn).goOn hvisits (fun hkept => ?_) ?_
    · exact .inr (.inr ⟨_, hvisits.new_mem, hkept⟩)
    · intro old hindex hheld
      rw [hold] at hindex
      cases hindex
      cases hheld
  taking := fun _ hfull => absurd hslot hfull

/-- A call signals the loop that it has in its hands. -/
theorem Kept.signal (h : life.Kept) {loop : Option Nat}
    (hold : life.visits[index]? = some old) (hheld : old.held? = loop)
    (hcreated : old.created = true → new.created = true)
    (htaking : old ≠ .close .taking) :
    ((life.signal loop).put index new).Kept := by
  have hvisits : Changes life.visits ((life.signal loop).put index new).visits
      index new := by
    rw [put, visits_signal]
    exact changes_set hold
  cases loop with
  | none =>
      refine h.goOn hvisits rfl rfl (fun other hother => ?_) h.filled .inl
      rw [hold] at hother
      cases hother
      exact ⟨hheld, hcreated, htaking⟩
  | some loop =>
      have hloops : ((life.signal (some loop)).put index new).loops =
          life.loops.modify loop WatchLoop.signal := rfl
      constructor
      · exact (List.length_modify ..).trans_le h.few
      · intro hne
        obtain ⟨visit, hm, hvisit⟩ := h.created fun hempty =>
          hne (by simp [hloops, hempty])
        by_cases heq : visit = old
        · exact ⟨new, hvisits.new_mem, hcreated (heq ▸ hvisit)⟩
        · exact ⟨visit, hvisits.mem_of_ne hold hm heq, hvisit⟩
      · exact h.filled
      · intro n found hn
        rcases loops_modify_cases hn with ⟨hne, hn⟩ | ⟨before, -, -, rfl⟩
        · refine (h.placed n found hn).goOn hvisits (fun hkept => ?_) ?_
          · exact .inr (.inl hkept)
          · intro other hindex hother
            rw [hold] at hindex
            cases hindex
            exact absurd (Option.some.inj (hother.symm.trans hheld)) hne
        · exact .inl rfl
      · exact fun hclosed hfull =>
          hvisits.mem_of_ne hold (h.taking hclosed hfull) (Ne.symm htaking)

theorem Kept.sections (h : life.Kept) (hordered : life.Ordered)
    (hsection : life.Section old new after)
    (hold : life.visits[index]? = some old) : (after.put index new).Kept := by
  have hvisits := hsection.changes hold
  have hidle : old.held? = none → (old.created = true → new.created = true) →
      old ≠ .close .taking → ∀ other, life.visits[index]? = some other →
        other.held? = none ∧ (other.created = true → new.created = true) ∧
          other ≠ .close .taking := by
    intro hheld hcreated htaking other hother
    rw [hold] at hother
    cases hother
    exact ⟨hheld, hcreated, htaking⟩
  cases hsection with
  | claim hphase =>
      refine h.goOn hvisits rfl rfl (hidle rfl nofun nofun) (fun hfull => ?_) nofun
      have hfilled := h.filled hfull
      rw [hphase] at hfilled
      exact hfilled.elim nofun nofun
  | ignore _ | reload _ | pass | join _ =>
      exact h.goOn hvisits rfl rfl (hidle rfl nofun nofun) h.filled .inl
  | spawn loop => exact h.spawn hordered hold hvisits loop rfl rfl rfl
  | hand hopen loop => exact h.hand hordered hold hopen hvisits rfl rfl rfl
  | drop _ loop => exact h.signal hold rfl (fun _ => rfl) nofun
  | mark =>
      exact h.goOn hvisits rfl rfl (hidle rfl nofun nofun) (fun _ => .inr rfl)
        fun _ => .inr rfl
  | take => exact h.take hold hvisits rfl rfl
  | signal loop => exact h.signal hold rfl nofun nofun

theorem Turn.stopping_change (turn : Turn) (loop : WatchLoop) :
    (turn.change loop).stopping = loop.stopping := by
  have hkept : ∀ found : Option WatchLoop,
      (∀ next, found = some next → next.stopping = loop.stopping) →
        (found.getD loop).stopping = loop.stopping := by
    intro found hfound
    cases found with
    | none => rfl
    | some next => exact hfound next rfl
  cases turn with
  | deliver _ => rfl
  | wake =>
      refine hkept _ fun next hwake => ?_
      obtain ⟨-, ⟨_, -, -, rfl⟩ | ⟨-, rfl⟩⟩ := WatchLoop.wake?_cases hwake <;> rfl
  | reload =>
      refine hkept _ fun next hreload => ?_
      obtain ⟨-, rfl⟩ := WatchLoop.reload?_cases hreload
      rfl
  | finish =>
      refine hkept _ fun next hfinish => ?_
      obtain ⟨-, rfl⟩ := WatchLoop.finish?_cases hfinish
      rfl
  | halt =>
      refine hkept _ fun next hhalt => ?_
      obtain rfl := WatchLoop.halt?_eq hhalt
      rfl
  | lose =>
      simp only [change]
      split <;> rfl

/-- Whatever a loop does on its own, it does not take a signal back. -/
theorem Kept.turn (h : life.Kept) (n : Nat) (turn : Turn) :
    Kept { life with loops := life.loops.modify n turn.change } where
  few := (List.length_modify ..).trans_le h.few
  created := fun hne => h.created fun hempty => hne (by simp [hempty])
  filled := h.filled
  placed := by
    intro m found hm
    rcases loops_modify_cases hm with ⟨-, hsame⟩ | ⟨loop, -, hloop, rfl⟩
    · exact h.placed m found hsame
    · have hplaced := h.placed m loop hloop
      rw [Placed, ← turn.stopping_change] at hplaced
      exact hplaced
  taking := h.taking

/-! ## Runs -/

/-- What holds at every moment of a run. -/
structure Lawful (life : Lifecycle) : Prop where
  ordered : life.Ordered
  kept : life.Kept

theorem lawful_initial (settings : Settings) : Lawful (initial settings) where
  ordered :=
    { single := ⟨0, by simp [initial]⟩
      fresh := fun _ => List.forall_mem_nil _
      starting := List.forall_mem_nil _
      closed := List.forall_mem_nil _ }
  kept :=
    { few := Nat.zero_le _
      created := fun h => absurd rfl h
      filled := fun h => absurd rfl h
      placed := by simp [initial]
      taking := fun _ h => absurd rfl h }

theorem Lawful.issue (h : life.Lawful) (hclaims : new.claims = false)
    (hactive : new.active = false) (hclosed : new.hasClosed = false) :
    Lawful (life.issue new) where
  ordered := by
    refine h.ordered.goOn (changes_concat life.visits new) (.inl rfl) ?_ ?_ ?_
    · simp [hclaims]
    · simp [hactive]
    · simp [hclosed]
  kept := by
    refine h.kept.goOn (changes_concat life.visits new) rfl rfl ?_
      h.kept.filled .inl
    simp

theorem Lawful.step (h : life.Lawful) (move : Move) : Lawful (life.step move) := by
  cases move with
  | start => exact h.issue rfl rfl rfl
  | close => exact h.issue rfl rfl rfl
  | advance index outcome tree here =>
      rcases life.step_advance_cases index outcome tree here with
        heq | ⟨old, new, after, hold, hsection, heq⟩
      · rw [heq]
        exact h
      · rw [heq]
        exact ⟨h.ordered.sections hsection hold,
          h.kept.sections h.ordered hsection hold⟩
  | turn n turn =>
      exact ⟨{ h.ordered with }, h.kept.turn n turn⟩
  | publish _ =>
      exact ⟨{ h.ordered with }, { h.kept with }⟩

theorem Lawful.run (h : life.Lawful) (moves : List Move) :
    Lawful (life.run moves) := by
  induction moves generalizing life with
  | nil => exact h
  | cons move rest ih => exact ih (h.step move)

/-! ## What a run keeps to -/

theorem Lawful.leads (h : life.Lawful) (move : Move) :
    life.phase.Leads (life.step move).phase := by
  cases move with
  | start | close | turn _ _ | publish _ => exact .stay _
  | advance index outcome tree here =>
      rcases life.step_advance_cases index outcome tree here with
        heq | ⟨old, new, after, hold, hsection, heq⟩
      · rw [heq]
        exact .stay _
      · rw [heq]
        change life.phase.Leads after.phase
        cases hsection with
        | claim hphase =>
            rw [hphase]
            exact .claim
        | hand hopen loop =>
            rw [(h.ordered.starting _ (List.mem_of_getElem? hold)
              rfl).resolve_right hopen]
            exact .finish
        | mark => exact .close _
        | drop _ loop | signal loop =>
            rw [phase_signal]
            exact .stay _
        | ignore _ | reload _ | spawn _ | pass | take | join _ => exact .stay _

theorem Lawful.closed_run (h : life.Lawful) (hphase : life.phase = .closed)
    (moves : List Move) : (life.run moves).phase = .closed := by
  induction moves generalizing life with
  | nil => exact hphase
  | cons move rest ih =>
      exact ih (h.step move) (hphase ▸ h.leads move).eq_closed

/-- A start that is past its claim stays so. -/
theorem claims_run {first : Visit} (hfirst : life.visits[index]? = some first)
    (hclaims : first.claims = true) (moves : List Move) :
    ∃ last, (life.run moves).visits[index]? = some last ∧ last.claims = true := by
  have hstep : ∀ (life : Lifecycle) (first : Visit) (move : Move),
      life.visits[index]? = some first → first.claims = true →
        ∃ next, (life.step move).visits[index]? = some next ∧
          next.claims = true := by
    intro life first move hfirst hclaims
    cases move with
    | start | close =>
        refine ⟨first, ?_, hclaims⟩
        exact (List.getElem?_append_left
          (List.getElem?_eq_some_iff.mp hfirst).1).trans hfirst
    | turn _ _ | publish _ => exact ⟨first, hfirst, hclaims⟩
    | advance other outcome tree here =>
        rcases life.step_advance_cases other outcome tree here with
          heq | ⟨old, new, after, hold, hsection, heq⟩
        · rw [heq]
          exact ⟨first, hfirst, hclaims⟩
        · have hvisits := hsection.changes hold
          rw [heq]
          by_cases hother : index = other
          · subst hother
            refine ⟨new, (hvisits _ _).mpr (.inl ⟨rfl, rfl⟩), ?_⟩
            rw [hold] at hfirst
            cases hfirst
            cases hsection <;> first | rfl | cases hclaims
          · exact ⟨first, (hvisits _ _).mpr (.inr ⟨hother, hfirst⟩), hclaims⟩
  induction moves generalizing life first with
  | nil => exact ⟨first, hfirst, hclaims⟩
  | cons move rest ih =>
      obtain ⟨next, hnext, hstill⟩ := hstep life first move hfirst hclaims
      exact ih hnext hstill

/-- The source is closed and the start in this place, if there is one, has done
nothing. -/
structure Late (index : Nat) (life : Lifecycle) : Prop where
  closed : life.phase = .closed
  idle : ∀ stage, life.visits[index]? = some (.start stage) →
    stage = .entered ∨ stage = .ignored

theorem Late.step (h : life.Late index) (hlawful : life.Lawful) (move : Move) :
    Late index (life.step move) where
  closed := hlawful.closed_run h.closed [move]
  idle := by
    intro stage hstage
    cases move with
    | start | close =>
        rcases (changes_concat life.visits _ index _).mp hstage with
          ⟨-, hnew⟩ | ⟨-, hbefore⟩
        · cases hnew <;> exact .inl rfl
        · exact h.idle stage hbefore
    | turn _ _ | publish _ => exact h.idle stage hstage
    | advance other outcome tree here =>
        rcases life.step_advance_cases other outcome tree here with
          heq | ⟨old, new, after, hold, hsection, heq⟩
        · exact h.idle stage (heq ▸ hstage)
        · rw [heq] at hstage
          rcases (hsection.changes hold index _).mp hstage with
            ⟨rfl, rfl⟩ | ⟨-, hbefore⟩
          · cases hsection with
            | claim hphase =>
                rw [h.closed] at hphase
                cases hphase
            | ignore _ => exact .inr rfl
            | reload _ | spawn _ | pass | hand _ _ | drop _ _ =>
                exact (h.idle _ hold).elim nofun nofun
          · exact h.idle stage hbefore

theorem Late.run (h : life.Late index) (hlawful : life.Lawful)
    (moves : List Move) : Late index (life.run moves) := by
  induction moves generalizing life with
  | nil => exact h
  | cons move rest ih => exact ih (h.step hlawful move) (hlawful.step move)

/-- What is left to a start that comes late is to be ignored. -/
theorem Late.step_eq (h : life.Late index) {stage : StartStage}
    (hstage : life.visits[index]? = some (.start stage)) (outcome : ReloadOutcome)
    (tree : FileTree) (here : Location) :
    life.step (.advance index outcome tree here) =
      life.put index (.start .ignored) := by
  rw [step_start hstage]
  rcases h.idle stage hstage with rfl | rfl
  · have hclaim : life.source.claim? = none := by
      simp [claim?, source, h.closed]
    simp only [advanceStart, hclaim]
  · obtain ⟨_, heq⟩ := List.getElem?_eq_some_iff.mp hstage
    rw [advanceStart, put, ← heq, List.set_getElem_self]

theorem Lawful.stopping_of_ended (h : life.Lawful) (hclosed : life.phase = .closed)
    (hended : ∀ visit ∈ life.visits, visit.ended = true) {loop : WatchLoop}
    (hm : loop ∈ life.loops) : loop.stopping = true := by
  obtain ⟨n, hn⟩ := List.mem_iff_getElem?.mp hm
  rcases h.kept.placed n loop hn with hstopping | hkept | ⟨visit, hvisit, hheld⟩
  · exact hstopping
  · have htaking := hended _ (h.kept.taking hclosed (by simp [hkept]))
    cases htaking
  · rw [Visit.held?_of_ended (hended visit hvisit)] at hheld
    cases hheld

/-- However the sections of starts and closes fall: the source goes from stopped
over starting to running and is closed for good; one start at most runs the
initial reload, and one loop at most is ever spawned; a start that comes after a
close does nothing but end; and a closed source whose calls have all ended has
no loop that was not signalled. -/
theorem run_starts_once_closes_for_good (settings : Settings)
    (moves : List Move) :
    let life := (initial settings).run moves
    (∀ move, life.phase.Leads (life.step move).phase) ∧
    (∀ (more : List Move) (i j : Nat),
      life.visits[i]? = some (.start .reloading) →
      (life.run more).visits[j]? = some (.start .reloading) → i = j) ∧
    life.loops.length ≤ 1 ∧
    ((∃ visit ∈ life.visits, visit.hasClosed = true) →
      ∀ (more : List Move) (i : Nat) (stage : StartStage), life.visits.length ≤ i →
        (life.run more).visits[i]? = some (.start stage) →
          (stage = .entered ∨ stage = .ignored) ∧
          ∀ outcome tree here,
            (life.run more).step (.advance i outcome tree here) =
              (life.run more).put i (.start .ignored)) ∧
    (life.phase = .closed → (∀ visit ∈ life.visits, visit.ended = true) →
      ∀ loop ∈ life.loops, loop.stopping = true) := by
  intro life
  have hlawful : life.Lawful := (lawful_initial settings).run moves
  refine ⟨hlawful.leads, ?_, hlawful.kept.few, ?_, ?_⟩
  · intro more i j hi hj
    obtain ⟨last, hlast, hclaims⟩ := claims_run hi rfl more
    exact (hlawful.run more).ordered.single.eq hlast hj hclaims rfl
  · rintro ⟨visit, hm, hclosed⟩ more i stage hlate hstage
    have hnow : life.Late i := by
      refine ⟨hlawful.ordered.closed visit hm hclosed, fun stage hstage => ?_⟩
      rw [List.getElem?_eq_none hlate] at hstage
      cases hstage
    have hthen := hnow.run hlawful more
    exact ⟨hthen.idle stage hstage, hthen.step_eq hstage⟩
  · exact fun hclosed hended loop hm => hlawful.stopping_of_ended hclosed hended hm

/-- The source is closed between the creation of the watcher and the end of the
start, which has the loop in its hands. -/
def handedLate : List Move :=
  let advance (index : Nat) : Move :=
    .advance index (.failed "") (Site.oneFile "") []
  [.start, advance 0, advance 0, advance 0, .close, advance 1, advance 1,
    advance 1, advance 0]

theorem stopping_handedLate :
    let life := (initial Site.watchingOne).run handedLate
    life.phase = .closed ∧ (∀ visit ∈ life.visits, visit.ended = true) ∧
      life.loops.length = 1 ∧ (∀ loop ∈ life.loops, loop.stopping = true) ∧
      (life.run [.start]).step (.advance 2 (.loaded 0) (Site.oneFile "") []) =
        (life.run [.start]).put 2 (.start .ignored) := by
  intro life
  have hclosed : life.phase = .closed := by decide +kernel
  have hended : ∀ visit ∈ life.visits, visit.ended = true := by decide +kernel
  have hmarked : ∃ visit ∈ life.visits, visit.hasClosed = true := by decide +kernel
  have hloops : life.loops.length = 1 := by decide +kernel
  obtain ⟨-, -, -, hlate, hstopping⟩ :=
    run_starts_once_closes_for_good Site.watchingOne handedLate
  have hstarted : (life.run [.start]).visits[2]? = some (.start .entered) := by
    decide +kernel
  have htwo : life.visits.length ≤ 2 := by decide +kernel
  exact ⟨hclosed, hended, hloops, hstopping hclosed hended,
    (hlate hmarked [.start] 2 .entered htwo hstarted).2 _ _ _⟩

end Lifecycle

end Source

end VersionedFlags
