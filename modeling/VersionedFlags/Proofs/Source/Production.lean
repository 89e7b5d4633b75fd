import Mathlib.Logic.Function.Basic
import VersionedFlags.Proofs.Source.Waking

/-!
# What a closed source still produces

A close marks the source and waits for the loop that it finds in the slot.  It does
not wait for a start that is loading the files for the first time, nor for a loop
that a start has not handed over yet, nor for one that another close has taken.  So
the store may be initialized after a close has returned, as long as one of them is
left; once none of them is, it never is again.
-/

namespace VersionedFlags

namespace Source

open Files (FileTree Location Path WatchLoop WatchList Event LoadError)

/-! ## Reloads -/

/-- Who reloads the files. -/
inductive Reloader where
  | start (index : Nat)
  | loop (number : Nat)
  deriving DecidableEq, Repr

/-- How far a reload has come. -/
inductive Reload where
  | reading
  | loaded (result : Except LoadError DataSet)
  | ended (outcome : ReloadOutcome)
  deriving DecidableEq

/-- What loading comes to if each file is read at a moment of its own. -/
def loadThrough (views : Nat → FileTree) (here : Location) (paths : List Path) :
    Except LoadError DataSet :=
  (paths.zipIdx.foldlM
    (fun builder entry => Files.loadFile (views entry.2) here builder entry.1)
    DataSet.Builder.start).map DataSet.Builder.build

theorem loadThrough_eq_load (tree : FileTree) (here : Location)
    (paths : List Path) :
    loadThrough (fun _ => tree) here paths = Files.load tree here paths := by
  have hpaths : paths.zipIdx.map Prod.fst = paths := List.zipIdx_map_fst 0 paths
  rw [← Flight.map_build_foldlM]
  conv_rhs => rw [← hpaths, List.foldlM_map]
  rfl

/-- A source with the reloads that are under way. -/
structure Production where
  life : Lifecycle
  reloads : Reloader → Reload
  /-- What the store was initialized with, from the first time to the last. -/
  inits : List DataSet

namespace Production

def initial (settings : Settings) : Production :=
  ⟨.initial settings, fun _ => .reading, []⟩

def underWay (production : Production) : Reloader → Prop
  | .start index => production.life.visits[index]? = some (.start .reloading)
  | .loop number =>
      (production.life.loops[number]?).map WatchLoop.phase = some .reloading

instance (production : Production) (reloader : Reloader) :
    Decidable (production.underWay reloader) := by
  cases reloader <;> unfold underWay <;> infer_instance

/-- An initialization of the store, which may succeed or not. -/
def note (reply : Except StoreError Unit) (data : DataSet) :
    StateM (List DataSet) (Except StoreError Unit) := do
  modify (· ++ [data])
  return reply

inductive Move where
  | start
  | close
  /-- A call runs its next section, which for a start that reloads is to see that
  the reload has ended. -/
  | advance (index : Nat) (tree : FileTree) (here : Location)
  | turn (loop : Nat) (turn : Lifecycle.Turn)
  | read (reloader : Reloader) (views : Nat → FileTree) (here : Location)
  | store (reloader : Reloader) (reply : Except StoreError Unit)

def put (production : Production) (reloader : Reloader) (reload : Reload) :
    Production :=
  { production with
    reloads := Function.update production.reloads reloader reload }

def advance (production : Production) (index : Nat) (tree : FileTree)
    (here : Location) : Production :=
  if production.underWay (.start index) then
    match production.reloads (.start index) with
    | .ended outcome =>
        { production with
          life := production.life.step (.advance index outcome tree here) }
    | .reading | .loaded _ => production
  else
    -- No other section looks at the outcome.
    { production with
      life := production.life.step (.advance index (.failed "") tree here) }

def turn (production : Production) (loop : Nat) (turn : Lifecycle.Turn) :
    Production :=
  match turn with
  | .reload =>
      if (production.life.loops[loop]?).map WatchLoop.phase = some .debouncing then
        { production with life := production.life.step (.turn loop .reload) }.put
          (.loop loop) .reading
      else production
  | .finish =>
      if production.underWay (.loop loop) then
        match production.reloads (.loop loop) with
        | .ended outcome =>
            { production with
              life := (production.life.step (.publish outcome)).step
                (.turn loop .finish) }
        | .reading | .loaded _ => production
      else production
  | turn => { production with life := production.life.step (.turn loop turn) }

def read (production : Production) (reloader : Reloader)
    (views : Nat → FileTree) (here : Location) : Production :=
  if production.underWay reloader ∧ production.reloads reloader = .reading then
    production.put reloader
      (.loaded (loadThrough views here production.life.settings.files))
  else production

def store (production : Production) (reloader : Reloader)
    (reply : Except StoreError Unit) : Production :=
  if production.underWay reloader then
    match production.reloads reloader with
    | .loaded result =>
        let (outcome, inits) := (attempt (note reply) result).run production.inits
        { production.put reloader (.ended outcome) with inits }
    | .reading | .ended _ => production
  else production

/-- A move that is not possible changes nothing. -/
def step (production : Production) : Move → Production
  | .start => { production with life := production.life.step .start }
  | .close => { production with life := production.life.step .close }
  | .advance index tree here => production.advance index tree here
  | .turn loop turn => production.turn loop turn
  | .read reloader views here => production.read reloader views here
  | .store reloader reply => production.store reloader reply

def run (production : Production) (moves : List Move) : Production :=
  moves.foldl step production

variable {production : Production}

/-! ## What a move does -/

inductive Effect (production : Production) : Production → Prop
  | none : Effect production production
  | live {move : Lifecycle.Move} (h : ∀ loop, move ≠ .turn loop .reload) :
      Effect production { production with life := production.life.step move }
  | finish (loop : Nat) (outcome : ReloadOutcome) :
      Effect production
        { production with
          life := (production.life.step (.publish outcome)).step
            (.turn loop .finish) }
  | reload {loop : Nat}
      (h : (production.life.loops[loop]?).map WatchLoop.phase = some .debouncing) :
      Effect production
        ({ production with life := production.life.step (.turn loop .reload) }.put
          (.loop loop) .reading)
  | read {reloader : Reloader} (h : production.underWay reloader)
      (hreading : production.reloads reloader = .reading)
      (views : Nat → FileTree) (here : Location) :
      Effect production (production.put reloader
        (.loaded (loadThrough views here production.life.settings.files)))
  | fail (reloader : Reloader) (outcome : ReloadOutcome) :
      Effect production (production.put reloader (.ended outcome))
  | init {reloader : Reloader} (h : production.underWay reloader)
      {data : DataSet} (hloaded : production.reloads reloader = .loaded (.ok data))
      (outcome : ReloadOutcome) :
      Effect production
        { production.put reloader (.ended outcome) with
          inits := production.inits ++ [data] }

theorem effect_step (production : Production) (move : Move) :
    production.Effect (production.step move) := by
  cases move with
  | start => exact .live (by simp)
  | close => exact .live (by simp)
  | advance index tree here =>
      simp only [step, advance]
      split
      · split
        · exact .live (by simp)
        · exact .none
        · exact .none
      · exact .live (by simp)
  | turn loop turn =>
      simp only [step, Production.turn]
      split
      · split
        · rename_i hphase
          exact .reload hphase
        · exact .none
      · split
        · split
          · exact .finish loop _
          · exact .none
          · exact .none
        · exact .none
      · rename_i hturn _
        exact .live (by simpa using hturn)
  | read reloader views here =>
      simp only [step, read]
      split
      · rename_i hreading
        exact .read hreading.1 hreading.2 views here
      · exact .none
  | store reloader reply =>
      simp only [step, store]
      split
      · rename_i hunderWay
        split
        · rename_i result hloaded
          cases result with
          | error error => exact .fail reloader _
          | ok data =>
              cases reply with
              | error error => exact .init hunderWay hloaded _
              | ok => exact .init hunderWay hloaded _
        · exact .none
        · exact .none
      · exact .none

/-- The calls and the loops take the steps of a lifecycle. -/
theorem Effect.life {after : Production} (h : production.Effect after) :
    ∃ moves, after.life = production.life.run moves := by
  cases h with
  | none | read _ _ _ _ | fail _ _ | init _ _ _ => exact ⟨[], rfl⟩
  | @live move _ => exact ⟨[move], rfl⟩
  | finish loop outcome => exact ⟨[.publish outcome, .turn loop .finish], rfl⟩
  | @reload loop _ => exact ⟨[.turn loop .reload], rfl⟩

theorem life_run (production : Production) (moves : List Move) :
    ∃ taken, (production.run moves).life = production.life.run taken := by
  induction moves generalizing production with
  | nil => exact ⟨[], rfl⟩
  | cons move rest ih =>
      obtain ⟨first, hfirst⟩ := (production.effect_step move).life
      obtain ⟨more, hmore⟩ := ih (production.step move)
      refine ⟨first ++ more, hmore.trans ?_⟩
      rw [hfirst]
      exact List.foldl_append.symm

theorem lawful_run (settings : Settings) (moves : List Move) :
    ((initial settings).run moves).life.Lawful := by
  obtain ⟨taken, htaken⟩ := (initial settings).life_run moves
  rw [htaken]
  exact (Lifecycle.lawful_initial settings).run taken

/-! ## What is left to be done -/

/-- The files can be loaded. -/
def Loads (settings : Settings) : Prop :=
  ∃ views here data, loadThrough views here settings.files = .ok data

/-- The reload is under way and has not failed to load, and it has not come to its
initialization. -/
def Pending (production : Production) (reloader : Reloader) : Prop :=
  production.underWay reloader ∧
    (production.reloads reloader = .reading ∧ Loads production.life.settings ∨
      ∃ data, production.reloads reloader = .loaded (.ok data))

/-- Something is left that may initialize the store: a reload under way, a start
that has not created its watcher yet, or a loop. -/
def Restless (production : Production) : Prop :=
  (∃ reloader, production.Pending reloader) ∨
    Loads production.life.settings ∧ production.life.Wakeful

theorem Restless.of_live (hclosed : production.life.phase = .closed)
    {move : Lifecycle.Move} (hmove : ∀ loop, move ≠ .turn loop .reload)
    (h : Restless { production with life := production.life.step move }) :
    production.Restless := by
  have hsettings := production.life.settings_step move
  rcases h with ⟨reloader, hunderWay, hreload⟩ | ⟨hloads, hwakeful⟩
  · simp only [hsettings] at hreload
    refine .inl ⟨reloader, ?_, hreload⟩
    cases reloader with
    | start index => exact Lifecycle.reloading_of_step hclosed hunderWay
    | loop n =>
        obtain ⟨loop, hn, hphase⟩ := Option.map_eq_some_iff.mp hunderWay
        exact Option.map_eq_some_iff.mpr
          (Lifecycle.loop_reloading_of_step hmove hn hphase)
  · simp only [hsettings] at hloads
    exact .inr ⟨hloads, hwakeful.of_step hclosed⟩

theorem restless_put_cases {reloader : Reloader} {reload : Reload}
    (h : (production.put reloader reload).Restless) :
    production.Restless ∨ production.underWay reloader ∧
      (reload = .reading ∧ Loads production.life.settings ∨
        ∃ data, reload = .loaded (.ok data)) := by
  rcases h with ⟨other, hunderWay, hreload⟩ | hwakeful
  · have hsame : production.underWay other := by
      cases other <;> exact hunderWay
    by_cases heq : other = reloader
    · subst heq
      simp only [put, Function.update_self] at hreload
      exact .inr ⟨hsame, hreload⟩
    · simp only [put, Function.update_of_ne heq] at hreload
      exact .inl (.inl ⟨other, hsame, hreload⟩)
  · exact .inl (.inr hwakeful)

/-- What is left after a move was left before it. -/
theorem Effect.restless {after : Production} (h : production.Effect after)
    (hclosed : production.life.phase = .closed) (hafter : after.Restless) :
    production.Restless := by
  cases h with
  | none => exact hafter
  | live hmove => exact hafter.of_live hclosed hmove
  | finish loop outcome =>
      have hpublished : Restless { production with
          life := production.life.step (.publish outcome) } := by
        refine Restless.of_live ?_ ?_ hafter
        · exact hclosed
        · simp
      exact hpublished.of_live hclosed (by simp)
  | @reload loop hphase =>
      obtain ⟨before, hbefore, hdebouncing⟩ := Option.map_eq_some_iff.mp hphase
      have hwakeful : production.life.Wakeful :=
        .inr ⟨before, List.mem_of_getElem? hbefore, .inl hdebouncing⟩
      rcases hafter with ⟨reloader, hunderWay, ⟨-, hloads⟩ | ⟨data, hdata⟩⟩ |
        ⟨hloads, -⟩
      · exact .inr ⟨hloads, hwakeful⟩
      · have hother : reloader ≠ .loop loop := by
          rintro rfl
          simp [put] at hdata
        simp only [put, Function.update_of_ne hother] at hdata
        refine .inl ⟨reloader, ?_, .inr ⟨data, hdata⟩⟩
        cases reloader with
        | start index => exact hunderWay
        | loop n =>
            have hne : loop ≠ n := fun heq => hother (heq ▸ rfl)
            have hloops : (production.life.loops.modify loop
                Lifecycle.Turn.reload.change)[n]? = production.life.loops[n]? :=
              List.getElem?_modify_ne _ _ hne
            unfold underWay at hunderWay ⊢
            exact (congrArg (Option.map WatchLoop.phase) hloops).symm.trans hunderWay
      · exact .inr ⟨hloads, hwakeful⟩
  | @read reloader hunderWay hreading views here =>
      rcases restless_put_cases hafter with h | ⟨-, ⟨hnone, -⟩ | ⟨data, hdata⟩⟩
      · exact h
      · cases hnone
      · have hloads : Loads production.life.settings :=
          ⟨views, here, data, Reload.loaded.inj hdata⟩
        exact .inl ⟨reloader, hunderWay, .inl ⟨hreading, hloads⟩⟩
  | fail reloader outcome =>
      rcases restless_put_cases hafter with h | ⟨-, ⟨hnone, -⟩ | ⟨data, hdata⟩⟩
      · exact h
      · cases hnone
      · cases hdata
  | @init reloader hunderWay data hloaded outcome =>
      exact .inl ⟨reloader, hunderWay, .inr ⟨data, hloaded⟩⟩

theorem Effect.inits {after : Production} (h : production.Effect after) :
    after.inits = production.inits ∨ production.Restless := by
  cases h with
  | @init reloader hunderWay data hloaded outcome =>
      exact .inr (.inl ⟨reloader, hunderWay, .inr ⟨data, hloaded⟩⟩)
  | _ => exact .inl rfl

/-- A closed source with nothing left to be done does not initialize the store. -/
theorem inits_run_of_not_restless (hlawful : production.life.Lawful)
    (hclosed : production.life.phase = .closed) (h : ¬ production.Restless)
    (moves : List Move) : (production.run moves).inits = production.inits := by
  induction moves generalizing production with
  | nil => rfl
  | cons move rest ih =>
      have heffect := production.effect_step move
      obtain ⟨taken, htaken⟩ := heffect.life
      have hnext : ((production.step move).run rest).inits =
          (production.step move).inits := by
        apply ih
        · rw [htaken]
          exact hlawful.run taken
        · rw [htaken]
          exact hlawful.closed_run hclosed taken
        · exact fun hafter => h (heffect.restless hclosed hafter)
      exact hnext.trans (heffect.inits.resolve_right h)

/-! ## What is left comes to an initialization -/

/-- Some run from here initializes the store. -/
def Produces (production : Production) : Prop :=
  ∃ moves, (production.run moves).inits ≠ production.inits

theorem Produces.of_step (move : Move)
    (hsame : (production.step move).inits = production.inits)
    (h : (production.step move).Produces) : production.Produces := by
  obtain ⟨moves, hmoves⟩ := h
  exact ⟨move :: moves, hsame ▸ hmoves⟩

theorem produces_loaded {reloader : Reloader} (h : production.underWay reloader)
    {data : DataSet} (hloaded : production.reloads reloader = .loaded (.ok data)) :
    production.Produces := by
  refine ⟨[.store reloader (.ok ())], ?_⟩
  have hinits : (production.store reloader (.ok ())).inits =
      production.inits ++ [data] := by
    simp only [store, if_pos h, hloaded]
    rfl
  simp [run, step, hinits]

theorem Pending.produces {reloader : Reloader} (h : production.Pending reloader) :
    production.Produces := by
  obtain ⟨hunderWay, ⟨hreading, views, here, data, hload⟩ | ⟨data, hloaded⟩⟩ := h
  · have hread : production.step (.read reloader views here) =
        production.put reloader (.loaded (.ok data)) := by
      simp only [step, read, if_pos (And.intro hunderWay hreading), hload]
    apply Produces.of_step (.read reloader views here)
    · rw [hread]
      rfl
    · rw [hread]
      have hsame : (production.put reloader (.loaded (.ok data))).underWay
          reloader := by
        cases reloader <;> exact hunderWay
      exact produces_loaded hsame (Function.update_self ..)
  · exact produces_loaded hunderWay hloaded

/-- A reload under way initializes the store, or it ends without doing so. -/
theorem produces_of_ended {reloader : Reloader} (h : production.underWay reloader)
    (hloads : Loads production.life.settings)
    (hended : ∀ (after : Production) (outcome : ReloadOutcome),
      after.life = production.life → after.reloads reloader = .ended outcome →
        after.Produces) : production.Produces := by
  cases hreload : production.reloads reloader with
  | reading => exact Pending.produces ⟨h, .inl ⟨hreload, hloads⟩⟩
  | loaded result =>
      cases result with
      | ok data => exact produces_loaded h hreload
      | error error =>
          have hstore : production.step (.store reloader (.ok ())) =
              production.put reloader (.ended (.failed error.message)) := by
            simp only [step, store, if_pos h, hreload]
            rfl
          apply Produces.of_step (.store reloader (.ok ()))
          · rw [hstore]
            rfl
          · rw [hstore]
            exact hended _ _ rfl (Function.update_self ..)
  | ended outcome => exact hended production outcome rfl hreload

/-! ### Loops -/

theorem loop_step_turn {life : Lifecycle} {n : Nat} {loop : WatchLoop}
    (hn : life.loops[n]? = some loop) (turn : Lifecycle.Turn) :
    (life.step (.turn n turn)).loops[n]? = some (turn.change loop) := by
  simp [Lifecycle.step, hn]

variable {n : Nat} {loop : WatchLoop}

theorem produces_debouncing (hloads : Loads production.life.settings)
    (hn : production.life.loops[n]? = some loop)
    (hphase : loop.phase = .debouncing) : production.Produces := by
  have hstep : production.step (.turn n .reload) =
      ({ production with life := production.life.step (.turn n .reload) }).put
        (.loop n) .reading := by
    simp only [step, turn, hn, Option.map_some, hphase, if_true]
  have hreload : (Lifecycle.Turn.reload.change loop).phase = .reloading := by
    simp [Lifecycle.Turn.change, WatchLoop.reload?, hphase]
  apply Produces.of_step (.turn n .reload)
  · rw [hstep]
    rfl
  · have hpending : (production.step (.turn n .reload)).Pending (.loop n) := by
      rw [hstep]
      constructor
      · simp only [underWay, put, loop_step_turn hn, Option.map_some, hreload]
      · exact .inl ⟨Function.update_self .., hloads⟩
    exact hpending.produces

theorem produces_waiting (hloads : Loads production.life.settings)
    (hn : production.life.loops[n]? = some loop) (hphase : loop.phase = .waiting)
    (hfiles : loop.watch.files ≠ []) : production.Produces := by
  obtain ⟨event, hrelevant⟩ := exists_relevant hfiles
  have hwake : (Lifecycle.Turn.wake.change (loop.deliver event)).phase =
      .debouncing := by
    have hany : (loop.queue ++ [event]).any loop.watch.isRelevant = true := by
      simp [hrelevant]
    unfold Lifecycle.Turn.change WatchLoop.wake? WatchLoop.deliver
    cases hqueue : loop.queue ++ [event] with
    | nil => simp at hqueue
    | cons first rest =>
        rw [hqueue] at hany
        simp only [hphase, hany, if_true, Option.getD_some]
  let delivered := production.step (.turn n (.deliver event))
  have hdelivered : delivered.life.loops[n]? = some (loop.deliver event) :=
    loop_step_turn hn (.deliver event)
  have hwoken : (delivered.step (.turn n .wake)).life.loops[n]? =
      some (Lifecycle.Turn.wake.change (loop.deliver event)) :=
    loop_step_turn hdelivered .wake
  have hproduces : (delivered.step (.turn n .wake)).Produces :=
    produces_debouncing hloads hwoken hwake
  exact .of_step (.turn n (.deliver event)) rfl
    (.of_step (.turn n .wake) rfl hproduces)

theorem produces_wakes (hloads : Loads production.life.settings)
    (hn : production.life.loops[n]? = some loop) (h : Wakes loop) :
    production.Produces := by
  cases hphase : loop.phase with
  | debouncing => exact produces_debouncing hloads hn hphase
  | stopped => simp [Wakes, hphase] at h
  | waiting =>
      have hfiles : loop.watch.files ≠ [] := by simpa [Wakes, hphase] using h
      exact produces_waiting hloads hn hphase hfiles
  | reloading =>
      have hfiles : loop.watch.files ≠ [] := by simpa [Wakes, hphase] using h
      have hunderWay : production.underWay (.loop n) := by
        simp only [underWay, hn, Option.map_some, hphase]
      apply produces_of_ended hunderWay hloads
      intro after outcome hlife hended
      -- The reload has failed, so the loop waits for the next event.
      rw [← hlife] at hn hloads
      have hstep : after.step (.turn n .finish) =
          { after with
            life := (after.life.step (.publish outcome)).step
              (.turn n .finish) } := by
        have hunderWay : after.underWay (.loop n) := by
          simp only [underWay, hn, Option.map_some, hphase]
        simp only [step, turn, if_pos hunderWay, hended]
      have hfinished := loop_step_turn
        (show (after.life.step (.publish outcome)).loops[n]? = some loop from hn)
        .finish
      apply Produces.of_step (.turn n .finish)
      · rw [hstep]
      · rw [hstep]
        refine produces_waiting ?_ hfinished ?_ ?_
        · exact hloads
        · simp [Lifecycle.Turn.change, WatchLoop.finish?, hphase]
        · rw [(proceeds_change ..).1]
          exact hfiles

/-! ### Starts -/

variable {index : Nat}

theorem produces_reloaded (hloads : Loads production.life.settings)
    (hvisit : production.life.visits[index]? = some (.start .reloaded))
    (h : Lifecycle.CanWatch production.life.settings) : production.Produces := by
  obtain ⟨tree, here, loop, hloop, hfiles⟩ := h
  have hstep : production.step (.advance index tree here) =
      { production with
        life := production.life.step
          (.advance index (.failed "") tree here) } := by
    have hother : ¬ production.underWay (.start index) := by
      simp [underWay, hvisit]
    simp only [step, advance, if_neg hother]
  have hloops := Lifecycle.step_reloaded hvisit (.failed "") tree here
  rw [hloop] at hloops
  have hwakes : Wakes loop := by
    obtain ⟨watch, -, rfl⟩ := watchLoop?_eq hloop
    exact .inr ⟨nofun, hfiles⟩
  have hspawned : (production.life.step (.advance index (.failed "") tree here)
      ).loops[production.life.loops.length]? = some loop := by
    simp [hloops]
  apply Produces.of_step (.advance index tree here)
  · rw [hstep]
  · rw [hstep]
    refine produces_wakes ?_ hspawned hwakes
    rwa [Lifecycle.settings_step]

theorem produces_reloading (hloads : Loads production.life.settings)
    (hvisit : production.life.visits[index]? = some (.start .reloading))
    (h : Lifecycle.CanWatch production.life.settings) : production.Produces := by
  have hunderWay : production.underWay (.start index) := hvisit
  apply produces_of_ended hunderWay hloads
  intro after outcome hlife hended
  rw [← hlife] at hvisit hloads h
  have ⟨tree, here, _⟩ := h
  have hunderWay : after.underWay (.start index) := hvisit
  have hstep : after.step (.advance index tree here) =
      { after with life := after.life.step (.advance index outcome tree here) } := by
    simp only [step, advance, if_pos hunderWay, hended]
  have hreloaded : (after.life.step (.advance index outcome tree here)
      ).visits[index]? = some (.start .reloaded) := by
    rw [Lifecycle.step_start hvisit]
    exact List.getElem?_set_self (List.getElem?_eq_some_iff.mp hvisit).1
  apply Produces.of_step (.advance index tree here)
  · rw [hstep]
  · rw [hstep]
    refine produces_reloaded ?_ hreloaded ?_
    · rwa [Lifecycle.settings_step]
    · rwa [Lifecycle.settings_step]

/-- Whatever is left comes to an initialization. -/
theorem Restless.produces (h : production.Restless) : production.Produces := by
  rcases h with ⟨reloader, hpending⟩ |
    ⟨hloads, ⟨visit, hm, hactive, hcreated, hwatch⟩ | ⟨loop, hm, hwakes⟩⟩
  · exact hpending.produces
  · obtain ⟨index, hindex⟩ := List.mem_iff_getElem?.mp hm
    cases visit with
    | close _ => cases hactive
    | start stage =>
        cases stage with
        | reloading => exact produces_reloading hloads hindex hwatch
        | reloaded => exact produces_reloaded hloads hindex hwatch
        | handing _ => cases hcreated
        | entered | done | ignored => cases hactive
  · obtain ⟨n, hn⟩ := List.mem_iff_getElem?.mp hm
    exact produces_wakes hloads hn hwakes

/-! ## After a close has returned -/

theorem not_restless_of_joined (h : production.life.Joined)
    (hstopped : ∀ loop ∈ production.life.loops, loop.phase = .stopped) :
    ¬ production.Restless := by
  rintro (⟨reloader, hunderWay, -⟩ |
    ⟨-, ⟨visit, hm, hactive, -⟩ | ⟨loop, hm, hwakes⟩⟩)
  · cases reloader with
    | start index =>
        cases h.finished _ (List.mem_of_getElem? hunderWay)
    | loop n =>
        obtain ⟨loop, hn, hphase⟩ := Option.map_eq_some_iff.mp hunderWay
        rw [hstopped loop (List.mem_of_getElem? hn)] at hphase
        cases hphase
  · rw [h.finished visit hm] at hactive
    cases hactive
  · simp [Wakes, hstopped loop hm] at hwakes

/-- A start that has finished while the source was open has left its loop to the
closes. -/
theorem joined_of_running {settings : Settings} {earlier : List Move}
    (hrunning : ((initial settings).run earlier).life.phase = .running)
    (later : List Move) :
    ((initial settings).run (earlier ++ later)).life.Joined := by
  have hlawful := lawful_run settings earlier
  have hunsignalled : ((initial settings).run earlier).life.Unsignalled := by
    obtain ⟨taken, htaken⟩ := (initial settings).life_run earlier
    rw [htaken]
    apply Lifecycle.Unsignalled.run _ (Lifecycle.lawful_initial settings)
    exact fun _ => List.forall_mem_nil _
  obtain ⟨taken, htaken⟩ := ((initial settings).run earlier).life_run later
  have hrun : (initial settings).run (earlier ++ later) =
      ((initial settings).run earlier).run later := List.foldl_append
  rw [hrun, htaken]
  exact (hlawful.joined hunsignalled hrunning).run taken

/-- After a close has returned some run initializes the store again if and only if
a reload is under way that has not failed, or the files can be loaded and a start has
not created its watcher yet or a loop may reload.  If the start had finished before
the close and every close that began has returned, then none does. -/
theorem produces_after_close_iff (settings : Settings) (moves : List Move) :
    let production := (initial settings).run moves
    .close .done ∈ production.life.visits →
      (production.Produces ↔ production.Restless) ∧
      ∀ earlier later, moves = earlier ++ later →
        ((initial settings).run earlier).life.phase = .running →
        (∀ stage, .close stage ∈ production.life.visits → stage = .done) →
          ¬ production.Produces := by
  intro production hreturned
  have hlawful : production.life.Lawful := lawful_run settings moves
  have hclosed : production.life.phase = .closed :=
    hlawful.ordered.closed _ hreturned rfl
  have hiff : production.Produces ↔ production.Restless := by
    constructor
    · rintro ⟨more, hmore⟩
      by_contra hnone
      exact hmore (inits_run_of_not_restless hlawful hclosed hnone more)
    · exact Restless.produces
  refine ⟨hiff, ?_⟩
  rintro earlier later rfl hrunning hall
  have hjoined : production.life.Joined := joined_of_running hrunning later
  rw [hiff]
  exact not_restless_of_joined hjoined fun loop =>
    hjoined.stopped hlawful hall hclosed

/-! ### Runs on one file -/

namespace Runs

def tree : FileTree := Site.oneFile Site.segmentText

def advance (index count : Nat) : List Move :=
  .replicate count (.advance index tree [])

def reload (reloader : Reloader) : List Move :=
  [.read reloader (fun _ => tree) [], .store reloader (.ok ())]

/-- A start up to the creation of its watcher. -/
def starting : List Move := [.start] ++ advance 0 1 ++ reload (.start 0) ++ advance 0 2

def running : List Move := starting ++ advance 0 1

def noticing : List Move :=
  [.turn 0 (.deliver ⟨.modify, [⟨"/f"⟩]⟩), .turn 0 .wake, .turn 0 .reload]

/-- The close takes the loop in the middle of a reload and returns when it has
ended. -/
def closedWhileReloading : List Move :=
  running ++ noticing ++ [.close] ++ advance 1 3 ++ reload (.loop 0) ++
    [.turn 0 .finish, .turn 0 .halt] ++ advance 1 1

theorem not_produces_closedWhileReloading :
    let production := (initial Site.watchingOne).run closedWhileReloading
    .close .done ∈ production.life.visits ∧ production.inits.length = 2 ∧
      ¬ production.Produces ∧ ¬ production.Restless := by
  intro production
  have hreturned : .close .done ∈ production.life.visits := by decide +kernel
  have hinits : production.inits.length = 2 := by decide +kernel
  have hended : ∀ visit ∈ production.life.visits, visit.ended = true := by
    decide +kernel
  have hall : ∀ stage, .close stage ∈ production.life.visits → stage = .done := by
    intro stage hm
    cases stage with
    | done => rfl
    | _ => cases hended _ hm
  obtain ⟨hiff, hnever⟩ :=
    produces_after_close_iff Site.watchingOne closedWhileReloading hreturned
  have hnone : ¬ production.Produces := by
    apply hnever running (closedWhileReloading.drop running.length) ?_ ?_ hall
    · rfl
    · decide +kernel
  exact ⟨hreturned, hinits, hnone, fun h => hnone (hiff.mpr h)⟩

/-- A close has returned, and the store is initialized afterwards. -/
def InitsLate (before after : List Move) : Prop :=
  let production := (initial Site.watchingOne).run before
  .close .done ∈ production.life.visits ∧
    production.inits.length < (production.run after).inits.length

instance (before after : List Move) : Decidable (InitsLate before after) := by
  unfold InitsLate
  infer_instance

/-- A close does not wait for the first reload of a start, nor for a loop that the
start has not handed over, nor for a loop that another close has taken. -/
theorem initsLate_three_ways :
    InitsLate ([.start] ++ advance 0 1 ++ [.close] ++ advance 1 3)
      (reload (.start 0)) ∧
    InitsLate (starting ++ [.close] ++ advance 1 3) (noticing ++ reload (.loop 0)) ∧
    InitsLate
      (running ++ noticing ++ [.close] ++ advance 1 3 ++ [.close] ++ advance 2 3)
      (reload (.loop 0)) := by
  refine ⟨?_, ?_, ?_⟩ <;> decide +kernel

end Runs

end Production

end Source

end VersionedFlags
