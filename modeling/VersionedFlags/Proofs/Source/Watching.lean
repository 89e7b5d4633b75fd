import VersionedFlags.Proofs.Source.Site

/-!
# A watched source follows its files

When the loop waits and nothing is under way, the store has what the files hold,
unless the store does not take that, the last edit came before the watch and was
not read since, or the reading that was stored last is older than another one.
-/

namespace VersionedFlags

namespace Source

open Files (FileTree Location Path WatchLoop WatchList Event)
open DataSet (Builder)

variable {here : Location}

/-! ## Watch lists and loops -/

theorem watchLoop?_eq {settings : Settings} {tree : FileTree} {loop : WatchLoop}
    (h : watchLoop? settings tree here = some loop) :
    ∃ watch, WatchList.create tree here settings.files = .ok watch ∧
      loop = .start watch := by
  simp only [watchLoop?] at h
  split at h
  · split at h
    · rename_i watch hcreated
      exact ⟨watch, hcreated, (Option.some.inj h).symm⟩
    · cases h
  · cases h

/-- The watch list of a source has every file of it. -/
theorem isRelevant_of_create {tree : FileTree} {files : List Path}
    {watch : WatchList} (h : WatchList.create tree here files = .ok watch)
    {path : Path} (hm : path ∈ files) :
    ∃ file, Files.resolve tree here path = .ok file ∧
      watch.isRelevant ⟨.modify, [file]⟩ = true := by
  obtain ⟨resolved, hresolved, hwatch⟩ := exists_of_bind_eq_ok h
  obtain ⟨file, hfile, hfound⟩ := exists_mem_of_mapM hresolved hm
  cases hwatch
  refine ⟨file, hfound, ?_⟩
  simp only [WatchList.isRelevant, WatchList.contains, WatchList.ofFiles,
    List.any_cons, List.any_nil, Bool.or_false, Bool.and_eq_true,
    List.any_eq_true]
  exact ⟨rfl, file, List.mem_eraseDups.mpr hfile, beq_self_eq_true _⟩

section Entries

variable {α : Type*} {list : List α} {index : Nat} {a b : α}

theorem mem_eraseIdx_or_eq (h : list[index]? = some b) (hm : a ∈ list) :
    a ∈ list.eraseIdx index ∨ a = b := by
  obtain ⟨i, hi⟩ := List.mem_iff_getElem?.mp hm
  by_cases heq : i = index
  · exact .inr (Option.some.inj (hi.symm.trans (heq ▸ h)))
  · exact .inl (List.mem_eraseIdx_iff_getElem?.mpr ⟨i, heq, hi⟩)

theorem mem_set_or_eq (h : list[index]? = some b) (hm : a ∈ list) (c : α) :
    a ∈ list.set index c ∨ a = b := by
  obtain ⟨i, hi⟩ := List.mem_iff_getElem?.mp hm
  by_cases heq : i = index
  · exact .inr (Option.some.inj (hi.symm.trans (heq ▸ h)))
  · refine .inl (List.mem_iff_getElem?.mpr ⟨i, ?_⟩)
    rw [List.getElem?_set_ne (Ne.symm heq), hi]

end Entries

namespace Site

variable {outlet : Outlet} {site : Site}

/-! ## What the watch has noticed -/

/-- A loop owes a reload if it is in the quiet interval already or an event will
bring it there, be it in the queue or still under way. -/
def Owes (loop : WatchLoop) (underWay : List Event) : Prop :=
  loop.phase = .debouncing ∨
    ∃ event ∈ loop.queue ++ underWay, loop.watch.isRelevant event = true

section Owes

variable {loop : WatchLoop} {underWay : List Event}

theorem Owes.wake (h : Owes loop underWay) :
    Owes (loop.wake?.getD loop) underWay := by
  cases hwake : loop.wake? with
  | none => exact h
  | some next =>
      obtain ⟨-, ⟨_, -, -, rfl⟩ | ⟨hnone, rfl⟩⟩ := WatchLoop.wake?_cases hwake
      · exact .inl rfl
      · refine h.imp_right ?_
        rintro ⟨event, hm, hrelevant⟩
        refine ⟨event, ?_, hrelevant⟩
        rcases List.mem_append.mp hm with hm | hm
        · rw [hnone event hm] at hrelevant
          cases hrelevant
        · exact hm

theorem Owes.finish (h : Owes loop underWay) :
    Owes (loop.finish?.getD loop) underWay := by
  cases hfinish : loop.finish? with
  | none => exact h
  | some next =>
      obtain ⟨hphase, rfl⟩ := WatchLoop.finish?_cases hfinish
      rw [Owes, hphase] at h
      exact h.imp nofun id

/-- An event that reaches the watcher is in its queue from then on. -/
theorem Owes.deliver (h : Owes loop underWay) (event : Event) :
    Owes (loop.deliver event) (underWay.erase event) := by
  refine h.imp_right ?_
  rintro ⟨other, hm, hrelevant⟩
  refine ⟨other, ?_, hrelevant⟩
  simp only [WatchLoop.deliver, List.mem_append, List.mem_singleton]
  rcases List.mem_append.mp hm with hm | hm
  · exact .inl (.inl hm)
  · by_cases heq : other = event
    · exact .inl (.inr heq)
    · exact .inr ((List.mem_erase_of_ne heq).mpr hm)

end Owes

/-- A loop watches the files as they were found after `n` edits.  The last edit
since then was read, or is being read, or is going to be. -/
structure Watched (here : Location) (tree : FileTree) (n : Nat)
    (loop : WatchLoop) (site : Site) : Prop where
  running : site.feed.source.phase = .running
  watches : site.feed.source.loop = some loop
  created : WatchList.create tree here site.files = .ok loop.watch
  order : n ≤ site.edits
  covered : n < site.edits →
    site.edits ∈ site.read ∨ (∃ flight ∈ site.flights, flight.seen = site.edits) ∨
      Owes loop site.underWay

/-- There is a loop once a watch is registered, and not before. -/
def Alert (here : Location) (site : Site) : Prop :=
  (site.registered = none ∧ site.feed.source.loop = none) ∨
    ∃ tree n loop, site.registered = some (tree, n) ∧
      site.Watched here tree n loop

section Watched

variable {tree : FileTree} {n : Nat} {loop : WatchLoop}

theorem Watched.edit (h : site.Watched here tree n loop)
    (hregistered : site.registered = some (tree, n)) {path : Path}
    (hm : path ∈ site.files) (edited : FileTree) :
    Watched here tree n loop (site.step outlet here (.edit path edited)) := by
  refine ⟨h.running, h.watches, h.created, Nat.le_succ_of_le h.order, fun _ => ?_⟩
  obtain ⟨file, hfile, hrelevant⟩ := isRelevant_of_create h.created hm
  refine .inr (.inr (.inr ⟨⟨.modify, [file]⟩, ?_, hrelevant⟩))
  simp [Site.step, announce, hregistered, hfile]

theorem Watched.deliver (h : site.Watched here tree n loop) (event : Event) :
    Watched here tree n (loop.deliver event)
      (site.step outlet here (.deliver event)) := by
  refine ⟨h.running, ?_, h.created, h.order, fun hn => ?_⟩
  · simp [Site.step, Site.onSource, Source.modifyLoop, h.watches]
  · exact (h.covered hn).imp_right (Or.imp_right fun howes => howes.deliver event)

/-- A reading that begins now sees every edit. -/
theorem Watched.begin (h : site.Watched here tree n loop) (caller : Caller) :
    Watched here tree n loop (site.begin caller) :=
  ⟨h.running, h.watches, h.created, h.order, fun _ =>
    .inr (.inl ⟨_, List.mem_append_right _ List.mem_cons_self, rfl⟩)⟩

theorem Watched.modifyLoop (h : site.Watched here tree n loop)
    (change : WatchLoop → Option WatchLoop)
    (hwatch : ((change loop).getD loop).watch = loop.watch)
    (howes : Owes loop site.underWay →
      Owes ((change loop).getD loop) site.underWay) :
    Watched here tree n ((change loop).getD loop)
      (site.onSource fun source => source.modifyLoop change) := by
  refine ⟨h.running, ?_, ?_, h.order, fun hn => ?_⟩
  · simp [Site.onSource, Source.modifyLoop, h.watches]
  · rw [hwatch]
    exact h.created
  · exact (h.covered hn).imp_right (Or.imp_right howes)

/-- The quiet interval ends with a reading that sees every edit of the burst. -/
theorem Watched.expire (h : site.Watched here tree n loop) :
    Watched here tree n (loop.reload?.getD loop)
      ((site.onSource fun source =>
        source.modifyLoop WatchLoop.reload?).begin .loop) := by
  refine ⟨h.running, ?_, ?_, h.order, fun _ => ?_⟩
  · simp [Site.begin, Site.onSource, Source.modifyLoop, h.watches]
  · cases hreload : loop.reload? with
    | none => exact h.created
    | some next =>
        obtain ⟨-, rfl⟩ := WatchLoop.reload?_cases hreload
        exact h.created
  · exact .inr (.inl ⟨_, List.mem_append_right _ List.mem_cons_self, rfl⟩)

/-- A reload that ends has read the edits that it saw. -/
theorem Watched.store (h : site.Watched here tree n loop)
    (clock : Nat → Instant) {index : Nat} {flight : Flight}
    (hflight : site.flights[index]? = some flight) :
    Watched here tree n loop (site.store outlet clock index flight) := by
  obtain ⟨hsettings, hphase, hloop⟩ := Feed.source_conclude outlet clock site.feed
    (flight.read.map Builder.build)
  refine ⟨hphase.trans h.running, hloop.trans h.watches, ?_, h.order, fun hn => ?_⟩
  · rw [show (site.store outlet clock index flight).files = site.files from
      congrArg Settings.files hsettings]
    exact h.created
  · rcases h.covered hn with hread | ⟨other, hm, hseen⟩ | howes
    · exact .inl (List.mem_append_left _ hread)
    · rcases mem_eraseIdx_or_eq hflight hm with hm | rfl
      · exact .inr (.inl ⟨other, hm, hseen⟩)
      · exact .inl (List.mem_append_right _ (List.mem_singleton.mpr hseen.symm))
    · exact .inr (.inr howes)

theorem Watched.advance (h : site.Watched here tree n loop)
    (clock : Nat → Instant) (index : Nat) :
    ∃ next, Watched here tree n next (site.advance outlet here clock index) := by
  simp only [Site.advance]
  split
  · exact ⟨loop, h⟩
  · rename_i flight hflight
    split
    · have hstored : Watched here tree n loop
          (site.store outlet clock index flight) := h.store clock hflight
      simp only [Site.conclude]
      split
      · exact ⟨_, hstored.modifyLoop WatchLoop.finish?
          (WatchLoop.watch_finish loop) Owes.finish⟩
      · exact ⟨loop, hstored⟩
    -- A reload that reads on sees what it saw.
    · refine ⟨loop, h.running, h.watches, h.created, h.order, fun hn => ?_⟩
      refine (h.covered hn).imp_right (Or.imp_left ?_)
      rintro ⟨other, hm, hseen⟩
      rcases mem_set_or_eq hflight hm (flight.readNext here site.tree) with hm | rfl
      · exact ⟨other, hm, hseen⟩
      · have hindex := (List.getElem?_eq_some_iff.mp hflight).1
        exact ⟨_, List.mem_set hindex _, (Flight.seen_readNext ..).trans hseen⟩

theorem registered_advance (clock : Nat → Instant) (index : Nat) :
    (site.advance outlet here clock index).registered = site.registered := by
  simp only [Site.advance, Site.conclude]
  split
  · rfl
  · split
    · split <;> rfl
    · rfl

theorem Watched.step (h : site.Watched here tree n loop)
    (hregistered : site.registered = some (tree, n)) {move : Move}
    (hmove : move.Suits outlet site.files) :
    ∃ next, (site.step outlet here move).registered = some (tree, n) ∧
      Watched here tree n next (site.step outlet here move) := by
  cases move with
  | edit path edited =>
      exact ⟨loop, hregistered, h.edit hregistered hmove edited⟩
  | deliver event => exact ⟨_, hregistered, h.deliver event⟩
  | start =>
      have hclaim : site.feed.source.claim? = none := by
        rw [claim?, h.running]
      simp only [Site.step, hclaim]
      exact ⟨loop, hregistered, h⟩
  | register =>
      have hstarted : ¬ (site.feed.source.phase = .starting ∧
          ∀ flight ∈ site.flights, flight.caller ≠ .start) := by
        simp [h.running]
      simp only [Site.step, Site.register, if_neg hstarted]
      exact ⟨loop, hregistered, h⟩
  | reload => exact ⟨loop, hregistered, h.begin .other⟩
  | wake =>
      exact ⟨_, hregistered,
        h.modifyLoop WatchLoop.wake? (WatchLoop.watch_wake loop) Owes.wake⟩
  | expire =>
      simp only [Site.step]
      split
      · exact ⟨_, hregistered, h.expire⟩
      · exact ⟨loop, hregistered, h⟩
  | advance index clock =>
      obtain ⟨next, hnext⟩ := h.advance clock index
      exact ⟨next, (registered_advance clock index).trans hregistered, hnext⟩
  | ask call clock =>
      exact ⟨loop, hregistered, h.running, h.watches, h.created, h.order, h.covered⟩

end Watched

theorem loop_advance_of_none (h : site.feed.source.loop = none)
    (clock : Nat → Instant) (index : Nat) :
    (site.advance outlet here clock index).feed.source.loop = none := by
  have hstore : ∀ flight,
      (site.store outlet clock index flight).feed.source.loop = none := fun flight =>
    (Feed.source_conclude outlet clock site.feed
      (flight.read.map Builder.build)).2.2.trans h
  simp only [Site.advance, Site.conclude]
  split
  · exact h
  · split
    · split
      · exact congrArg (Option.map _) (hstore _)
      · exact hstore _
    · exact h

theorem alert_register (hregistered : site.registered = none)
    (hloop : site.feed.source.loop = none) : Alert here (site.register here) := by
  simp only [Site.register]
  split
  · rename_i hstarting
    simp only [Site.onSource, finishStart_eq hstarting.1]
    cases hcreated : watchLoop? site.feed.source.settings site.tree here with
    | none => exact .inl ⟨rfl, rfl⟩
    | some loop =>
        obtain ⟨watch, hwatch, rfl⟩ := watchLoop?_eq hcreated
        exact .inr ⟨site.tree, site.edits, .start watch, rfl, rfl, rfl, hwatch,
          Nat.le_refl _, fun hn => absurd hn (Nat.lt_irrefl _)⟩
  · exact .inl ⟨hregistered, hloop⟩

theorem Alert.step (h : site.Alert here) {move : Move}
    (hmove : move.Suits outlet site.files) :
    Alert here (site.step outlet here move) := by
  rcases h with ⟨hregistered, hloop⟩ | ⟨tree, n, loop, hregistered, hwatched⟩
  · cases move with
    | edit _ _ | reload | ask _ _ => exact .inl ⟨hregistered, hloop⟩
    | deliver _ | wake => exact .inl ⟨hregistered, congrArg (Option.map _) hloop⟩
    | start =>
        simp only [Site.step]
        split
        · rename_i source hclaim
          obtain ⟨-, rfl⟩ := claim?_eq hclaim
          exact .inl ⟨hregistered, hloop⟩
        · exact .inl ⟨hregistered, hloop⟩
    | register => exact alert_register hregistered hloop
    | expire =>
        simp only [Site.step]
        split
        · exact .inl ⟨hregistered, congrArg (Option.map _) hloop⟩
        · exact .inl ⟨hregistered, hloop⟩
    | advance index clock =>
        exact .inl ⟨(registered_advance clock index).trans hregistered,
          loop_advance_of_none hloop clock index⟩
  · obtain ⟨next, hkept, hnext⟩ := hwatched.step hregistered hmove
    exact .inr ⟨tree, n, next, hkept, hnext⟩

/-! ## Runs -/

def initial (settings : Settings) (tree : FileTree) (state : Cache.State)
    (cluster : Cluster) : Site :=
  ⟨tree, 0, ⟨.ofSettings settings, state, cluster⟩, [], none, [], [], []⟩

theorem files_step (site : Site) (move : Move) :
    (site.step outlet here move).files = site.files := by
  cases move with
  | edit _ _ | reload | ask _ _ | deliver _ | wake => rfl
  | start =>
      simp only [Site.step]
      split
      · rename_i source hclaim
        obtain ⟨-, rfl⟩ := claim?_eq hclaim
        rfl
      · rfl
  | register =>
      simp only [Site.step, Site.register]
      split
      · rename_i hstarting
        simp only [Site.onSource, finishStart_eq hstarting.1]
        rfl
      · rfl
  | expire =>
      simp only [Site.step]
      split <;> rfl
  | advance index clock =>
      have hstore : ∀ flight,
          (site.store outlet clock index flight).files = site.files := fun flight =>
        congrArg Settings.files (Feed.source_conclude outlet clock site.feed
          (flight.read.map Builder.build)).1
      simp only [Site.step, Site.advance, Site.conclude]
      split
      · rfl
      · split
        · split <;> exact hstore _
        · rfl

/-- What holds at every moment of a run. -/
structure Sound (outlet : Outlet) (here : Location) (files : List Path)
    (site : Site) : Prop where
  files : site.files = files
  readings : site.Readings outlet here
  alert : site.Alert here

theorem sound_initial (outlet : Outlet) (here : Location) (settings : Settings)
    (tree : FileTree) (state : Cache.State) (cluster : Cluster) :
    Sound outlet here settings.files (initial settings tree state cluster) where
  files := rfl
  readings :=
    { flights := List.forall_mem_nil _
      read := List.forall_mem_nil _
      stored := List.forall_mem_nil _
      taken := fun hm => absurd hm List.not_mem_nil
      kept := fun _ hlast => by simp [initial] at hlast }
  alert := .inl ⟨rfl, rfl⟩

theorem Sound.run {files : List Path} (h : site.Sound outlet here files)
    {moves : List Move} (hmoves : ∀ move ∈ moves, move.Suits outlet files) :
    Sound outlet here files (site.run outlet here moves) := by
  induction moves generalizing site with
  | nil => exact h
  | cons move rest ih =>
      obtain ⟨hmove, hrest⟩ := List.forall_mem_cons.mp hmoves
      rw [← h.files] at hmove
      exact ih ⟨(files_step site move).trans h.files, h.readings.step hmove,
        h.alert.step hmove⟩ hrest

/-- Start has returned with its watcher, no reload is under way, and no event is
under way, in the queue or in the quiet interval. -/
structure Quiet (site : Site) : Prop where
  running : site.feed.source.phase = .running
  waiting : ∃ loop, site.feed.source.loop = some loop ∧ loop.phase = .waiting ∧
    loop.queue = []
  landed : site.flights = []
  delivered : site.underWay = []

/-- The last edit came before the watch, and no reading that sees it has come to
its end. -/
def Overlooked (site : Site) : Prop :=
  site.registered.map Prod.snd = some site.edits ∧ site.edits ∉ site.read

/-- What was stored last has seen less edits than something that was stored
before. -/
def Overtaken (site : Site) : Prop :=
  ∃ last ∈ site.stored.getLast?, ∃ n ∈ site.stored, last < n

instance decidableQuiet (site : Site) : Decidable site.Quiet :=
  decidable_of_iff
    (site.feed.source.phase = .running ∧
      (∃ loop ∈ site.feed.source.loop, loop.phase = .waiting ∧ loop.queue = []) ∧
      site.flights.isEmpty = true ∧ site.underWay = [])
    ⟨fun ⟨running, waiting, landed, delivered⟩ =>
      ⟨running, waiting, List.isEmpty_iff.mp landed, delivered⟩,
    fun h => ⟨h.running, h.waiting, List.isEmpty_iff.mpr h.landed, h.delivered⟩⟩

instance decidableOverlooked (site : Site) : Decidable site.Overlooked :=
  inferInstanceAs (Decidable (_ ∧ _))

instance decidableOvertaken (site : Site) : Decidable site.Overtaken :=
  inferInstanceAs
    (Decidable (∃ last ∈ site.stored.getLast?, ∃ n ∈ site.stored, last < n))

theorem Quiet.edits_mem_read (h : site.Quiet) (halert : site.Alert here)
    (hseen : ¬ site.Overlooked) : site.edits ∈ site.read := by
  obtain ⟨loop, hloop, hphase, hqueue⟩ := h.waiting
  rcases halert with ⟨-, hnone⟩ | ⟨tree, n, found, hregistered, hwatched⟩
  · rw [hnone] at hloop
    cases hloop
  · obtain rfl : found = loop :=
      Option.some.inj (hwatched.watches.symm.trans hloop)
    rcases Nat.eq_or_lt_of_le hwatched.order with rfl | hn
    -- Nothing was edited since the watch began.
    · by_contra hread
      exact hseen ⟨congrArg (Option.map Prod.snd) hregistered, hread⟩
    · rcases hwatched.covered hn with hread | ⟨flight, hm, -⟩ |
        hdebouncing | ⟨event, hm, -⟩
      · exact hread
      · rw [h.landed] at hm
        cases hm
      · rw [hphase] at hdebouncing
        cases hdebouncing
      · rw [hqueue, h.delivered] at hm
        cases hm

/-- However edits, events, the steps of a start, reloads and reads fall: at a
quiet moment the store keeps what loading the files comes to, and answers reads
from it. -/
theorem run_follows_files (outlet : Outlet) (here : Location)
    (settings : Settings) (tree : FileTree) (state : Cache.State)
    (cluster : Cluster) {moves : List Move}
    (hmoves : ∀ move ∈ moves, move.Suits outlet settings.files) :
    let site := (initial settings tree state cluster).run outlet here moves
    site.Quiet → ¬ site.Overlooked → ¬ site.Overtaken →
      ∀ data, Files.load site.tree here settings.files = .ok data →
        site.feed.cluster.Takes outlet.handle data →
          site.feed.cluster.Keeps outlet.handle data ∧
          ∀ clock slot reply,
            (outlet.serve clock slot.call site.feed.desk).1 = some reply →
              Answers data (site.feed.cluster.onFile outlet.handle) slot reply := by
  intro site hquiet hseen hnewest data hload htakes
  have hsound : site.Sound outlet here settings.files :=
    (sound_initial outlet here settings tree state cluster).run hmoves
  rw [← hsound.files] at hload
  have hstored : site.edits ∈ site.stored := hsound.readings.taken
    (hquiet.edits_mem_read hsound.alert hseen) data hload htakes
  obtain ⟨last, hlast⟩ : ∃ last, site.stored.getLast? = some last :=
    ⟨_, List.getLast?_eq_some_getLast (List.ne_nil_of_mem hstored)⟩
  -- The reading of the last edit is stored, so nothing older was stored after it.
  have hnew : last = site.edits := by
    refine Nat.le_antisymm (hsound.readings.stored last
      (List.mem_of_getLast? hlast)) (Nat.le_of_not_lt fun hlt => ?_)
    exact hnewest ⟨last, hlast, site.edits, hstored, hlt⟩
  obtain ⟨found, hkeeps, hfound⟩ := hsound.readings.kept last hlast
  obtain rfl : found = data := Except.ok.inj ((hfound hnew).symm.trans hload)
  exact ⟨hkeeps.stored, fun _ _ _ => hkeeps.reply⟩

/-- A file `f` in the root. -/
def oneFile (text : String) : FileTree :=
  FileTree.empty.put ["f"] (.file text.toUTF8)

def segmentText : String := "\x7b\"segments\":\x7b\"s\":\x7b\x7d\x7d\x7d"

/-- The version does not fit a signed word. -/
def greatVersionText : String :=
  "\x7b\"flags\":\x7b\"f\":\x7b\"version\":9223372036854775808\x7d\x7d\x7d"

def nothingText : String := "\x7b\x7d"

def uncached : Outlet := ⟨0, none⟩

def still : Nat → Instant := fun _ => ⟨0⟩

def watchingOne : Settings := ⟨[⟨"/f"⟩], true, 0⟩

def inMemory : Cluster := ⟨[.memory .empty], [⟨0, .standard, false⟩]⟩

def inFile : Cluster := ⟨[.sqlite (.intact .migrated)], [⟨0, .standard, false⟩]⟩

theorem endures_uncached (clock : Nat → Instant) : uncached.Endures clock := nofun

/-- The file is broken at the start and is repaired when it is watched. -/
def repairing : List Move :=
  [.start, .advance 0 still, .advance 0 still, .register,
    .edit ⟨"/f"⟩ (oneFile segmentText), .deliver ⟨.modify, [⟨"/f"⟩]⟩, .wake, .expire,
    .advance 0 still, .advance 0 still]

theorem run_follows_files_repaired :
    let site := (initial watchingOne (oneFile "") .start inMemory).run uncached []
      repairing
    (∀ move ∈ repairing, move.Suits uncached watchingOne.files) ∧ site.Quiet ∧
      ¬ site.Overlooked ∧ ¬ site.Overtaken ∧
      ∃ data, Files.load site.tree [] watchingOne.files = .ok data ∧
        site.feed.cluster.Takes 0 data ∧ site.feed.cluster.Keeps 0 data := by
  intro site
  have hmoves : ∀ move ∈ repairing, move.Suits uncached watchingOne.files := by
    simp [repairing, Move.Suits, endures_uncached, watchingOne]
  have hquiet : site.Quiet := by decide +kernel
  have hseen : ¬ site.Overlooked := by decide +kernel
  have hnewest : ¬ site.Overtaken := by decide +kernel
  have htaken : ((Files.load site.tree [] watchingOne.files).toOption.any fun data =>
      site.feed.cluster.Takes 0 data) = true := by decide +kernel
  obtain ⟨data, hload, htakes⟩ := exists_of_any_toOption htaken
  have htakes := of_decide_eq_true htakes
  exact ⟨hmoves, hquiet, hseen, hnewest, data, hload, htakes,
    (run_follows_files uncached [] watchingOne (oneFile "") .start inMemory hmoves
      hquiet hseen hnewest data hload htakes).1⟩

/-- At a quiet end of a run the store does not keep what loading the files comes
to, though nothing has happened but what may. -/
def Misses (tree : FileTree) (cluster : Cluster) (moves : List Move) : Prop :=
  let site := (initial watchingOne tree .start cluster).run uncached [] moves
  (∀ move ∈ moves, move.Suits uncached watchingOne.files) ∧ site.Quiet ∧
    ∃ data, Files.load site.tree [] watchingOne.files = .ok data ∧
      ¬ site.feed.cluster.Keeps 0 data

/-- A store that answers otherwise than the data set does not keep it. -/
theorem misses_of_get {tree : FileTree} {cluster : Cluster} {moves : List Move}
    (kind : Kind) (key : String)
    (hmoves : ∀ move ∈ moves, move.Suits uncached watchingOne.files)
    (hquiet :
      ((initial watchingOne tree .start cluster).run uncached [] moves).Quiet)
    (hget :
      let site := (initial watchingOne tree .start cluster).run uncached [] moves
      ((Files.load site.tree [] watchingOne.files).toOption.any fun data =>
        (site.feed.cluster.serve 0 (.get kind key)).1 ≠
          recallOne (site.feed.cluster.onFile 0) (data.get? kind key)) = true) :
    Misses tree cluster moves := by
  obtain ⟨data, hload, hanswer⟩ := exists_of_any_toOption hget
  refine ⟨hmoves, hquiet, data, hload, fun hkeeps => of_decide_eq_true hanswer ?_⟩
  exact hkeeps.serve_slot (Files.keyed_of_load hload) (Files.covers_of_load hload)
    (.item kind key)

/-- A database file takes no version that does not fit a signed word. -/
theorem misses_greatVersion :
    Misses (oneFile greatVersionText) inFile
      [.start, .advance 0 still, .advance 0 still, .register] := by
  refine misses_of_get .features "f" ?_ (by decide +kernel) (by decide +kernel)
  simp [Move.Suits, endures_uncached]

/-- The last edit comes between the first reading and the watch. -/
theorem misses_early :
    Misses (oneFile "") inMemory
      [.start, .advance 0 still, .advance 0 still,
        .edit ⟨"/f"⟩ (oneFile segmentText), .register] := by
  refine misses_of_get .segments "s" ?_ (by decide +kernel) (by decide +kernel)
  simp [Move.Suits, endures_uncached, watchingOne]

/-- A reload on demand has read the file before its edit, and stores that after
the start has stored what it read later. -/
theorem misses_storedLate :
    Misses (oneFile segmentText) inMemory
      [.reload, .advance 0 still, .edit ⟨"/f"⟩ (oneFile nothingText), .start,
        .advance 1 still, .advance 1 still, .register, .advance 0 still] := by
  refine misses_of_get .segments "s" ?_ (by decide +kernel) (by decide +kernel)
  simp [Move.Suits, endures_uncached, watchingOne]

/-- Three runs that miss an edit.  The first does by design: a database file takes no
version that does not fit a signed word, and keeps what it had.  The others fall into
windows that are left open, though files are watched so that every change of them is
followed: an edit between the first reading and the watch is not read again, and the
old reading of a reload is stored over the newer one of a start. -/
theorem run_misses_files :
    Misses (oneFile greatVersionText) inFile
      [.start, .advance 0 still, .advance 0 still, .register] ∧
    Misses (oneFile "") inMemory
      [.start, .advance 0 still, .advance 0 still,
        .edit ⟨"/f"⟩ (oneFile segmentText), .register] ∧
    Misses (oneFile segmentText) inMemory
      [.reload, .advance 0 still, .edit ⟨"/f"⟩ (oneFile nothingText), .start,
        .advance 1 still, .advance 1 still, .register, .advance 0 still] :=
  ⟨misses_greatVersion, misses_early, misses_storedLate⟩

end Site

end Source

end VersionedFlags
