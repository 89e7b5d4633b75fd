import VersionedFlags.Proofs.Files.WatchLoop
import VersionedFlags.Proofs.Source.Reloading

/-!
# A source, its store and its files

Edits of the files, the steps of a start, the watch loop and reloads on demand
come in any order.  A reload reads the files one by one and stores them later.
A reading that began after the last edit comes to what the files hold, and what
was stored last is in the store.  A reload that nothing interrupts is the reload
of the source.
-/

namespace VersionedFlags

namespace Source

open DataSet (Builder)

open Files (FileTree Location Path WatchLoop WatchList Event LoadError)

/-! ## Starting -/

theorem claim?_eq {source next : Source} (h : source.claim? = some next) :
    source.phase = .stopped ∧ next = { source with phase := .starting } := by
  simp only [claim?] at h
  split at h
  · rename_i hphase
    exact ⟨hphase, (Option.some.inj h).symm⟩
  · cases h

theorem finishStart_eq {source : Source} (h : source.phase = .starting)
    (loop : Option WatchLoop) :
    source.finishStart loop = { source with phase := .running, loop } := by
  rw [finishStart, h]

/-- Storing tells the source of its outcome and nothing else. -/
theorem Feed.source_conclude (outlet : Outlet) (clock : Nat → Instant)
    (feed : Feed) (loaded : Except LoadError DataSet) :
    (feed.conclude outlet clock loaded).2.source.settings = feed.source.settings ∧
      (feed.conclude outlet clock loaded).2.source.phase = feed.source.phase ∧
      (feed.conclude outlet clock loaded).2.source.loop = feed.source.loop := by
  simp only [conclude]
  split <;> exact ⟨rfl, rfl, rfl⟩

/-! ## Reloads under way -/

inductive Caller where
  | start
  | loop
  | other
  deriving DecidableEq, Repr

/-- A reload under way: the files that it has read, what they came to, and the
files that it has still to read. -/
structure Flight where
  caller : Caller
  /-- It sees so many edits: each of them came before it began, or left what it
  had read by then. -/
  seen : Nat
  done : List Path
  read : Except LoadError Builder
  rest : List Path

namespace Flight

def begin (caller : Caller) (edits : Nat) (files : List Path) : Flight :=
  ⟨caller, edits, [], .ok .start, files⟩

def readNext (here : Location) (tree : FileTree) (flight : Flight) : Flight :=
  match flight.rest with
  | [] => flight
  | path :: rest =>
      { flight with
        done := flight.done ++ [path]
        read := do Files.loadFile tree here (← flight.read) path
        rest }

/-- One more edit comes.  A reading that sees all the others sees it as well,
unless it changes what was read already. -/
def notice (here : Location) (before after : FileTree) (edits : Nat)
    (flight : Flight) : Flight :=
  if flight.seen = edits ∧
      ∀ path ∈ flight.done, after.read here path = before.read here path then
    { flight with seen := edits + 1 }
  else flight

/-- What is known of a reload under way when there were so many edits. -/
structure Tracks (here : Location) (tree : FileTree) (files : List Path)
    (edits : Nat) (flight : Flight) : Prop where
  seen : flight.seen ≤ edits
  split : flight.done ++ flight.rest = files
  reachable : ∀ builder, flight.read = .ok builder → builder.Reachable
  current : flight.seen = edits →
    flight.read = flight.done.foldlM (Files.loadFile tree here) .start

variable {here : Location} {tree : FileTree} {files : List Path} {edits : Nat}
  {flight : Flight}

theorem tracks_begin (here : Location) (tree : FileTree) (files : List Path)
    (edits : Nat) (caller : Caller) :
    Tracks here tree files edits (begin caller edits files) := by
  refine ⟨Nat.le_refl _, rfl, ?_, fun _ => rfl⟩
  rintro builder ⟨⟩
  exact .start

@[simp] theorem seen_readNext (here : Location) (tree : FileTree)
    (flight : Flight) : (flight.readNext here tree).seen = flight.seen := by
  cases h : flight.rest <;> simp [readNext, h]

theorem Tracks.readNext (h : flight.Tracks here tree files edits) :
    Tracks here tree files edits (flight.readNext here tree) := by
  obtain ⟨caller, seen, done, read, rest⟩ := flight
  cases rest with
  | nil => exact h
  | cons path rest =>
      refine ⟨h.seen, ?_, ?_, fun hseen => ?_⟩
      · exact (List.append_assoc ..).trans h.split
      · intro builder hread
        obtain ⟨before, hbefore, hload⟩ := exists_of_bind_eq_ok hread
        exact Files.reachable_loadFile (h.reachable before hbefore) hload
      · have hread : read = done.foldlM (Files.loadFile tree here) .start :=
          h.current hseen
        simp only [Flight.readNext, List.foldlM_append, List.foldlM_cons,
          List.foldlM_nil, bind_pure, hread]

theorem map_build_foldlM (here : Location) (tree : FileTree) (files : List Path) :
    (files.foldlM (Files.loadFile tree here) Builder.start).map Builder.build =
      Files.load tree here files := by
  rw [Files.load]
  cases files.foldlM (Files.loadFile tree here) Builder.start <;> rfl

theorem foldlM_loadFile_congr {before after : FileTree} {paths : List Path}
    (h : ∀ path ∈ paths, after.read here path = before.read here path)
    (builder : Builder) :
    paths.foldlM (Files.loadFile after here) builder =
      paths.foldlM (Files.loadFile before here) builder := by
  induction paths generalizing builder with
  | nil => rfl
  | cons path rest ih =>
      obtain ⟨hpath, hrest⟩ := List.forall_mem_cons.mp h
      simp only [List.foldlM_cons, Files.loadFile, hpath, ih hrest]

theorem Tracks.notice (h : flight.Tracks here tree files edits)
    (after : FileTree) :
    Tracks here after files (edits + 1) (flight.notice here tree after edits) := by
  simp only [Flight.notice]
  split
  · rename_i hkept
    refine ⟨Nat.le_refl _, h.split, h.reachable, fun _ => ?_⟩
    exact (h.current hkept.1).trans (foldlM_loadFile_congr hkept.2 _).symm
  · refine ⟨Nat.le_succ_of_le h.seen, h.split, h.reachable, fun hseen => ?_⟩
    have hle := h.seen
    omega

/-- When nothing is left to be read the reading has come to what loading the
files comes to. -/
theorem Tracks.map_build (h : flight.Tracks here tree files edits)
    (hrest : flight.rest = []) (hseen : flight.seen = edits) :
    flight.read.map Builder.build = Files.load tree here files := by
  have hdone : flight.done = files := by
    rw [← h.split, hrest, List.append_nil]
  rw [h.current hseen, hdone, map_build_foldlM]

end Flight

/-! ## Sites -/

/-- A source with its store, its files and everything under way.  The counts of
edits in `read` and `stored` tell how much each reading has seen that came to an
end, and each that was stored. -/
structure Site where
  tree : FileTree
  edits : Nat
  feed : Feed
  flights : List Flight
  /-- The tree in which the watch was registered, and how many edits came
  before. -/
  registered : Option (FileTree × Nat)
  /-- Events of edits that did not reach the watcher yet. -/
  underWay : List Event
  read : List Nat
  stored : List Nat

namespace Site

/-- What happens at a site.  Events reach the watcher in any order, and others
besides those of edits. -/
inductive Move where
  /-- One of the files is edited. -/
  | edit (path : Path) (tree : FileTree)
  | deliver (event : Event)
  | start
  | register
  | reload
  | wake
  /-- The quiet interval ends. -/
  | expire
  /-- A reload under way reads its next file, or stores what it has read. -/
  | advance (index : Nat) (clock : Nat → Instant)
  | ask (call : Call) (clock : Nat → Instant)

def files (site : Site) : List Path := site.feed.source.settings.files

def onSource (site : Site) (change : Source → Source) : Site :=
  { site with feed := { site.feed with source := change site.feed.source } }

def begin (site : Site) (caller : Caller) : Site :=
  { site with
    flights := site.flights ++ [.begin caller site.edits site.files] }

/-- The event of an edit, once the watch is registered: it is for the path that
was found for the file then. -/
def announce (here : Location) (site : Site) (path : Path) : List Event :=
  match site.registered with
  | none => []
  | some (tree, _) =>
      match Files.resolve tree here path with
      | .ok file => [⟨.modify, [file]⟩]
      | .error _ => []

/-- A reload ends with storing what it has read. -/
def store (outlet : Outlet) (clock : Nat → Instant) (site : Site) (index : Nat)
    (flight : Flight) : Site :=
  let (answer, feed) :=
    site.feed.conclude outlet clock (flight.read.map Builder.build)
  { site with
    feed
    flights := site.flights.eraseIdx index
    read := site.read ++ [flight.seen]
    stored :=
      if answer = some true then site.stored ++ [flight.seen] else site.stored }

/-- The loop goes on when its reload has ended. -/
def conclude (outlet : Outlet) (clock : Nat → Instant) (site : Site)
    (index : Nat) (flight : Flight) : Site :=
  if flight.caller = .loop then
    (site.store outlet clock index flight).onSource fun source =>
      source.modifyLoop WatchLoop.finish?
  else site.store outlet clock index flight

def advance (outlet : Outlet) (here : Location) (clock : Nat → Instant)
    (site : Site) (index : Nat) : Site :=
  match site.flights[index]? with
  | none => site
  | some flight =>
      if flight.rest = [] then site.conclude outlet clock index flight
      else
        { site with
          flights := site.flights.set index (flight.readNext here site.tree) }

/-- The last step of a start, after its reload. -/
def register (here : Location) (site : Site) : Site :=
  if site.feed.source.phase = .starting ∧
      ∀ flight ∈ site.flights, flight.caller ≠ .start then
    let loop := watchLoop? site.feed.source.settings site.tree here
    { site.onSource fun source => source.finishStart loop with
      registered := loop.map fun _ => (site.tree, site.edits) }
  else site

/-- A move that is not possible changes nothing. -/
def step (outlet : Outlet) (here : Location) (site : Site) : Move → Site
  | .edit path tree =>
      { site with
        tree
        edits := site.edits + 1
        flights := site.flights.map (·.notice here site.tree tree site.edits)
        underWay := site.underWay ++ site.announce here path }
  | .deliver event =>
      { site.onSource fun source =>
          source.modifyLoop fun loop => some (loop.deliver event) with
        underWay := site.underWay.erase event }
  | .start =>
      match site.feed.source.claim? with
      | some source => (site.onSource fun _ => source).begin .start
      | none => site
  | .register => site.register here
  | .reload => site.begin .other
  | .wake => site.onSource fun source => source.modifyLoop WatchLoop.wake?
  | .expire =>
      if site.feed.source.isDebouncing then
        (site.onSource fun source =>
          source.modifyLoop WatchLoop.reload?).begin .loop
      else site
  | .advance index clock => site.advance outlet here clock index
  | .ask call clock =>
      { site with feed := site.feed.step outlet here (.read call clock) }

def run (outlet : Outlet) (here : Location) (site : Site) (moves : List Move) :
    Site :=
  moves.foldl (step outlet here) site

/-- Edits are of the files of the source, nobody else writes the store, and the
clock leaves room for the entries of a cache. -/
def Move.Suits (outlet : Outlet) (files : List Path) : Move → Prop
  | .edit path _ => path ∈ files
  | .advance _ clock => outlet.Endures clock
  | .ask call _ => call.alters = false
  | .deliver _ | .start | .register | .reload | .wake | .expire => True

variable {outlet : Outlet} {here : Location} {site : Site}

/-! ## What the readings have seen -/

/-- A reading that has seen every edit comes to what loading the files comes to
now.  If the store takes that it is stored, and what was stored last is in the
store. -/
structure Readings (outlet : Outlet) (here : Location) (site : Site) : Prop where
  flights : ∀ flight ∈ site.flights,
    flight.Tracks here site.tree site.files site.edits
  read : ∀ n ∈ site.read, n ≤ site.edits
  stored : ∀ n ∈ site.stored, n ≤ site.edits
  taken : site.edits ∈ site.read → ∀ data,
    Files.load site.tree here site.files = .ok data →
      site.feed.cluster.Takes outlet.handle data → site.edits ∈ site.stored
  kept : ∀ n, site.stored.getLast? = some n →
    ∃ data, site.feed.Keeps outlet data ∧
      (n = site.edits → Files.load site.tree here site.files = .ok data)

theorem Readings.edit (h : site.Readings outlet here) (path : Path)
    (tree : FileTree) :
    Readings outlet here (site.step outlet here (.edit path tree)) := by
  constructor
  · intro flight hm
    obtain ⟨before, hbefore, rfl⟩ := List.mem_map.mp hm
    exact (h.flights before hbefore).notice tree
  · exact fun n hm => Nat.le_succ_of_le (h.read n hm)
  · exact fun n hm => Nat.le_succ_of_le (h.stored n hm)
  -- No reading that has ended sees the new edit.
  · intro hm
    exact absurd (h.read _ hm) (by simp only [step]; omega)
  · intro n hlast
    obtain ⟨data, hkeeps, -⟩ := h.kept n hlast
    refine ⟨data, hkeeps, fun hn => ?_⟩
    exact absurd (h.stored n (List.mem_of_getLast? hlast))
      (by simp only [hn, step]; omega)

theorem Readings.onSource (h : site.Readings outlet here)
    (change : Source → Source)
    (hsettings : (change site.feed.source).settings = site.feed.source.settings) :
    Readings outlet here (site.onSource change) := by
  have hfiles : (site.onSource change).files = site.files :=
    congrArg Settings.files hsettings
  refine ⟨?_, h.read, h.stored, ?_, ?_⟩
  · rw [hfiles]
    exact h.flights
  · rw [hfiles]
    exact h.taken
  · intro n hlast
    obtain ⟨data, hkeeps, hload⟩ := h.kept n hlast
    rw [hfiles]
    exact ⟨data, hkeeps.withSource _, hload⟩

theorem Readings.begin (h : site.Readings outlet here) (caller : Caller) :
    Readings outlet here (site.begin caller) := by
  refine ⟨fun flight hm => ?_, h.read, h.stored, h.taken, h.kept⟩
  rcases List.mem_append.mp hm with hm | hm
  · exact h.flights flight hm
  · cases List.mem_singleton.mp hm
    exact Flight.tracks_begin here site.tree site.files site.edits caller

theorem Readings.ask (h : site.Readings outlet here) {call : Call}
    (hread : call.alters = false) (clock : Nat → Instant) :
    Readings outlet here (site.step outlet here (.ask call clock)) := by
  have hcluster : (site.feed.step outlet here (.read call clock)).cluster =
      site.feed.cluster := Feed.cluster_of_read outlet here hread site.feed clock
  refine ⟨h.flights, h.read, h.stored, ?_, ?_⟩
  · simp only [step, hcluster]
    exact h.taken
  · intro n hlast
    obtain ⟨data, hkeeps, hload⟩ := h.kept n hlast
    exact ⟨data, hkeeps.read here hread clock, hload⟩

/-- What a reload has read is stored, or the store stays as it is. -/
theorem Readings.store (h : site.Readings outlet here)
    {clock : Nat → Instant} (hclock : outlet.Endures clock) (index : Nat)
    {flight : Flight} (hm : flight ∈ site.flights) (hrest : flight.rest = []) :
    Readings outlet here (site.store outlet clock index flight) := by
  have htracks := h.flights flight hm
  have hothers : ∀ other ∈ site.flights.eraseIdx index,
      other.Tracks here site.tree site.files site.edits :=
    fun other hm => h.flights other (List.mem_of_mem_eraseIdx hm)
  have hread : ∀ n ∈ site.read ++ [flight.seen], n ≤ site.edits :=
    List.forall_mem_append.mpr
      ⟨h.read, List.forall_mem_singleton.mpr htracks.seen⟩
  rcases site.feed.conclude_cases hclock (flight.read.map Builder.build) with
    ⟨data, hdata, htakes, heq⟩ | ⟨reason, hrefused, heq⟩
  · simp only [Site.store, heq]
    obtain ⟨builder, hbuilder, rfl⟩ : ∃ builder, flight.read = .ok builder ∧
        builder.build = data := by
      cases hbuilder : flight.read with
      | error error =>
          rw [hbuilder] at hdata
          cases hdata
      | ok builder =>
          rw [hbuilder] at hdata
          exact ⟨builder, rfl, Except.ok.inj hdata⟩
    have hmade := DataSet.Made.build (htracks.reachable builder hbuilder)
    refine ⟨hothers, hread, ?_, ?_, ?_⟩
    · exact List.forall_mem_append.mpr
        ⟨h.stored, List.forall_mem_singleton.mpr htracks.seen⟩
    · intro hm found hload htakes
      rcases List.mem_append.mp hm with hm | hm
      -- What the store takes now it took before this initialization as well.
      · exact List.mem_append_left _ (h.taken hm found hload htakes.of_init)
      · rw [List.mem_singleton.mp hm]
        exact List.mem_append_right _ List.mem_cons_self
    · intro n hlast
      obtain rfl : flight.seen = n := by simpa using hlast
      refine ⟨builder.build, Feed.keeps_init hclock (fun kind => ?_) hmade.keyed
        htakes _, fun hseen => ?_⟩
      · exact ⟨builder.items.get kind, by simp [DataSet.items?, Builder.build]⟩
      · exact (htracks.map_build hrest hseen).symm.trans hdata
  · simp only [Site.store, heq]
    refine ⟨hothers, hread, h.stored, ?_, ?_⟩
    · intro hm data hload htakes
      rcases List.mem_append.mp hm with hm | hm
      · exact h.taken hm data hload htakes
      · refine absurd htakes (hrefused data ?_)
        rw [htracks.map_build hrest (List.mem_singleton.mp hm).symm, ← hload]
        rfl
    · intro n hlast
      obtain ⟨data, hkeeps, hload⟩ := h.kept n hlast
      exact ⟨data, hkeeps.withSource _, hload⟩

theorem Readings.advance (h : site.Readings outlet here)
    {clock : Nat → Instant} (hclock : outlet.Endures clock) (index : Nat) :
    Readings outlet here (site.advance outlet here clock index) := by
  simp only [Site.advance]
  split
  · exact h
  · rename_i flight hflight
    have hm := List.mem_of_getElem? hflight
    split
    · rename_i hrest
      simp only [Site.conclude]
      split
      · exact (h.store hclock index hm hrest).onSource _ rfl
      · exact h.store hclock index hm hrest
    · refine ⟨fun other hother => ?_, h.read, h.stored, h.taken, h.kept⟩
      rcases List.mem_or_eq_of_mem_set hother with hother | rfl
      · exact h.flights other hother
      · exact (h.flights flight hm).readNext

theorem Readings.register (h : site.Readings outlet here) :
    Readings outlet here (site.register here) := by
  simp only [Site.register]
  split
  · rename_i hstarting
    have hkept := h.onSource (fun source => source.finishStart (watchLoop?
      site.feed.source.settings site.tree here)) (by rw [finishStart_eq hstarting.1])
    exact ⟨hkept.flights, hkept.read, hkept.stored, hkept.taken, hkept.kept⟩
  · exact h

theorem Readings.step (h : site.Readings outlet here) {move : Move}
    (hmove : move.Suits outlet site.files) :
    Readings outlet here (site.step outlet here move) := by
  cases move with
  | edit path tree => exact h.edit path tree
  | deliver event =>
      have hkept := h.onSource (fun source =>
        source.modifyLoop fun loop => some (loop.deliver event)) rfl
      exact ⟨hkept.flights, hkept.read, hkept.stored, hkept.taken, hkept.kept⟩
  | start =>
      simp only [Site.step]
      split
      · rename_i source hclaim
        obtain ⟨-, rfl⟩ := claim?_eq hclaim
        exact Readings.begin (h.onSource
          (fun source => { source with phase := .starting }) rfl) .start
      · exact h
  | register => exact h.register
  | reload => exact h.begin .other
  | wake => exact h.onSource (fun source => source.modifyLoop WatchLoop.wake?) rfl
  | expire =>
      simp only [Site.step]
      split
      · exact (h.onSource _ rfl).begin .loop
      · exact h
  | advance index clock => exact h.advance hmove index
  | ask call clock => exact h.ask hmove clock

/-! ## A reload that nothing interrupts -/

theorem run_cons (move : Move) (rest : List Move) :
    site.run outlet here (move :: rest) =
      (site.step outlet here move).run outlet here rest :=
  rfl

/-- A reload advances until it has stored what it read, and the files are as they
were. -/
theorem run_replicate_advance (outlet : Outlet) (here : Location)
    {site : Site} {index : Nat} {flight : Flight}
    (h : site.flights[index]? = some flight) (clock : Nat → Instant) :
    site.run outlet here
        (List.replicate (flight.rest.length + 1) (.advance index clock)) =
      site.conclude outlet clock index
        { flight with
          done := flight.done ++ flight.rest
          read := do
            flight.rest.foldlM (Files.loadFile site.tree here) (← flight.read)
          rest := [] } := by
  obtain ⟨caller, seen, done, read, rest⟩ := flight
  induction rest generalizing site done read with
  | nil =>
      simp only [List.append_nil, List.foldlM_nil, bind_pure]
      simp [run, step, advance, h]
  | cons path rest ih =>
      rw [List.length_cons, List.replicate_succ, run_cons]
      have hlt := (List.getElem?_eq_some_iff.mp h).1
      have hnext : site.step outlet here (.advance index clock) =
          { site with
            flights := site.flights.set index
              ⟨caller, seen, done ++ [path],
                do Files.loadFile site.tree here (← read) path, rest⟩ } := by
        simp [step, advance, h, Flight.readNext]
      rw [hnext, ih _ _ (List.getElem?_set_self hlt)]
      simp only [conclude, store, List.foldlM_cons, bind_assoc, List.eraseIdx_set_eq]

/-- A reload that nothing comes in between is a reload of the source. -/
theorem run_begin_undisturbed (outlet : Outlet) (here : Location) (site : Site)
    {caller : Caller} (hcaller : caller ≠ .loop) (clock : Nat → Instant) :
    (site.begin caller).run outlet here
        (List.replicate (site.files.length + 1)
          (.advance site.flights.length clock)) =
      { site with
        feed := (site.feed.reload outlet here ⟨site.tree, clock⟩).2
        read := site.read ++ [site.edits]
        stored :=
          if (site.feed.reload outlet here ⟨site.tree, clock⟩).1 = some true then
            site.stored ++ [site.edits]
          else site.stored } := by
  have hflight : (site.begin caller).flights[site.flights.length]? =
      some (.begin caller site.edits site.files) :=
    List.getElem?_concat_length
  have herase : (site.begin caller).flights.eraseIdx site.flights.length =
      site.flights := by
    rw [begin, List.eraseIdx_append_of_length_le (Nat.le_refl _), Nat.sub_self]
    exact List.append_nil _
  have hreload : site.feed.reload outlet here ⟨site.tree, clock⟩ =
      site.feed.conclude outlet clock ((site.files.foldlM
        (Files.loadFile site.tree here) Builder.start).map Builder.build) := by
    rw [Flight.map_build_foldlM]
    rfl
  refine (run_replicate_advance outlet here hflight clock).trans ?_
  refine (if_neg hcaller).trans ?_
  simp only [store, herase, hreload]
  rfl

end Site

end Source

end VersionedFlags
