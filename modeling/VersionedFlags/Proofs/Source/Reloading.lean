import VersionedFlags.Proofs.Cache.Staleness
import VersionedFlags.Proofs.Cache.WriteThrough
import VersionedFlags.Proofs.Files.Loading
import VersionedFlags.Proofs.Store.Content
import VersionedFlags.Source.Basic

/-!
# The last good data survive

A source reloads its files into a store that nobody else writes, and the files
change between the attempts as they like.  The store keeps the data of the last
attempt that was loaded and stored; an attempt that fails, at whatever stage,
leaves the store and its answers as they were.
-/

namespace VersionedFlags

namespace Source

/-! ## Stores -/

/-- A store is a handle, with a cache around it or without one. -/
structure Outlet where
  handle : Nat
  cache : Option Cache.Mode
  deriving DecidableEq, Repr

namespace Outlet

def serve (outlet : Outlet) (clock : Nat → Instant) (call : Call)
    (desk : Cache.Desk) : Option call.Reply × Cache.Desk :=
  match outlet.cache with
  | some mode => desk.serve mode outlet.handle clock call
  | none =>
      (some (desk.cluster.serve outlet.handle call).1,
        { desk with cluster := (desk.cluster.serve outlet.handle call).2 })

/-- The initialization of the store; an aborted one comes to nothing. -/
def init (outlet : Outlet) (clock : Nat → Instant) (data : DataSet) :
    OptionT (StateM Cache.Desk) (Except StoreError Unit) :=
  OptionT.mk (outlet.serve clock (.init data))

/-- The lifetime of an entry ends before the clock does. -/
def Endures (outlet : Outlet) (clock : Nat → Instant) : Prop :=
  ∀ mode, outlet.cache = some mode → ∀ n, mode.expiry? (clock n) ≠ none

variable {outlet : Outlet} {clock : Nat → Instant}

theorem serve_cluster (clock : Nat → Instant) (call : Call)
    (desk : Cache.Desk) :
    (outlet.serve clock call desk).2.cluster =
      (desk.cluster.serve outlet.handle call).2 := by
  simp only [serve]
  split
  · exact desk.serve_cluster
  · rfl

theorem serve_init (h : outlet.Endures clock) (data : DataSet)
    (desk : Cache.Desk) :
    (outlet.serve clock (.init data) desk).1 =
      some (desk.cluster.serve outlet.handle (.init data)).1 := by
  simp only [serve]
  split
  · rename_i mode hmode
    exact desk.serve_init (h mode hmode) data
  · rfl

/-- An initialization that the backend refuses leaves the cache. -/
theorem serve_init_error (clock : Nat → Instant) {data : DataSet}
    {desk : Cache.Desk} {error : StoreError}
    (herror : desk.cluster.serve outlet.handle (.init data) =
      (.error error, desk.cluster)) :
    (outlet.serve clock (.init data) desk).2.state = desk.state := by
  simp only [serve]
  split
  · simp only [Cache.Desk.serve_eq, Cache.start, Cache.Desk.follow_asking, herror,
      Cache.resume, Cache.Desk.follow_answered]
  · rfl

end Outlet

/-! ## Answers of a data set -/

/-- The data set answers a read so, as it was loaded or as a store on a file
gives it back. -/
def Answers (data : DataSet) (file : Bool) (slot : Slot)
    (reply : slot.call.Reply) : Prop :=
  reply = data.recall false slot ∨ reply = data.recall file slot

theorem recall_of_shown {data : DataSet} (hkeyed : data.Keyed) {slot : Slot}
    {value : slot.call.Answer} (h : data.shown? slot = some value) :
    data.recall false slot = .ok value := by
  cases slot with
  | item kind key =>
      obtain ⟨item, hitem, rfl⟩ := Option.map_eq_some_iff.mp h
      simp only [DataSet.recall, hitem, recallOne, Option.bind_some]
      cases item.visible? <;> rfl
  | live kind =>
      obtain ⟨items, hitems, rfl⟩ := Option.map_eq_some_iff.mp h
      have hkeys : items.Keyed := fun key item hget =>
        hkeyed kind key item (by rw [DataSet.get?, hitems, Option.bind_some, hget])
      simp only [DataSet.recall, hitems, Option.getD_some]
      exact recallAll_memory hkeys

namespace Outlet

variable {outlet : Outlet} {clock : Nat → Instant} {data : DataSet} {file : Bool}
  {desk : Cache.Desk}

/-- A cache around the store has only entries of the data set, and it knows that
the store is initialized. -/
def Shows (outlet : Outlet) (data : DataSet) (file : Bool)
    (state : Cache.State) : Prop :=
  ∀ mode, outlet.cache = some mode → state.latched = true ∧
    (mode.isEnabled = true →
      state.All fun slot entry => Answers data file slot (.ok entry.value))

theorem shows_init (h : outlet.Endures clock) (hkeyed : data.Keyed)
    (hok : (desk.cluster.serve outlet.handle (.init data)).1 = .ok ()) :
    outlet.Shows data file (outlet.serve clock (.init data) desk).2.state := by
  intro mode hmode
  simp only [serve, hmode, Cache.Desk.serve_eq, Cache.start,
    Cache.Desk.follow_asking, hok, Cache.resume]
  cases henabled : mode.isEnabled with
  | true =>
      obtain ⟨expires, heq⟩ :=
        Cache.Desk.withExpiry_eq (h mode hmode (desk.reads + 1)) _
      rw [if_pos rfl, heq]
      simp only [Cache.Desk.follow_answered]
      refine ⟨rfl, fun _ => ?_⟩
      exact desk.state.all_reset fun slot value hshown =>
        .inl (recall_of_shown hkeyed hshown).symm
  | false =>
      simp only [Bool.false_eq_true, if_false, Cache.Desk.follow_answered]
      exact ⟨rfl, False.elim⟩

/-- A read adds to the cache what the backend answers. -/
theorem Shows.read {call : Call} (h : outlet.Shows data file desk.state)
    (hbacks : ∀ slot, (desk.cluster.serve outlet.handle slot.call).1 =
      data.recall file slot)
    (hread : call.alters = false) :
    outlet.Shows data file (outlet.serve clock call desk).2.state := by
  intro mode hmode
  obtain ⟨hlatched, hentries⟩ := h mode hmode
  simp only [serve, hmode]
  refine ⟨desk.latched_serve hlatched, fun henabled => ?_⟩
  have hnew : Cache.Desk.Records mode clock
      (fun slot entry => Answers data file slot (.ok entry.value))
      outlet.handle desk.cluster := by
    intro slot value expires _ hvalue _
    exact .inr (hvalue.symm.trans (hbacks slot))
  cases call with
  | get kind key => exact Cache.Desk.all_get (hentries henabled) hnew
  | all kind => exact Cache.Desk.all_all (hentries henabled) hnew
  | initialized => exact Cache.Desk.all_initialized (hentries henabled)
  | init _ | upsert _ _ | close => cases hread

theorem Shows.reply {slot : Slot} {reply : slot.call.Reply}
    (h : outlet.Shows data file desk.state)
    (hbacks : ∀ slot, (desk.cluster.serve outlet.handle slot.call).1 =
      data.recall file slot)
    (hreply : (outlet.serve clock slot.call desk).1 = some reply) :
    Answers data file slot reply := by
  simp only [serve] at hreply
  split at hreply
  · rename_i mode hmode
    rcases Cache.Desk.reply_cases hreply with
      ⟨entry, value, henabled, hentry, hfresh, rfl⟩ | hasked
    · rw [← Cache.Entry.value_of_fresh? hfresh]
      exact (h mode hmode).2 henabled slot entry hentry
    · exact .inr (hasked.symm.trans (hbacks slot))
  · cases hreply
    exact .inr (hbacks slot)

theorem Shows.initialized (h : outlet.Shows data file desk.state)
    (hbacks : (desk.cluster.serve outlet.handle .initialized).1 = .ok true) :
    (outlet.serve clock .initialized desk).1 = some (.ok true) := by
  simp only [serve]
  split
  · rename_i mode hmode
    exact desk.serve_initialized_of_latched (h mode hmode).1
  · exact congrArg some hbacks

end Outlet

/-! ## Attempts -/

/-- A source with its store, between two calls. -/
structure Feed where
  source : Source
  state : Cache.State
  cluster : Cluster

/-- The files as an attempt to reload finds them, and the clock during it. -/
structure Attempt where
  tree : Files.FileTree
  clock : Nat → Instant

namespace Feed

def desk (feed : Feed) : Cache.Desk := ⟨0, feed.state, feed.cluster⟩

/-- Stores what loading came to.  There is no answer if storing it was
aborted. -/
def conclude (outlet : Outlet) (feed : Feed) (clock : Nat → Instant)
    (loaded : Except Files.LoadError DataSet) : Option Bool × Feed :=
  match (Source.attempt (outlet.init clock) loaded).run.run feed.desk with
  | (some outcome, desk) =>
      (some outcome.isLoaded,
        ⟨feed.source.publish outcome, desk.state, desk.cluster⟩)
  | (none, desk) => (none, ⟨feed.source, desk.state, desk.cluster⟩)

def reload (outlet : Outlet) (here : Files.Location) (feed : Feed)
    (attempt : Attempt) : Option Bool × Feed :=
  feed.conclude outlet attempt.clock
    (Files.load attempt.tree here feed.source.settings.files)

/-- The data set of an attempt that is loaded and then taken by the store. -/
def taken? (outlet : Outlet) (here : Files.Location) (feed : Feed)
    (attempt : Attempt) : Option DataSet :=
  match Files.load attempt.tree here feed.source.settings.files with
  | .error _ => none
  | .ok data =>
      match (outlet.serve attempt.clock (.init data) feed.desk).1 with
      | some (.ok ()) => some data
      | some (.error _) | none => none

variable {outlet : Outlet} {here : Files.Location} {feed : Feed}
  {attempt : Attempt}

theorem run_attempt (outlet : Outlet) (clock : Nat → Instant) (data : DataSet)
    (desk : Cache.Desk) :
    (Source.attempt (outlet.init clock) (.ok data)).run.run desk =
      match outlet.serve clock (.init data) desk with
      | (some (.ok ()), desk) => (some (.loaded data.count), desk)
      | (some (.error error), desk) => (some (.failed error.message), desk)
      | (none, desk) => (none, desk) := by
  have hserved : (outlet.init clock data).run.run desk =
      (pure (outlet.serve clock (.init data) desk) : Id _) := rfl
  simp only [Source.attempt, OptionT.run_bind, Option.elimM, StateT.run_bind,
    hserved, pure_bind]
  rcases outlet.serve clock (.init data) desk with ⟨_ | ⟨_ | _⟩, _⟩ <;> rfl

/-- What storing comes to: the data set is stored and announced, or the failure
is and nothing else changes. -/
theorem conclude_cases {clock : Nat → Instant} (h : outlet.Endures clock)
    (feed : Feed) (loaded : Except Files.LoadError DataSet) :
    (∃ data, loaded = .ok data ∧ feed.cluster.Takes outlet.handle data ∧
      feed.conclude outlet clock loaded =
        (some true, ⟨feed.source.publish (.loaded data.count),
          (outlet.serve clock (.init data) feed.desk).2.state,
          (feed.cluster.serve outlet.handle (.init data)).2⟩)) ∨
    ∃ reason,
      (∀ data, loaded = .ok data → ¬ feed.cluster.Takes outlet.handle data) ∧
      feed.conclude outlet clock loaded =
        (some false, { feed with source := feed.source.publish (.failed reason) }) := by
  cases loaded with
  | error error => exact .inr ⟨error.message, nofun, rfl⟩
  | ok data =>
      have hcluster := outlet.serve_cluster clock (.init data) feed.desk
      have hreply := outlet.serve_init h data feed.desk
      have hrun := run_attempt outlet clock data feed.desk
      rcases Cluster.init_cases feed.cluster outlet.handle data with
        ⟨hok, -⟩ | ⟨error, herror⟩
      · have hserve : outlet.serve clock (.init data) feed.desk =
            (some (.ok ()), (outlet.serve clock (.init data) feed.desk).2) :=
          Prod.ext (hreply.trans (congrArg some hok)) rfl
        refine .inl ⟨data, rfl, hok, ?_⟩
        rw [hserve] at hrun
        simp only [conclude, hrun, hcluster]
        rfl
      · have hserve : outlet.serve clock (.init data) feed.desk =
            (some (.error error), (outlet.serve clock (.init data) feed.desk).2) :=
          Prod.ext (hreply.trans
            (congrArg some (congrArg Prod.fst herror))) rfl
        have hstate : (outlet.serve clock (.init data) feed.desk).2.state =
            feed.state := outlet.serve_init_error clock herror
        have hsame : (outlet.serve clock (.init data) feed.desk).2.cluster =
            feed.cluster := hcluster.trans (congrArg Prod.snd herror)
        refine .inr ⟨error.message, ?_, ?_⟩
        · rintro _ ⟨⟩ htakes
          have hok : (feed.cluster.serve outlet.handle (.init data)).1 = .ok () :=
            htakes
          rw [herror] at hok
          cases hok
        · rw [hserve] at hrun
          simp only [conclude, hrun, hsame, hstate]
          rfl

theorem taken?_eq (h : outlet.Endures attempt.clock) (here : Files.Location)
    (feed : Feed) (data : DataSet) :
    feed.taken? outlet here attempt = some data ↔
      Files.load attempt.tree here feed.source.settings.files = .ok data ∧
        feed.cluster.Takes outlet.handle data := by
  cases hload : Files.load attempt.tree here feed.source.settings.files with
  | error error => simp [taken?, hload]
  | ok found =>
      have hreply : (outlet.serve attempt.clock (.init found) feed.desk).1 =
          some (feed.cluster.serve outlet.handle (.init found)).1 :=
        outlet.serve_init h found feed.desk
      simp only [taken?, hload, hreply, Except.ok.injEq, Cluster.Takes]
      constructor
      · intro htaken
        split at htaken
        · rename_i hok
          cases htaken
          exact ⟨rfl, Option.some.inj hok⟩
        · cases htaken
        · cases htaken
      · rintro ⟨rfl, hok⟩
        rw [hok]

/-- What an attempt comes to: the data set is stored and announced, or the
failure is and nothing else changes. -/
theorem reload_cases (here : Files.Location) (h : outlet.Endures attempt.clock)
    (feed : Feed) :
    (∃ data, feed.taken? outlet here attempt = some data ∧
      Files.load attempt.tree here feed.source.settings.files = .ok data ∧
      feed.cluster.Takes outlet.handle data ∧
      feed.reload outlet here attempt =
        (some true, ⟨feed.source.publish (.loaded data.count),
          (outlet.serve attempt.clock (.init data) feed.desk).2.state,
          (feed.cluster.serve outlet.handle (.init data)).2⟩)) ∨
    ∃ reason, feed.taken? outlet here attempt = none ∧
      feed.reload outlet here attempt =
        (some false, { feed with source := feed.source.publish (.failed reason) }) := by
  rcases feed.conclude_cases h
      (Files.load attempt.tree here feed.source.settings.files) with
    ⟨data, hload, htakes, heq⟩ | ⟨reason, hrefused, heq⟩
  · exact .inl ⟨data, (taken?_eq h here feed data).mpr ⟨hload, htakes⟩, hload,
      htakes, heq⟩
  · refine .inr ⟨reason, Option.eq_none_iff_forall_ne_some.mpr ?_, heq⟩
    intro data htaken
    obtain ⟨hload, htakes⟩ := (taken?_eq h here feed data).mp htaken
    exact hrefused data hload htakes

end Feed

/-! ## Runs -/

/-- What happens to a source and its store that nobody else writes. -/
inductive Move where
  | reload (attempt : Attempt)
  | read (call : Call) (clock : Nat → Instant)

/-- The clock leaves room for the entries of a reload, and a read is one. -/
def Move.Suits (outlet : Outlet) : Move → Prop
  | .reload attempt => outlet.Endures attempt.clock
  | .read call _ => call.alters = false

namespace Feed

variable {outlet : Outlet} {here : Files.Location} {initial feed : Feed}
  {attempt : Attempt} {data : DataSet} {last : Option DataSet}

def step (outlet : Outlet) (here : Files.Location) (feed : Feed) : Move → Feed
  | .reload attempt => (feed.reload outlet here attempt).2
  | .read call clock =>
      let desk := (outlet.serve clock call feed.desk).2
      { feed with state := desk.state, cluster := desk.cluster }

def run (outlet : Outlet) (here : Files.Location) (feed : Feed)
    (moves : List Move) : Feed :=
  moves.foldl (step outlet here) feed

def takenBy? (outlet : Outlet) (here : Files.Location) (feed : Feed) :
    Move → Option DataSet
  | .reload attempt => feed.taken? outlet here attempt
  | .read _ _ => none

/-- The data set of the last attempt of a run that was loaded and stored. -/
def lastTaken? (outlet : Outlet) (here : Files.Location) :
    Feed → List Move → Option DataSet
  | _, [] => none
  | feed, move :: rest =>
      (lastTaken? outlet here (feed.step outlet here move) rest).or
        (feed.takenBy? outlet here move)

/-! ## What a store with the data set of the last attempt is like -/

structure Keeps (outlet : Outlet) (data : DataSet) (feed : Feed) : Prop where
  covers : ∀ kind, ∃ items, data.items? kind = some items
  keyed : data.Keyed
  stored : feed.cluster.Keeps outlet.handle data
  shows : outlet.Shows data (feed.cluster.onFile outlet.handle) feed.state

theorem keeps_init {clock : Nat → Instant} (h : outlet.Endures clock)
    (hcovers : ∀ kind, ∃ items, data.items? kind = some items)
    (hkeyed : data.Keyed) (htakes : feed.cluster.Takes outlet.handle data)
    (source : Source) :
    Keeps outlet data ⟨source,
      (outlet.serve clock (.init data) feed.desk).2.state,
      (feed.cluster.serve outlet.handle (.init data)).2⟩ :=
  ⟨hcovers, hkeyed, htakes.keeps, outlet.shows_init h hkeyed htakes⟩

theorem Keeps.backs (h : feed.Keeps outlet data) (slot : Slot) :
    (feed.cluster.serve outlet.handle slot.call).1 =
      data.recall (feed.cluster.onFile outlet.handle) slot :=
  h.stored.serve_slot h.keyed h.covers slot

theorem Keeps.reply (h : feed.Keeps outlet data) {clock : Nat → Instant}
    {slot : Slot} {reply : slot.call.Reply}
    (hreply : (outlet.serve clock slot.call feed.desk).1 = some reply) :
    Answers data (feed.cluster.onFile outlet.handle) slot reply :=
  h.shows.reply h.backs hreply

/-- What the source notes of itself is of no account. -/
theorem Keeps.withSource (h : feed.Keeps outlet data) (source : Source) :
    Keeps outlet data { feed with source } :=
  ⟨h.covers, h.keyed, h.stored, h.shows⟩

theorem cluster_of_read (outlet : Outlet) (here : Files.Location) {call : Call}
    (hread : call.alters = false) (feed : Feed) (clock : Nat → Instant) :
    (feed.step outlet here (.read call clock)).cluster = feed.cluster := by
  refine (outlet.serve_cluster clock call feed.desk).trans ?_
  cases call <;> first | rfl | cases hread

theorem Keeps.read (here : Files.Location) (h : feed.Keeps outlet data)
    {call : Call} (hread : call.alters = false) (clock : Nat → Instant) :
    (feed.step outlet here (.read call clock)).Keeps outlet data := by
  have hcluster := cluster_of_read outlet here hread feed clock
  refine ⟨h.covers, h.keyed, by rw [hcluster]; exact h.stored, ?_⟩
  rw [hcluster]
  exact h.shows.read h.backs hread

/-- What a run has brought about: the store holds the data set that was taken
last, or what it held at first, and the source knows which. -/
structure Good (outlet : Outlet) (initial : Feed) (last : Option DataSet)
    (feed : Feed) : Prop where
  settings : feed.source.settings = initial.source.settings
  initialized : feed.source.initialized =
    (initial.source.initialized || last.isSome)
  untouched : last = none → feed.cluster = initial.cluster
  keeps : ∀ data, last = some data → feed.Keeps outlet data

theorem good_start (outlet : Outlet) (initial : Feed) :
    Good outlet initial none initial :=
  ⟨rfl, by simp, fun _ => rfl, nofun⟩

theorem Good.reload (h : Good outlet initial last feed)
    (hclock : outlet.Endures attempt.clock) :
    Good outlet initial ((feed.taken? outlet here attempt).or last)
      (feed.reload outlet here attempt).2 := by
  rcases reload_cases here hclock feed with
    ⟨data, htaken, hload, htakes, heq⟩ | ⟨reason, htaken, heq⟩
  · rw [htaken, heq]
    refine ⟨h.settings, by simp [publish, ReloadOutcome.isLoaded], nofun, ?_⟩
    rintro _ ⟨⟩
    exact keeps_init hclock (Files.covers_of_load hload)
      (Files.keyed_of_load hload) htakes _
  · rw [htaken, heq]
    refine ⟨h.settings, ?_, h.untouched, fun data hdata => ?_⟩
    · simpa [publish, ReloadOutcome.isLoaded] using h.initialized
    · exact (h.keeps data hdata).withSource _

theorem Good.step (h : Good outlet initial last feed) {move : Move}
    (hmove : move.Suits outlet) :
    Good outlet initial ((feed.takenBy? outlet here move).or last)
      (feed.step outlet here move) := by
  cases move with
  | reload attempt => exact h.reload hmove
  | read call clock =>
      refine ⟨h.settings, h.initialized, fun hlast => ?_, fun data hdata => ?_⟩
      · exact (cluster_of_read outlet here hmove feed clock).trans (h.untouched hlast)
      · exact (h.keeps data hdata).read here hmove clock

theorem Good.run (here : Files.Location) {moves : List Move}
    (h : Good outlet initial last feed)
    (hmoves : ∀ move ∈ moves, move.Suits outlet) :
    Good outlet initial ((feed.lastTaken? outlet here moves).or last)
      (feed.run outlet here moves) := by
  induction moves generalizing feed last with
  | nil => exact h
  | cons move rest ih =>
      obtain ⟨hmove, hrest⟩ := List.forall_mem_cons.mp hmoves
      rw [lastTaken?, Option.or_assoc]
      exact ih (h.step hmove) hrest

end Feed

/-! ## The last good data -/

/-- Whatever the files were at each attempt, the store has the items of the last
attempt that was loaded and stored, tombstones included, or what it had at
first, and reads are answered from them; the source is initialized if there was
such an attempt.  The next attempt answers and announces that it succeeded, with
the number of definitions in all files, or that it failed, and then the store is
left as it was, its cache included.  The clocks have to leave room for the lifetime of
the cache: a moment of expiry past the last reading of a clock would end the attempt
without an answer. -/
theorem run_keeps_last_good (outlet : Outlet) (here : Files.Location)
    (settings : Settings) (state : Cache.State) (cluster : Cluster)
    {moves : List Move} (hmoves : ∀ move ∈ moves, move.Suits outlet)
    (attempt : Attempt) (hclock : outlet.Endures attempt.clock) :
    let initial : Feed := ⟨.ofSettings settings, state, cluster⟩
    let feed := initial.run outlet here moves
    let last := initial.lastTaken? outlet here moves
    let taken := feed.taken? outlet here attempt
    let answer := (feed.reload outlet here attempt).1
    let next := (feed.reload outlet here attempt).2
    (last = none → feed.cluster = cluster) ∧
    (∀ data, last = some data →
      (∀ kind, ∃ items, data.items? kind = some items) ∧
      feed.cluster.Keeps outlet.handle data ∧
      (∀ clock slot reply,
        (outlet.serve clock slot.call feed.desk).1 = some reply →
          Answers data (feed.cluster.onFile outlet.handle) slot reply) ∧
      ∀ clock, (outlet.serve clock .initialized feed.desk).1 =
        some (.ok true)) ∧
    feed.source.initialized = last.isSome ∧
    answer = some taken.isSome ∧
    (taken.isSome = true →
      ∃ sections : Files.Path → Files.Sections,
        (∀ path ∈ settings.files,
          Files.sectionsAt attempt.tree here path = .ok (sections path)) ∧
        next.source.outcomes = feed.source.outcomes.send
          (.loaded (Files.definitionsOf sections settings.files).length)) ∧
    (taken = none →
      (∃ reason,
        next.source.outcomes = feed.source.outcomes.send (.failed reason)) ∧
      next.desk = feed.desk) := by
  intro initial feed last taken answer next
  have hgood : Feed.Good outlet initial last feed := by
    simpa using (Feed.good_start outlet initial).run here hmoves
  have hsettings : feed.source.settings = settings := hgood.settings
  refine ⟨hgood.untouched, fun data hdata => ?_,
    hgood.initialized.trans (Bool.false_or _), ?_⟩
  · have hkeeps := hgood.keeps data hdata
    exact ⟨hkeeps.covers, hkeeps.stored, fun _ _ _ => hkeeps.reply,
      fun _ => hkeeps.shows.initialized hkeeps.stored.serve_initialized⟩
  · rcases feed.reload_cases here hclock with
      ⟨data, htaken, hload, -, heq⟩ | ⟨reason, htaken, heq⟩
    · simp only [answer, next, taken, heq, htaken]
      rw [hsettings] at hload
      refine ⟨rfl, fun _ => ?_, nofun⟩
      obtain ⟨sections, hsections⟩ := Files.exists_sections_of_load hload
      refine ⟨sections, hsections, ?_⟩
      rw [← Files.count_of_load hsections hload]
      rfl
    · simp only [answer, next, taken, heq, htaken]
      exact ⟨rfl, nofun, fun _ => ⟨⟨reason, rfl⟩, rfl⟩⟩

/-- The files are gone at the second attempt. -/
theorem run_keeps_last_good_lostFiles :
    let outlet : Outlet := ⟨0, some (.ttl 5)⟩
    let clock : Nat → Instant := fun _ => ⟨0⟩
    let initial : Feed :=
      ⟨.ofSettings ⟨[⟨"/f"⟩, ⟨"/g"⟩], false, 0⟩, .start,
        ⟨[.memory .empty], [⟨0, .standard, false⟩]⟩⟩
    let feed := initial.run outlet [] [.reload ⟨Files.segmentAndValue, clock⟩]
    (Move.reload ⟨Files.segmentAndValue, clock⟩).Suits outlet ∧
      outlet.Endures clock ∧
      ∃ data, data.count = 2 ∧ feed.cluster.Keeps 0 data ∧
        feed.source.initialized = true ∧
        (feed.reload outlet [] ⟨.empty, clock⟩).1 = some false := by
  intro outlet clock initial feed
  have hclock : outlet.Endures clock := by
    rintro mode ⟨⟩ n
    have hroom : 0 + 5 < Instant.limit := by decide
    simp [Cache.Mode.expiry?, Instant.after?, clock, hroom]
  have hmoves : ∀ move ∈ [Move.reload ⟨Files.segmentAndValue, clock⟩],
      move.Suits outlet := List.forall_mem_singleton.mpr hclock
  have hfirst : (initial.lastTaken? outlet []
      [.reload ⟨Files.segmentAndValue, clock⟩]).map DataSet.count = some 2 := by
    decide +kernel
  have hlost : (feed.taken? outlet [] ⟨.empty, clock⟩).isNone = true := by
    decide +kernel
  obtain ⟨data, hlast, hcount⟩ := Option.map_eq_some_iff.mp hfirst
  obtain ⟨-, hkept, hinitialized, hanswer, -⟩ :=
    run_keeps_last_good outlet [] ⟨[⟨"/f"⟩, ⟨"/g"⟩], false, 0⟩ .start
      ⟨[.memory .empty], [⟨0, .standard, false⟩]⟩ hmoves ⟨.empty, clock⟩ hclock
  have htaken : feed.taken? outlet [] ⟨.empty, clock⟩ = none :=
    Option.isNone_iff_eq_none.mp hlost
  refine ⟨hclock, hclock, data, hcount, (hkept data hlast).2.1, ?_, ?_⟩
  · exact hinitialized.trans (congrArg Option.isSome hlast)
  · exact hanswer.trans (congrArg (fun taken => some taken.isSome) htaken)

end Source

end VersionedFlags
