import VersionedFlags.Proofs.Cache.Sequential
import VersionedFlags.Proofs.Store.Linearization

/-!
# Caches write through

Calls follow one another through any number of handles, once through the bare
handles and once through a cache around each, whatever the caches hold at first
and whatever their clocks show.  The backend is the same after every call, and
the calls that write have the same answers.
-/

namespace VersionedFlags

namespace Cluster

/-- Items can be read through the open handles. -/
def Readable (cluster : Cluster) : Prop :=
  ∀ handle, cluster.IsOpen handle → ∀ kind key,
    ∃ item, (cluster.serve handle (.get kind key)).1 = .ok item

variable {cluster : Cluster} {handle : Nat}

theorem isOpen_of_advise {kind : Kind} {item : Item} {newer : Bool}
    (h : cluster.advise handle kind item = .ok newer) : cluster.IsOpen handle := by
  obtain ⟨found, hopen, -⟩ := exists_of_bind_eq_ok h
  exact ⟨found, hopen⟩

/-- The handle through which an upsert succeeds stays open. -/
theorem isOpen_of_upsert {kind : Kind} {item : Item} {outcome : Outcome}
    (h : (cluster.serve handle (.upsert kind item)).1 = .ok outcome) :
    (cluster.serve handle (.upsert kind item)).2.IsOpen handle := by
  simp only [Cluster.serve, Cluster.upsert] at h ⊢
  cases hadvise : cluster.advise handle kind item with
  | error error =>
      rw [hadvise] at h
      cases h
  | ok newer =>
      have hopen := isOpen_of_advise hadvise
      cases newer with
      | false => exact hopen
      | true =>
          simp only [Cluster.commit]
          cases hhandle : cluster.handle handle with
          | error error => exact hopen
          | ok found =>
              simp only [ok_bind]
              cases found.2.commit found.1.realm found.1.closed kind item with
              | error error => exact hopen
              | ok result => exact hopen.setMedium _ _

/-- Databases in memory can always be read. -/
theorem readable_of_memory
    (h : ∀ medium ∈ cluster.media, medium.mindsClosing = false) :
    cluster.Readable := by
  rintro handle ⟨⟨found, medium⟩, hopen⟩ kind key
  obtain ⟨-, -, -, hmedium⟩ := openHandle_cases hopen
  cases medium with
  | sqlite image => cases h _ (List.mem_of_getElem? hmedium)
  | memory database =>
      exact ⟨_, by simp only [Cluster.serve, hopen, ok_bind]; rfl⟩

end Cluster

namespace Cache

namespace Desk

variable {mode : Mode} {handle : Nat} {clock : Nat → Instant}

theorem withExpiry_eq {call : Call} {now : Instant} {state : State}
    (h : mode.expiry? now ≠ none)
    (next : Option Instant → State × Progress call) :
    ∃ expires, withExpiry mode now state next = next expires := by
  obtain ⟨expires, hexpires⟩ := Option.ne_none_iff_exists'.mp h
  exact ⟨expires, by simp only [withExpiry, hexpires]⟩

theorem serve_init (hclock : ∀ n, mode.expiry? (clock n) ≠ none) (desk : Desk)
    (data : DataSet) :
    (desk.serve mode handle clock (.init data)).1 =
      some (desk.cluster.serve handle (.init data)).1 := by
  simp only [serve_eq, Cache.start, follow_asking]
  cases (desk.cluster.serve handle (.init data)).1 with
  | error error => simp only [resume, follow_answered]
  | ok =>
      simp only [resume]
      split
      · obtain ⟨expires, heq⟩ := withExpiry_eq (hclock (desk.reads + 1)) _
        rw [heq]
        simp only [follow_answered]
      · simp only [follow_answered]

theorem serve_close (desk : Desk) :
    (desk.serve mode handle clock .close).1 =
      some (desk.cluster.serve handle .close).1 := by
  simp only [serve_eq, Cache.start, follow_asking, resume, follow_answered]

/-- The item that won over a superseded upsert is read before the answer. -/
theorem follow_reread (hclock : ∀ n, mode.expiry? (clock n) ≠ none)
    {desk : Desk} {kind : Kind} {item : Item} (seen : Nat) {current : Option Item}
    (hread : (desk.cluster.serve handle (.get kind item.key)).1 = .ok current) :
    (follow mode handle clock 1 (.asking (.reread kind item seen)) desk).1 =
      some (.ok .superseded) := by
  simp only [follow_asking, hread, resume]
  obtain ⟨expires, heq⟩ := withExpiry_eq (hclock desk.reads) _
  rw [heq]
  simp only [follow_answered]

theorem serve_upsert (hclock : ∀ n, mode.expiry? (clock n) ≠ none) (desk : Desk)
    {kind : Kind} {item : Item}
    (hreads : (desk.cluster.serve handle (.upsert kind item)).2.Readable) :
    (desk.serve mode handle clock (.upsert kind item)).1 =
      some (desk.cluster.serve handle (.upsert kind item)).1 := by
  simp only [serve_eq, Cache.start]
  split
  · simp only [follow_asking]
    cases hreply : (desk.cluster.serve handle (.upsert kind item)).1 with
    | error error => simp only [resume, follow_answered]
    | ok outcome =>
        simp only [resume, finishUpsert]
        obtain ⟨expires, heq⟩ := withExpiry_eq (hclock (desk.reads + 1)) _
        rw [heq]
        cases outcome with
        | applied => simp only [follow_answered]
        | superseded =>
            obtain ⟨current, hread⟩ := hreads handle
              (Cluster.isOpen_of_upsert hreply) kind item.key
            exact follow_reread hclock _ hread
  · simp only [follow_asking, resume, follow_answered]

/-- A call that alters something is answered as the bare call is. -/
theorem serve_reply (hclock : ∀ n, mode.expiry? (clock n) ≠ none) (desk : Desk)
    {call : Call} (halters : call.alters = true)
    (hreads : (desk.cluster.serve handle call).2.Readable) :
    (desk.serve mode handle clock call).1 =
      some (desk.cluster.serve handle call).1 := by
  cases call with
  | init data => exact serve_init hclock desk data
  | upsert kind item => exact serve_upsert hclock desk hreads
  | close => exact serve_close desk
  | get _ _ | all _ | initialized => cases halters

end Desk

/-! ## Runs -/

/-- A call through a handle, and what its clock shows during the call. -/
structure Use where
  handle : Nat
  call : Call
  clock : Nat → Instant

/-- A call, its reply, which an aborted call lacks, and what it leaves. -/
structure Moment where
  call : Call
  reply : Option call.Reply
  cluster : Cluster

namespace Use

def bare (use : Use) (cluster : Cluster) : Moment :=
  ⟨use.call, some (cluster.serve use.handle use.call).1,
    (cluster.serve use.handle use.call).2⟩

def through (use : Use) (mode : Mode) (state : State) (cluster : Cluster) :
    Option use.call.Reply × Desk :=
  Desk.serve mode use.handle use.clock use.call ⟨0, state, cluster⟩

def cached (use : Use) (mode : Mode) (state : State) (cluster : Cluster) :
    Moment :=
  ⟨use.call, (use.through mode state cluster).1,
    (use.through mode state cluster).2.cluster⟩

end Use

def runBare (cluster : Cluster) : List Use → List Moment
  | [] => []
  | use :: rest => use.bare cluster :: runBare (use.bare cluster).cluster rest

/-- Each handle has a cache of its own around it. -/
def runCached (modes : Nat → Mode) (caches : Nat → State) (cluster : Cluster) :
    List Use → List Moment
  | [] => []
  | use :: rest =>
      let mode := modes use.handle
      let state := caches use.handle
      use.cached mode state cluster ::
        runCached modes
          (fun handle =>
            if handle = use.handle then (use.through mode state cluster).2.state
            else caches handle)
          (use.cached mode state cluster).cluster rest

/-- A call leaves what the other leaves, and is answered alike if it alters
something. -/
structure Moment.Matches (cached bare : Moment) : Prop where
  call : cached.call = bare.call
  cluster : cached.cluster = bare.cluster
  alters : bare.call.alters = true → cached = bare

namespace Use

variable {mode : Mode} {cluster : Cluster}

theorem cluster_cached (use : Use) (mode : Mode) (state : State)
    (cluster : Cluster) :
    (use.cached mode state cluster).cluster = (use.bare cluster).cluster :=
  Desk.serve_cluster ⟨0, state, cluster⟩

theorem cached_matches_bare {use : Use}
    (hclock : ∀ n, mode.expiry? (use.clock n) ≠ none)
    (hreads : (use.bare cluster).cluster.Readable) (state : State) :
    Moment.Matches (use.cached mode state cluster) (use.bare cluster) where
  call := rfl
  cluster := use.cluster_cached mode state cluster
  alters halters := by
    have hreply : (use.through mode state cluster).1 =
        some (cluster.serve use.handle use.call).1 :=
      Desk.serve_reply hclock ⟨0, state, cluster⟩ halters hreads
    have hcluster : (use.through mode state cluster).2.cluster =
        (cluster.serve use.handle use.call).2 :=
      use.cluster_cached mode state cluster
    rw [cached, bare, hreply, hcluster]

end Use

/-- Calls through any number of caches and the bare calls leave the backend
alike after every call, and those that alter something are answered alike. -/
theorem runCached_matches_runBare {modes : Nat → Mode} {cluster : Cluster}
    {uses : List Use}
    (hclock : ∀ use ∈ uses, ∀ n,
      (modes use.handle).expiry? (use.clock n) ≠ none)
    (hreads : ∀ moment ∈ runBare cluster uses, moment.cluster.Readable)
    (caches : Nat → State) :
    List.Forall₂ Moment.Matches (runCached modes caches cluster uses)
      (runBare cluster uses) := by
  induction uses generalizing cluster caches with
  | nil => exact .nil
  | cons use rest ih =>
      obtain ⟨hclock, hclocks⟩ := List.forall_mem_cons.mp hclock
      obtain ⟨hread, hreads⟩ := List.forall_mem_cons.mp hreads
      refine .cons (Use.cached_matches_bare hclock hread _) ?_
      rw [Use.cluster_cached]
      exact ih hclocks hreads _

theorem runCached_matches_superseded :
    ∃ after : Cluster,
      runBare
          ⟨[.memory .empty], [⟨0, .standard, false⟩, ⟨0, .standard, false⟩]⟩
          [⟨1, .upsert .features (.live "a" 2 .null), fun _ => ⟨0⟩⟩,
            ⟨0, .upsert .features (.live "a" 1 .null), fun n => ⟨9 - n⟩⟩] =
        [⟨.upsert .features (.live "a" 2 .null), some (.ok .applied), after⟩,
          ⟨.upsert .features (.live "a" 1 .null), some (.ok .superseded),
            after⟩] ∧
      List.Forall₂ Moment.Matches
        (runCached (fun handle => if handle = 0 then .ttl 5 else .forever)
          (fun _ => State.start.setItem .features "a"
            ⟨some (.live "a" 3 .null), none⟩)
          ⟨[.memory .empty], [⟨0, .standard, false⟩, ⟨0, .standard, false⟩]⟩
          [⟨1, .upsert .features (.live "a" 2 .null), fun _ => ⟨0⟩⟩,
            ⟨0, .upsert .features (.live "a" 1 .null), fun n => ⟨9 - n⟩⟩])
        [⟨.upsert .features (.live "a" 2 .null), some (.ok .applied), after⟩,
          ⟨.upsert .features (.live "a" 1 .null), some (.ok .superseded),
            after⟩] := by
  have hlimit : 14 < Instant.limit := by decide
  refine ⟨_, rfl, runCached_matches_runBare ?_ ?_ _⟩
  · have hlater : ∀ n, 9 - n + 5 < Instant.limit := fun n => by omega
    simp [Mode.expiry?, Instant.after?, hlater]
  · intro moment hm
    refine Cluster.readable_of_memory ?_
    revert moment
    decide

end Cache

end VersionedFlags
