import VersionedFlags.Proofs.Cache.Tracking

/-!
# Reading after overlapping writes

Once every call through a cache has ended, a read is answered as the backend
answers it, unless a fresh entry is late: the write that entered it recorded
its item when its backend had moved on.
-/

namespace VersionedFlags

namespace Cache

namespace Traffic

/-! ## Whole calls -/

/-- Where a whole call finds its clock, its cache and its backend when nothing
comes between its steps. -/
def surroundings (handle : Nat) (now : Instant) :
    Surroundings (StateM (State × Cluster)) where
  now := pure now
  load := return (← get).1
  save state := modify fun pair => (state, pair.2)
  ask call := modifyGet fun (state, cluster) =>
    ((cluster.serve handle call).1, state, (cluster.serve handle call).2)

/-- The answer of a call that begins now and that nothing comes between. -/
def answer? (mode : Mode) (handle : Nat) (traffic : Traffic) (call : Call) :
    Option call.Reply :=
  ((serve (surroundings handle traffic.now) mode call).run
    (traffic.state, traffic.cluster)).1

variable {mode : Mode} {handle : Nat} {traffic : Traffic}

theorem answer?_get (hmode : mode.isEnabled = true)
    (hclock : mode.expiry? traffic.now ≠ none) (kind : Kind) (key : String) :
    traffic.answer? mode handle (.get kind key) =
      match traffic.state.item? traffic.now kind key with
      | some found => some (.ok (found.bind Item.visible?))
      | none => some (traffic.cluster.serve handle (.get kind key)).1 := by
  obtain ⟨expires, hexpires⟩ := Option.ne_none_iff_exists'.mp hclock
  cases hitem : traffic.state.item? traffic.now kind key with
  | some found =>
      simp [answer?, serve, surroundings, Cache.start, hmode, startGet, hitem,
        follow]
      rfl
  | none =>
      have hresume : ∀ reply, (resume mode traffic.now traffic.state.miss
          (.get kind key traffic.state.generation) reply).2 = .answered reply := by
        intro reply
        cases reply with
        | error error => rfl
        | ok found => simp only [resume, withExpiry, hexpires]
      simp [answer?, serve, surroundings, Cache.start, hmode, startGet, hitem,
        follow, hresume]
      rfl

/-! ## Reads after the calls have ended -/

theorem not_outdated {slot : Slot}
    (hended : ∀ flight ∈ traffic.flights, flight.stage.ended = true) :
    ¬ traffic.Outdated slot := by
  rintro ⟨⟨call, stage⟩, hm, houtdates⟩
  have hstage := hended _ hm
  cases houtdates with
  | unrecorded h => cases h <;> cases hstage
  | dropping kind item => cases hstage

/-- Whatever calls overlapped, once all have ended a get through the cache is
answered as the backend answers it, unless its entry is fresh and late. -/
theorem answer?_get_iff_not_late {cluster : Cluster} {now : Instant}
    {index : Nat} {realm : Realm} {file : Bool} {ledger : Ledger}
    {moves : List Move} {final : Traffic} (hmode : mode.isEnabled = true)
    (hhandle : cluster.handles[handle]? = some ⟨index, realm, false⟩)
    (hholds : cluster.Holds index file ledger)
    (hadmits : Admits mode handle file (start now cluster) moves)
    (hfinal : run mode handle (start now cluster) moves = final)
    (hended : ∀ flight ∈ final.flights, flight.stage.ended = true)
    (kind : Kind) (key : String) :
    final.answer? mode handle (.get kind key) =
        some (final.cluster.serve handle (.get kind key)).1 ↔
      ¬ ((final.state.item? final.now kind key).isSome ∧
        lateIn mode handle (start now cluster) (fun _ => False) moves
          (.item kind key)) := by
  obtain ⟨after, h⟩ :=
    (tracked_start mode (fun _ => False) now hhandle hholds).run hadmits
  rw [hfinal] at h
  have hclock : mode.expiry? final.now ≠ none := hfinal ▸ hadmits.clock
  rw [answer?_get hmode hclock]
  cases hitem : final.state.item? final.now kind key with
  | none => simp
  | some found =>
      have hserve := h.holds.serve_slot h.handle_eq (.item kind key)
      rcases h.shown _ _ (State.shown?_of_item? hitem) with hiff | houtdated
      · simp [hserve, hiff]
      · exact absurd houtdated (not_outdated hended)

/-! ## A late slot -/

/-- The second upsert is made and recorded between the backend's reply to the
first and the record of the first. -/
def overtaking : List Move :=
  [.begin (.upsert .features (.live "a" 1 .null)), .reply 0,
    .begin (.upsert .features (.live "a" 2 .null)), .reply 1,
    .record 1, .record 1, .record 0, .record 0]

/-- Both upserts succeed, and the cache keeps the older item for good. -/
theorem older_item_kept :
    (run .forever 0 blank overtaking).flights =
        [⟨.upsert .features (.live "a" 1 .null), .answered (.ok .applied)⟩,
          ⟨.upsert .features (.live "a" 2 .null), .answered (.ok .applied)⟩] ∧
      (run .forever 0 blank overtaking).answer? .forever 0 (.get .features "a") =
        some (.ok (some (.live "a" 1 .null))) ∧
      ((run .forever 0 blank overtaking).cluster.serve 0
          (.get .features "a")).1 =
        .ok (some (.live "a" 2 .null)) :=
  ⟨rfl, rfl, rfl⟩

theorem late_overtaken :
    lateIn .forever 0 blank (fun _ => False) overtaking
      (.item .features "a") := by
  have hkept : ∀ item, (Call.upsert .features item).Kept false :=
    fun _ => ⟨trivial, nofun⟩
  have hadmits : Admits .forever 0 false blank overtaking := by
    simp [Admits, overtaking, Mode.expiry?, hkept]
  have hended : ∀ flight ∈ (run .forever 0 blank overtaking).flights,
      flight.stage.ended = true := List.all_eq_true.mp rfl
  by_contra hgood
  have hsame := (answer?_get_iff_not_late rfl rfl holds_blank hadmits rfl
    hended .features "a").mpr fun h => hgood h.2
  cases hsame

end Traffic

end Cache

end VersionedFlags
