import VersionedFlags.Proofs.Cache.Forgetting

/-!
# Expiries past the end of the clock

What a cache records expires after its lifetime, and that moment may lie past
the last one that a clock can show.  A call then is aborted, though its store
has served it, and nothing of it is recorded.  This is the only way in which a
call is aborted.
-/

namespace VersionedFlags

namespace Cache

theorem Exchange.isRecorded_error (call : Call) (error : StoreError) :
    (⟨call, .error error⟩ : Exchange).isRecorded = false := by
  cases call <;> rfl

/-- An enabled cache passes on no replies but those to a close. -/
def Pending.Apt (mode : Mode) : {call : Call} → Pending call → Prop
  | call, .pass _ => mode.isEnabled = true → call = .close
  | _, _ => True

variable {mode : Mode} {now : Instant} {state : State} {call : Call}

/-! ## Steps -/

theorem apt_of_start {pending : Pending call}
    (h : (Cache.start mode now state call).2 = .asking pending) :
    pending.Apt mode := by
  cases pending with
  | init | get | all | upsert | reread | initialized => trivial
  | pass =>
      intro henabled
      cases call with
      | close => rfl
      | init data => cases h
      | upsert kind item =>
          simp only [Cache.start, henabled, if_true] at h
          cases h
      | get kind key =>
          simp only [Cache.start, henabled, if_true, startGet] at h
          split at h <;> cases h
      | all kind =>
          simp only [Cache.start, henabled, if_true, startAll] at h
          split at h <;> cases h
      | initialized =>
          simp only [Cache.start, startInitialized] at h
          split at h
          · cases h
          · split at h
            · split at h <;> cases h
            · cases h

theorem isEnabled_of_expiry? (h : mode.expiry? now = none) :
    mode.isEnabled = true := by
  cases mode with
  | ttl nanos => rfl
  | disabled | forever => cases h

variable {pending : Pending call} {reply : pending.asks.Reply}
  {next : State × Progress call}

theorem Resumes.of_aborted (h : Resumes mode now state pending reply next)
    (haborted : next.2 = .aborted) :
    (⟨pending.asks, reply⟩ : Exchange).isRecorded = true ∧
      mode.expiry? now = none ∧ next.1 = state := by
  cases h with
  | aborted pending answer hrecorded hexpiry =>
      exact ⟨hrecorded, hexpiry, rfl⟩
  | _ => cases haborted

/-- A reply that is to be recorded, while no expiry can be shown, aborts the
call. -/
theorem Resumes.aborts (h : Resumes mode now state pending reply next)
    (hapt : pending.Apt mode)
    (hrecorded : (⟨pending.asks, reply⟩ : Exchange).isRecorded = true)
    (hexpiry : mode.expiry? now = none) : next.2 = .aborted := by
  have henabled := isEnabled_of_expiry? hexpiry
  cases h with
  | aborted => rfl
  | failed pending error =>
      rw [Exchange.isRecorded_error] at hrecorded
      cases hrecorded
  | passed call answer =>
      obtain rfl : call = .close := hapt henabled
      cases hrecorded
  | initBare data hmode =>
      rw [henabled] at hmode
      cases hmode
  | told => cases hrecorded
  | init _ hexpires | get _ _ _ _ hexpires | all _ _ _ hexpires
  | applied _ _ hexpires | superseded _ _ hexpires | reread _ _ _ _ hexpires
  | denied hexpires =>
      rw [hexpiry] at hexpires
      cases hexpires

/-! ## Calls -/

namespace Station

variable {σ : Type} {backend : Backend σ} {clock : Nat → Instant}
  {station middle after : Station σ} {pending : Pending call}

theorem Asks.apt (h : Asks backend mode clock station call pending middle) :
    pending.Apt mode := by
  cases h with
  | first hstart => exact apt_of_start hstart
  | again _ _ _ => trivial

/-- An aborted call had a last reply to record, and has not recorded it. -/
theorem exists_unrecorded
    (h : station.serve backend mode clock call = (none, after)) :
    ∃ (pending : Pending call) (middle : Station σ),
      Asks backend mode clock station call pending middle ∧
      (⟨pending.asks, (backend middle.store pending.asks).1⟩ :
        Exchange).isRecorded = true ∧
      mode.expiry? (clock middle.reads) = none ∧
      after = (middle.goOn backend mode clock pending).2 ∧
      after.state = middle.state := by
  rcases serve_cases backend mode clock station call with
    ⟨answer, -, hserve⟩ | ⟨pending, middle, found, hasks, hends, hserve⟩
  · rw [hserve] at h
    cases h
  · rw [hserve] at h
    cases h
    have haborted : (middle.goOn backend mode clock pending).1 = .aborted := by
      generalize (middle.goOn backend mode clock pending).1 = progress at hends
      cases hends
      rfl
    obtain ⟨hrecorded, hexpiry, hstate⟩ :=
      (resumes_goOn backend mode clock middle pending).of_aborted haborted
    exact ⟨pending, middle, hasks, hrecorded, hexpiry, rfl, hstate⟩

/-- A call is aborted when it comes to record the last reply that it got and the
clock shows a moment with no expiry. -/
theorem serve_aborted_iff {result : Option call.Reply}
    (h : station.serve backend mode clock call = (result, after)) :
    result = none ↔
      ∃ exchanges exchange last,
        after.asked = station.asked ++ (exchanges ++ [exchange]) ∧
        exchange.isRecorded = true ∧ after.reads = last + 1 ∧
        mode.expiry? (clock last) = none := by
  constructor
  · rintro rfl
    obtain ⟨pending, middle, hasks, hrecorded, hexpiry, rfl, -⟩ :=
      exists_unrecorded h
    obtain ⟨exchanges, hasked⟩ := hasks.exists_asked
    refine ⟨exchanges, _, middle.reads, ?_, hrecorded, rfl, hexpiry⟩
    simp only [goOn, hasked, List.append_assoc]
  · rintro ⟨exchanges, exchange, last, hasked, hrecorded, hreads, hexpiry⟩
    rcases serve_cases backend mode clock station call with
      ⟨answer, -, hserve⟩ | ⟨pending, middle, found, hasks, hends, hserve⟩
    · rw [hserve] at h
      cases h
      have hlength : station.asked.length =
          (station.asked ++ (exchanges ++ [exchange])).length :=
        congrArg List.length hasked
      simp at hlength
    · rw [hserve] at h
      cases h
      obtain rfl : middle.reads = last := Nat.succ.inj hreads
      obtain rfl : ⟨pending.asks, (backend middle.store pending.asks).1⟩ =
          exchange := by
        have hlast := congrArg List.getLast? hasked
        simpa [goOn] using hlast
      have haborted : (middle.goOn backend mode clock pending).1 = .aborted :=
        (resumes_goOn backend mode clock middle pending).aborts hasks.apt
          hrecorded hexpiry
      rw [haborted] at hends
      cases hends
      rfl

theorem serve_ne_none (hclock : ∀ n, mode.expiry? (clock n) ≠ none)
    (backend : Backend σ) (station : Station σ) (call : Call) :
    (station.serve backend mode clock call).1 ≠ none := by
  intro hnone
  obtain ⟨-, middle, -, -, hexpiry, -⟩ :=
    exists_unrecorded (Prod.ext hnone rfl :
      station.serve backend mode clock call = (none, _))
  exact hclock middle.reads hexpiry

/-- What an aborted call leaves of its cache. -/
theorem memory_of_aborted
    (h : station.serve backend mode clock call = (none, after)) :
    station.state.SameMemory after.state ∨
      ∃ kind item, call = .upsert kind item ∧
        station.state.Drops kind item.key after.state := by
  obtain ⟨pending, middle, hasks, hrecorded, -, -, hstate⟩ := exists_unrecorded h
  rw [hstate]
  cases hasks with
  | again kind item _ =>
      exact .inr ⟨kind, item, rfl, State.drops_recordLoss _ _ _⟩
  | first hstart =>
      refine .inl (sameMemory_start mode _ _ ?_)
      rintro rfl
      cases pending
      cases hrecorded

/-! ## Lifetimes -/

theorem expiry?_ofNanos_eq_none_iff (nanos : Nat) (now : Instant) :
    (Mode.ofNanos nanos).expiry? now = none ↔
      0 < nanos ∧ Instant.limit ≤ now.nanos + nanos := by
  by_cases hzero : nanos = 0
  · simp [Mode.ofNanos, Mode.expiry?, hzero]
  · have hpos : 0 < nanos := Nat.pos_of_ne_zero hzero
    simp [Mode.ofNanos, Mode.expiry?, Instant.after?, hzero, hpos]

/-- Whatever lifetime was asked for, a call is aborted just when its last reply
is to be recorded and would expire past the end of the clock. -/
theorem aborts_iff_overruns {nanos : Nat}
    (hmode : mode = .ofNanos nanos ∨ ∃ seconds : Int,
      mode = .ofSeconds seconds ∧ nanos = seconds.toNat * nanosPerSecond)
    {result : Option call.Reply}
    (h : station.serve backend mode clock call = (result, after)) :
    (result = none ↔ 0 < nanos ∧
      ∃ exchanges exchange last,
        after.asked = station.asked ++ (exchanges ++ [exchange]) ∧
        exchange.isRecorded = true ∧ after.reads = last + 1 ∧
        Instant.limit ≤ (clock last).nanos + nanos) ∧
    (result = none → station.state.SameMemory after.state ∨
      ∃ kind item, call = .upsert kind item ∧
        station.state.Drops kind item.key after.state) := by
  have hnanos : mode = .ofNanos nanos := by
    rcases hmode with hmode | ⟨seconds, hmode, rfl⟩ <;> exact hmode
  subst hnanos
  refine ⟨?_, fun hresult => memory_of_aborted (hresult ▸ h)⟩
  rw [serve_aborted_iff h]
  simp only [expiry?_ofNanos_eq_none_iff]
  constructor
  · rintro ⟨exchanges, exchange, last, hasked, hrecorded, hreads, hpos, hlimit⟩
    exact ⟨hpos, exchanges, exchange, last, hasked, hrecorded, hreads, hlimit⟩
  · rintro ⟨hpos, exchanges, exchange, last, hasked, hrecorded, hreads, hlimit⟩
    exact ⟨exchanges, exchange, last, hasked, hrecorded, hreads, hpos, hlimit⟩

/-- An upsert is made and not recorded, since its lifetime is one second too
long for a clock that shows its first second. -/
theorem upsert_aborted_midway :
    ∃ after : Station Cluster,
      (start .start Cluster.pair).serve (.ofHandle 0)
          (.ofSeconds (2 ^ 63 - 1)) (fun _ => ⟨nanosPerSecond⟩)
          (.upsert .features (.live "a" 1 .null)) = (none, after) ∧
        (after.store.serve 0 (.get .features "a")).1 =
          .ok (some (.live "a" 1 .null)) ∧
        after.state.held? (.item .features "a") = none :=
  ⟨_, rfl, rfl, rfl⟩

/-- The clock comes to its end while what won over an upsert is read. -/
theorem aborts_rereading :
    ∃ (stale : State) (after : Station Cluster),
      stale.held? (.item .features "a") = some ⟨some (.live "a" 1 .null), none⟩ ∧
      (overtaken stale).serve (.ofHandle 0) (.ofNanos 5)
          (fun n => if n < 2 then ⟨0⟩ else ⟨Instant.limit - 1⟩)
          (.upsert .features (.live "a" 1 .null)) = (none, after) ∧
      (∃ exchanges exchange last,
        after.asked = exchanges ++ [exchange] ∧ exchange.isRecorded = true ∧
          after.reads = last + 1 ∧
          Instant.limit ≤
            (if last < 2 then (⟨0⟩ : Instant) else ⟨Instant.limit - 1⟩).nanos + 5) ∧
      stale.Drops .features "a" after.state := by
  have hserve : ∃ after : Station Cluster,
      (overtaken (State.start.setItem .features "a"
          ⟨some (.live "a" 1 .null), none⟩)).serve (.ofHandle 0) (.ofNanos 5)
        (fun n => if n < 2 then ⟨0⟩ else ⟨Instant.limit - 1⟩)
        (.upsert .features (.live "a" 1 .null)) = (none, after) ∧
      (after.state.items.get .features).get? "a" = none := ⟨_, rfl, rfl⟩
  obtain ⟨after, hserve, hgone⟩ := hserve
  obtain ⟨haborts, hforgets⟩ := aborts_iff_overruns (.inl rfl) hserve
  obtain ⟨-, exchanges, exchange, last, hasked, hrest⟩ := haborts.mp rfl
  refine ⟨_, after, rfl, hserve, ⟨exchanges, exchange, last, hasked, hrest⟩, ?_⟩
  rcases hforgets rfl with hsame | ⟨kind, item, hcall, hdrops⟩
  · rw [hsame.items_eq] at hgone
    cases hgone
  · cases hcall
    exact hdrops

end Station

end Cache

end VersionedFlags
