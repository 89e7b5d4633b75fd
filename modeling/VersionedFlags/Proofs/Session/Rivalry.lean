import VersionedFlags.Proofs.Session.Following

/-!
# Rival writes

Rivals wait at a store for the first of its upserts that is newer than what is stored.
By then it has looked at what is stored and has not written yet.  Since it looks again
when it writes, it does what it would do if the rivals had written before it began.
-/

namespace VersionedFlags

/-- None of the writes is found to be newer than what is stored. -/
def Cluster.NoneNewer (cluster : Cluster) (store : Nat) (writes : List (Kind × Item)) :
    Prop :=
  ∀ write ∈ writes, cluster.advise store write.1 write.2 ≠ .ok true

namespace Session

/-- The writes of the rivals. -/
def Rivals.writes (rivals : Rivals) : List (Kind × Item) :=
  rivals.items.map fun item => (rivals.kind, item)

/-- All writes of the rivals through their store have an outcome. -/
def Rivals.GoOff (rivals : Rivals) (depth : Nat) (before after : World) : Prop :=
  ∃ outcomes : List Outcome,
    (upserts (nestedTo depth) rivals.store rivals.writes).at before =
      (.ok (outcomes.map .ok), after)

/-- The item is newer than what was stored, if anything, and than all that the rivals
write. -/
def Rivals.LoseTo (rivals : Rivals) (stored : Option UInt64) (item : Item) : Prop :=
  item.supersedes stored = true ∧ ∀ rival ∈ rivals.items, rival.version < item.version

/-- A store without a cache at which rivals wait. -/
structure World.Hooked (world : World) (store : Nat) (client : Client)
    (rivals : Rivals) : Prop where
  found : world.client? store = some client
  bare : client.cache = none
  waiting : client.rivals = some rivals
  calm : world.Calm

variable {nested : Nested} {store depth : Nat} {client rival : Client} {rivals : Rivals}
  {world later : World} {kind : Kind} {item : Item} {stored final : Option UInt64}
  {written : UInt64 → Prop}

/-! ## Upserts that nobody waits for -/

theorem callStore_of_not_newer (nested : Nested)
    (hclient : world.client? store = some client) (hbare : client.cache = none)
    (hstale : world.cluster.advise client.handle kind item ≠ .ok true) :
    (callStore nested store (.upsert kind item)).at world =
      ((world.cluster.upsert client.handle kind item).1.mapError .store, world) := by
  simp only [callStore, Act.at_bind, clientOf_at, hclient, hbare, callBackend,
    upsertBackend_at nested store kind item hclient, Cluster.upsert]
  cases hadvise : world.cluster.advise client.handle kind item with
  | error error => rfl
  | ok newer =>
      cases newer with
      | false => rfl
      | true => exact absurd hadvise hstale

theorem upserts_of_noneNewer (depth : Nat) (hclient : world.client? store = some client)
    (hbare : client.cache = none) {writes : List (Kind × Item)}
    (hstale : world.cluster.NoneNewer client.handle writes) :
    (upserts (nestedTo (depth + 1)) store writes).at world =
      (.ok (writes.map fun write =>
        (world.cluster.upsert client.handle write.1 write.2).1), world) := by
  induction writes with
  | nil => rfl
  | cons write rest ih =>
      have hfirst := callStore_of_not_newer (nestedTo depth) hclient hbare
        (hstale write List.mem_cons_self)
      have hrest : world.cluster.NoneNewer client.handle rest := fun write hm =>
        hstale write (List.mem_cons_of_mem _ hm)
      exact upserts_cons_eq_ok.mpr ⟨_, _, _, hfirst, ih hrest, rfl⟩

/-! ## The upsert that rivals wait for -/

theorem World.cluster_unhooked (world : World) (store : Nat) :
    (world.unhooked store).cluster = world.cluster :=
  cluster_modifyClient world store _

theorem Rivals.GoOff.reached (h : rivals.GoOff depth world later) {handle : Nat}
    (hfit : world.Fit rivals.store handle written)
    (hwritten : ∀ rival ∈ rivals.items, written rival.version) :
    world.Onward written later ∧
      ∀ rival ∈ rivals.items, later.Reaches handle rivals.kind rival := by
  obtain ⟨outcomes, hwrites⟩ := h
  obtain ⟨-, honward, hreached⟩ := (nestedTo_within depth).upserts hfit rivals.writes
    (List.forall_mem_map.mpr hwritten) (.ok _) later hwrites
  exact ⟨honward, fun rival hm =>
    hreached _ rfl outcomes rfl (rivals.kind, rival) (List.mem_map_of_mem hm)⟩

theorem Rivals.GoOff.onward (h : rivals.GoOff depth world later) (hcalm : world.Calm) :
    world.Onward (fun _ => True) later := by
  obtain ⟨handle, hfit⟩ : ∃ handle, world.Fit rivals.store handle fun _ => True :=
    hcalm.exists_fit rivals.store fun _ => trivial
  exact (h.reached hfit fun _ _ => trivial).1

/-- Within a greater bound the rivals do the same. -/
theorem Rivals.GoOff.succ (h : rivals.GoOff depth world later) (hcalm : world.Calm) :
    rivals.GoOff (depth + 1) world later := by
  obtain ⟨handle, hfit⟩ : ∃ handle, world.Fit rivals.store handle fun _ => True :=
    hcalm.exists_fit rivals.store fun _ => trivial
  obtain ⟨outcomes, hwrites⟩ := h
  obtain ⟨hmore, -, -⟩ := (nestedTo_within depth).upserts hfit rivals.writes
    (fun _ _ => trivial) (.ok _) later hwrites
  exact ⟨outcomes, hmore⟩

namespace World.Hooked

theorem unhooked (h : world.Hooked store client rivals) :
    (world.unhooked store).client? store = some { client with rivals := none } := by
  unfold World.unhooked
  rw [client?_modifyClient, if_pos rfl, h.found]
  rfl

theorem calm_unhooked (h : world.Hooked store client rivals) :
    (world.unhooked store).Calm := by
  have honward : world.Onward (fun _ => True) (world.unhooked store) :=
    .unhooked world store
  exact honward.calm h.calm

/-- The upsert looks before the rivals and writes after them. -/
theorem raced_at (h : world.Hooked store client rivals)
    (hraced : world.cluster.advise client.handle kind item = .ok true)
    (hgo : rivals.GoOff depth (world.unhooked store) later) :
    (callStore (nestedTo depth) store (.upsert kind item)).at world =
      (onCluster fun cluster => cluster.commit client.handle kind item).at later := by
  have hcompete := compete_eq_ok.mpr hgo
  simp only [callStore, Act.at_bind, clientOf_at, h.found, h.bare, callBackend,
    upsertBackend_at _ _ _ _ h.found, hraced, runRivals_at h.waiting, hcompete]

/-- So it does what it would do if it began after them. -/
theorem raced_at_later (h : world.Hooked store client rivals)
    (hraced : world.cluster.advise client.handle kind item = .ok true)
    (hgo : rivals.GoOff depth (world.unhooked store) later) :
    (callStore (nestedTo depth) store (.upsert kind item)).at world =
      (callStore (nestedTo depth) store (.upsert kind item)).at later := by
  have honward := hgo.onward h.calm_unhooked
  obtain ⟨found, hfound, hbecomes⟩ := honward.client h.unhooked
  have hhandle : found.handle = client.handle := hbecomes.handle
  have hcache : found.cache = none := by
    simpa [h.bare] using hbecomes.mode
  have hnone : found.rivals = none := by
    simpa using hbecomes.rivals
  -- What the upsert could read when it looked can be read when it writes.
  rw [Cluster.advise_eq, ← cluster_unhooked world store] at hraced
  obtain ⟨stored, hstored, hnewer⟩ := exists_of_bind_eq_ok hraced
  obtain ⟨next, hnext, -⟩ := honward.grown.version? _ _ _ _ hstored
  obtain ⟨handle, medium, hopen, hversion⟩ := Cluster.exists_openHandle hnext
  have hranged := (honward.calm h.calm_unhooked).ranged.of_openHandle hopen
  have hupsert := Cluster.upsert_of_version? hopen hranged hversion
  have hadvise : world.cluster.advise client.handle kind item = .ok true := by
    rw [Cluster.advise_eq, ← cluster_unhooked world store, hstored]
    exact hnewer
  rw [h.raced_at hadvise hgo, callStore_at _ _ _ hfound hcache hnone, onCluster_at,
    hhandle]
  simp only [Cluster.serve, hupsert]

theorem upserts_raced (h : world.Hooked store client rivals)
    {before after : List (Kind × Item)} {raced : Kind × Item}
    (hstale : world.cluster.NoneNewer client.handle before)
    (hraced : world.cluster.advise client.handle raced.1 raced.2 = .ok true)
    (hgo : rivals.GoOff depth (world.unhooked store) later) :
    (upserts (nestedTo (depth + 1)) store (before ++ raced :: after)).at world =
      (do
        let first ← upserts (nestedTo (depth + 1)) store before
        let _ ← upserts (nestedTo (depth + 1)) rivals.store rivals.writes
        let rest ← upserts (nestedTo (depth + 1)) store (raced :: after)
        return first ++ rest).at (world.unhooked store) := by
  have hfirst := upserts_of_noneNewer depth h.found h.bare hstale
  rw [← cluster_unhooked world store] at hstale
  have hunhooked := upserts_of_noneNewer depth h.unhooked h.bare hstale
  have hrest : (upserts (nestedTo (depth + 1)) store (raced :: after)).at world =
      (upserts (nestedTo (depth + 1)) store (raced :: after)).at later := by
    have hcall := h.raced_at_later hraced hgo
    simp only [upserts, List.mapM_cons, Act.at_bind, settled_at, nestedTo, hcall]
  obtain ⟨outcomes, hwrites⟩ := hgo.succ h.calm_unhooked
  simp only [upserts_append_at, Act.at_bind, hfirst, hrest, hunhooked, hwrites,
    cluster_unhooked]

/-! ## Who wins -/

theorem applied_iff_supersedes (h : world.Hooked store client rivals)
    (hraced : world.cluster.advise client.handle kind item = .ok true)
    (hroom : ∀ handle medium,
      world.cluster.openHandle client.handle = .ok (handle, medium) →
      medium.mindsClosing = true → item.version.toNat < 2 ^ 63)
    (hgo : rivals.GoOff depth (world.unhooked store) later)
    (hfinal : later.cluster.version? client.handle kind item.key = .ok final) :
    ((callStore (nestedTo depth) store (.upsert kind item)).at world).1 =
      .ok .applied ↔ item.supersedes final = true := by
  have honward := hgo.onward h.calm_unhooked
  have hranged := (honward.calm h.calm_unhooked).ranged
  rw [h.raced_at hraced hgo, onCluster_at]
  rcases Cluster.commit_cases hranged hfinal with
    ⟨error, -, handle, medium, hopen, hfile, hlarge⟩ | ⟨hloses, hcommit⟩ |
      ⟨hnewer, after, hcommit, -⟩
  · obtain ⟨found, hfound, hsame⟩ := honward.grown.openHandle hopen
    rw [cluster_unhooked] at hfound
    have := hroom handle found hfound (hsame.trans hfile)
    omega
  · rw [hcommit, hloses]
    simp
  · rw [hcommit, hnewer]
    simp

/-- Whoever else has gone off, what the rivals wrote has been taken. -/
theorem loseTo_of_supersedes (h : world.Hooked store client rivals)
    (hrival : (world.unhooked store).client? rivals.store = some rival)
    (htogether : world.cluster.Together client.handle rival.handle)
    (hkeys : ∀ other ∈ rivals.items, other.key = item.key)
    (hstored : world.cluster.version? client.handle rivals.kind item.key = .ok stored)
    (hgo : rivals.GoOff depth (world.unhooked store) later)
    (hfinal : later.cluster.version? client.handle rivals.kind item.key = .ok final)
    (hnewer : item.supersedes final = true) : rivals.LoseTo stored item := by
  have hfit : (world.unhooked store).Fit rivals.store rival.handle fun _ => True :=
    ⟨h.calm_unhooked, fun found hfound => by
      rw [hrival] at hfound
      cases hfound
      exact ⟨rfl, fun _ _ => trivial⟩⟩
  obtain ⟨honward, hreached⟩ := hgo.reached hfit fun _ _ => trivial
  rw [← cluster_unhooked world store] at hstored htogether
  rw [Item.supersedes_iff] at hnewer
  constructor
  · rw [Item.supersedes_iff]
    intro version hversion
    obtain ⟨next, hnext, hrises⟩ := honward.grown.version? _ _ _ _ hstored
    obtain rfl : next = final := Except.ok.inj (hnext.symm.trans hfinal)
    obtain ⟨greater, hgreater, hle⟩ := hrises.le hversion
    exact UInt64.lt_of_le_of_lt hle (hnewer greater hgreater)
  · intro other hm
    obtain ⟨version, hversion, hle⟩ := hreached other hm
    rw [hkeys other hm] at hversion
    have hfound := (htogether.grown honward.grown).version?_eq hfinal hversion
    exact UInt64.lt_of_le_of_lt hle (hnewer version hfound)

/-- If nobody else has gone off, nothing greater than what the rivals wrote has been
stored. -/
theorem supersedes_of_loseTo (h : world.Hooked store client rivals)
    (hrival : (world.unhooked store).client? rivals.store = some rival)
    (hnone : rival.rivals = none)
    (hstored : world.cluster.version? client.handle rivals.kind item.key = .ok stored)
    (hgo : rivals.GoOff depth (world.unhooked store) later)
    (hfinal : later.cluster.version? client.handle rivals.kind item.key = .ok final)
    (hlose : rivals.LoseTo stored item) : item.supersedes final = true := by
  have hfit : (world.unhooked store).Fit rivals.store rival.handle fun version =>
      ∃ other ∈ rivals.items, version = other.version :=
    ⟨h.calm_unhooked, fun found hfound => by
      rw [hrival] at hfound
      cases hfound
      exact ⟨rfl, fun hwaiting => absurd hnone hwaiting⟩⟩
  obtain ⟨honward, -⟩ := hgo.reached hfit fun other hm => ⟨other, hm, rfl⟩
  rw [← cluster_unhooked world store] at hstored
  obtain ⟨next, hnext, hrises⟩ := honward.grown.version? _ _ _ _ hstored
  obtain rfl : next = final := Except.ok.inj (hnext.symm.trans hfinal)
  rcases hrises with rfl | ⟨version, rfl, ⟨other, hm, rfl⟩, -⟩
  · exact hlose.1
  · rw [Item.supersedes_iff]
    rintro _ ⟨⟩
    exact hlose.2 other hm

theorem applied_iff_loseTo (h : world.Hooked store client rivals)
    (hrival : (world.unhooked store).client? rivals.store = some rival)
    (htogether : world.cluster.Together client.handle rival.handle)
    (hkeys : ∀ other ∈ rivals.items, other.key = item.key)
    (hstored : world.cluster.version? client.handle rivals.kind item.key = .ok stored)
    (hroom : ∀ handle medium,
      world.cluster.openHandle client.handle = .ok (handle, medium) →
      medium.mindsClosing = true → item.version.toNat < 2 ^ 63)
    (hgo : rivals.GoOff depth (world.unhooked store) later) :
    let result :=
      ((callStore (nestedTo depth) store (.upsert rivals.kind item)).at world).1
    (result = .ok .applied → rivals.LoseTo stored item) ∧
      (rival.rivals = none → (result = .ok .applied ↔ rivals.LoseTo stored item)) := by
  have hadvise : world.cluster.advise client.handle rivals.kind item =
      .ok (item.supersedes stored) := by
    rw [Cluster.advise_eq, hstored]
    rfl
  cases hnewer : item.supersedes stored with
  | false =>
      have hloses : ¬ rivals.LoseTo stored item := fun hlose =>
        Bool.false_ne_true (hnewer.symm.trans hlose.1)
      rw [hnewer] at hadvise
      have hstale : world.cluster.advise client.handle rivals.kind item ≠ .ok true := by
        simp [hadvise]
      have hresult := callStore_of_not_newer (nestedTo depth) h.found h.bare hstale
      simp only [Cluster.upsert, hadvise] at hresult
      simp [hresult, hloses]
  | true =>
      rw [hnewer] at hadvise
      obtain ⟨final, hfinal, -⟩ := (hgo.onward h.calm_unhooked).grown.version?
        client.handle rivals.kind item.key stored (by rwa [cluster_unhooked])
      have happlied := h.applied_iff_supersedes hadvise hroom hgo hfinal
      have hlose := h.loseTo_of_supersedes hrival htogether hkeys hstored hgo hfinal
      refine ⟨fun hresult => hlose (happlied.mp hresult), fun hnone =>
        ⟨fun hresult => hlose (happlied.mp hresult), fun hwins => ?_⟩⟩
      exact happlied.mpr
        (h.supersedes_of_loseTo hrival hnone hstored hgo hfinal hwins)

end World.Hooked

/-- A store at which rivals wait.  Upserts that are not newer than what is stored
change nothing, and the rivals go on waiting.  The first one that is newer does what
the writes of the rivals, through their store and in their order, and then the same
upsert would do at the store without rivals, and from then on nobody waits there.  If
the rivals write under the key of that upsert on its backend, it is applied only if
it is newer than all of them and than what was stored, and if at their store nobody
waits in turn then only if they are as great is it not applied. -/
theorem rivals_go_first (h : world.Hooked store client rivals) :
    (∀ writes, world.cluster.NoneNewer client.handle writes →
      ∃ replies,
        (upserts (nestedTo (depth + 1)) store writes).at world =
          (.ok replies, world) ∧
        (upserts (nestedTo (depth + 1)) store writes).at (world.unhooked store) =
          (.ok replies, world.unhooked store)) ∧
    ∀ later, rivals.GoOff depth (world.unhooked store) later →
      (∀ before raced after, world.cluster.NoneNewer client.handle before →
        world.cluster.advise client.handle raced.1 raced.2 = .ok true →
        (upserts (nestedTo (depth + 1)) store (before ++ raced :: after)).at world =
          (do
            let first ← upserts (nestedTo (depth + 1)) store before
            let _ ← upserts (nestedTo (depth + 1)) rivals.store rivals.writes
            let rest ← upserts (nestedTo (depth + 1)) store (raced :: after)
            return first ++ rest).at (world.unhooked store)) ∧
      ∀ item stored rival,
        (world.unhooked store).client? rivals.store = some rival →
        world.cluster.Together client.handle rival.handle →
        (∀ other ∈ rivals.items, other.key = item.key) →
        world.cluster.version? client.handle rivals.kind item.key = .ok stored →
        (∀ handle medium,
          world.cluster.openHandle client.handle = .ok (handle, medium) →
          medium.mindsClosing = true → item.version.toNat < 2 ^ 63) →
        let result :=
          ((callStore (nestedTo depth) store (.upsert rivals.kind item)).at world).1
        (result = .ok .applied → rivals.LoseTo stored item) ∧
          (rival.rivals = none →
            (result = .ok .applied ↔ rivals.LoseTo stored item)) := by
  refine ⟨fun writes hstale => ?_, fun later hgo => ⟨?_, ?_⟩⟩
  · have hhooked := upserts_of_noneNewer depth h.found h.bare hstale
    rw [← World.cluster_unhooked world store] at hstale
    have hunhooked := upserts_of_noneNewer depth h.unhooked h.bare hstale
    rw [World.cluster_unhooked] at hunhooked
    exact ⟨_, hhooked, hunhooked⟩
  · intro before raced after hstale hraced
    exact h.upserts_raced hstale hraced hgo
  · intro item stored rival hrival htogether hkeys hstored hroom
    exact h.applied_iff_loseTo hrival htogether hkeys hstored hroom hgo

/-- A rival that writes one version through the store. -/
def Rivals.single (store : Nat) (version : UInt64) : Rivals :=
  ⟨store, .features, [.live "a" version .null]⟩

/-- Three stores on one medium.  At the second one a rival waits to write through the
first, and at the third one another to write through the second. -/
def chained : World :=
  { World.start with
    cluster := ⟨[.memory .empty], List.replicate 3 ⟨0, .standard, false⟩⟩
    clients :=
      [some ⟨0, .standard, none, none, none⟩,
        some ⟨1, .standard, none, none, some (.single 0 9)⟩,
        some ⟨2, .standard, none, none, some (.single 1 2)⟩] }

theorem chained_calm : chained.Calm where
  unarmed store client hclient probe hprobe := by
    have hm : some client ∈ chained.clients :=
      List.mem_of_getElem? (Option.join_eq_some_iff.mp hclient)
    have hnone : ∀ found ∈ chained.clients, found.bind Client.probe = none := by
      simp [chained]
    cases hprobe.symm.trans (hnone _ hm)
  ranged medium hm := by
    obtain rfl := List.mem_singleton.mp hm
    trivial

theorem chained_rival_loses :
    chained.Hooked 1 ⟨1, .standard, none, none, some (.single 0 9)⟩ (.single 0 9) ∧
      (∃ later, (Rivals.single 0 9).GoOff 1 (chained.unhooked 1) later) ∧
      ((callStore (nestedTo 1) 1 (.upsert .features (.live "a" 10 .null))).at
        chained).1 = .ok .applied := by
  have hhooked : chained.Hooked 1 ⟨1, .standard, none, none, some (.single 0 9)⟩
      (.single 0 9) :=
    ⟨rfl, rfl, rfl, chained_calm⟩
  obtain ⟨later, hgo⟩ :
      ∃ later, (Rivals.single 0 9).GoOff 1 (chained.unhooked 1) later :=
    ⟨_, [.applied], rfl⟩
  obtain ⟨-, hwins⟩ := (rivals_go_first hhooked).2 later hgo
  obtain ⟨-, happlied⟩ := hwins (.live "a" 10 .null) none
    ⟨0, .standard, none, none, none⟩ rfl ⟨_, _, rfl, rfl, rfl, rfl⟩ (by decide) rfl
    (by rintro handle medium ⟨⟩ ⟨⟩)
  exact ⟨hhooked, ⟨later, hgo⟩, (happlied rfl).mpr ⟨rfl, by decide⟩⟩

/-- The rival at the third store loses to the upsert, but the one that waits for it at
the second does not. -/
theorem chained_rivals_win :
    (∃ later, (Rivals.single 1 2).GoOff 2 (chained.unhooked 2) later) ∧
      chained.cluster.Together 2 1 ∧
      chained.cluster.version? 2 .features "a" = .ok none ∧
      (Rivals.single 1 2).LoseTo none (.live "a" 5 .null) ∧
      ((callStore (nestedTo 2) 2 (.upsert .features (.live "a" 5 .null))).at
        chained).1 = .ok .superseded :=
  ⟨⟨_, [.superseded], rfl⟩, ⟨_, _, rfl, rfl, rfl, rfl⟩, rfl, ⟨rfl, by decide⟩, rfl⟩

end Session

end VersionedFlags
