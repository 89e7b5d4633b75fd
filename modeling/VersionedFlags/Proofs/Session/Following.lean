import VersionedFlags.Proofs.Session.Acting
import VersionedFlags.Proofs.Store.Growth

/-!
# Calls inside of others

An upsert may run others inside of itself: those of the rivals that wait at its store,
and theirs in turn.  How deep they may nest is bounded, and if they come to a reply
within one bound they do so within a greater one.  Meanwhile no version that is stored
goes back, and what has been taken stays there.
-/

namespace VersionedFlags

namespace Session

variable {α : Type}

/-! ## Worlds in which upserts are made -/

/-- Nothing is armed to run inside of a call. -/
def Client.Unarmed (client : Client) : Prop :=
  ∀ probe, client.probe = some probe → ∀ name, probe.armed.get? name = none

/-- Probes run nothing, and no table holds a version beyond its integers. -/
structure World.Calm (world : World) : Prop where
  unarmed : ∀ store client, world.client? store = some client → client.Unarmed
  ranged : world.cluster.Ranged

/-- What upserts may make of a store: rivals may have gone off. -/
structure Client.Becomes (before after : Client) : Prop where
  handle : after.handle = before.handle
  mode : after.cache.map Prod.fst = before.cache.map Prod.fst
  rivals : after.rivals = before.rivals ∨ after.rivals = none
  unarmed : before.Unarmed → after.Unarmed

/-- What upserts of the written versions may make of a world. -/
structure World.Onward (written : UInt64 → Prop) (before after : World) : Prop where
  grown : before.cluster.Grown written after.cluster
  clients : ∀ store,
    before.client? store = none ∧ after.client? store = none ∨
      ∃ client later, before.client? store = some client ∧
        after.client? store = some later ∧ client.Becomes later

variable {written : UInt64 → Prop} {world before middle after next : World}

theorem Client.Becomes.refl (client : Client) : client.Becomes client :=
  ⟨rfl, rfl, .inl rfl, id⟩

theorem Client.Becomes.trans {before middle after : Client} (h : before.Becomes middle)
    (hnext : middle.Becomes after) : before.Becomes after where
  handle := hnext.handle.trans h.handle
  mode := hnext.mode.trans h.mode
  rivals := by
    rcases hnext.rivals with hsame | hnone
    · rw [hsame]
      exact h.rivals
    · exact .inr hnone
  unarmed hunarmed := hnext.unarmed (h.unarmed hunarmed)

namespace World

theorem client?_modifyClient (world : World) (store other : Nat)
    (change : Client → Client) :
    (world.modifyClient store change).client? other =
      if store = other then (world.client? store).map change
      else world.client? other := by
  by_cases hsame : store = other
  · subst hsame
    simp only [if_true, modifyClient]
    cases hclient : world.client? store with
    | none => exact hclient
    | some client =>
        have hlt : store < world.clients.length := by
          by_contra hge
          simp [client?, List.getElem?_eq_none (Nat.le_of_not_lt hge)] at hclient
        simp [client?, setClient, List.getElem?_set_self hlt]
  · simp only [if_neg hsame, modifyClient]
    cases world.client? store with
    | none => rfl
    | some client => simp only [client?, setClient, List.getElem?_set_ne hsame]

@[simp] theorem cluster_modifyClient (world : World) (store : Nat)
    (change : Client → Client) :
    (world.modifyClient store change).cluster = world.cluster := by
  unfold modifyClient
  split <;> rfl

namespace Onward

theorem of_clients (hgrown : before.cluster.Grown written after.cluster)
    (hclients : after.clients = before.clients) : before.Onward written after where
  grown := hgrown
  clients store := by
    have hclient : after.client? store = before.client? store := by
      unfold client?
      rw [hclients]
    rw [hclient]
    cases before.client? store with
    | none => exact .inl ⟨rfl, rfl⟩
    | some client => exact .inr ⟨client, client, rfl, rfl, .refl client⟩

theorem refl (world : World) : world.Onward written world :=
  .of_clients (.refl _) rfl

theorem modifyClient (world : World) (store : Nat) {change : Client → Client}
    (hchange : ∀ client : Client, client.Becomes (change client)) :
    world.Onward written (world.modifyClient store change) where
  grown := by
    rw [cluster_modifyClient]
    exact .refl _
  clients other := by
    rw [client?_modifyClient]
    cases hclient : world.client? other with
    | none =>
        refine .inl ⟨rfl, ?_⟩
        split
        · rename_i hsame
          rw [hsame, hclient, Option.map_none]
        · rfl
    | some client =>
        refine .inr ⟨client, ?_⟩
        by_cases hsame : store = other
        · subst hsame
          exact ⟨change client, rfl, by rw [if_pos rfl, hclient, Option.map_some],
            hchange client⟩
        · exact ⟨client, rfl, by rw [if_neg hsame], .refl client⟩

theorem trans (h : before.Onward written middle) (hnext : middle.Onward written after) :
    before.Onward written after where
  grown := h.grown.trans hnext.grown
  clients store := by
    rcases h.clients store with ⟨hbefore, hmiddle⟩ |
      ⟨client, between, hbefore, hmiddle, hbecomes⟩
    · rcases hnext.clients store with ⟨-, hafter⟩ | ⟨_, _, hsome, -⟩
      · exact .inl ⟨hbefore, hafter⟩
      · rw [hmiddle] at hsome
        cases hsome
    · rcases hnext.clients store with ⟨hnone, -⟩ | ⟨found, later, hsome, hafter, hmore⟩
      · rw [hmiddle] at hnone
        cases hnone
      · rw [hmiddle] at hsome
        cases hsome
        exact .inr ⟨client, later, hbefore, hafter, hbecomes.trans hmore⟩

theorem client (h : before.Onward written after) {store : Nat} {client : Client}
    (hclient : before.client? store = some client) :
    ∃ later, after.client? store = some later ∧ client.Becomes later := by
  rcases h.clients store with ⟨hnone, -⟩ | ⟨found, later, hfound, hlater, hbecomes⟩
  · rw [hclient] at hnone
    cases hnone
  · rw [hclient] at hfound
    cases hfound
    exact ⟨later, hlater, hbecomes⟩

theorem exists_client (h : before.Onward written after) {store : Nat} {later : Client}
    (hlater : after.client? store = some later) :
    ∃ client, before.client? store = some client ∧ client.Becomes later := by
  rcases h.clients store with ⟨-, hnone⟩ | ⟨client, found, hclient, hfound, hbecomes⟩
  · rw [hlater] at hnone
    cases hnone
  · rw [hlater] at hfound
    cases hfound
    exact ⟨client, hclient, hbecomes⟩

theorem calm (h : before.Onward written after) (hcalm : before.Calm) : after.Calm where
  unarmed store later hlater := by
    obtain ⟨client, hclient, hbecomes⟩ := h.exists_client hlater
    exact hbecomes.unarmed (hcalm.unarmed store client hclient)
  ranged := h.grown.ranged hcalm.ranged

end Onward

/-- The store, if it is open, works through the handle, and unless no rivals wait at
it all versions may be written. -/
structure Fit (store handle : Nat) (written : UInt64 → Prop) (world : World) :
    Prop where
  calm : world.Calm
  client : ∀ client, world.client? store = some client →
    client.handle = handle ∧ (client.rivals ≠ none → ∀ version, written version)

theorem Calm.exists_fit (h : world.Calm) (store : Nat) (hall : ∀ version, written version) :
    ∃ handle, world.Fit store handle written := by
  cases hclient : world.client? store with
  | none => exact ⟨0, h, by simp [hclient]⟩
  | some client =>
      refine ⟨client.handle, h, fun found hfound => ?_⟩
      rw [hclient] at hfound
      cases hfound
      exact ⟨rfl, fun _ => hall⟩

/-- Through the handle a version is found that is as great as that of the item. -/
def Reaches (handle : Nat) (kind : Kind) (item : Item) (world : World) : Prop :=
  ∃ version, world.cluster.version? handle kind item.key = .ok (some version) ∧
    item.version ≤ version

variable {store handle : Nat} {kind : Kind} {item : Item}

theorem Fit.onward (h : before.Fit store handle written)
    (honward : before.Onward written after) : after.Fit store handle written where
  calm := honward.calm h.calm
  client later hlater := by
    obtain ⟨client, hclient, hbecomes⟩ := honward.exists_client hlater
    obtain ⟨hhandle, hwritten⟩ := h.client client hclient
    refine ⟨hbecomes.handle.trans hhandle, fun hrivals => hwritten fun hnone => ?_⟩
    rcases hbecomes.rivals with hsame | hgone
    · exact hrivals (hsame.trans hnone)
    · exact hrivals hgone

theorem Reaches.onward (h : before.Reaches handle kind item)
    (honward : before.Onward written after) : after.Reaches handle kind item := by
  obtain ⟨version, hversion, hle⟩ := h
  obtain ⟨later, hlater, hrises⟩ := honward.grown.version? handle kind item.key _ hversion
  obtain ⟨greater, rfl, hmore⟩ := hrises.le rfl
  exact ⟨greater, hlater, UInt64.le_trans hle hmore⟩

end World

/-! ## Actions that others follow -/

/-- If the action comes to a reply, the other action comes to the same one, all that
happened is that versions were written, and success has established the property. -/
def Lands (written : UInt64 → Prop) (established : α → World → Prop)
    (action other : Act α) (world : World) : Prop :=
  ∀ reply next, action.at world = (Except.mapError .store reply, next) →
    other.at world = (reply.mapError .store, next) ∧ world.Onward written next ∧
      ∀ answer, reply = .ok answer → established answer next

namespace Lands

variable {β : Type} {established : α → World → Prop} {action other : Act α}

theorem of_at {result : Except Failure α} (haction : action.at world = (result, next))
    (hother : other.at world = (result, next)) (honward : world.Onward written next)
    (hestablished : ∀ answer, result = .ok answer → established answer next) :
    Lands written established action other world := by
  intro reply last hrun
  rw [haction] at hrun
  obtain ⟨rfl, rfl⟩ := Prod.mk.inj hrun
  exact ⟨hother, honward, fun answer hanswer => hestablished answer (by rw [hanswer]; rfl)⟩

/-- An action that changes nothing. -/
theorem quiet (h : (action.at world).2 = world) :
    Lands written (fun value next => next = world ∧ action.at world = (.ok value, world))
      action action world := by
  have haction : action.at world = ((action.at world).1, world) := Prod.ext rfl h
  exact .of_at haction haction (.refl world) fun value hvalue =>
    ⟨rfl, by rw [haction, hvalue]⟩

theorem pure {value : α} (h : established value world) :
    Lands written established (pure value) (Pure.pure value) world :=
  .of_at (Act.at_pure value world) (Act.at_pure value world) (.refl world)
    fun answer hanswer => by
      cases hanswer
      exact h

theorem aborted : Lands written established (throw .aborted) other world := by
  intro reply next hrun
  cases reply <;> cases hrun

theorem modify {change : World → World} (h : world.Onward written (change world)) :
    Lands written (fun _ next => next = change world) (modify change)
      (MonadState.modifyGet fun world => ((), change world)) world :=
  .of_at (Act.at_modify change world) (Act.at_modify change world) h fun _ _ => rfl

theorem bind {middle : α → World → Prop} {conclusion : β → World → Prop}
    {rest others : α → Act β} (h : Lands written middle action other world)
    (hrest : ∀ value next, world.Onward written next → middle value next →
      Lands written conclusion (rest value) (others value) next) :
    Lands written conclusion (action >>= rest) (other >>= others) world := by
  intro reply last hrun
  rw [Act.at_bind] at hrun ⊢
  cases haction : action.at world with
  | mk result next =>
      rw [haction] at hrun
      cases result with
      | ok value =>
          obtain ⟨hother, honward, hmiddle⟩ := h (.ok value) next haction
          obtain ⟨hothers, hmore, hconclusion⟩ :=
            hrest value next honward (hmiddle value rfl) reply last hrun
          rw [hother]
          exact ⟨hothers, honward.trans hmore, hconclusion⟩
      | error failure =>
          cases reply with
          | ok answer => cases hrun
          | error error =>
              cases hrun
              obtain ⟨hother, honward, -⟩ := h (.error error) _ haction
              rw [hother]
              exact ⟨rfl, honward, nofun⟩

theorem mono {conclusion : α → World → Prop}
    (h : Lands written established action other world)
    (himp : ∀ value next, world.Onward written next → established value next →
      conclusion value next) : Lands written conclusion action other world := by
  intro reply next hrun
  obtain ⟨hother, honward, hestablished⟩ := h reply next hrun
  exact ⟨hother, honward, fun answer hanswer =>
    himp answer next honward (hestablished answer hanswer)⟩

theorem settled (h : Lands written established action other world) :
    Lands written (fun reply next => ∀ answer, reply = .ok answer →
        established answer next) (settled action) (Session.settled other) world := by
  intro reply next hrun
  cases reply with
  | error error => exact absurd hrun settled_ne_refusal
  | ok found =>
      obtain ⟨hother, honward, hestablished⟩ := h found next (settled_at_eq_ok.mp hrun)
      exact ⟨settled_at_eq_ok.mpr hother, honward, fun reply hreply => by
        cases hreply
        exact hestablished⟩

end Lands

theorem get_quiet (world : World) : ((get : Act World).at world).2 = world := rfl

theorem clientOf_quiet (store : Nat) (world : World) :
    ((clientOf store).at world).2 = world := by
  rw [clientOf_at]
  cases world.client? store <;> rfl

theorem clientOf_eq_ok {store : Nat} {client : Client} :
    (clientOf store).at world = (.ok client, world) ↔
      world.client? store = some client := by
  rw [clientOf_at]
  cases world.client? store <;> simp

theorem ofReply_quiet (reply : Except StoreError α) (world : World) :
    ((ofReply reply).at world).2 = world := by
  rw [ofReply_at]

theorem refusal_quiet (error : StoreError) (world : World) :
    ((refusal error : Act α).at world).2 = world := rfl

theorem Lands.ofReply {established : α → World → Prop} {reply : Except StoreError α}
    (h : ∀ answer, reply = .ok answer → established answer world) :
    Lands written established (ofReply reply) (Session.ofReply reply) world :=
  .of_at (ofReply_at reply world) (ofReply_at reply world) (.refl world)
    fun answer hanswer => h answer (mapError_store_inj hanswer)

/-- Whatever comes to a reply within the one does so within the other. -/
def Nested.Within (nested more : Nested) : Prop :=
  ∀ (store handle : Nat) (kind : Kind) (item : Item) (written : UInt64 → Prop)
    (world : World), world.Fit store handle written → written item.version →
      Lands written (fun _ => World.Reaches handle kind item)
        (nested.call store (.upsert kind item)) (more.call store (.upsert kind item)) world

/-- The replies to upserts through a store, one after the other. -/
def upserts (nested : Nested) (store : Nat) (writes : List (Kind × Item)) :
    Act (List (Except StoreError Outcome)) :=
  writes.mapM fun write => settled (nested.call store (.upsert write.1 write.2))

section

variable {nested other : Nested} {store handle : Nat} {kind : Kind} {item : Item}
  {client : Client}

theorem upserts_nil_eq_ok {replies : List (Except StoreError Outcome)} :
    (upserts nested store []).at world = (.ok replies, next) ↔
      replies = [] ∧ next = world := by
  have hnil : (upserts nested store []).at world = (.ok [], world) := rfl
  rw [hnil, Prod.mk.injEq, Except.ok.injEq, eq_comm, @eq_comm _ world]

theorem upserts_cons_eq_ok {write : Kind × Item} {writes : List (Kind × Item)}
    {replies : List (Except StoreError Outcome)} :
    (upserts nested store (write :: writes)).at world = (.ok replies, next) ↔
      ∃ reply middle rest,
        (nested.call store (.upsert write.1 write.2)).at world =
          (Except.mapError .store reply, middle) ∧
        (upserts nested store writes).at middle = (.ok rest, next) ∧
        replies = reply :: rest := by
  simp only [upserts, List.mapM_cons, Act.at_bind, ← settled_at_eq_ok]
  constructor
  · intro h
    split at h
    · rename_i reply middle hfirst
      split at h
      · rename_i rest last hrest
        cases h
        exact ⟨reply, middle, rest, hfirst, hrest, rfl⟩
      · cases h
    · cases h
  · rintro ⟨reply, middle, rest, hfirst, hrest, rfl⟩
    simp only [hfirst, hrest, Act.at_pure]

theorem upserts_append_at (nested : Nested) (store : Nat)
    (writes more : List (Kind × Item)) (world : World) :
    (upserts nested store (writes ++ more)).at world =
      (do
        let first ← upserts nested store writes
        let rest ← upserts nested store more
        return first ++ rest).at world := by
  unfold upserts
  rw [List.mapM_append]

/-! ### Rivals -/

/-- The store without the rivals that wait at it. -/
def World.unhooked (world : World) (store : Nat) : World :=
  world.modifyClient store fun client => { client with rivals := none }

/-- The writes of rivals, which come to nothing if one of them fails. -/
def compete (nested : Nested) (store : Nat) (kind : Kind) : List Item → Act Unit
  | [] => pure ()
  | item :: rest => do
      match ← settled (nested.call store (.upsert kind item)) with
      | .ok _ => compete nested store kind rest
      | .error _ => throw .aborted

theorem compete_cons_at (nested : Nested) (store : Nat) (kind : Kind) (item : Item)
    (rest : List Item) (world : World) :
    (compete nested store kind (item :: rest)).at world =
      match (settled (nested.call store (.upsert kind item))).at world with
      | (.ok (.ok _), next) => (compete nested store kind rest).at next
      | (.ok (.error _), next) => (.error .aborted, next)
      | (.error failure, next) => (.error failure, next) := by
  simp only [compete, Act.at_bind]
  rcases (settled (nested.call store (.upsert kind item))).at world with
    ⟨_ | _ | _, _⟩ <;> rfl

theorem runRivals_at {rivals : Rivals} (hrivals : client.rivals = some rivals)
    (nested : Nested) (store : Nat) (world : World) :
    (runRivals nested store client).at world =
      (compete nested rivals.store rivals.kind rivals.items).at
        (world.unhooked store) := by
  simp only [runRivals, hrivals, Act.at_bind, Act.at_modify]
  rw [← World.unhooked]
  generalize world.unhooked store = world
  induction rivals.items generalizing world with
  | nil => rfl
  | cons item rest ih =>
      simp only [List.forIn_cons, compete_cons_at, Act.at_bind]
      rcases (settled (nested.call rivals.store (.upsert rivals.kind item))).at world with
        ⟨_ | _ | _, middle⟩
      · rfl
      · rfl
      · exact ih middle

theorem compete_eq_ok {items : List Item} :
    (compete nested store kind items).at world = (.ok (), next) ↔
      ∃ outcomes : List Outcome,
        (upserts nested store (items.map fun item => (kind, item))).at world =
          (.ok (outcomes.map .ok), next) := by
  induction items generalizing world with
  | nil =>
      simp only [compete, Act.at_pure, List.map_nil, upserts_nil_eq_ok, List.map_eq_nil_iff]
      constructor
      · rintro ⟨⟩
        exact ⟨[], rfl, rfl⟩
      · rintro ⟨_, -, rfl⟩
        rfl
  | cons item rest ih =>
      simp only [compete_cons_at, List.map_cons, upserts_cons_eq_ok, ← settled_at_eq_ok]
      rcases (settled (nested.call store (.upsert kind item))).at world with
        ⟨failure | error | outcome, middle⟩
      · simp
      · constructor
        · rintro ⟨⟩
        · rintro ⟨_ | _, reply, middle, others, hreply, -, houtcomes⟩
          · cases houtcomes
          · cases hreply
            cases houtcomes
      · simp only [ih]
        constructor
        · rintro ⟨outcomes, hrest⟩
          exact ⟨outcome :: outcomes, .ok outcome, middle, _, rfl, hrest, rfl⟩
        · rintro ⟨_ | ⟨first, outcomes⟩, reply, middle, others, hreply, hrest, houtcomes⟩
          · cases houtcomes
          · cases hreply
            cases houtcomes
            exact ⟨outcomes, hrest⟩

/-- Rivals abort the upsert that they wait for, if anything. -/
theorem compete_ne_refusal {items : List Item} {error : StoreError} :
    (compete nested store kind items).at world ≠ (.error (.store error), next) := by
  induction items generalizing world with
  | nil => simp [compete]
  | cons item rest ih =>
      rw [compete_cons_at]
      cases hfirst : (settled (nested.call store (.upsert kind item))).at world with
      | mk result middle =>
          rcases result with failure | error | outcome
          · rintro ⟨⟩
            exact settled_ne_refusal hfirst
          · simp
          · exact ih

theorem runRivals_ne_refusal {error : StoreError} :
    (runRivals nested store client).at world ≠ (.error (.store error), next) := by
  cases hrivals : client.rivals with
  | none => simp [runRivals, hrivals]
  | some rivals =>
      rw [runRivals_at hrivals]
      exact compete_ne_refusal

theorem Nested.Within.upserts (h : nested.Within other)
    (hfit : world.Fit store handle written) (writes : List (Kind × Item))
    (hwritten : ∀ write ∈ writes, written write.2.version) :
    Lands written (fun replies next => ∀ outcomes : List Outcome,
        replies = outcomes.map .ok →
          ∀ write ∈ writes, next.Reaches handle write.1 write.2)
      (upserts nested store writes) (Session.upserts other store writes) world := by
  induction writes generalizing world with
  | nil => exact .pure nofun
  | cons write writes ih =>
      simp only [Session.upserts, List.mapM_cons]
      refine (h store handle write.1 write.2 written world hfit
        (hwritten write List.mem_cons_self)).settled.bind
          fun reply middle honward hreached => ?_
      refine (ih (hfit.onward honward) fun write hm =>
        hwritten write (List.mem_cons_of_mem _ hm)).bind fun replies next hmore hall => ?_
      refine .pure fun outcomes houtcomes => ?_
      match outcomes, houtcomes with
      | outcome :: outcomes, houtcomes =>
          obtain ⟨rfl, rfl⟩ := List.cons.inj houtcomes
          exact List.forall_mem_cons.mpr
            ⟨(hreached outcome rfl).onward hmore, hall outcomes rfl⟩

theorem World.Onward.unhooked (world : World) (store : Nat) :
    world.Onward written (world.unhooked store) :=
  .modifyClient world store fun _ => ⟨rfl, rfl, .inr rfl, id⟩

/-- If rivals go off at a store of which they may write, that is all that happens. -/
theorem Nested.Within.runRivals (h : nested.Within other)
    (hfit : world.Fit store handle written)
    (hclient : world.client? store = some client) :
    Lands written (fun _ _ => True) (runRivals nested store client)
      (Session.runRivals other store client) world := by
  cases hrivals : client.rivals with
  | none =>
      have hnone : ∀ nested, Session.runRivals nested store client = pure () := by
        intro nested
        simp only [Session.runRivals, hrivals]
      rw [hnone, hnone]
      exact .pure trivial
  | some rivals =>
      have hall := (hfit.client client hclient).2 (by simp [hrivals])
      have hunhooked : world.Onward written (world.unhooked store) :=
        .unhooked world store
      obtain ⟨handle, hrival⟩ := (hunhooked.calm hfit.calm).exists_fit
        rivals.store hall
      -- `compete` is not a sequence of upserts, but where it does not abort it does
      -- what one does.
      intro reply next hrun
      cases reply with
      | error error => exact absurd hrun runRivals_ne_refusal
      | ok done =>
          rw [runRivals_at hrivals] at hrun ⊢
          obtain ⟨outcomes, hwrites⟩ := compete_eq_ok.mp hrun
          obtain ⟨hother, honward, -⟩ :=
            h.upserts hrival _ (fun _ _ => hall _) (.ok _) next hwrites
          exact ⟨compete_eq_ok.mpr ⟨outcomes, hother⟩, hunhooked.trans honward,
            fun _ _ => trivial⟩

/-! ### Calls of a backend -/

theorem reaches_of_not_supersedes {stored : Option UInt64}
    (hstored : world.cluster.version? handle kind item.key = .ok stored)
    (hloses : item.supersedes stored = false) : world.Reaches handle kind item := by
  cases stored with
  | none => cases hloses
  | some version => exact ⟨version, hstored, by simpa [Item.supersedes] using hloses⟩

theorem lands_commit (hranged : world.cluster.Ranged) {stored : Option UInt64}
    (hstored : world.cluster.version? handle kind item.key = .ok stored)
    (hwritten : written item.version) :
    Lands written (fun _ => World.Reaches handle kind item)
      (onCluster fun cluster => cluster.commit handle kind item)
      (onCluster fun cluster => cluster.commit handle kind item) world := by
  have hcommit := onCluster_at (fun cluster => cluster.commit handle kind item) world
  rcases Cluster.commit_cases hranged hstored with
    ⟨error, hresult, -⟩ | ⟨hloses, hresult⟩ | ⟨-, after, hresult, hgrown, hversion⟩
  · rw [hresult] at hcommit
    exact .of_at hcommit hcommit (.refl world) nofun
  · rw [hresult] at hcommit
    exact .of_at hcommit hcommit (.refl world) fun _ _ =>
      reaches_of_not_supersedes hstored hloses
  · rw [hresult] at hcommit
    have hmore : world.cluster.Grown written after := hgrown.mono fun version heq => by
      rw [heq]
      exact hwritten
    exact .of_at hcommit hcommit (.of_clients hmore rfl) fun _ _ =>
      ⟨item.version, hversion, UInt64.le_refl _⟩

theorem Nested.Within.upsertBackend (h : nested.Within other)
    (hfit : world.Fit store handle written) (hwritten : written item.version) :
    Lands written (fun _ => World.Reaches handle kind item)
      (upsertBackend nested store kind item)
      (Session.upsertBackend other store kind item) world := by
  unfold Session.upsertBackend
  refine (Lands.quiet (clientOf_quiet store world)).bind ?_
  rintro client next - ⟨rfl, hclient⟩
  rw [clientOf_eq_ok] at hclient
  obtain ⟨rfl, -⟩ := hfit.client client hclient
  refine (Lands.quiet (get_quiet next)).bind ?_
  rintro found world - ⟨rfl, hfound⟩
  obtain rfl : world = found := by simpa using hfound
  refine (Lands.quiet (ofReply_quiet _ world)).bind ?_
  rintro newer next - ⟨rfl, hadvise⟩
  rw [ofReply_at] at hadvise
  have hadvise : next.cluster.advise client.handle kind item = .ok newer :=
    mapError_store_inj (Prod.mk.inj hadvise).1
  rw [Cluster.advise_eq] at hadvise
  obtain ⟨stored, hstored, hnewer⟩ := exists_of_bind_eq_ok hadvise
  cases newer with
  | false =>
      exact .pure (reaches_of_not_supersedes hstored (Except.ok.inj hnewer))
  | true =>
      refine (h.runRivals hfit hclient).bind fun _ middle honward _ => ?_
      obtain ⟨later, hlater, -⟩ :=
        honward.grown.version? client.handle kind item.key _ hstored
      exact lands_commit (hfit.onward honward).calm.ranged hlater hwritten

theorem lands_get (nested other : Nested) (store : Nat) (kind : Kind) (key : String)
    (world : World) :
    Lands written (fun _ _ => True) (callBackend nested store (.get kind key))
      (callBackend other store (.get kind key)) world := by
  unfold callBackend
  refine (Lands.quiet (clientOf_quiet store world)).bind fun client next _ _ => ?_
  refine .of_at (onCluster_at _ next) (onCluster_at _ next) (.of_clients ?_ rfl)
    fun _ _ => trivial
  exact .refl next.cluster

/-! ### Calls through a probe -/

theorem World.Onward.modifyProbe (world : World) (store : Nat) {change : Probe → Probe}
    (hchange : ∀ probe name, probe.armed.get? name = none →
      (change probe).armed.get? name = none) :
    world.Onward written (world.modifyProbe store change) := by
  refine .modifyClient world store fun client => ⟨rfl, rfl, .inl rfl, fun h => ?_⟩
  rintro probe hprobe name
  obtain ⟨before, hbefore, rfl⟩ := Option.map_eq_some_iff.mp hprobe
  exact hchange before name (h before hbefore name)

theorem callProbe_lands {call : Call} {established : call.Answer → World → Prop}
    (hstable : ∀ {answer : call.Answer} {before after : World},
      established answer before → before.Onward written after → established answer after)
    (hbackend : ∀ world : World, world.Fit store handle written →
      Lands written established (callBackend nested store call)
        (callBackend other store call) world)
    (hfit : world.Fit store handle written) :
    Lands written established (callProbe nested store call)
      (callProbe other store call) world := by
  unfold callProbe
  refine (Lands.quiet (clientOf_quiet store world)).bind ?_
  rintro client next - ⟨rfl, -⟩
  cases client.probe with
  | none => exact hbackend next hfit
  | some probe =>
      have hcount : next.Onward written
          (next.modifyProbe store fun probe => probe.countCall call) :=
        .modifyProbe next store fun _ _ h => h
      refine (Lands.modify hcount).bind ?_
      rintro - counted honward -
      have hcounted := hfit.onward honward
      simp only
      split
      · refine (Lands.quiet (refusal_quiet _ counted)).bind ?_
        rintro _ _ - ⟨-, hanswered⟩
        cases hanswered
      · refine (hbackend counted hcounted).settled.bind ?_
        rintro reply middle hmore hestablished
        have hmiddle := hcounted.onward hmore
        refine (Lands.quiet (clientOf_quiet store middle)).bind ?_
        rintro later next - ⟨rfl, hlater⟩
        rw [clientOf_eq_ok] at hlater
        cases hprobe : later.probe with
        | none => exact .ofReply hestablished
        | some probe =>
            -- Nothing is armed, so the answer still stands when the call returns.
            have hunarmed := hmiddle.calm.unarmed store later hlater probe hprobe call.name
            have hdisarm : next.Onward written
                (next.modifyProbe store fun probe => probe.disarm call) :=
              .modifyProbe next store fun _ _ hnone => by
                simp [Probe.disarm, KeyMap.get?_erase, hnone]
            refine (Lands.modify hdisarm).bind ?_
            rintro - disarmed hdisarmed -
            rw [hunarmed]
            exact .ofReply fun answer hanswer =>
              hstable (hestablished answer hanswer) hdisarmed

/-! ### Calls through a cache -/

theorem load_quiet (nested : Nested) (store : Nat) (world : World) :
    (((surroundings nested store).load).at world).2 = world := by
  simp only [surroundings, Act.at_bind, clientOf_at]
  cases world.client? store with
  | none => rfl
  | some client =>
      simp only
      cases client.cache <;> rfl

theorem World.Onward.save (world : World) (store : Nat) (state : Cache.State) :
    world.Onward written (world.modifyClient store fun client =>
      { client with cache := client.cache.map fun cache => (cache.1, state) }) :=
  .modifyClient world store fun client =>
    ⟨rfl, by simp [Function.comp_def], .inl rfl, id⟩

/-- Where a cached upsert knows that its backend has taken it. -/
def World.Tells (handle : Nat) {kind : Kind} {item : Item} (world : World) :
    Cache.Progress (.upsert kind item) → Prop
  | .answered (.ok _) | .asking (.reread _ _ _) => world.Reaches handle kind item
  | .answered (.error _) | .asking (.upsert _ _) | .asking (.pass _) | .aborted => True

theorem World.tells_start (world : World) (mode : Cache.Mode) (now : Instant)
    (state : Cache.State) :
    world.Tells handle (Cache.start mode now state (.upsert kind item)).2 := by
  unfold Cache.start
  split <;> trivial

theorem World.tells_resume (mode : Cache.Mode) (now : Instant) (state : Cache.State)
    {pending : Cache.Pending (.upsert kind item)} {reply : pending.asks.Reply}
    (hreply : reply.isOk = true → world.Reaches handle kind item) :
    world.Tells handle (Cache.resume mode now state pending reply).2 := by
  cases pending with
  | pass =>
      cases reply with
      | error error => trivial
      | ok outcome => exact hreply rfl
  | upsert =>
      cases reply with
      | error error => trivial
      | ok outcome =>
          simp only [Cache.resume, Cache.finishUpsert, Cache.withExpiry]
          cases mode.expiry? now with
          | none => trivial
          | some expires => cases outcome <;> exact hreply rfl
  | reread =>
      cases reply with
      | error error => trivial
      | ok current =>
          simp only [Cache.resume, Cache.withExpiry]
          cases mode.expiry? now with
          | none => trivial
          | some expires => exact hreply rfl

theorem ask_lands (h : nested.Within other) (hfit : world.Fit store handle written)
    (hwritten : written item.version) {pending : Cache.Pending (.upsert kind item)}
    (hpending : world.Tells handle (.asking pending)) :
    Lands written (fun reply next => reply.isOk = true → next.Reaches handle kind item)
      ((surroundings nested store).ask pending.asks)
      ((surroundings other store).ask pending.asks) world := by
  have hupsert : Lands written
      (fun reply next => reply.isOk = true → next.Reaches handle kind item)
      (settled (callProbe nested store (.upsert kind item)))
      (settled (callProbe other store (.upsert kind item))) world := by
    have hprobe : Lands written (fun _ => World.Reaches handle kind item)
        (callProbe nested store (.upsert kind item))
        (callProbe other store (.upsert kind item)) world :=
      callProbe_lands World.Reaches.onward
        (fun world hfit => h.upsertBackend hfit hwritten) hfit
    refine hprobe.settled.mono fun reply next _ hreached hok => ?_
    obtain ⟨answer, hanswer⟩ := exists_of_isOk hok
    exact hreached answer hanswer
  cases pending with
  | upsert => exact hupsert
  | pass => exact hupsert
  | reread seen =>
      have hprobe : Lands written (fun _ _ => True)
          (callProbe nested store (.get kind item.key))
          (callProbe other store (.get kind item.key)) world :=
        callProbe_lands (fun _ _ => trivial)
          (fun world _ => lands_get nested other store kind _ world) hfit
      exact hprobe.settled.mono fun reply next honward _ _ => hpending.onward honward

theorem follow_lands (h : nested.Within other) (hwritten : written item.version)
    (mode : Cache.Mode) (questions : Nat) {progress : Cache.Progress (.upsert kind item)}
    (hfit : world.Fit store handle written) (hprogress : world.Tells handle progress) :
    Lands written (fun result next => ∀ outcome, result = some (.ok outcome) →
        next.Reaches handle kind item)
      (Cache.follow (surroundings nested store) mode questions progress)
      (Cache.follow (surroundings other store) mode questions progress) world := by
  -- Each question takes one of those that are left; `Tells` goes from one to the next.
  induction questions generalizing progress world with
  | zero =>
      cases progress with
      | answered reply =>
          refine .pure fun outcome houtcome => ?_
          cases houtcome
          exact hprogress
      | aborted => exact .pure nofun
      | asking pending => exact .pure nofun
  | succ questions ih =>
      cases progress with
      | answered reply =>
          refine .pure fun outcome houtcome => ?_
          cases houtcome
          exact hprogress
      | aborted => exact .pure nofun
      | asking pending =>
          simp only [Cache.follow]
          refine (ask_lands h hfit hwritten hprogress).bind ?_
          rintro reply asked honward hreply
          refine (Lands.quiet rfl).bind ?_
          rintro now next - ⟨rfl, -⟩
          refine (Lands.quiet (load_quiet nested store next)).bind ?_
          rintro state world - ⟨rfl, -⟩
          refine (Lands.modify (.save world store _)).bind ?_
          rintro - saved hsaved -
          exact ih ((hfit.onward honward).onward hsaved)
            (World.tells_resume mode now state fun hok => (hreply hok).onward hsaved)

theorem serve_lands (h : nested.Within other) (hwritten : written item.version)
    (mode : Cache.Mode) (hfit : world.Fit store handle written) :
    Lands written (fun result next => ∀ outcome, result = some (.ok outcome) →
        next.Reaches handle kind item)
      (Cache.serve (surroundings nested store) mode (.upsert kind item))
      (Cache.serve (surroundings other store) mode (.upsert kind item)) world := by
  unfold Cache.serve
  refine (Lands.quiet rfl).bind ?_
  rintro now next - ⟨rfl, -⟩
  refine (Lands.quiet (load_quiet nested store next)).bind ?_
  rintro state world - ⟨rfl, -⟩
  refine (Lands.modify (.save world store _)).bind ?_
  rintro - saved hsaved -
  exact follow_lands h hwritten mode 2 (hfit.onward hsaved)
    (saved.tells_start mode now state)

/-! ### Calls of a store -/

theorem callStore_lands (h : nested.Within other) (hwritten : written item.version)
    (hfit : world.Fit store handle written) :
    Lands written (fun _ => World.Reaches handle kind item)
      (callStore nested store (.upsert kind item))
      (callStore other store (.upsert kind item)) world := by
  unfold callStore
  refine (Lands.quiet (clientOf_quiet store world)).bind ?_
  rintro client next - ⟨rfl, -⟩
  cases client.cache with
  | none => exact h.upsertBackend hfit hwritten
  | some cache =>
      refine (serve_lands h hwritten cache.1 hfit).bind ?_
      rintro result served honward hreached
      cases result with
      | none => exact .aborted
      | some reply =>
          refine .ofReply fun answer hanswer => ?_
          subst hanswer
          exact hreached answer rfl

theorem nestedTo_within (depth : Nat) :
    (nestedTo depth).Within (nestedTo (depth + 1)) := by
  induction depth with
  | zero =>
      intro store handle kind item written world hfit hwritten
      exact .aborted
  | succ depth ih =>
      intro store handle kind item written world hfit hwritten
      exact callStore_lands ih hwritten hfit

end

end Session

end VersionedFlags
