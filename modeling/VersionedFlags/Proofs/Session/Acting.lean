import VersionedFlags.Proofs.Fallible
import VersionedFlags.Session.Run

/-!
# What actions come to

An action of a session, run in a world, comes to a value or a failure and to
another world.  A call of a store without cache and rivals comes to what the
cluster serves.
-/

namespace VersionedFlags

namespace Session

variable {α β : Type}

/-! ## Actions -/

/-- What an action comes to in a world. -/
def Act.at (action : Act α) (world : World) : Except Failure α × World :=
  action.run.run world

namespace Act

@[simp] theorem at_pure (value : α) (world : World) :
    (pure value : Act α).at world = (.ok value, world) :=
  rfl

@[simp] theorem at_bind (action : Act α) (next : α → Act β) (world : World) :
    (action >>= next).at world =
      match action.at world with
      | (.ok value, world) => (next value).at world
      | (.error failure, world) => (.error failure, world) := by
  simp only [Act.at, ExceptT.run_bind, StateT.run_bind]
  rcases StateT.run (ExceptT.run action) world with ⟨_ | _, _⟩ <;> rfl

@[simp] theorem at_throw (failure : Failure) (world : World) :
    (throw failure : Act α).at world = (.error failure, world) :=
  rfl

@[simp] theorem at_get (world : World) :
    (get : Act World).at world = (.ok world, world) :=
  rfl

@[simp] theorem at_modify (change : World → World) (world : World) :
    (modify change : Act Unit).at world = (.ok (), change world) :=
  rfl

@[simp] theorem at_tryCatch (action : Act α) (handle : Failure → Act α)
    (world : World) :
    (tryCatch action handle).at world =
      match action.at world with
      | (.ok value, world) => (.ok value, world)
      | (.error failure, world) => (handle failure).at world := by
  have hrun := ExceptT.run_tryCatch action handle
  simp only [Act.at, hrun, StateT.run_bind]
  rcases StateT.run (ExceptT.run action) world with ⟨_ | _, _⟩ <;> rfl

end Act

@[simp] theorem settled_at (action : Act α) (world : World) :
    (settled action).at world =
      match action.at world with
      | (.ok value, next) => (.ok (.ok value), next)
      | (.error (.store error), next) => (.ok (.error error), next)
      | (.error failure, next) => (.error failure, next) := by
  have hmap : (Except.ok <$> action : Act (Except StoreError α)) =
      action >>= fun value => pure (.ok value) := (bind_pure_comp _ _).symm
  simp only [settled, hmap, Act.at_tryCatch, Act.at_bind]
  rcases action.at world with ⟨_ | _, next⟩
  · rename_i failure
    cases failure <;> rfl
  · rfl

theorem settled_at_eq_ok {action : Act α} {world next : World}
    {reply : Except StoreError α} :
    (settled action).at world = (.ok reply, next) ↔
      action.at world = (reply.mapError .store, next) := by
  rw [settled_at]
  rcases action.at world with ⟨failure | value, later⟩
  · cases reply <;> cases failure <;> simp
  · cases reply <;> simp

theorem mapError_store_inj {left right : Except StoreError α}
    (h : left.mapError Failure.store = right.mapError .store) : left = right := by
  cases left <;> cases right <;> cases h <;> rfl

theorem settled_ne_refusal {action : Act α} {world next : World} {error : StoreError} :
    (settled action).at world ≠ (.error (.store error), next) := by
  rw [settled_at]
  rcases action.at world with ⟨failure | value, later⟩
  · cases failure <;> simp
  · simp

/-! ## Calls of bare stores -/

@[simp] theorem clientOf_at (store : Nat) (world : World) :
    (clientOf store).at world =
      match world.client? store with
      | some client => (.ok client, world)
      | none => (.error (.store .closed), world) := by
  simp only [clientOf, Act.at_bind, Act.at_get]
  cases world.client? store <;> rfl

@[simp] theorem ofReply_at (reply : Except StoreError α) (world : World) :
    (ofReply reply).at world = (reply.mapError .store, world) := by
  cases reply <;> rfl

@[simp] theorem onCluster_at (change : Cluster → Except StoreError α × Cluster)
    (world : World) :
    (onCluster change).at world =
      ((change world.cluster).1.mapError .store,
        { world with cluster := (change world.cluster).2 }) := by
  simp [onCluster]

/-- If an upsert is newer than what is stored then rivals go off before it writes. -/
theorem upsertBackend_at (nested : Nested) (store : Nat) (kind : Kind)
    (item : Item) {client : Client} {world : World}
    (hclient : world.client? store = some client) :
    (upsertBackend nested store kind item).at world =
      match world.cluster.advise client.handle kind item with
      | .error error => (.error (.store error), world)
      | .ok false => (.ok .superseded, world)
      | .ok true =>
          match (runRivals nested store client).at world with
          | (.ok _, next) =>
              (onCluster fun cluster =>
                cluster.commit client.handle kind item).at next
          | (.error failure, next) => (.error failure, next) := by
  simp only [upsertBackend, Act.at_bind, clientOf_at, hclient, Act.at_get, ofReply_at]
  cases world.cluster.advise client.handle kind item with
  | error error => rfl
  | ok newer =>
      cases newer with
      | false => rfl
      | true =>
          simp only [mapError_ok, if_true, Act.at_bind]
          rcases (runRivals nested store client).at world with ⟨_ | _, _⟩ <;> rfl

theorem upsertBackend_at_of_none (nested : Nested) (store : Nat) (kind : Kind)
    (item : Item) {client : Client} {world : World}
    (hclient : world.client? store = some client)
    (hrivals : client.rivals = none) :
    (upsertBackend nested store kind item).at world =
      ((world.cluster.upsert client.handle kind item).1.mapError .store,
        { world with
          cluster := (world.cluster.upsert client.handle kind item).2 }) := by
  rw [upsertBackend_at nested store kind item hclient]
  simp only [Cluster.upsert, runRivals, hrivals, Act.at_pure, onCluster_at]
  rcases world.cluster.advise client.handle kind item with _ | _ | _ <;> rfl

theorem callStore_at (nested : Nested) (store : Nat) (call : Call)
    {client : Client} {world : World}
    (hclient : world.client? store = some client)
    (hcache : client.cache = none) (hrivals : client.rivals = none) :
    (callStore nested store call).at world =
      ((world.cluster.serve client.handle call).1.mapError .store,
        { world with
          cluster := (world.cluster.serve client.handle call).2 }) := by
  simp only [callStore, Act.at_bind, clientOf_at, hclient, hcache]
  cases call with
  | upsert kind item =>
      exact upsertBackend_at_of_none nested store kind item hclient hrivals
  | _ => simp [callBackend, hclient]

end Session

end VersionedFlags
