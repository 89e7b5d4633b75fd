import VersionedFlags.Proofs.Realm
import VersionedFlags.Proofs.Store.Ledger
import VersionedFlags.Store.Memory

/-!
# Databases in memory as ledgers

A database in memory holds the ledger that its lookups show, and every
operation does to that ledger what it should.
-/

namespace VersionedFlags

namespace MemoryDatabase

/-- The ledger that the lookups of a database show. -/
def ledger (database : MemoryDatabase) : Ledger :=
  ⟨database.items, database.isInitialized⟩

theorem ledger_insert (database : MemoryDatabase) (realm : Realm) (kind : Kind)
    (items : KeyMap Item) :
    ledger { database with
      scopes := database.scopes.insert (realm.scope kind) items } =
      database.ledger.replace realm kind items := by
  simp only [ledger, Ledger.replace, Ledger.mk.injEq]
  refine ⟨?_, rfl⟩
  funext other part
  simp only [MemoryDatabase.items, KeyMap.get?_insert, Realm.scope_inj]
  by_cases h : realm = other ∧ kind = part
  · obtain ⟨rfl, rfl⟩ := h
    simp
  · rw [if_neg h, if_neg fun h' => h ⟨h'.1.symm, h'.2.symm⟩]

theorem ledger_put (database : MemoryDatabase) (realm : Realm) (kind : Kind)
    (item : Item) :
    (database.put realm kind item).ledger =
      database.ledger.put realm kind item :=
  ledger_insert database realm kind _

theorem ledger_write (database : MemoryDatabase) (realm : Realm) (kind : Kind)
    (item : Item) :
    ((database.write realm kind item).1,
        (database.write realm kind item).2.ledger) =
      database.ledger.upsert realm kind item := by
  have hversion : database.ledger.version? realm kind item.key =
      database.version? realm kind item.key := rfl
  simp only [write, Ledger.upsert, hversion]
  split
  · rw [ledger_put]
  · rfl

theorem ledger_foldl_insert (database : MemoryDatabase) (realm : Realm)
    (parts : List (Kind × KeyMap Item)) :
    ledger { database with
      scopes := parts.foldl
        (fun scopes part => scopes.insert (realm.scope part.1) part.2)
        database.scopes } =
      parts.foldl (fun ledger part => ledger.replace realm part.1 part.2)
        database.ledger := by
  induction parts generalizing database with
  | nil => rfl
  | cons part rest ih =>
      rw [List.foldl_cons, List.foldl_cons, ← ledger_insert]
      exact ih { database with
        scopes := database.scopes.insert (realm.scope part.1) part.2 }

theorem ledger_init (database : MemoryDatabase) (realm : Realm)
    (data : DataSet) :
    (database.init realm data).ledger = database.ledger.init realm data := by
  rw [Ledger.init_eq_foldl, ← ledger_foldl_insert]
  simp only [ledger, init, Ledger.mark, Ledger.mk.injEq]
  refine ⟨rfl, ?_⟩
  funext other
  simp [isInitialized, Realm.marker_inj, eq_comm]

end MemoryDatabase

end VersionedFlags
