import VersionedFlags.Proofs.Fallible
import VersionedFlags.Proofs.Realm
import VersionedFlags.Store.Medium

/-!
# What is stored outside of a part

A part of what is stored is everything of one realm or the items of one kind in
it.  The view of a medium leaves the part out.  What is read outside of the part
is read off the view, what is written outside changes the view alike whatever is
in the part, and what is written in the part leaves the view as it is.
-/

namespace VersionedFlags

/-! ## Parts -/

inductive Part where
  /-- All of a realm, its initialization too. -/
  | whole (own : Realm)
  | items (own : Realm) (kind : Kind)
  deriving DecidableEq, Repr

namespace Part

/-- Whether the items of a kind in a realm belong to the part. -/
def covers : Part → Realm → Kind → Bool
  | .whole own, realm, _ => realm == own
  | .items own sort, realm, kind => realm == own && kind == sort

/-- Whether all of a realm belongs to the part. -/
def owns : Part → Realm → Bool
  | .whole own, realm => realm == own
  | .items _ _, _ => false

def hidesScope : Part → String → Bool
  | .whole own, scope => Kind.all.any fun kind => scope == own.scope kind
  | .items own kind, scope => scope == own.scope kind

def hidesMarker : Part → String → Bool
  | .whole own, marker => marker == own.marker
  | .items _ _, _ => false

theorem covers_of_owns {part : Part} {realm : Realm} (h : part.owns realm = true)
    (kind : Kind) : part.covers realm kind = true := by
  cases part with
  | whole own => exact h
  | items own sort => cases h

@[simp] theorem hidesScope_scope (part : Part) (realm : Realm) (kind : Kind) :
    part.hidesScope (realm.scope kind) = part.covers realm kind := by
  rw [Bool.eq_iff_iff]
  cases part with
  | whole own =>
      cases kind <;> simp [hidesScope, covers, Kind.all, Realm.scope_inj]
  | items own sort => simp [hidesScope, covers, Realm.scope_inj]

@[simp] theorem hidesMarker_marker (part : Part) (realm : Realm) :
    part.hidesMarker realm.marker = part.owns realm := by
  cases part with
  | whole own =>
      rw [Bool.eq_iff_iff]
      simp [hidesMarker, owns, Realm.marker_inj]
  | items own sort => rfl

end Part

/-! ## Key maps -/

namespace KeyMap

variable {α : Type}

def without (map : KeyMap α) (hides : String → Bool) : KeyMap α :=
  map.filter fun key _ => !hides key

theorem get?_without (map : KeyMap α) (hides : String → Bool) (key : String) :
    (map.without hides).get? key =
      if hides key then none else map.get? key := by
  rw [without, get?_filter]
  cases hides key <;> cases map.get? key <;> rfl

theorem without_insert_of_hides (map : KeyMap α) {hides : String → Bool}
    {key : String} (value : α) (h : hides key = true) :
    (map.insert key value).without hides = map.without hides := by
  refine ext_get? fun other => ?_
  rw [get?_without, get?_without, get?_insert]
  by_cases hkey : key = other
  · subst hkey
    simp [h]
  · simp [hkey]

theorem without_insert (map : KeyMap α) {hides : String → Bool} {key : String}
    (value : α) (h : hides key = false) :
    (map.insert key value).without hides =
      (map.without hides).insert key value := by
  refine ext_get? fun other => ?_
  rw [get?_without, get?_insert, get?_insert, get?_without]
  by_cases hkey : key = other
  · subst hkey
    simp [h]
  · simp [hkey]

@[simp] theorem without_without (map : KeyMap α) (hides : String → Bool) :
    (map.without hides).without hides = map.without hides := by
  refine ext_get? fun key => ?_
  rw [get?_without, get?_without]
  split <;> rfl

/-- An insertion changes what is left alike, whatever is left out. -/
theorem without_insert_without (map : KeyMap α) (hides : String → Bool)
    (key : String) (value : α) :
    (map.insert key value).without hides =
      ((map.without hides).insert key value).without hides := by
  cases h : hides key with
  | true =>
      rw [without_insert_of_hides _ _ h, without_insert_of_hides _ _ h,
        without_without]
  | false =>
      rw [without_insert _ _ h, without_insert _ _ h, without_without]

end KeyMap

/-! ## Databases in memory -/

namespace MemoryDatabase

variable {part : Part} {realm : Realm} {kind : Kind}

def view (part : Part) (database : MemoryDatabase) : MemoryDatabase :=
  ⟨database.scopes.without part.hidesScope,
    database.markers.without part.hidesMarker⟩

theorem items_view (database : MemoryDatabase)
    (h : part.covers realm kind = false) :
    (database.view part).items realm kind = database.items realm kind := by
  simp [items, view, KeyMap.get?_without, h]

theorem stored?_view (database : MemoryDatabase)
    (h : part.covers realm kind = false) (key : String) :
    (database.view part).stored? realm kind key =
      database.stored? realm kind key := by
  rw [stored?, stored?, items_view database h]

theorem isInitialized_view (database : MemoryDatabase)
    (h : part.owns realm = false) :
    (database.view part).isInitialized realm = database.isInitialized realm := by
  simp [isInitialized, KeyMap.contains, view, KeyMap.get?_without, h]

theorem view_put (database : MemoryDatabase)
    (h : part.covers realm kind = false) (item : Item) :
    (database.put realm kind item).view part =
      (database.view part).put realm kind item := by
  have hscope : part.hidesScope (realm.scope kind) = false := by simpa using h
  simp only [put, items_view database h]
  simp only [view, KeyMap.without_insert _ _ hscope]

theorem view_put_of_covers (database : MemoryDatabase)
    (h : part.covers realm kind = true) (item : Item) :
    (database.put realm kind item).view part = database.view part := by
  have hscope : part.hidesScope (realm.scope kind) = true := by simpa using h
  simp only [view, put, KeyMap.without_insert_of_hides _ _ hscope]

theorem write_view (database : MemoryDatabase)
    (h : part.covers realm kind = false) (item : Item) :
    (database.view part).write realm kind item =
      ((database.write realm kind item).1,
        (database.write realm kind item).2.view part) := by
  have hversion : (database.view part).version? realm kind item.key =
      database.version? realm kind item.key := by
    rw [version?, version?, stored?_view database h]
  cases hnewer : item.supersedes (database.version? realm kind item.key) <;>
    simp [write, hversion, hnewer, view_put database h]

theorem view_write_of_covers (database : MemoryDatabase)
    (h : part.covers realm kind = true) (item : Item) :
    (database.write realm kind item).2.view part = database.view part := by
  cases hnewer : item.supersedes (database.version? realm kind item.key) <;>
    simp [write, hnewer, view_put_of_covers database h]

theorem without_foldl_insert (hides : String → Bool) (realm : Realm)
    (parts : List (Kind × KeyMap Item)) {left right : KeyMap (KeyMap Item)}
    (h : left.without hides = right.without hides) :
    (parts.foldl (fun scopes part => scopes.insert (realm.scope part.1) part.2)
        left).without hides =
      (parts.foldl (fun scopes part => scopes.insert (realm.scope part.1) part.2)
        right).without hides := by
  induction parts generalizing left right with
  | nil => exact h
  | cons part rest ih =>
      refine ih ?_
      rw [KeyMap.without_insert_without, h, ← KeyMap.without_insert_without]

theorem init_view (part : Part) (database : MemoryDatabase) (realm : Realm)
    (data : DataSet) :
    ((database.view part).init realm data).view part =
      (database.init realm data).view part := by
  simp only [view, init, mk.injEq]
  refine ⟨without_foldl_insert _ realm data.parts ?_, ?_⟩
  · rw [KeyMap.without_without]
  · exact (KeyMap.without_insert_without _ _ _ _).symm

theorem without_foldl_insert_of_hides {hides : String → Bool}
    (h : ∀ kind, hides (realm.scope kind) = true)
    (parts : List (Kind × KeyMap Item)) (scopes : KeyMap (KeyMap Item)) :
    (parts.foldl (fun scopes part => scopes.insert (realm.scope part.1) part.2)
      scopes).without hides = scopes.without hides := by
  induction parts generalizing scopes with
  | nil => rfl
  | cons part rest ih =>
      rw [List.foldl_cons, ih, KeyMap.without_insert_of_hides _ _ (h part.1)]

theorem view_init_of_owns (database : MemoryDatabase)
    (h : part.owns realm = true) (data : DataSet) :
    (database.init realm data).view part = database.view part := by
  simp only [view, init, mk.injEq]
  refine ⟨without_foldl_insert_of_hides ?_ _ _, ?_⟩
  · intro kind
    rw [Part.hidesScope_scope, Part.covers_of_owns h]
  · exact KeyMap.without_insert_of_hides _ _ (by simpa using h)

end MemoryDatabase

/-! ## Steps that act alike on what they share -/

theorem alike_cases {ε α β : Type} {view : α → β} {left right : Except ε α}
    (h : left.map view = right.map view) :
    (∃ error, left = .error error ∧ right = .error error) ∨
      ∃ a b, left = .ok a ∧ right = .ok b ∧ view a = view b := by
  cases left with
  | error error =>
      cases right with
      | error other =>
          cases h
          exact .inl ⟨error, rfl, rfl⟩
      | ok b => cases h
  | ok a =>
      cases right with
      | error error => cases h
      | ok b => exact .inr ⟨a, b, rfl, rfl, Except.ok.inj h⟩

theorem map_bind_alike {ε α β γ δ : Type} {view : α → β} {result : γ → δ}
    {left right : Except ε α} {next : α → Except ε γ}
    (hfirst : left.map view = right.map view)
    (hnext : ∀ a b, view a = view b →
      (next a).map result = (next b).map result) :
    (left >>= next).map result = (right >>= next).map result := by
  rcases alike_cases hfirst with ⟨error, rfl, rfl⟩ | ⟨a, b, rfl, rfl, hview⟩
  · rfl
  · exact hnext a b hview

/-! ## Database files -/

namespace Sqlite

namespace Table

variable {α β : Type}

def map (change : α → β) : Table α → Table β
  | .absent => .absent
  | .foreign => .foreign
  | .own content => .own (change content)

@[simp] theorem map_own (change : α → β) (content : α) :
    (own content).map change = .own (change content) :=
  rfl

theorem map_map_self {change : α → α} (h : ∀ content,
    change (change content) = change content) (table : Table α) :
    (table.map change).map change = table.map change := by
  cases table <;> simp [map, h]

@[simp] theorem map_without_map_without (table : Table (KeyMap α))
    (hides : String → Bool) :
    (table.map fun content => content.without hides).map
        (fun content => content.without hides) =
      table.map fun content => content.without hides :=
  map_map_self (fun content => content.without_without hides) table

end Table

namespace Tables

variable {part : Part} {realm : Realm} {kind : Kind}

/-- The rows whose scopes are not hidden. -/
def outside (hides : String → Bool) (rows : List Row) : List Row :=
  rows.filter fun row => !hides row.scope

def view (part : Part) (tables : Tables) : Tables :=
  { tables with
    items := tables.items.map (outside part.hidesScope)
    markers := tables.markers.map fun markers =>
      markers.without part.hidesMarker }

theorem outside_append (hides : String → Bool) (rows more : List Row) :
    outside hides (rows ++ more) = outside hides rows ++ outside hides more :=
  List.filter_append rows more

@[simp] theorem map_outside_map_outside (hides : String → Bool)
    (table : Table (List Row)) :
    (table.map (outside hides)).map (outside hides) = table.map (outside hides) :=
  Table.map_map_self (fun rows => by simp [outside]) table

theorem row?_outside {hides : String → Bool} {scope : String}
    (h : hides scope = false) (rows : List Row) (key : String) :
    row? (outside hides rows) scope key = row? rows scope key := by
  rw [row?, row?, outside, List.find?_filter]
  congr 1
  funext row
  rw [Bool.eq_iff_iff]
  by_cases hscope : row.scope = scope
  · simp [hscope, h]
  · simp [hscope]

theorem get?_view (tables : Tables) (h : part.covers realm kind = false)
    (key : String) :
    (tables.view part).get? realm kind key = tables.get? realm kind key := by
  have hscope : part.hidesScope (realm.scope kind) = false := by simpa using h
  cases hitems : tables.items <;>
    simp [get?, view, hitems, Table.map, Table.content, row?_outside hscope]

theorem version?_view (tables : Tables) (h : part.covers realm kind = false)
    (key : String) :
    (tables.view part).version? realm kind key =
      tables.version? realm kind key := by
  have hscope : part.hidesScope (realm.scope kind) = false := by simpa using h
  cases hitems : tables.items <;>
    simp [version?, view, hitems, Table.map, Table.content, row?_outside hscope]

theorem all_view (tables : Tables) (h : part.covers realm kind = false) :
    (tables.view part).all realm kind = tables.all realm kind := by
  have hscope : part.hidesScope (realm.scope kind) = false := by simpa using h
  have hrows : ∀ rows, (outside part.hidesScope rows).filter
      (fun row => row.scope == realm.scope kind && row.deleted == .integer 0) =
        rows.filter fun row =>
          row.scope == realm.scope kind && row.deleted == .integer 0 := by
    intro rows
    rw [outside, List.filter_filter]
    congr 1
    funext row
    by_cases heq : row.scope = realm.scope kind
    · simp [heq, h]
    · simp [heq]
  cases hitems : tables.items <;>
    simp [all, view, hitems, Table.map, Table.content, hrows]

theorem isInitialized_view (tables : Tables) (h : part.owns realm = false) :
    (tables.view part).isInitialized realm = tables.isInitialized realm := by
  have hmarker : part.hidesMarker realm.marker = false := by simpa using h
  cases hmarkers : tables.markers with
  | own markers =>
      simp only [isInitialized, view, hmarkers, Table.map, Table.content, ok_bind,
        KeyMap.contains, KeyMap.get?_without, hmarker, Bool.false_eq_true,
        if_false]
  | absent | foreign => simp only [isInitialized, view, hmarkers, Table.map]

/-! ### Writing rows -/

theorem putRow_outside {hides : String → Bool} {row : Row}
    (h : hides row.scope = false) (version : Int) (rows : List Row) :
    putRow row version (outside hides rows) =
      ((putRow row version rows).1,
        outside hides (putRow row version rows).2) := by
  induction rows with
  | nil => simp [putRow, outside, h]
  | cons first rest ih =>
      simp only [outside] at ih ⊢
      cases hfirst : hides first.scope with
      | false =>
          by_cases hplace : first.scope = row.scope ∧ first.key = row.key
          · cases hlower : first.version.ltInteger version <;>
              simp [putRow, hplace, hlower, h]
          · simp [putRow, hplace, hfirst, ih]
      | true =>
          have hplace : ¬ (first.scope = row.scope ∧ first.key = row.key) := by
            rintro ⟨hscope, -⟩
            rw [hscope, h] at hfirst
            cases hfirst
          simp [putRow, hplace, hfirst, ih]

theorem outside_putRow_of_hides {hides : String → Bool} {row : Row}
    (h : hides row.scope = true) (version : Int) (rows : List Row) :
    outside hides (putRow row version rows).2 = outside hides rows := by
  induction rows with
  | nil => simp [putRow, outside, h]
  | cons first rest ih =>
      simp only [outside] at ih ⊢
      by_cases hplace : first.scope = row.scope ∧ first.key = row.key
      · cases hlower : first.version.ltInteger version <;>
          simp [putRow, hplace, hlower, h]
      · simp [putRow, hplace, List.filter_cons, ih]

theorem write_view (tables : Tables) (h : part.covers realm kind = false)
    (item : Item) (version : Int) :
    (tables.view part).write realm kind item version =
      (tables.write realm kind item version).map fun result =>
        (result.1, result.2.view part) := by
  have hscope : part.hidesScope
      (rowOf (realm.scope kind) item version).scope = false := by
    simpa [rowOf] using h
  cases hitems : tables.items with
  | own rows =>
      simp only [write, view, hitems, Table.map_own, Table.content, ok_bind,
        putRow_outside hscope]
      rfl
  | absent | foreign => simp only [write, view, hitems, Table.map]; rfl

theorem view_write_of_covers {tables next : Tables} {outcome : Outcome}
    {item : Item} {version : Int} (h : part.covers realm kind = true)
    (heq : tables.write realm kind item version = .ok (outcome, next)) :
    next.view part = tables.view part := by
  have hscope : part.hidesScope
      (rowOf (realm.scope kind) item version).scope = true := by
    simpa [rowOf] using h
  cases hitems : tables.items with
  | own rows =>
      simp only [write, hitems, Table.content, ok_bind] at heq
      cases heq
      simp only [view, hitems, Table.map_own, outside_putRow_of_hides hscope]
  | absent | foreign =>
      simp only [write, hitems, Table.content, error_bind] at heq
      cases heq

@[simp] theorem view_view (part : Part) (tables : Tables) :
    (tables.view part).view part = tables.view part := by
  simp [view]

theorem replaceScope_view (part : Part) (tables : Tables) (scope : String)
    (items : List Item) :
    ((tables.view part).replaceScope scope items).map (view part) =
      (tables.replaceScope scope items).map (view part) := by
  cases hitems : tables.items with
  | own rows =>
      simp only [replaceScope, insertAll, view, hitems, Table.map_own,
        Table.content, ok_bind]
      cases items.mapM fun item => do
          return rowOf scope item (← versionCell item) with
      | error error => rfl
      | ok added =>
          have hkept : outside part.hidesScope
              ((outside part.hidesScope rows).filter fun row =>
                row.scope != scope) =
              outside part.hidesScope (rows.filter fun row =>
                row.scope != scope) := by
            simp only [outside, List.filter_filter]
            congr 1
            funext row
            cases part.hidesScope row.scope <;> simp
          refine congrArg Except.ok ?_
          simp only [view, Table.map_own, outside_append, hkept,
            Table.map_without_map_without]
  | absent | foreign =>
      simp only [replaceScope, view, hitems, Table.map]
      rfl

theorem view_replaceScope_of_hides {tables next : Tables} {scope : String}
    {items : List Item} (h : part.hidesScope scope = true)
    (heq : tables.replaceScope scope items = .ok next) :
    next.view part = tables.view part := by
  cases hitems : tables.items with
  | own rows =>
      simp only [replaceScope, insertAll, hitems, Table.content, ok_bind] at heq
      obtain ⟨all, heq, hnext⟩ := exists_of_bind_eq_ok heq
      obtain ⟨added, hadded, heq⟩ := exists_of_bind_eq_ok heq
      cases heq
      cases hnext
      have hkept : outside part.hidesScope (rows.filter fun row =>
          row.scope != scope) = outside part.hidesScope rows := by
        rw [outside, outside, List.filter_filter]
        congr 1
        funext row
        by_cases hrow : row.scope = scope <;> simp [hrow, h]
      have hnone : outside part.hidesScope added = [] := by
        refine List.filter_eq_nil_iff.mpr fun row hm => ?_
        obtain ⟨item, -, hrow⟩ := exists_of_mem_mapM hadded hm
        obtain ⟨version, -, hrow⟩ := exists_of_bind_eq_ok hrow
        cases hrow
        simp [rowOf, h]
      simp only [view, hitems, Table.map_own, outside_append, hkept, hnone,
        List.append_nil]
  | absent | foreign =>
      simp only [replaceScope, hitems, Table.content, error_bind] at heq
      cases heq

theorem mark_view (part : Part) (tables : Tables) (marker : String) :
    ((tables.view part).mark marker).map (view part) =
      (tables.mark marker).map (view part) := by
  cases hmarkers : tables.markers with
  | own markers =>
      simp only [mark, view, hmarkers, Table.map_own, Table.content, ok_bind]
      refine congrArg Except.ok ?_
      simp only [view, Table.map_own, ← KeyMap.without_insert_without,
        map_outside_map_outside]
  | absent | foreign =>
      simp only [mark, view, hmarkers, Table.map]
      rfl

theorem view_mark_of_hides {tables next : Tables} {marker : String}
    (h : part.hidesMarker marker = true) (heq : tables.mark marker = .ok next) :
    next.view part = tables.view part := by
  cases hmarkers : tables.markers with
  | own markers =>
      simp only [mark, hmarkers, Table.content, ok_bind] at heq
      cases heq
      simp only [view, hmarkers, Table.map_own,
        KeyMap.without_insert_of_hides _ _ h]
  | absent | foreign =>
      simp only [mark, hmarkers, Table.content, error_bind] at heq
      cases heq

/-- A step that treats tables as it treats their view treats tables of the same
view alike. -/
theorem alike_of_view (step : Tables → Except StoreError Tables)
    (h : ∀ tables : Tables,
      (step (tables.view part)).map (view part) = (step tables).map (view part))
    (left right : Tables) (hview : left.view part = right.view part) :
    (step left).map (view part) = (step right).map (view part) := by
  rw [← h left, hview, h right]

theorem foldlM_replaceScope_alike (apart : Part) (realm : Realm)
    (parts : List (Kind × KeyMap Item)) (left right : Tables)
    (h : left.view apart = right.view apart) :
    (parts.foldlM (fun tables part =>
        replaceScope tables (realm.scope part.1) part.2.values) left).map
        (view apart) =
      (parts.foldlM (fun tables part =>
        replaceScope tables (realm.scope part.1) part.2.values) right).map
        (view apart) := by
  induction parts generalizing left right with
  | nil => exact congrArg Except.ok h
  | cons first rest ih =>
      rw [List.foldlM_cons, List.foldlM_cons]
      refine map_bind_alike ?_ ih
      exact alike_of_view
        (fun tables => tables.replaceScope (realm.scope first.1) first.2.values)
        (fun tables => replaceScope_view apart tables _ _) left right h

theorem init_view (part : Part) (tables : Tables) (realm : Realm)
    (data : DataSet) :
    ((tables.view part).init realm data).map (view part) =
      (tables.init realm data).map (view part) :=
  map_bind_alike
    (foldlM_replaceScope_alike part realm data.parts _ _ (view_view part tables))
    (alike_of_view _ fun tables => mark_view part tables realm.marker)

theorem view_init_of_owns {tables next : Tables} {data : DataSet}
    (h : part.owns realm = true) (heq : tables.init realm data = .ok next) :
    next.view part = tables.view part := by
  have hparts : ∀ (parts : List (Kind × KeyMap Item)) (tables next : Tables),
      parts.foldlM (fun tables part =>
        replaceScope tables (realm.scope part.1) part.2.values) tables =
          .ok next → next.view part = tables.view part := by
    intro parts
    induction parts with
    | nil =>
        intro tables next heq
        cases heq
        rfl
    | cons first rest ih =>
        intro tables next heq
        rw [List.foldlM_cons] at heq
        obtain ⟨middle, hfirst, heq⟩ := exists_of_bind_eq_ok heq
        have hscope : part.hidesScope (realm.scope first.1) = true := by
          rw [Part.hidesScope_scope, Part.covers_of_owns h]
        rw [ih _ _ heq, view_replaceScope_of_hides hscope hfirst]
  obtain ⟨middle, hfold, hmark⟩ := exists_of_bind_eq_ok heq
  rw [view_mark_of_hides (by simpa using h) hmark, hparts _ _ _ hfold]

end Tables

end Sqlite

/-! ## Media -/

namespace Medium

variable {part : Part} {realm : Realm} {kind : Kind}

def view (part : Part) : Medium → Medium
  | .memory database => .memory (database.view part)
  | .sqlite .damaged => .sqlite .damaged
  | .sqlite (.intact tables) => .sqlite (.intact (tables.view part))

theorem get?_view (medium : Medium) (h : part.covers realm kind = false)
    (key : String) :
    (medium.view part).get? realm kind key = medium.get? realm kind key := by
  match medium with
  | .memory database =>
      simp only [view, Medium.get?, MemoryDatabase.get?,
        MemoryDatabase.stored?_view database h]
  | .sqlite .damaged => rfl
  | .sqlite (.intact tables) => exact tables.get?_view h key

theorem all_view (medium : Medium) (h : part.covers realm kind = false) :
    (medium.view part).all realm kind = medium.all realm kind := by
  match medium with
  | .memory database =>
      simp only [view, Medium.all, MemoryDatabase.all,
        MemoryDatabase.items_view database h]
  | .sqlite .damaged => rfl
  | .sqlite (.intact tables) => exact tables.all_view h

theorem isInitialized_view (medium : Medium) (h : part.owns realm = false) :
    (medium.view part).isInitialized realm = medium.isInitialized realm := by
  match medium with
  | .memory database =>
      exact congrArg Except.ok (database.isInitialized_view h)
  | .sqlite .damaged => rfl
  | .sqlite (.intact tables) => exact tables.isInitialized_view h

theorem advise_view (medium : Medium) (h : part.covers realm kind = false)
    (item : Item) :
    (medium.view part).advise realm kind item =
      medium.advise realm kind item := by
  match medium with
  | .memory database =>
      simp only [view, advise, MemoryDatabase.version?,
        MemoryDatabase.stored?_view database h]
  | .sqlite .damaged => rfl
  | .sqlite (.intact tables) =>
      simp only [view, advise, Sqlite.Image.tables, ok_bind,
        tables.version?_view h]

theorem commit_view (medium : Medium) (h : part.covers realm kind = false)
    (closed : Bool) (item : Item) :
    (medium.view part).commit realm closed kind item =
      (medium.commit realm closed kind item).map fun result =>
        (result.1, result.2.view part) := by
  match medium with
  | .memory database =>
      simp only [view, commit, database.write_view h]
      rfl
  | .sqlite image =>
      cases hversion : Sqlite.Tables.versionCell item with
      | error error => cases image <;> simp only [view, commit, hversion] <;> rfl
      | ok version =>
          cases closed with
          | true => cases image <;> simp only [view, commit, hversion] <;> rfl
          | false =>
              cases image with
              | damaged => simp only [view, commit, hversion]; rfl
              | intact tables =>
                  simp only [view, commit, hversion, Sqlite.Image.tables,
                    ok_bind, tables.write_view h]
                  cases tables.write realm kind item version <;> rfl

theorem view_commit_of_covers {medium next : Medium}
    (h : part.covers realm kind = true) {closed : Bool} {item : Item}
    {outcome : Outcome}
    (heq : medium.commit realm closed kind item = .ok (outcome, next)) :
    next.view part = medium.view part := by
  match medium with
  | .memory database =>
      cases heq
      exact congrArg Medium.memory (database.view_write_of_covers h item)
  | .sqlite image =>
      obtain ⟨version, hversion, heq⟩ := exists_of_bind_eq_ok heq
      cases closed with
      | true => cases heq
      | false =>
          cases image with
          | damaged => cases heq
          | intact tables =>
              simp only [Bool.false_eq_true, if_false, Sqlite.Image.tables,
                ok_bind] at heq
              obtain ⟨⟨found, written⟩, hwrite, hnext⟩ := exists_of_bind_eq_ok heq
              cases hnext
              exact congrArg (fun tables => Medium.sqlite (.intact tables))
                (Sqlite.Tables.view_write_of_covers h hwrite)

theorem init_view (part : Part) (medium : Medium) (realm : Realm)
    (data : DataSet) :
    ((medium.view part).init realm data).map (view part) =
      (medium.init realm data).map (view part) := by
  match medium with
  | .memory database =>
      exact congrArg (fun database => Except.ok (Medium.memory database))
        (database.init_view part realm data)
  | .sqlite .damaged => rfl
  | .sqlite (.intact tables) =>
      simp only [view, init, Sqlite.Image.tables, ok_bind]
      exact map_bind_alike (tables.init_view part realm data)
        fun left right h => congrArg
          (fun tables => Except.ok (Medium.sqlite (.intact tables))) h

theorem view_init_of_owns {medium next : Medium} {data : DataSet}
    (h : part.owns realm = true) (heq : medium.init realm data = .ok next) :
    next.view part = medium.view part := by
  match medium with
  | .memory database =>
      cases heq
      exact congrArg Medium.memory (database.view_init_of_owns h data)
  | .sqlite .damaged => cases heq
  | .sqlite (.intact tables) =>
      simp only [init, Sqlite.Image.tables, ok_bind] at heq
      obtain ⟨written, hinit, hnext⟩ := exists_of_bind_eq_ok heq
      cases hnext
      exact congrArg (fun tables => Medium.sqlite (.intact tables))
        (Sqlite.Tables.view_init_of_owns h hinit)

end Medium

end VersionedFlags
