import VersionedFlags.Proofs.Cache.Staleness
import VersionedFlags.Proofs.Store.Evolution

/-!
# Reads that follow one another

A cache is used by one caller, and between its calls others write to the
backend, but nobody initializes or clears it.  A read tells what the backend
held at some moment, and never a moment before that of an earlier read, since
what a slot holds afterwards is what the read told.
-/

namespace VersionedFlags

namespace Cache

namespace Desk

/-! ## Turns -/

inductive Turn where
  /-- A call through the cache. -/
  | own (call : Call)
  | past (access : Cluster.Access)
  deriving DecidableEq, Repr

def Turn.Suits (file : Bool) : Turn → Prop
  | .own call => call.Kept file ∧ ∀ data, call ≠ .init data
  | .past access => access.Suits file

def take (mode : Mode) (handle : Nat) (clock : Nat → Instant) (desk : Desk) :
    Turn → Desk
  | .own call => (desk.serve mode handle clock call).2
  | .past access => { desk with cluster := desk.cluster.access access }

def run (mode : Mode) (handle : Nat) (clock : Nat → Instant) (desk : Desk)
    (turns : List Turn) : Desk :=
  turns.foldl (take mode handle clock) desk

theorem run_append (mode : Mode) (handle : Nat) (clock : Nat → Instant)
    (desk : Desk) (past rest : List Turn) :
    run mode handle clock desk (past ++ rest) =
      run mode handle clock (run mode handle clock desk past) rest :=
  List.foldl_append

/-! ## What a read leaves -/

variable {mode : Mode} {handle : Nat} {clock : Nat → Instant} {desk : Desk}
  {slot : Slot}

/-- The entry of a slot that was read holds what the read gave. -/
theorem value_of_read (hmode : mode.isEnabled = true)
    {value : slot.call.Answer} {entry : Entry slot.call.Answer}
    (hread : (desk.serve mode handle clock slot.call).1 = some (.ok value))
    (hentry : (desk.serve mode handle clock slot.call).2.state.held? slot =
      some entry) : entry.value = value := by
  cases slot with
  | item kind key =>
      simp only [serve_eq, Cache.start, hmode, if_true, startGet] at hread hentry
      split at hread
      · rename_i found hitem
        rw [hitem] at hentry
        simp only [follow_answered] at hread hentry
        cases hread
        obtain ⟨held, hheld, hfresh⟩ := State.exists_entry_of_item? hitem
        obtain rfl : held = entry := Option.some.inj (hheld.symm.trans hentry)
        exact Entry.value_of_fresh? hfresh
      · rename_i hitem
        rw [hitem] at hentry
        simp only [follow_asking] at hread hentry
        cases hreply : (desk.cluster.serve handle (.get kind key)).1 with
        | error error =>
            simp only [hreply, resume, follow_answered] at hread
            cases hread
        | ok found =>
            have hvisible := Cluster.visible_of_get hreply
            simp only [hreply, resume, withExpiry] at hread hentry
            split at hread
            · rw [follow_aborted] at hread
              cases hread
            · rename_i expires hexpires
              rw [hexpires] at hentry
              simp only [follow_answered] at hread hentry
              cases hread
              simp [State.fillItem, State.setItem, State.held?, PerKind.modify]
                at hentry
              rw [← hentry, hvisible]
  | live kind =>
      simp only [serve_eq, Cache.start, hmode, if_true, startAll] at hread hentry
      split at hread
      · rename_i items hlive
        rw [hlive] at hentry
        simp only [follow_answered] at hread hentry
        cases hread
        obtain ⟨held, hheld, hfresh⟩ := Option.bind_eq_some_iff.mp hlive
        obtain rfl : held = entry := Option.some.inj (hheld.symm.trans hentry)
        exact Entry.value_of_fresh? hfresh
      · rename_i hlive
        rw [hlive] at hentry
        simp only [follow_asking] at hread hentry
        cases hreply : (desk.cluster.serve handle (.all kind)).1 with
        | error error =>
            simp only [hreply, resume, follow_answered] at hread
            cases hread
        | ok items =>
            simp only [hreply, resume, withExpiry] at hread hentry
            split at hread
            · rw [follow_aborted] at hread
              cases hread
            · rename_i expires hexpires
              rw [hexpires] at hentry
              simp only [follow_answered] at hread hentry
              cases hread
              simp [State.fillLive, State.held?] at hentry
              rw [← hentry]

/-! ## The moment that a slot tells -/

/-- The backend has evolved from what was seen, and the entry of the slot tells
a moment in between. -/
structure Tracks (handle index : Nat) (realm : Realm) (file : Bool) (slot : Slot)
    (seen ledger : Ledger) (desk : Desk) : Prop where
  handle_eq : ∃ closed,
    desk.cluster.handles[handle]? = some ⟨index, realm, closed⟩
  holds : desk.cluster.Holds index file ledger
  evolves : seen.Evolves ledger
  told : ∀ entry, desk.state.held? slot = some entry →
    ∃ told : Ledger, seen.Evolves told ∧ told.Evolves ledger ∧
      told.answer realm slot = entry.value

variable {index : Nat} {realm : Realm} {file : Bool} {seen ledger : Ledger}

theorem tracks_start {cluster : Cluster} {closed : Bool}
    (hhandle : cluster.handles[handle]? = some ⟨index, realm, closed⟩)
    (hholds : cluster.Holds index file ledger) (slot : Slot) :
    Tracks handle index realm file slot ledger ledger ⟨0, .start, cluster⟩ where
  handle_eq := ⟨closed, hhandle⟩
  holds := hholds
  evolves := .refl ledger
  told := fun entry hentry =>
    (State.all_start (p := fun _ _ => False) slot entry hentry).elim

/-- The backend goes on behind the cache. -/
theorem Tracks.aside (h : Tracks handle index realm file slot seen ledger desk)
    {cluster : Cluster} {next : Ledger}
    (hhandle : ∃ closed,
      cluster.handles[handle]? = some ⟨index, realm, closed⟩)
    (hholds : cluster.Holds index file next) (hnext : ledger.Evolves next) :
    Tracks handle index realm file slot seen next { desk with cluster } where
  handle_eq := hhandle
  holds := hholds
  evolves := h.evolves.trans hnext
  told := by
    intro entry hentry
    obtain ⟨told, hseen, hlater, hvalue⟩ := h.told entry hentry
    exact ⟨told, hseen, hlater.trans hnext, hvalue⟩

/-- After a call the slot has its old entry, or what the backend then holds. -/
theorem Tracks.own (h : Tracks handle index realm file slot seen ledger desk)
    (mode : Mode) (clock : Nat → Instant) {call : Call}
    (hkept : call.Kept file) (hinit : ∀ data, call ≠ .init data) :
    ∃ next, ledger.Evolves next ∧
      Tracks handle index realm file slot seen next
        (desk.serve mode handle clock call).2 := by
  obtain ⟨closed, hhandle⟩ := h.handle_eq
  obtain ⟨next, hholds, hnext⟩ := h.holds.serve_evolves handle hkept hinit
  have hbacks : desk.cluster.Backs handle file :=
    ⟨index, realm, closed, ledger, hhandle, h.holds⟩
  have hafter := h.aside (Cluster.exists_handle_serve hhandle handle call)
    hholds hnext
  refine ⟨next, hnext, ?_⟩
  have hall : (desk.serve mode handle clock call).2.state.All fun other entry =>
      other = slot → ∃ told : Ledger, seen.Evolves told ∧ told.Evolves next ∧
        told.answer realm other = entry.value := by
    refine serve_all hbacks hkept ?_ ?_
    · rintro other entry hentry rfl
      exact hafter.told entry hentry
    · rintro other value expires n hread - rfl
      obtain ⟨after, hopen⟩ := hafter.handle_eq
      exact ⟨next, hafter.evolves, .refl next, hholds.answer_eq hopen hread⟩
  exact
    { handle_eq := by
        rw [serve_cluster]
        exact hafter.handle_eq
      holds := by
        rw [serve_cluster]
        exact hafter.holds
      evolves := hafter.evolves
      told := fun entry hentry => hall slot entry hentry rfl }

theorem Tracks.take (h : Tracks handle index realm file slot seen ledger desk)
    (mode : Mode) (clock : Nat → Instant) {turn : Turn}
    (hsuits : turn.Suits file) :
    ∃ next, Tracks handle index realm file slot seen next
      (desk.take mode handle clock turn) := by
  cases turn with
  | own call =>
      obtain ⟨next, -, hnext⟩ := h.own mode clock hsuits.1 hsuits.2
      exact ⟨next, hnext⟩
  | past access =>
      obtain ⟨closed, hhandle⟩ := h.handle_eq
      obtain ⟨next, hholds, hnext⟩ := h.holds.access hsuits
      exact ⟨next,
        h.aside (Cluster.exists_handle_access hhandle access) hholds hnext⟩

theorem Tracks.run (h : Tracks handle index realm file slot seen ledger desk)
    (mode : Mode) (clock : Nat → Instant) {turns : List Turn}
    (hsuits : ∀ turn ∈ turns, turn.Suits file) :
    ∃ next, Tracks handle index realm file slot seen next
      (desk.run mode handle clock turns) := by
  induction turns generalizing ledger desk with
  | nil => exact ⟨ledger, h⟩
  | cons turn rest ih =>
      obtain ⟨hturn, hrest⟩ := List.forall_mem_cons.mp hsuits
      obtain ⟨next, hnext⟩ := h.take mode clock hturn
      exact ih hnext hrest

/-- A read tells a moment no earlier than what was seen, and the slot tells no
earlier one after it. -/
theorem Tracks.read (hmode : mode.isEnabled = true)
    (h : Tracks handle index realm file slot seen ledger desk)
    {value : slot.call.Answer}
    (hread : (desk.serve mode handle clock slot.call).1 = some (.ok value)) :
    ∃ told next, seen.Evolves told ∧ told.answer realm slot = value ∧
      Tracks handle index realm file slot told next
        (desk.serve mode handle clock slot.call).2 := by
  have hkept : slot.call.Kept file := by
    cases slot <;> exact ⟨trivial, nofun⟩
  have hinit : ∀ data, slot.call ≠ .init data := by
    cases slot <;> exact nofun
  have htold : ∃ told : Ledger, seen.Evolves told ∧ told.Evolves ledger ∧
      told.answer realm slot = value := by
    rcases read_cases hread with ⟨entry, hentry, hfresh⟩ | hreply
    · rw [← Entry.value_of_fresh? hfresh]
      exact h.told entry hentry
    · obtain ⟨closed, hhandle⟩ := h.handle_eq
      exact ⟨ledger, h.evolves, .refl ledger, h.holds.answer_eq hhandle hreply⟩
  obtain ⟨told, hseen, hlater, hvalue⟩ := htold
  obtain ⟨next, hnext, hafter⟩ := h.own mode clock hkept hinit
  refine ⟨told, next, hseen, hvalue, hafter.handle_eq, hafter.holds,
    hlater.trans hnext, fun entry hentry => ?_⟩
  refine ⟨told, .refl told, hlater.trans hnext, ?_⟩
  rw [value_of_read hmode hread hentry, hvalue]

theorem Tracks.read_later (hmode : mode.isEnabled = true)
    (h : Tracks handle index realm file slot seen ledger desk)
    {turns : List Turn} (hsuits : ∀ turn ∈ turns, turn.Suits file)
    {value : slot.call.Answer}
    (hread : ((desk.run mode handle clock turns).serve mode handle clock
      slot.call).1 = some (.ok value)) :
    ∃ told next, seen.Evolves told ∧ told.answer realm slot = value ∧
      Tracks handle index realm file slot told next
        ((desk.run mode handle clock turns).serve mode handle clock
          slot.call).2 := by
  obtain ⟨ledger, hreached⟩ := h.run mode clock hsuits
  exact hreached.read hmode hread

/-! ## Versions -/

/-- One get after another gives the same item or one of a greater version, and
surely the latter when a get in between gave none. -/
theorem version_le_of_gets {cluster : Cluster} (hmode : mode.isEnabled = true)
    (hbacks : cluster.Backs handle file) {before between : List Turn}
    (hbefore : ∀ turn ∈ before, turn.Suits file)
    (hbetween : ∀ turn ∈ between, turn.Suits file) {kind : Kind} {key : String}
    {first last : Item} {start after : Desk}
    (hstart : run mode handle clock ⟨0, .start, cluster⟩ before = start)
    (hfirst : start.serve mode handle clock (.get kind key) =
      (some (.ok (some first)), after))
    (hlast : ((run mode handle clock after between).serve mode handle clock
      (.get kind key)).1 = some (.ok (some last))) :
    first.version ≤ last.version ∧
      (first.version = last.version → first = last) ∧
      ∀ past rest, between = past ++ .own (.get kind key) :: rest →
        ((run mode handle clock after past).serve mode handle clock
          (.get kind key)).1 = some (.ok none) →
        first.version < last.version := by
  obtain ⟨index, realm, closed, initial, hhandle, hholds⟩ := hbacks
  obtain ⟨hfound, rfl⟩ := Prod.ext_iff.mp hfirst
  subst hstart
  obtain ⟨seen, ledger, -, hseen, hafter⟩ :=
    (tracks_start hhandle hholds (.item kind key)).read_later hmode hbefore hfound
  obtain ⟨hstored, hlive⟩ := Ledger.stored?_of_get? hseen
  have hlater : ∀ told : Ledger, seen.Evolves told →
      Item.Evolves (some first) (told.stored? realm kind key) := by
    intro told h
    rw [← hstored]
    exact h realm kind key
  obtain ⟨told, -, htold, hanswer, -⟩ :=
    hafter.read_later hmode hbetween hlast
  have hevolves := hlater told htold
  rw [(Ledger.stored?_of_get? hanswer).1] at hevolves
  refine ⟨hevolves.version_le, hevolves.eq_of_version, ?_⟩
  rintro past rest rfl hnone
  obtain ⟨hpast, hturns⟩ := List.forall_mem_append.mp hbetween
  obtain ⟨-, hrest⟩ := List.forall_mem_cons.mp hturns
  obtain ⟨gone, _, hgone, hhidden, hleft⟩ :=
    hafter.read_later hmode hpast hnone
  rw [run_append] at hlast
  obtain ⟨told, -, htold, hanswer, -⟩ := hleft.read_later hmode hrest hlast
  have hback := htold realm kind key
  rw [(Ledger.stored?_of_get? hanswer).1] at hback
  exact (hlater gone hgone).version_lt_of_hidden hback hlive hhidden

/-- The key is deleted past the cache, read, and written anew. -/
def revival : List Turn :=
  [.past (.serve 1 (.delete .features "a" 2)), .own (.get .features "a"),
    .past (.serve 1 (.upsert .features (.live "a" 3 .null)))]

/-- Every call reads the clock at least once, so each entry has expired when
the next call comes. -/
theorem version_lt_of_revival :
    ∃ start after : Desk,
      run (.ttl 5) 0 (fun n => ⟨9 * n⟩)
          ⟨0, .start, .pair⟩ [.own (.upsert .features (.live "a" 1 .null))] = start ∧
      start.serve (.ttl 5) 0 (fun n => ⟨9 * n⟩) (.get .features "a") =
        (some (.ok (some (.live "a" 1 .null))), after) ∧
      ((run (.ttl 5) 0 (fun n => ⟨9 * n⟩) after revival).serve (.ttl 5) 0
        (fun n => ⟨9 * n⟩) (.get .features "a")).1 =
          some (.ok (some (.live "a" 3 .null))) ∧
      (Item.live "a" 1 .null).version < (Item.live "a" 3 .null).version := by
  have hkept : ∀ item, (Call.upsert .features item).Kept false :=
    fun _ => ⟨trivial, nofun⟩
  have hget : (Call.get .features "a").Kept false := ⟨trivial, nofun⟩
  have hbefore : ∀ turn ∈ [Turn.own (.upsert .features (.live "a" 1 .null))],
      turn.Suits false := by
    simpa [Turn.Suits] using hkept _
  have hbetween : ∀ turn ∈ revival, turn.Suits false := by
    simpa [revival, Turn.Suits, Cluster.Access.Suits, Call.delete] using
      ⟨hkept _, hget, hkept _⟩
  refine ⟨_, _, rfl, rfl, rfl, ?_⟩
  have h := @version_le_of_gets (.ttl 5) 0 (fun n => ⟨9 * n⟩) false _ rfl
    Cluster.backs_pair _ _ hbefore hbetween .features "a" _
    (.live "a" 3 .null) _ _ rfl rfl rfl
  exact h.2.2 [.past (.serve 1 (.delete .features "a" 2))] _ rfl rfl

end Desk

end Cache

end VersionedFlags
