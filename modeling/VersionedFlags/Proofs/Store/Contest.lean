import VersionedFlags.Proofs.Store.Linearization
import VersionedFlags.Proofs.Store.Medium

/-!
# The highest version wins

Upserts and deletes of one key contend for it through any number of handles, and
their advisory reads and conditional writes may come in any order.  They come to
what a race in the order of their answers comes to: the versions of the items
that get stored rise, and the last of them is the greatest of all.  Which
version that is does not depend on the order.
-/

namespace VersionedFlags

/-! ## Greatest versions -/

instance lawfulOrderMaxUInt64 : Std.LawfulOrderMax UInt64 where
  max_le_iff a b c := by
    have hmax : max a b = if a ≤ b then b else a := rfl
    simp only [hmax, UInt64.le_iff_toNat_le]
    split <;> omega
  max_eq_or a b := by
    have hmax : max a b = if a ≤ b then b else a := rfl
    rw [hmax]
    split
    · exact .inr rfl
    · exact .inl rfl

/-- Versions below others that stay may be left out. -/
theorem max?_eq_of_bounded {few all : List UInt64} (hsub : few ⊆ all)
    (hbounded : ∀ version ∈ all, ∃ top ∈ few, version ≤ top) :
    all.max? = few.max? := by
  cases hmax : few.max? with
  | none =>
      have hnil : few = [] := List.max?_eq_none_iff.mp hmax
      subst hnil
      rw [List.max?_eq_none_iff, List.eq_nil_iff_forall_not_mem]
      intro version hm
      obtain ⟨top, htop, -⟩ := hbounded version hm
      cases htop
  | some greatest =>
      obtain ⟨hm, hgreatest⟩ := List.max?_eq_some_iff.mp hmax
      refine List.max?_eq_some_iff.mpr ⟨hsub hm, fun version hversion => ?_⟩
      obtain ⟨top, htop, hle⟩ := hbounded version hversion
      exact UInt64.le_trans hle (hgreatest top htop)

theorem max?_eq_of_perm {left right : List UInt64} (h : left.Perm right) :
    left.max? = right.max? :=
  max?_eq_of_bounded h.symm.subset fun version hm =>
    ⟨version, h.subset hm, UInt64.le_refl version⟩

/-! ## Races -/

/-- The items that get stored when one after the other is upserted over a stored
version. -/
def race (stored : Option UInt64) : List Item → List Item
  | [] => []
  | item :: rest =>
      if item.supersedes stored then item :: race (some item.version) rest
      else race stored rest

theorem race_sublist (stored : Option UInt64) (items : List Item) :
    (race stored items).Sublist items := by
  induction items generalizing stored with
  | nil => exact List.Sublist.slnil
  | cons item rest ih =>
      simp only [race]
      split
      · exact (ih _).cons_cons item
      · exact (ih _).cons item

theorem race_rising (stored : Option UInt64) (items : List Item) :
    (stored.toList ++ (race stored items).map Item.version).Pairwise (· < ·) := by
  induction items generalizing stored with
  | nil => cases stored <;> simp [race]
  | cons item rest ih =>
      simp only [race]
      split
      · rename_i hnewer
        have hrest := ih (some item.version)
        cases stored with
        | none => exact hrest
        | some version =>
            have hlt : version < item.version := by
              simpa [Item.supersedes] using hnewer
            refine List.pairwise_cons.mpr ⟨fun other hm => ?_, hrest⟩
            rcases List.mem_cons.mp hm with rfl | hm
            · exact hlt
            · exact UInt64.lt_trans hlt
                ((List.pairwise_cons.mp hrest).1 other hm)
      · exact ih stored

theorem last_race (stored : Option UInt64) (items : List Item) :
    (stored.toList ++ (race stored items).map Item.version).getLast? =
      (stored.toList ++ items.map Item.version).max? := by
  induction items generalizing stored with
  | nil => cases stored <;> simp [race]
  | cons item rest ih =>
      simp only [race]
      split
      · rename_i hnewer
        have hlast := ih (some item.version)
        cases stored with
        | none => exact hlast
        | some version =>
            have hle : version ≤ item.version :=
              UInt64.le_of_lt (by simpa [Item.supersedes] using hnewer)
            have hmax : (version :: item.version :: rest.map Item.version).max? =
                (item.version :: rest.map Item.version).max? := by
              refine max?_eq_of_bounded (List.subset_cons_self _ _) ?_
              intro other hm
              rcases List.mem_cons.mp hm with rfl | hm
              · exact ⟨item.version, List.mem_cons_self, hle⟩
              · exact ⟨other, hm, UInt64.le_refl other⟩
            simp only [Option.toList_some, List.singleton_append, List.map_cons,
              List.getLast?_cons_cons] at hlast ⊢
            rw [hlast, hmax]
      · rename_i hnewer
        cases stored with
        | none => exact absurd rfl hnewer
        | some version =>
            have hle : item.version ≤ version := by
              simpa [Item.supersedes, UInt64.not_lt] using hnewer
            refine (ih (some version)).trans (max?_eq_of_bounded ?_ ?_).symm
            · simp
            · simp only [Option.toList_some, List.singleton_append,
                List.map_cons, List.mem_cons]
              rintro other (rfl | rfl | hm)
              · exact ⟨other, .inl rfl, UInt64.le_refl other⟩
              · exact ⟨version, .inl rfl, hle⟩
              · exact ⟨other, .inr hm, UInt64.le_refl other⟩

/-- Either nothing gets stored, since the stored version is the greatest, or
the last item that does has the greatest version, and it alone. -/
theorem race_cases (stored : Option UInt64) (items : List Item) :
    race stored items = [] ∧
        (stored.toList ++ items.map Item.version).max? = stored ∨
      ∃ before item, race stored items = before ++ [item] ∧
        (stored.toList ++ items.map Item.version).max? = some item.version ∧
        stored ≠ some item.version ∧
        ∀ other ∈ before, other.version ≠ item.version := by
  have hrising := race_rising stored items
  rw [← last_race]
  rcases List.eq_nil_or_concat (race stored items) with hnil | ⟨before, item, heq⟩
  · rw [hnil]
    exact .inl ⟨rfl, by cases stored <;> rfl⟩
  · rw [List.concat_eq_append] at heq
    rw [heq, List.map_append, ← List.append_assoc] at hrising ⊢
    obtain ⟨-, -, hbelow⟩ := List.pairwise_append.mp hrising
    have hne : ∀ version ∈ stored.toList ++ before.map Item.version,
        version ≠ item.version := fun version hm =>
      UInt64.ne_of_lt (hbelow version hm item.version (by simp))
    refine .inr ⟨before, item, rfl, by simp, ?_, ?_⟩
    · rintro rfl
      exact hne item.version (by simp) rfl
    · intro other hm
      exact hne other.version
        (List.mem_append_right _ (List.mem_map_of_mem hm))

/-! ## What is stored under a key -/

/-- What a medium stores for an item: the item itself, or its row in a file. -/
inductive Record where
  | item (item : Item)
  | row (row : Sqlite.Row)
  deriving DecidableEq, Repr

def Record.ofItem (file : Bool) (realm : Realm) (kind : Kind) (item : Item) :
    Record :=
  if file then
    .row (Sqlite.Tables.rowOf (realm.scope kind) item item.version.toNat)
  else .item item

namespace Medium

/-- What is stored under a key, be it for a tombstone. -/
def record? (medium : Medium) (realm : Realm) (kind : Kind) (key : String) :
    Option Record :=
  match medium with
  | .memory database => (database.stored? realm kind key).map .item
  | .sqlite .damaged => none
  | .sqlite (.intact tables) =>
      match tables.items with
      | .own rows =>
          (Sqlite.Tables.row? rows (realm.scope kind) key).map .row
      | .absent | .foreign => none

variable {medium : Medium}

theorem Sound.record?_put (h : medium.Sound) (realm : Realm) (kind : Kind)
    (item : Item) :
    (medium.put realm kind item).record? realm kind item.key =
      some (.ofItem medium.mindsClosing realm kind item) := by
  match medium, h with
  | .memory database, _ =>
      have hstored := Ledger.stored?_put database.ledger realm realm kind kind
        item item.key
      rw [if_pos ⟨rfl, rfl, rfl⟩, ← MemoryDatabase.ledger_put] at hstored
      exact congrArg (Option.map Record.item) hstored
  | .sqlite (.intact tables), ⟨rows, hitems, _⟩ =>
      simp only [record?, Medium.put, Sqlite.Tables.put, hitems,
        Sqlite.Tables.row?_stow]
      rw [if_pos ⟨rfl, rfl⟩]
      rfl

theorem upsertAtOnce_eq {stored : Option UInt64} {realm : Realm}
    {kind : Kind} {item : Item}
    (hversion : medium.version? realm kind item.key = .ok stored)
    (hfits : medium.mindsClosing = true → item.version.toNat < 2 ^ 63) :
    medium.upsertAtOnce realm kind item =
      if item.supersedes stored then (.ok .applied, medium.put realm kind item)
      else (.ok .superseded, medium) := by
  have hroom : ¬ (medium.mindsClosing = true ∧ 2 ^ 63 ≤ item.version.toNat) :=
    fun ⟨hfile, hlarge⟩ => Nat.not_lt.mpr hlarge (hfits hfile)
  rw [upsertAtOnce, if_neg hroom, hversion]

end Medium

/-! ## Contests -/

/-- A key of a kind, in a realm on a medium. -/
structure Place where
  medium : Nat
  realm : Realm
  kind : Kind
  key : String
  deriving DecidableEq, Repr

namespace Schedule

def Request.item? : Request → Option Item
  | ⟨_, .serve _ (.upsert _ item)⟩ => some item
  | _ => none

def Answer.applied? : Answer → Option Item
  | ⟨⟨_, .serve _ (.upsert _ item)⟩, .ok .applied⟩ => some item
  | _ => none

/-- The items of the upserts in a run. -/
def written (steps : List Step) : List Item :=
  (steps.filterMap Step.request?).filterMap Request.item?

/-- The items that were stored, in the order in which they were. -/
def applied (log : List Answer) : List Item := log.filterMap Answer.applied?

/-- An upsert or delete of the key at a place, through an open handle and with a
version that the medium has room for. -/
def Request.Contends (request : Request) (place : Place) (cluster : Cluster)
    (file : Bool) : Prop :=
  ∃ handle item, request.operation = .serve handle (.upsert place.kind item) ∧
    item.key = place.key ∧
    cluster.handles[handle]? = some ⟨place.medium, place.realm, false⟩ ∧
    (file = true → item.version.toNat < 2 ^ 63)

/-- The answer to an upsert whose item was stored or came too late. -/
def Answer.Settled (answer : Answer) : Prop :=
  ∃ name handle kind item outcome,
    answer = ⟨⟨name, .serve handle (.upsert kind item)⟩, .ok outcome⟩

/-- A run of upserts and deletes of one key, all of which have ended. -/
structure Contest (place : Place) (cluster : Cluster) (file : Bool)
    (steps : List Step) (final : State) : Prop where
  run : (State.start cluster).run? steps = some final
  ended : final.waiting = []
  contends : ∀ request ∈ steps.filterMap Step.request?,
    request.Contends place cluster file

/-- What upserts at once leave behind at a place that they contend for. -/
structure Raced (place : Place) (before : Medium) (stored : Option UInt64)
    (items : List Item) (log : List Answer) (after : Medium) : Prop where
  applied_eq : applied log = race stored items
  version_eq : after.version? place.realm place.kind place.key =
    .ok (stored.toList ++ (race stored items).map Item.version).getLast?
  record_eq : after.record? place.realm place.kind place.key =
    (((race stored items).getLast?.map
      (.ofItem before.mindsClosing place.realm place.kind)).or
        (before.record? place.realm place.kind place.key))
  settled : ∀ answer ∈ log, answer.Settled

variable {place : Place} {cluster final : Cluster} {medium : Medium}
  {requests : List Request} {log : List Answer} {stored : Option UInt64}

theorem Raced.cons_applied {items : List Item} {after : Medium}
    (hsound : medium.Sound) (name handle : Nat) {item : Item}
    (hkey : item.key = place.key) (hnewer : item.supersedes stored = true)
    (h : Raced place (medium.put place.realm place.kind item)
      (some item.version) items log after) :
    Raced place medium stored (item :: items)
      (⟨⟨name, .serve handle (.upsert place.kind item)⟩, .ok .applied⟩ :: log)
      after := by
  have hrace : race stored (item :: items) =
      item :: race (some item.version) items := by
    simp [race, hnewer]
  refine ⟨?_, ?_, ?_, ?_⟩
  · rw [hrace, ← h.applied_eq]
    rfl
  · rw [hrace, h.version_eq]
    cases stored <;> simp [List.getLast?_cons_cons]
  · have hput := hsound.record?_put place.realm place.kind item
    rw [hkey] at hput
    rw [hrace, h.record_eq, hput, List.getLast?_cons, Medium.mindsClosing_put]
    cases (race (some item.version) items).getLast? <;> rfl
  · intro answer hm
    rcases List.mem_cons.mp hm with rfl | hm
    · exact ⟨name, handle, place.kind, item, .applied, rfl⟩
    · exact h.settled answer hm

theorem Raced.cons_superseded {items : List Item} {after : Medium}
    (name handle : Nat) {item : Item} (holder : item.supersedes stored = false)
    (h : Raced place medium stored items log after) :
    Raced place medium stored (item :: items)
      (⟨⟨name, .serve handle (.upsert place.kind item)⟩, .ok .superseded⟩ ::
        log) after := by
  have hrace : race stored (item :: items) = race stored items := by
    simp [race, holder]
  refine ⟨?_, ?_, ?_, ?_⟩
  · rw [hrace, ← h.applied_eq]
    rfl
  · rw [hrace, h.version_eq]
  · rw [hrace, h.record_eq]
  · intro answer hm
    rcases List.mem_cons.mp hm with rfl | hm
    · exact ⟨name, handle, place.kind, item, .superseded, rfl⟩
    · exact h.settled answer hm

theorem exists_raced (hmedium : cluster.media[place.medium]? = some medium)
    (hsound : medium.Sound)
    (hversion : medium.version? place.realm place.kind place.key = .ok stored)
    (hcontends : ∀ request ∈ requests,
      request.Contends place cluster medium.mindsClosing)
    (hreplay : replay cluster requests = (log, final)) :
    ∃ after, final.media[place.medium]? = some after ∧
      Raced place medium stored (requests.filterMap Request.item?) log after := by
  induction requests generalizing cluster medium stored log with
  | nil =>
      cases hreplay
      refine ⟨medium, hmedium, rfl, ?_, rfl, by simp⟩
      rw [hversion]
      cases stored <;> rfl
  | cons request rest ih =>
      obtain ⟨handle, item, hoperation, hkey, hhandle, hfits⟩ :=
        hcontends request List.mem_cons_self
      obtain ⟨name, operation⟩ := request
      simp only at hoperation
      subst hoperation
      have hopen := Cluster.openHandle_eq hhandle hmedium
      have honce := Medium.upsertAtOnce_eq (hkey ▸ hversion) hfits
      cases hnewer : item.supersedes stored with
      | true =>
          simp only [hnewer, if_true] at honce
          simp only [replay, Operation.atOnce, Cluster.upsertAtOnce, hopen,
            honce, Prod.mk.injEq] at hreplay
          obtain ⟨rfl, hfinal⟩ := hreplay
          have hlt := (List.getElem?_eq_some_iff.mp hmedium).1
          have hput := hsound.version?_put place.realm place.realm place.kind
            place.kind item item.key
          rw [if_pos ⟨rfl, rfl, rfl⟩, hkey] at hput
          obtain ⟨after, hafter, hraced⟩ :=
            ih (by simp [Cluster.setMedium, hlt])
              (hsound.put place.realm place.kind hfits) hput
              (fun request hm => by
                rw [Medium.mindsClosing_put]
                exact hcontends request (List.mem_cons_of_mem _ hm))
              (Prod.ext rfl hfinal)
          exact ⟨after, hafter, hraced.cons_applied hsound name handle hkey hnewer⟩
      | false =>
          simp only [hnewer, Bool.false_eq_true, if_false] at honce
          simp only [replay, Operation.atOnce, Cluster.upsertAtOnce, hopen,
            honce, Cluster.setMedium_self hmedium, Prod.mk.injEq] at hreplay
          obtain ⟨rfl, hfinal⟩ := hreplay
          obtain ⟨after, hafter, hraced⟩ := ih hmedium hsound hversion
            (fun request hm => hcontends request (List.mem_cons_of_mem _ hm))
            (Prod.ext rfl hfinal)
          exact ⟨after, hafter, hraced.cons_superseded name handle hnewer⟩

/-! ## Who wins -/

/-- The versions that contend: the stored one, if any, and those of the items. -/
def contending (stored : Option UInt64) (items : List Item) : List UInt64 :=
  stored.toList ++ items.map Item.version

variable {items : List Item} {before after : Medium}

theorem Raced.record_cases (h : Raced place before stored items log after) :
    (contending stored items).max? = stored ∧
        after.record? place.realm place.kind place.key =
          before.record? place.realm place.kind place.key ∨
      ∃ item ∈ items, (contending stored items).max? = some item.version ∧
        stored ≠ some item.version ∧
        (applied log).filter (fun other => other.version = item.version) =
          [item] ∧
        after.record? place.realm place.kind place.key =
          some (.ofItem before.mindsClosing place.realm place.kind item) := by
  rcases race_cases stored items with ⟨hnil, hmax⟩ | ⟨earlier, item, heq, hmax,
    hstored, hearlier⟩
  · exact .inl ⟨hmax, by rw [h.record_eq, hnil]; rfl⟩
  · have hm : item ∈ items :=
      (race_sublist stored items).subset (by simp [heq])
    have hnone : earlier.filter (fun other => other.version = item.version) =
        [] := by
      simpa [List.filter_eq_nil_iff] using hearlier
    refine .inr ⟨item, hm, hmax, hstored, ?_, ?_⟩
    · simp [h.applied_eq, heq, hnone]
    · simp [h.record_eq, heq]

theorem max?_contending (stored : Option UInt64) {items others : List Item}
    (h : items.Perm others) :
    (contending stored items).max? = (contending stored others).max? :=
  max?_eq_of_perm ((h.map Item.version).append_left stored.toList)

theorem Raced.version_eq_max? (h : Raced place before stored items log after) :
    after.version? place.realm place.kind place.key =
      .ok (contending stored items).max? := by
  rw [h.version_eq, last_race]
  rfl

/-- Two races of the same items between which no version is equal. -/
theorem Raced.record_eq_of_perm {items' : List Item} {log' : List Answer}
    {after' : Medium} (h : Raced place before stored items log after)
    (h' : Raced place before stored items' log' after')
    (hperm : items'.Perm items) (hdistinct : (contending stored items).Nodup) :
    after'.record? place.realm place.kind place.key =
      after.record? place.realm place.kind place.key := by
  have hmax := max?_contending stored hperm
  rcases h'.record_cases with ⟨hsame', hrecord'⟩ | ⟨item', hm', htop', hne', -,
    hrecord'⟩
  · rcases h.record_cases with ⟨-, hrecord⟩ | ⟨item, -, htop, hne, -⟩
    · rw [hrecord', hrecord]
    · exact absurd (hsame'.symm.trans (hmax.trans htop)) hne
  · rcases h.record_cases with ⟨hsame, -⟩ | ⟨item, hm, htop, -, -, hrecord⟩
    · exact absurd (hsame.symm.trans (hmax.symm.trans htop')) hne'
    · have hversion : item'.version = item.version :=
        Option.some.inj (htop'.symm.trans (hmax.trans htop))
      have hitem : item' = item := List.inj_on_of_nodup_map
        (List.Nodup.of_append_right hdistinct) (hperm.subset hm') hm hversion
      rw [hrecord', hrecord, hitem]

theorem Contest.exists_raced {steps : List Step} {final : State}
    (hsound : cluster.Sound)
    (hmedium : cluster.media[place.medium]? = some medium)
    (hversion : medium.version? place.realm place.kind place.key = .ok stored)
    (h : Contest place cluster medium.mindsClosing steps final) :
    ∃ after items, final.cluster.media[place.medium]? = some after ∧
      Raced place medium stored items final.log after ∧
      items.Perm (written steps) ∧
      ∀ request ∈ steps.filterMap Step.request?,
        ∃ answer ∈ final.log, answer.request = request ∧ answer.Settled := by
  have hlinear := (linear_start hsound).run h.run
  have hperm : (steps.filterMap Step.request?).Perm
      (final.log.map Answer.request) := by
    simpa [State.requests, h.ended] using hlinear.perm
  obtain ⟨after, hafter, hraced⟩ := Schedule.exists_raced hmedium
    (hsound medium (List.mem_of_getElem? hmedium)) hversion
    (fun request hm => h.contends request (hperm.mem_iff.mpr hm))
    hlinear.replayed
  refine ⟨after, _, hafter, hraced, (hperm.filterMap Request.item?).symm, ?_⟩
  intro request hm
  obtain ⟨answer, hanswer, rfl⟩ := List.mem_map.mp (hperm.mem_iff.mp hm)
  exact ⟨answer, hanswer, rfl, hraced.settled answer hanswer⟩

/-- However upserts and deletes of one key interleave, each of them is stored or
superseded, the stored version ends as the greatest that contended, the versions
that were stored rise, and what is stored at the end is what was there at first
or the one item of that version that was stored.  Another order of the same
writes ends with the same version, and with the same record if no two versions
are equal. -/
theorem highest_version_wins {steps : List Step} {final : State}
    (hsound : cluster.Sound)
    (hmedium : cluster.media[place.medium]? = some medium)
    (h : Contest place cluster medium.mindsClosing steps final) :
    ∃ stored last,
      medium.version? place.realm place.kind place.key = .ok stored ∧
      final.cluster.media[place.medium]? = some last ∧
      (∀ request ∈ steps.filterMap Step.request?,
        ∃ answer ∈ final.log, answer.request = request ∧ answer.Settled) ∧
      last.version? place.realm place.kind place.key =
        .ok (contending stored (written steps)).max? ∧
      (contending stored (applied final.log)).Pairwise (· < ·) ∧
      ((contending stored (written steps)).max? = stored →
        last.record? place.realm place.kind place.key =
          medium.record? place.realm place.kind place.key) ∧
      ((contending stored (written steps)).max? ≠ stored →
        ∃ item,
          (contending stored (written steps)).max? = some item.version ∧
          (applied final.log).filter
            (fun other => other.version = item.version) = [item] ∧
          last.record? place.realm place.kind place.key =
            some (.ofItem medium.mindsClosing place.realm place.kind item)) ∧
      ∀ (others : List Step) (final' : State),
        Contest place cluster medium.mindsClosing others final' →
        (written others).Perm (written steps) →
        ∃ last', final'.cluster.media[place.medium]? = some last' ∧
          last'.version? place.realm place.kind place.key =
            last.version? place.realm place.kind place.key ∧
          ((contending stored (written steps)).Nodup →
            last'.record? place.realm place.kind place.key =
              last.record? place.realm place.kind place.key) := by
  obtain ⟨stored, hversion, -⟩ := (hsound medium
    (List.mem_of_getElem? hmedium)).version? place.realm place.kind place.key
  obtain ⟨last, items, hlast, hraced, hitems, hanswers⟩ :=
    h.exists_raced hsound hmedium hversion
  have hmax := max?_contending stored hitems
  refine ⟨stored, last, hversion, hlast, hanswers, ?_, ?_, ?_, ?_, ?_⟩
  · rw [hraced.version_eq_max?, hmax]
  · rw [contending, hraced.applied_eq]
    exact race_rising stored items
  · intro hstored
    rcases hraced.record_cases with ⟨-, hrecord⟩ | ⟨item, -, htop, hne, -⟩
    · exact hrecord
    · exact absurd (hstored.symm.trans (hmax.symm.trans htop)) hne
  · intro hstored
    rcases hraced.record_cases with ⟨hsame, -⟩ | ⟨item, -, htop, -, hone, hrecord⟩
    · exact absurd (hmax.symm.trans hsame) hstored
    · exact ⟨item, hmax.symm.trans htop, hone, hrecord⟩
  · intro others final' h' hperm
    obtain ⟨last', items', hlast', hraced', hitems', -⟩ :=
      h'.exists_raced hsound hmedium hversion
    have hsame : items'.Perm items := (hitems'.trans hperm).trans hitems.symm
    refine ⟨last', hlast', ?_, fun hdistinct => ?_⟩
    · rw [hraced'.version_eq_max?, hraced.version_eq_max?,
        max?_contending stored hsame]
    · refine hraced.record_eq_of_perm hraced' hsame ?_
      exact (((hitems.map Item.version).append_left
        stored.toList).nodup_iff).mpr hdistinct

def contested : Place := ⟨0, .standard, .features, "a"⟩

/-- Two handles on a fresh database file. -/
def pair : Cluster :=
  ⟨[.sqlite (.intact .migrated)],
    [⟨0, .standard, false⟩, ⟨0, .standard, false⟩]⟩

/-- A deletion is made between the halves of an older upsert, and an upsert of
its own version comes too late. -/
def crossing : List Step :=
  [.enter ⟨0, .serve 0 (.upsert .features (.live "a" 2 .null))⟩,
    .enter ⟨1, .serve 1 (.delete .features "a" 3)⟩, .finish 1,
    .enter ⟨2, .serve 0 (.upsert .features (.live "a" 3 .null))⟩, .finish 0]

theorem deletion_wins_crossing :
    ∃ final last, pair.Sound ∧
      Contest contested pair true crossing final ∧
      final.cluster.media[0]? = some last ∧
      last.version? .standard .features "a" = .ok (some 3) ∧
      last.record? .standard .features "a" =
        some (.ofItem true .standard .features (.tombstone "a" 3)) := by
  have hsound : pair.Sound := by
    intro medium hm
    cases List.mem_singleton.mp hm
    exact ⟨[], rfl, by simp⟩
  have hcontest : ∃ final,
      Contest contested pair true crossing final ∧
        applied final.log = [.tombstone "a" 3] := by
    refine ⟨_, ⟨rfl, rfl, ?_⟩, rfl⟩
    intro request hm
    rcases List.mem_cons.mp hm with rfl | hm
    · exact ⟨0, _, rfl, rfl, rfl, fun _ => by decide⟩
    rcases List.mem_cons.mp hm with rfl | hm
    · exact ⟨1, _, rfl, rfl, rfl, fun _ => by decide⟩
    · cases List.mem_singleton.mp hm
      exact ⟨0, _, rfl, rfl, rfl, fun _ => by decide⟩
  obtain ⟨final, hcontest, happlied⟩ := hcontest
  have hmedium : pair.media[contested.medium]? =
      some (.sqlite (.intact .migrated)) := rfl
  obtain ⟨stored, last, hstored, hlast, -, hversion, -, -, hrecord, -⟩ :=
    highest_version_wins hsound hmedium hcontest
  cases hstored
  have hmax : (contending none (written crossing)).max? = some 3 := rfl
  obtain ⟨item, -, hone, hrecord⟩ := hrecord (by rw [hmax]; simp)
  have hitem : item = .tombstone "a" 3 := by
    have hm : item ∈ [Item.tombstone "a" 3] := by
      rw [← happlied]
      exact List.mem_of_mem_filter (hone ▸ List.mem_singleton_self item)
    exact List.mem_singleton.mp hm
  exact ⟨final, last, hsound, hcontest, hlast, hmax ▸ hversion, hitem ▸ hrecord⟩

end Schedule

end VersionedFlags
