import VersionedFlags.Conformance.Bench
import VersionedFlags.DataSet.Sample

/-!
# The conformance suite

Checks of the behaviour that every store shares.  A check passes if every call
that it needs succeeds and everything that it demands holds.  The checks of a
suite share a medium, which most of them clear first.
-/

namespace VersionedFlags

namespace Conformance

/-! ## Trials -/

abbrev Trial : Type → Type := OptionT Run

def demand (condition : Bool) : Trial Unit :=
  if condition then pure () else failure

def answer (store : Nat) (call : Call) : Trial call.Answer := OptionT.mk do
  match ← callStand store call with
  | some (.ok answer) => return some answer
  | _ => return none

def demandClosed (store : Nat) (call : Call) : Trial Unit := OptionT.mk do
  match ← callStand store call with
  | some (.error .closed) => return some ()
  | _ => return none

def openStore (name : Option String) (rivals : Option Rivals) : Trial Nat :=
  (openStand name rivals true : Run Nat)

def openBare : Trial Nat := (openStand none none false : Run Nat)

def clearAll : Trial Unit := (clearMedium : Run Unit)

def freshStore : Trial Nat := do
  clearAll
  openStore none none

/-! ## What checks demand -/

def demandInitialized (store : Nat) (expected : Bool) : Trial Unit := do
  demand ((← answer store .initialized) == expected)

def demandUpsert (store : Nat) (item : Item) (expected : Outcome) :
    Trial Unit := do
  demand ((← answer store (.upsert .features item)) == expected)

def demandVersion (store : Nat) (key : String) (version : UInt64) :
    Trial Unit := do
  demand ((← answer store (.get .features key)).map Item.version == some version)

def demandPresent (store : Nat) (kind : Kind) (key : String)
    (expected : Bool) : Trial Unit := do
  demand ((← answer store (.get kind key)).isSome == expected)

def demandCount (store : Nat) (kind : Kind) (expected : Nat) : Trial Unit := do
  demand ((← answer store (.all kind)).size == expected)

def demandListed (items : KeyMap Item) (present absent : List String) :
    Trial Unit :=
  demand (present.all items.contains && !absent.any items.contains)

/-! ## Data -/

def flagData (flags : List (String × UInt64)) : DataSet :=
  (DataSet.Builder.start.addAll .features
    (flags.map fun flag => sampleFlag flag.1 flag.2)).build

def baseData : DataSet :=
  ((DataSet.Builder.start.addAll .features
    [sampleFlag "foo" 10, sampleFlag "bar" 10]).add .segments
    (sampleSegment "seg" 10 ["u1"])).build

def initializedStore : Trial Nat := do
  let store ← freshStore
  answer store (.init baseData)
  return store

/-! ## Checks -/

def notInitializedBeforeInit : Trial Unit := do
  let store ← freshStore
  demandInitialized store false

def initializedAfterEmptyInit : Trial Unit := do
  let store ← freshStore
  answer store (.init .empty)
  demandInitialized store true

/-- A cached store may hold on to the answer that it is not initialized, so
this is checked without a cache only. -/
def initVisibleToOtherHandles : Trial Unit := do
  if (← get).mode.isEnabled then return
  let first ← freshStore
  let second ← openStore none none
  demandInitialized first false
  demandInitialized second false
  answer second (.init .empty)
  demandInitialized first true

def getAndAllAfterInit : Trial Unit := do
  let store ← initializedStore
  let some foo ← answer store (.get .features "foo") | failure
  demand (foo.version == 10)
  demand (foo.data.member? "key" == some (.string "foo"))
  demandPresent store .features "missing" false
  demandPresent store .segments "foo" false
  let flags ← answer store (.all .features)
  demand (flags.size == 2)
  demandListed flags ["foo", "bar"] []
  demandCount store .segments 1

def initReplacesPreviousData : Trial Unit := do
  let store ← initializedStore
  answer store (.init (flagData [("baz", 1)]))
  demandPresent store .features "foo" false
  demandPresent store .features "baz" true
  demandCount store .segments 0

def upsertRespectsVersions : Trial Unit := do
  let store ← initializedStore
  demandUpsert store (sampleFlag "foo" 11) .applied
  demandUpsert store (sampleFlag "foo" 9) .superseded
  demandUpsert store (sampleFlag "foo" 11) .superseded
  demandVersion store "foo" 11
  demandUpsert store (sampleFlag "new" 1) .applied
  demandCount store .features 3

def deleteKeepsTombstone : Trial Unit := do
  let store ← initializedStore
  demandUpsert store (.tombstone "foo" 11) .applied
  demandPresent store .features "foo" false
  demandListed (← answer store (.all .features)) [] ["foo"]
  demandUpsert store (sampleFlag "foo" 10) .superseded
  demandPresent store .features "foo" false
  demandUpsert store (sampleFlag "foo" 12) .applied
  demandPresent store .features "foo" true

/-- A bare competitor holds a flag at version one; the store under test is
interrupted by its writes of the given versions. -/
def race (versions : List UInt64) : Trial (Nat × Nat) := do
  clearAll
  let competitor ← openBare
  answer competitor (.init (flagData [("foo", 1)]))
  let items := versions.map (sampleFlag "foo")
  let store ← openStore none (some ⟨competitor, .features, items⟩)
  return (store, competitor)

def raceWithLowerVersion : Trial Unit := do
  let (store, competitor) ← race [2, 3, 4]
  demandUpsert store (sampleFlag "foo" 10) .applied
  demandVersion store "foo" 10
  demandVersion competitor "foo" 10

def raceWithHigherVersion : Trial Unit := do
  let (store, competitor) ← race [3]
  demandUpsert store (sampleFlag "foo" 2) .superseded
  demandVersion store "foo" 3
  demandVersion competitor "foo" 3

def realmsAreIndependent : Trial Unit := do
  if (← get).flaw == .realmsUnsupported then return
  clearAll
  let first ← openStore (some "aaa") none
  let second ← openStore (some "bbb") none
  demandInitialized first false
  demandInitialized second false
  answer first (.init (flagData [("flag-a", 1), ("flag-c", 1)]))
  demandInitialized first true
  demandInitialized second false
  answer second (.init (flagData [("flag-b", 1), ("flag-c", 2)]))
  let flags₁ ← answer first (.all .features)
  let flags₂ ← answer second (.all .features)
  demand (flags₁.size == 2 && flags₂.size == 2)
  demandListed flags₁ ["flag-a"] ["flag-b"]
  demandListed flags₂ ["flag-b"] ["flag-a"]
  demand ((flags₁.get? "flag-c").map Item.version == some 1)
  demand ((flags₂.get? "flag-c").map Item.version == some 2)

def closedStoreRejectsOperations : Trial Unit := do
  let store ← initializedStore
  answer store .close
  demandClosed store (.get .features "foo")
  demandClosed store (.upsert .features (sampleFlag "other" 1))

/-! ## Suites -/

/-- The checks by name, in the order in which a whole suite runs them. -/
def checks : List (String × Trial Unit) := [
  ("not_initialized_before_init", notInitializedBeforeInit),
  ("initialized_after_empty_init", initializedAfterEmptyInit),
  ("init_visible_to_other_handles", initVisibleToOtherHandles),
  ("get_and_all_after_init", getAndAllAfterInit),
  ("init_replaces_previous_data", initReplacesPreviousData),
  ("upsert_respects_versions", upsertRespectsVersions),
  ("delete_keeps_tombstone", deleteKeepsTombstone),
  ("race_with_lower_version", raceWithLowerVersion),
  ("race_with_higher_version", raceWithHigherVersion),
  ("prefixes_are_independent", realmsAreIndependent),
  ("closed_store_rejects_operations", closedStoreRejectsOperations)]

def runAll : Trial Unit := checks.forM Prod.snd

def check? (name : String) : Option (Trial Unit) :=
  if name = "run_all" then some runAll
  else (checks.find? fun check => check.1 == name).map Prod.snd

/-- Whether each of the named checks passes; they run in order on one bench.
An unknown check does not pass. -/
def runChecks (names : List String) (bench : Bench) : List (String × Bool) :=
  let checks : Run (List (String × Bool)) := names.mapM fun name => do
    match check? name with
    | none => return (name, false)
    | some check => return (name, (← check.run).isSome)
  (checks.run bench).1

end Conformance

end VersionedFlags
