import VersionedFlags.Proofs.DataSet
import VersionedFlags.Proofs.Fallible

/-!
# Building call by call

Whatever is added to a fresh builder, in whatever order and with whatever failures in
between, the data set that is built has under each key of each kind the item that a call
gave last, under its own key.  A builder covers every kind by its type; a table that gets
a kind when the kind is first touched comes to the same.
-/

namespace VersionedFlags

namespace DataSet

/-! ## Additions -/

inductive Addition where
  | add (kind : Kind) (item : Item)
  | addAll (kind : Kind) (items : List Item)
  | tryAdd (kind : Kind) (item : Item)
  deriving DecidableEq, Repr

/-- What an addition gives if it succeeds, in order. -/
def Addition.given : Addition → List (Kind × Item)
  | .add kind item => [(kind, item)]
  | .addAll kind items => items.map fun item => (kind, item)
  | .tryAdd kind item => [(kind, item)]

/-- Additions with their answers. -/
abbrev Transcript : Type := List (Addition × Except DataError Unit)

/-- What the successful additions gave, in order. -/
def Transcript.given (transcript : Transcript) : List (Kind × Item) :=
  transcript.flatMap fun said => if said.2.isOk then said.1.given else []

/-- The last item that is given for the kind and its key. -/
def lastGiven (given : List (Kind × Item)) (kind : Kind) (key : String) : Option Item :=
  (given.filter fun place => place.1 == kind && place.2.key == key).getLast?.map Prod.snd

namespace Builder

def addEach (builder : Builder) (given : List (Kind × Item)) : Builder :=
  given.foldl (fun builder place => builder.add place.1 place.2) builder

/-- A failed addition gives no builder, so the one before it goes on. -/
def serve (builder : Builder) : Addition → Except DataError Unit × Builder
  | .add kind item => (.ok (), builder.add kind item)
  | .addAll kind items => (.ok (), builder.addAll kind items)
  | .tryAdd kind item =>
      match builder.tryAdd kind item with
      | .ok next => (.ok (), next)
      | .error error => (.error error, builder)

def run (builder : Builder) : List Addition → Transcript × Builder
  | [] => ([], builder)
  | addition :: rest =>
      let (answer, next) := builder.serve addition
      let (transcript, last) := next.run rest
      ((addition, answer) :: transcript, last)

end Builder

/-! ## Kinds on demand -/

/-- Covers the kind if nothing has touched it. -/
def cover (data : DataSet) (kind : Kind) : DataSet :=
  ⟨data.kinds.modify kind fun items? => some (items?.getD .empty)⟩

def enter (data : DataSet) (kind : Kind) (item : Item) : DataSet :=
  ⟨data.kinds.modify kind fun items? =>
    some ((items?.getD .empty).insert item.key item)⟩

/-- The kind is touched before its keys are looked at, so a refusal may leave it
covered. -/
def enterNew (data : DataSet) (kind : Kind) (item : Item) :
    Except DataError Unit × DataSet :=
  if item.key = "" then (.error .emptyKey, data)
  else
    match data.get? kind item.key with
    | some _ => (.error (.duplicateKey kind item.key), data.cover kind)
    | none => (.ok (), data.enter kind item)

def receive (data : DataSet) : Addition → Except DataError Unit × DataSet
  | .add kind item => (.ok (), data.enter kind item)
  | .addAll kind items =>
      (.ok (), items.foldl (fun data item => data.enter kind item) data)
  | .tryAdd kind item => data.enterNew kind item

def receiveAll (data : DataSet) : List Addition → Transcript × DataSet
  | [] => ([], data)
  | addition :: rest =>
      let (answer, next) := data.receive addition
      let (transcript, last) := next.receiveAll rest
      ((addition, answer) :: transcript, last)

/-! ## The last item given -/

theorem lastGiven_concat (given : List (Kind × Item)) (kind other : Kind) (item : Item)
    (key : String) :
    lastGiven (given ++ [(kind, item)]) other key =
      if kind = other ∧ item.key = key then some item else lastGiven given other key := by
  unfold lastGiven
  rw [List.filter_append]
  by_cases h : kind = other ∧ item.key = key
  · simp [h]
  · have hnone : [(kind, item)].filter
        (fun place => place.1 == other && place.2.key == key) = [] := by
      simpa using h
    rw [hnone, List.append_nil, if_neg h]

theorem mem_of_lastGiven {given : List (Kind × Item)} {kind : Kind} {key : String}
    {item : Item} (h : lastGiven given kind key = some item) :
    (kind, item) ∈ given ∧ item.key = key := by
  obtain ⟨⟨found, _⟩, hlast, rfl⟩ := Option.map_eq_some_iff.mp h
  obtain ⟨hm, hplace⟩ := List.mem_filter.mp (List.mem_of_getLast? hlast)
  obtain ⟨rfl, hkey⟩ : found = kind ∧ _ = key := by simpa using hplace
  exact ⟨hm, hkey⟩

namespace Builder

variable {builder : Builder} {given : List (Kind × Item)} {kind : Kind} {item : Item}

theorem get?_build (builder : Builder) (kind : Kind) (key : String) :
    builder.build.get? kind key = (builder.items.get kind).get? key := by
  simp [DataSet.get?, items?, build]

theorem items?_build (builder : Builder) (kind : Kind) :
    builder.build.items? kind = some (builder.items.get kind) := by
  simp [items?, build]

theorem get?_build_add (builder : Builder) (kind other : Kind) (item : Item)
    (key : String) :
    (builder.add kind item).build.get? other key =
      if kind = other ∧ item.key = key then some item
      else builder.build.get? other key := by
  simp only [get?_build, add, PerKind.modify, PerKind.get_set]
  by_cases hkind : kind = other
  · subst hkind
    simp
  · simp [hkind]

/-- The builder has, of what was given so far, the last item for each place. -/
def Accounts (builder : Builder) (given : List (Kind × Item)) : Prop :=
  ∀ kind key, builder.build.get? kind key = lastGiven given kind key

theorem accounts_start : start.Accounts [] := by
  intro kind key
  simp [get?_build, start, lastGiven]

theorem Accounts.add (h : builder.Accounts given) (kind : Kind) (item : Item) :
    (builder.add kind item).Accounts (given ++ [(kind, item)]) := by
  intro other key
  rw [get?_build_add, lastGiven_concat, h other key]

theorem Accounts.addEach (h : builder.Accounts given) (more : List (Kind × Item)) :
    (builder.addEach more).Accounts (given ++ more) := by
  induction more generalizing builder given with
  | nil => simpa [Builder.addEach] using h
  | cons place rest ih =>
      have hrest := ih (h.add place.1 place.2)
      rwa [List.append_assoc] at hrest

theorem Reachable.addEach (h : builder.Reachable) (given : List (Kind × Item)) :
    (builder.addEach given).Reachable := by
  induction given generalizing builder with
  | nil => exact h
  | cons place rest ih => exact ih (h.add place.1 place.2)

/-! ## Steps -/

theorem serve_tryAdd (builder : Builder) (kind : Kind) (item : Item) :
    builder.serve (.tryAdd kind item) =
      if item.key = "" then (.error .emptyKey, builder)
      else
        match builder.build.get? kind item.key with
        | some _ => (.error (.duplicateKey kind item.key), builder)
        | none => (.ok (), builder.add kind item) := by
  simp only [serve, Builder.tryAdd, get?_build, contains, KeyMap.contains]
  by_cases hkey : item.key = ""
  · simp [hkey]
  · rcases Option.eq_none_or_eq_some ((builder.items.get kind).get? item.key) with
      hfree | ⟨stored, hstored⟩
    · simp [hkey, hfree]
    · simp [hkey, hstored]

theorem serve_tryAdd_ok_iff :
    (builder.serve (.tryAdd kind item)).1 = .ok () ↔
      item.key ≠ "" ∧ builder.build.get? kind item.key = none := by
  rw [serve_tryAdd]
  by_cases hkey : item.key = ""
  · simp [hkey]
  · rw [if_neg hkey]
    cases builder.build.get? kind item.key <;> simp [hkey]

theorem addAll_eq_addEach (builder : Builder) (kind : Kind) (items : List Item) :
    builder.addAll kind items = builder.addEach (items.map fun item => (kind, item)) := by
  rw [addAll, addEach, List.foldl_map]

/-- An addition is refused and changes nothing, or all that it gives is added in order. -/
theorem serve_cases (builder : Builder) (addition : Addition) :
    (∃ error, builder.serve addition = (.error error, builder)) ∨
      builder.serve addition = (.ok (), builder.addEach addition.given) := by
  cases addition with
  | add kind item => exact .inr rfl
  | addAll kind items => exact .inr (congrArg _ (builder.addAll_eq_addEach kind items))
  | tryAdd kind item =>
      rw [serve_tryAdd]
      split
      · exact .inl ⟨_, rfl⟩
      · cases builder.build.get? kind item.key with
        | some stored => exact .inl ⟨_, rfl⟩
        | none => exact .inr rfl

theorem serve_of_error {addition : Addition} {error : DataError}
    (h : (builder.serve addition).1 = .error error) :
    (builder.serve addition).2 = builder := by
  obtain ⟨other, hserve⟩ | hserve := builder.serve_cases addition
  · rw [hserve]
  · rw [hserve] at h
    cases h

theorem Accounts.serve (h : builder.Accounts given) (addition : Addition) :
    (builder.serve addition).2.Accounts (given ++
      if (builder.serve addition).1.isOk then addition.given else []) := by
  obtain ⟨error, hserve⟩ | hserve := builder.serve_cases addition
  · rw [hserve]
    simpa [Except.isOk, Except.toBool] using h
  · rw [hserve]
    exact h.addEach addition.given

theorem Reachable.serve (h : builder.Reachable) (addition : Addition) :
    (builder.serve addition).2.Reachable := by
  obtain ⟨error, hserve⟩ | hserve := builder.serve_cases addition
  · rwa [hserve]
  · rw [hserve]
    exact h.addEach addition.given

/-! ## Runs -/

theorem Accounts.run (h : builder.Accounts given) (additions : List Addition) :
    (builder.run additions).2.Accounts
      (given ++ (builder.run additions).1.given) := by
  induction additions generalizing builder given with
  | nil => simpa [Builder.run, Transcript.given] using h
  | cons addition rest ih =>
      have hrest := ih (h.serve addition)
      rwa [List.append_assoc] at hrest

theorem Reachable.run (h : builder.Reachable) (additions : List Addition) :
    (builder.run additions).2.Reachable := by
  induction additions generalizing builder with
  | nil => exact h
  | cons addition rest ih => exact ih (h.serve addition)

/-! ## Runs on demand -/

theorem enter_build (builder : Builder) (kind : Kind) (item : Item) :
    builder.build.enter kind item = (builder.add kind item).build := by
  obtain ⟨⟨features, segments⟩⟩ := builder
  cases kind <;> rfl

theorem cover_build (builder : Builder) (kind : Kind) :
    builder.build.cover kind = builder.build := by
  obtain ⟨⟨features, segments⟩⟩ := builder
  cases kind <;> rfl

theorem foldl_enter_build (builder : Builder) (kind : Kind) (items : List Item) :
    items.foldl (fun data item => data.enter kind item) builder.build =
      (builder.addAll kind items).build := by
  induction items generalizing builder with
  | nil => rfl
  | cons item rest ih =>
      rw [List.foldl_cons, enter_build, ih]
      rfl

theorem receive_build (builder : Builder) (addition : Addition) :
    builder.build.receive addition =
      ((builder.serve addition).1, (builder.serve addition).2.build) := by
  cases addition with
  | add kind item => simp only [receive, serve, enter_build]
  | addAll kind items => simp only [receive, serve, foldl_enter_build]
  | tryAdd kind item =>
      rw [serve_tryAdd]
      simp only [receive, enterNew, cover_build, enter_build]
      split
      · rfl
      · cases builder.build.get? kind item.key <;> rfl

theorem receiveAll_build (builder : Builder) (additions : List Addition) :
    builder.build.receiveAll additions =
      ((builder.run additions).1, (builder.run additions).2.build) := by
  induction additions generalizing builder with
  | nil => rfl
  | cons addition rest ih => simp only [receiveAll, run, receive_build, ih]

/-! ## Fresh builders -/

/-- What is so of a builder that came out of additions. -/
structure Faithful (transcript : Transcript) (builder : Builder) : Prop where
  covers : ∀ kind, ∃ items, builder.build.items? kind = some items
  keyed : builder.build.Keyed
  last : ∀ kind key, builder.build.get? kind key = lastGiven transcript.given kind key
  tries : ∀ kind item, (builder.serve (.tryAdd kind item)).1 = .ok () ↔
    item.key ≠ "" ∧ builder.build.get? kind item.key = none
  stays : ∀ addition error, (builder.serve addition).1 = .error error →
    (builder.serve addition).2 = builder
  onDemand : ∀ addition, builder.build.receive addition =
    ((builder.serve addition).1, (builder.serve addition).2.build)

theorem run_faithful (additions : List Addition) :
    (start.run additions).2.Faithful (start.run additions).1 where
  covers := fun kind => ⟨_, items?_build _ kind⟩
  keyed := (Made.build (Reachable.start.run additions)).keyed
  last := accounts_start.run additions
  tries := fun _ _ => serve_tryAdd_ok_iff
  stays := fun _ _ => serve_of_error
  onDemand := receive_build _

end Builder

end DataSet

end VersionedFlags
