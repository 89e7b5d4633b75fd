import VersionedFlags.Proofs.Source.Lifecycle
import VersionedFlags.Source.Scenario

/-!
# What a subscriber hears

Every attempt to reload ends with one outcome, sent to all who subscribed before.
A subscriber is told of each of them once and in order: of those that a channel
still has by the outcome itself, of the older ones by how many they are.  So it
hears every outcome as long as it reads before more wait than the channel keeps.
-/

namespace VersionedFlags

namespace Channel

variable {α : Type} {channel : Channel α} {receiver : Nat}

/-! ## What waits for a receiver -/

/-- The messages that a receiver has ahead of it, lost ones included. -/
def Waiting (channel : Channel α) (receiver : Nat) (unread : List α) : Prop :=
  ∃ read, channel.sent = read ++ unread ∧
    channel.positions[receiver]? = some read.length

/-- What a receiver is told next, of the messages that wait for it. -/
inductive Tells : List α → Reading α → List α → Prop
  | nothing : Tells [] .empty []
  | next (value : α) {rest : List α} (h : rest.length < capacity) :
      Tells (value :: rest) (.message value) rest
  /-- The channel has the last messages only. -/
  | lost {lost rest : List α} (hlost : lost ≠ []) (hrest : rest.length = capacity) :
      Tells (lost ++ rest) (.lagged lost.length) rest

def Reading.message? : Reading α → Option α
  | .message value => some value
  | .lagged _ | .empty => none

@[simp] theorem Reading.message?_message (value : α) :
    (Reading.message value).message? = some value := rfl

@[simp] theorem Reading.message?_lagged (lost : Nat) :
    (Reading.lagged lost : Reading α).message? = none := rfl

@[simp] theorem Reading.message?_empty :
    (Reading.empty : Reading α).message? = none := rfl

section Waiting

variable {unread rest : List α} {reading : Reading α}

theorem waiting_subscribe (channel : Channel α) :
    channel.subscribe.2.Waiting channel.subscribe.1 [] :=
  ⟨channel.sent, (List.append_nil _).symm, List.getElem?_concat_length⟩

theorem Waiting.subscribe (h : channel.Waiting receiver unread) :
    channel.subscribe.2.Waiting receiver unread := by
  obtain ⟨read, hsent, hposition⟩ := h
  refine ⟨read, hsent, ?_⟩
  have hlt : receiver < channel.positions.length :=
    (List.getElem?_eq_some_iff.mp hposition).1
  exact (List.getElem?_append_left hlt).trans hposition

theorem Waiting.send (h : channel.Waiting receiver unread) (value : α) :
    (channel.send value).Waiting receiver (unread ++ [value]) := by
  obtain ⟨read, hsent, hposition⟩ := h
  exact ⟨read, by rw [Channel.send, hsent, List.append_assoc], hposition⟩

theorem Waiting.backlog_eq (h : channel.Waiting receiver unread) :
    channel.backlog receiver = unread.length := by
  obtain ⟨read, hsent, hposition⟩ := h
  simp only [backlog, hposition, hsent, List.length_append, Nat.add_sub_cancel_left]

theorem Waiting.moveTo {read : List α} (h : channel.Waiting receiver unread)
    (hsent : channel.sent = read ++ rest) :
    (channel.moveTo receiver read.length).Waiting receiver rest := by
  obtain ⟨before, -, hposition⟩ := h
  exact ⟨read, hsent,
    List.getElem?_set_self (List.getElem?_eq_some_iff.mp hposition).1⟩

theorem Waiting.moveTo_other (h : channel.Waiting receiver unread) {other : Nat}
    (hne : other ≠ receiver) (position : Nat) :
    (channel.moveTo other position).Waiting receiver unread := by
  obtain ⟨read, hsent, hposition⟩ := h
  exact ⟨read, hsent, (List.getElem?_set_ne hne).trans hposition⟩

theorem Waiting.receive_other (h : channel.Waiting receiver unread) {other : Nat}
    (hne : other ≠ receiver) : (channel.receive other).2.Waiting receiver unread := by
  simp only [receive]
  split
  · exact h.moveTo_other hne _
  · split
    · exact h.moveTo_other hne _
    · exact h

theorem Waiting.receive (h : channel.Waiting receiver unread) :
    ∃ rest, Tells unread (channel.receive receiver).1 rest ∧
      (channel.receive receiver).2.Waiting receiver rest := by
  obtain ⟨read, hsent, hposition⟩ := h
  have hwaits : channel.Waiting receiver unread := ⟨read, hsent, hposition⟩
  have hlength : channel.sent.length = read.length + unread.length := by
    rw [hsent, List.length_append]
  rw [Channel.receive, hwaits.backlog_eq, hlength, Nat.add_sub_cancel]
  by_cases hfar : capacity < unread.length
  · -- The unread messages are cut where the channel's memory begins.
    rw [if_pos hfar]
    obtain ⟨lost, rest, hsplit, hrest⟩ : ∃ lost rest,
        unread = lost ++ rest ∧ rest.length = capacity :=
      ⟨_, _, (List.take_append_drop (unread.length - capacity) unread).symm, by
        rw [List.length_drop]; omega⟩
    subst hsplit
    rw [List.length_append] at hfar
    have hlost : lost ≠ [] := by
      rintro rfl
      simp only [List.length_nil] at hfar
      omega
    have holdest : read.length + (lost ++ rest).length - capacity =
        (read ++ lost).length := by
      simp only [List.length_append]
      omega
    refine ⟨rest, ?_, ?_⟩
    · have hmany : (read ++ lost).length - read.length = lost.length := by
        rw [List.length_append, Nat.add_sub_cancel_left]
      simp only [holdest, hmany]
      exact .lost hlost hrest
    · simp only [holdest]
      exact hwaits.moveTo (hsent.trans (List.append_assoc ..).symm)
  · rw [if_neg hfar, hsent, List.getElem?_append_right (Nat.le_refl _),
      Nat.sub_self]
    cases unread with
    | nil => exact ⟨[], .nothing, hwaits⟩
    | cons value rest =>
        refine ⟨rest, .next value (Nat.le_of_not_lt hfar), ?_⟩
        have hread : read.length + 1 = (read ++ [value]).length := by simp
        simp only [List.getElem?_cons_zero]
        rw [hread]
        exact hwaits.moveTo (by rw [hsent, List.append_assoc]; rfl)

end Waiting

theorem Tells.near_iff {unread rest : List α} {reading : Reading α}
    (h : Tells unread reading rest) :
    (∀ lost, reading ≠ .lagged lost) ↔ unread.length ≤ capacity := by
  cases h with
  | nothing => simp
  | next value h => simpa using Nat.succ_le_of_lt h
  | lost hlost hrest =>
      have hpos := List.length_pos_of_ne_nil hlost
      rw [List.length_append]
      exact iff_of_false (fun h => h _ rfl) (by omega)

theorem Tells.eq_empty {unread rest : List α} {reading : Reading α}
    (h : Tells unread reading rest) (hnil : unread = []) : reading = .empty := by
  cases h with
  | nothing => rfl
  | next => cases hnil
  | lost hlost => exact absurd (List.append_eq_nil_iff.mp hnil).1 hlost

theorem Tells.length_rest {unread rest : List α} {reading : Reading α}
    (h : Tells unread reading rest) (hnear : unread.length ≤ capacity) :
    rest.length = unread.length - 1 := by
  cases h with
  | nothing | next => rfl
  | lost hlost hrest =>
      have hpos := List.length_pos_of_ne_nil hlost
      rw [List.length_append] at hnear
      omega

/-! ## What readings tell of -/

/-- Readings that tell of each of the messages once and in order, of some by
their number only; those are never among the last that the channel keeps. -/
inductive Recounts : List (Reading α) → List α → Prop
  | nil : Recounts [] []
  | empty {readings : List (Reading α)} {messages : List α}
      (h : Recounts readings messages) : Recounts (.empty :: readings) messages
  | message (value : α) {readings : List (Reading α)} {messages : List α}
      (h : Recounts readings messages) :
      Recounts (.message value :: readings) (value :: messages)
  | lagged {lost : List α} (hlost : lost ≠ []) {readings : List (Reading α)}
      {messages : List α} (hkept : capacity ≤ messages.length)
      (h : Recounts readings messages) :
      Recounts (.lagged lost.length :: readings) (lost ++ messages)

section Recounts

variable {readings : List (Reading α)} {messages unread rest : List α}
  {reading : Reading α}

theorem Tells.recounts (h : Tells unread reading rest) {later : List α}
    (hmore : Recounts readings (rest ++ later)) :
    Recounts (reading :: readings) (unread ++ later) := by
  cases h with
  | nothing => exact hmore.empty
  | next value => exact hmore.message value
  | lost hlost hrest =>
      rw [List.append_assoc]
      exact hmore.lagged hlost (by rw [List.length_append]; omega)

theorem Recounts.length_le (h : Recounts readings messages) :
    (readings.filterMap Reading.message?).length ≤ messages.length := by
  induction h with
  | nil => exact Nat.le_refl 0
  | empty _ ih => exact ih
  | message _ _ ih => exact Nat.succ_le_succ ih
  | lagged _ _ _ ih =>
      rw [List.length_append]
      exact Nat.le_add_left_of_le ih

/-- All messages are told themselves if none is told of by number. -/
theorem Recounts.eq_iff (h : Recounts readings messages) :
    readings.filterMap Reading.message? = messages ↔
      ∀ lost, .lagged lost ∉ readings := by
  induction h with
  | nil => simp
  | empty _ ih => simpa [List.filterMap_cons] using ih
  | message _ _ ih => simpa [List.filterMap_cons] using ih
  | @lagged lost hlost readings messages _ h _ =>
      refine iff_of_false (fun heq => ?_) fun hnear => hnear _ List.mem_cons_self
      have hlength := congrArg List.length heq
      have hpos := List.length_pos_of_ne_nil hlost
      have hle := h.length_le
      simp only [List.filterMap_cons, Reading.message?_lagged,
        List.length_append] at hlength
      omega

/-- The last messages are told themselves. -/
theorem Recounts.suffix (h : Recounts readings messages) :
    messages.drop (messages.length - capacity) <:+
      readings.filterMap Reading.message? := by
  induction h with
  | nil => exact List.suffix_rfl
  | empty _ ih => exact ih
  | @message value readings messages h ih =>
      simp only [List.filterMap_cons, Reading.message?, List.length_cons]
      by_cases hmany : capacity ≤ messages.length
      · rw [Nat.succ_sub hmany, List.drop_succ_cons]
        exact ih.trans (List.suffix_cons value _)
      · -- With fewer messages than the channel keeps all of them were told.
        have hall : messages.length - capacity = 0 := by omega
        have hsame : messages = readings.filterMap Reading.message? := by
          rw [hall, List.drop_zero] at ih
          exact ih.eq_of_length_le h.length_le
        have hcut : messages.length + 1 - capacity = 0 := by omega
        simp only [hcut, List.drop_zero, ← hsame, List.suffix_refl]
  | @lagged lost _ readings messages hkept _ ih =>
      have hcut : (lost ++ messages).length - capacity =
          lost.length + (messages.length - capacity) := by
        rw [List.length_append]
        omega
      rw [hcut, List.drop_length_add_append]
      exact ih

theorem forall_not_mem_cons :
    (∀ lost, .lagged lost ∉ reading :: readings) ↔
      (∀ lost, reading ≠ .lagged lost) ∧ ∀ lost, .lagged lost ∉ readings := by
  simp only [List.mem_cons, not_or, forall_and, ne_eq, eq_comm]

end Recounts

/-! ## Reading on to the end -/

section Drain

variable {unread : List α}

theorem Waiting.drainWith (h : channel.Waiting receiver unread) {tries : Nat}
    (htries : unread.length < tries) :
    Recounts (drainWith receiver tries channel).1 unread ∧
      (drainWith receiver tries channel).2.Waiting receiver [] ∧
      ((∀ lost, .lagged lost ∉ (drainWith receiver tries channel).1) ↔
        unread.length ≤ capacity) := by
  induction tries generalizing channel unread with
  | zero => cases htries
  | succ tries ih =>
      obtain ⟨rest, htells, hrest⟩ := h.receive
      have hnear := htells.near_iff
      simp only [Channel.drainWith]
      rcases hreceive : channel.receive receiver with ⟨reading, after⟩
      rw [hreceive] at htells hrest hnear
      simp only at htells hrest hnear
      cases htells with
      | nothing => exact ⟨.nil, hrest, by simp⟩
      | next value hroom =>
          obtain ⟨hmore, hend, hlost⟩ := ih hrest (Nat.lt_of_succ_lt_succ htries)
          refine ⟨hmore.message value, hend, ?_⟩
          simpa [Nat.le_of_lt hroom, Nat.succ_le_of_lt hroom] using hlost
      | lost hlost hkept =>
          have hpos := List.length_pos_of_ne_nil hlost
          rw [List.length_append] at htries
          obtain ⟨hmore, hend, -⟩ := ih hrest (by omega)
          refine ⟨hmore.lagged hlost (Nat.le_of_eq hkept.symm), hend, ?_⟩
          refine iff_of_false (fun h => h _ List.mem_cons_self) ?_
          rw [List.length_append]
          omega

/-- A receiver that reads to the end has nothing ahead of it. -/
theorem Waiting.drain (h : channel.Waiting receiver unread) :
    Recounts (channel.drain receiver).1 unread ∧
      (channel.drain receiver).2.Waiting receiver [] ∧
      ((∀ lost, .lagged lost ∉ (channel.drain receiver).1) ↔
        unread.length ≤ capacity) := by
  have htries : unread.length < channel.backlog receiver + 1 := by
    rw [h.backlog_eq]
    exact Nat.lt_succ_self _
  exact h.drainWith htries

end Drain

end Channel

namespace Source

open Files (FileTree Location)

namespace Lifecycle

/-! ## A source and those who listen -/

/-- What comes next: a move of the source, a new subscriber, or a subscriber
that reads once. -/
inductive Happening where
  | move (move : Move)
  | subscribe
  | receive (receiver : Nat)

def happen (life : Lifecycle) : Happening → Lifecycle
  | .move move => life.step move
  | .subscribe => { life with outcomes := life.outcomes.subscribe.2 }
  | .receive receiver =>
      { life with outcomes := (life.outcomes.receive receiver).2 }

def follow (life : Lifecycle) (happenings : List Happening) : Lifecycle :=
  happenings.foldl happen life

/-- The outcome of the attempt to reload that ends with what happens. -/
def attempt? (life : Lifecycle) : Happening → Option ReloadOutcome
  | .move (.publish outcome) => some outcome
  | .move (.advance index outcome _ _) =>
      match life.visits[index]? with
      | some (.start .reloading) => some outcome
      | _ => none
  | _ => none

/-- All attempts to reload that end, each with its outcome. -/
def attempts : Lifecycle → List Happening → List ReloadOutcome
  | _, [] => []
  | life, happening :: rest =>
      (life.attempt? happening).toList ++ attempts (life.happen happening) rest

def heard (receiver : Nat) :
    Lifecycle → List Happening → List (Channel.Reading ReloadOutcome)
  | _, [] => []
  | life, .receive other :: rest =>
      let more := heard receiver (life.happen (.receive other)) rest
      if other = receiver then (life.outcomes.receive receiver).1 :: more else more
  | life, happening :: rest => heard receiver (life.happen happening) rest

/-- A subscriber that has so many outcomes ahead of it never has more than the
channel keeps, neither when it reads nor at the end. -/
def KeepsUp (receiver : Nat) : Lifecycle → Nat → List Happening → Prop
  | _, ahead, [] => ahead ≤ Channel.capacity
  | life, ahead, .receive other :: rest =>
      if other = receiver then
        ahead ≤ Channel.capacity ∧
          KeepsUp receiver (life.happen (.receive other)) (ahead - 1) rest
      else KeepsUp receiver (life.happen (.receive other)) ahead rest
  | life, ahead, happening :: rest =>
      KeepsUp receiver (life.happen happening)
        (ahead + (life.attempt? happening).toList.length) rest

variable {life : Lifecycle} {receiver : Nat} {unread : List ReloadOutcome}

theorem outcomes_signal (life : Lifecycle) (loop : Option Nat) :
    (life.signal loop).outcomes = life.outcomes := by
  cases loop <;> rfl

theorem outcomes_hand (life : Lifecycle) (loop : Option Nat) :
    (life.hand loop).outcomes = life.outcomes := by
  by_cases hphase : life.phase = .closed
  · rw [hand_of_closed hphase, outcomes_signal]
  · rw [hand_of_open hphase]

theorem outcomes_advanceStart {index : Nat} {outcome : ReloadOutcome}
    {tree : FileTree} {here : Location} {stage : StartStage}
    (hstage : stage ≠ .reloading) :
    (life.advanceStart index outcome tree here stage).outcomes = life.outcomes := by
  cases stage with
  | entered =>
      simp only [advanceStart]
      split
      · rename_i next hclaim
        obtain ⟨-, rfl⟩ := claim?_eq hclaim
        rfl
      · rfl
  | reloading => exact absurd rfl hstage
  | reloaded =>
      simp only [advanceStart]
      split <;> rfl
  | handing loop => exact outcomes_hand life loop
  | done | ignored => rfl

theorem outcomes_advanceClose (life : Lifecycle) (index : Nat) (stage : CloseStage) :
    (life.advanceClose index stage).outcomes = life.outcomes := by
  cases stage with
  | entered | taking | done => rfl
  | signalling loop => exact outcomes_signal life loop
  | joining loop =>
      simp only [advanceClose]
      split <;> rfl

/-- A move announces the attempt that ends with it and nothing else. -/
theorem outcomes_step (life : Lifecycle) (move : Move) :
    (life.step move).outcomes =
      (life.attempt? (.move move)).elim life.outcomes life.outcomes.send := by
  cases move with
  | start | close | turn | publish => rfl
  | advance index outcome tree here =>
      cases hvisit : life.visits[index]? with
      | none => simp only [step, attempt?, hvisit, Option.elim_none]
      | some visit =>
          cases visit with
          | close stage =>
              simp only [step_close hvisit, attempt?, hvisit, Option.elim_none,
                outcomes_advanceClose]
          | start stage =>
              rw [step_start hvisit]
              by_cases hstage : stage = .reloading
              · subst hstage
                simp only [attempt?, hvisit, Option.elim_some]
                rfl
              · rw [outcomes_advanceStart hstage]
                simp only [attempt?, hvisit]
                split
                · rename_i hreloading
                  cases hreloading
                  exact absurd rfl hstage
                · rfl

/-! ## What one happening tells a subscriber -/

theorem waiting_move (h : life.outcomes.Waiting receiver unread) (move : Move) :
    (life.happen (.move move)).outcomes.Waiting receiver
      (unread ++ (life.attempt? (.move move)).toList) := by
  rw [happen, outcomes_step]
  cases life.attempt? (.move move) with
  | none => exact (List.append_nil unread).symm ▸ h
  | some outcome => exact h.send outcome

/-- What was ahead of a subscriber at first and all that was announced since it has
been told of when it has read to the end. -/
theorem recounts_follow (h : life.outcomes.Waiting receiver unread)
    (happenings : List Happening) :
    Channel.Recounts (life.heard receiver happenings ++
        ((life.follow happenings).outcomes.drain receiver).1)
      (unread ++ life.attempts happenings) ∧
    ((life.follow happenings).outcomes.drain receiver).2.Waiting receiver [] := by
  induction happenings generalizing life unread with
  | nil =>
      obtain ⟨hrecounts, hend, -⟩ := h.drain
      exact ⟨(List.append_nil unread).symm ▸ hrecounts, hend⟩
  | cons happening rest ih =>
      cases happening with
      | move move =>
          have hmore := ih (waiting_move h move)
          rw [List.append_assoc] at hmore
          exact hmore
      | subscribe => exact ih h.subscribe
      | receive other =>
          simp only [heard]
          split
          · rename_i heq
            subst heq
            obtain ⟨left, htells, hleft⟩ := h.receive
            obtain ⟨hmore, hend⟩ := @ih (life.happen (.receive other)) left hleft
            exact ⟨htells.recounts hmore, hend⟩
          · rename_i hne
            exact @ih (life.happen (.receive other)) unread (h.receive_other hne)

theorem keepsUp_iff (h : life.outcomes.Waiting receiver unread)
    (happenings : List Happening) :
    (∀ lost, .lagged lost ∉ life.heard receiver happenings ++
        ((life.follow happenings).outcomes.drain receiver).1) ↔
      life.KeepsUp receiver unread.length happenings := by
  induction happenings generalizing life unread with
  | nil => exact h.drain.2.2
  | cons happening rest ih =>
      cases happening with
      | move move =>
          have hmore := ih (waiting_move h move)
          rw [List.length_append] at hmore
          exact hmore
      | subscribe => exact ih h.subscribe
      | receive other =>
          simp only [heard, KeepsUp]
          split
          · rename_i heq
            subst heq
            obtain ⟨left, htells, hleft⟩ := h.receive
            have hmore := @ih (life.happen (.receive other)) left hleft
            rw [← htells.near_iff, List.cons_append,
              Channel.forall_not_mem_cons]
            refine and_congr_right fun hnear => ?_
            rw [← htells.length_rest (htells.near_iff.mp hnear)]
            exact hmore
          · rename_i hne
            exact @ih (life.happen (.receive other)) unread (h.receive_other hne)

/-- Whatever a source and its subscribers do after one has subscribed, what that
one is told until it has read to the end recounts every attempt to reload that has
ended since, and the last of them by their outcomes.  It hears the outcomes of all of
them, in order and each one once, if and only if it never had more ahead of it than
the channel keeps when it read. -/
theorem hears_all_iff_keepsUp (life : Lifecycle) (happenings : List Happening) :
    let receiver := life.outcomes.subscribe.1
    let subscribed := life.happen .subscribe
    let drained := (subscribed.follow happenings).outcomes.drain receiver
    let readings := subscribed.heard receiver happenings ++ drained.1
    let attempts := subscribed.attempts happenings
    Channel.Recounts readings attempts ∧
    (drained.2.receive receiver).1 = .empty ∧
    attempts.drop (attempts.length - Channel.capacity) <:+
      readings.filterMap Channel.Reading.message? ∧
    (readings.filterMap Channel.Reading.message? = attempts ↔
      subscribed.KeepsUp receiver 0 happenings) := by
  intro receiver subscribed drained readings attempts
  have hwaiting : subscribed.outcomes.Waiting receiver [] :=
    life.outcomes.waiting_subscribe
  obtain ⟨hrecounts, hend⟩ := recounts_follow hwaiting happenings
  rw [List.nil_append] at hrecounts
  refine ⟨hrecounts, ?_, hrecounts.suffix, ?_⟩
  · obtain ⟨rest, htells, -⟩ := hend.receive
    exact htells.eq_empty rfl
  · exact hrecounts.eq_iff.trans (keepsUp_iff hwaiting happenings)

end Lifecycle

namespace Scenario

def Answer.heard : Answer → List (Channel.Reading ReloadOutcome)
  | .readings several => several
  | .reading one => [one]
  | _ => []

def Answer.succeeded : Answer → List Bool
  | .bool loaded => [loaded]
  | _ => []

/-- Of seventeen attempts, all of them made after a call of subscribe, the receiver
hears sixteen outcomes. -/
theorem first_outcome_lost :
    let tree := Files.FileTree.empty.put ["f"] (.file "\x7b\x7d".toUTF8)
    let answers := run tree [] ⟨[⟨"/f"⟩], false, 0⟩
      (.direct .ownMemory none none none) false
      (.subscribe :: .replicate 17 .reload ++ [.drain 0])
    answers.flatMap Answer.succeeded = .replicate 17 true ∧
      answers.flatMap Answer.heard =
        .lagged 1 :: .replicate 16 (.message (.loaded 0)) ∧
      (answers.flatMap Answer.heard).filterMap Channel.Reading.message? ≠
        .replicate 17 (.loaded 0) := by
  decide +kernel

end Scenario

end Source

end VersionedFlags
