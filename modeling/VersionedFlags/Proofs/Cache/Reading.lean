import VersionedFlags.Proofs.Cache.Traffic

/-!
# Where the answer of a read comes from

A read is answered with what its slot shows when it begins or with what its
backend replies later, whatever else is under way.
-/

namespace VersionedFlags

namespace Cache

namespace Stage

/-- A call has its answer, or the reply of its backend that will be it. -/
inductive Tells : {call : Call} → Stage call → call.Answer → Prop
  | get (kind : Kind) (key : String) (seen : Nat) (item : Option Item) :
      Tells (.replied (.get kind key seen) (.ok item)) item
  | all (kind : Kind) (seen : Nat) (items : KeyMap Item) :
      Tells (.replied (.all kind seen) (.ok items)) items
  | pass (call : Call) (answer : call.Answer) :
      Tells (.replied (.pass call) (.ok answer)) answer
  | answered {call : Call} (answer : call.Answer) :
      Tells (.answered (.ok answer)) answer

variable {mode : Mode} {now : Instant} {state : State} {slot : Slot}

theorem shown?_of_tells_start {value : slot.call.Answer}
    (h : (ofProgress (Cache.start mode now state slot.call).2).Tells value) :
    state.shown? slot = some value := by
  cases slot with
  | item kind key =>
      simp only [Cache.start] at h
      split at h
      · simp only [startGet] at h
        split at h
        · rename_i found hitem
          cases h
          exact State.shown?_of_item? hitem
        · cases h
      · cases h
  | live kind =>
      simp only [Cache.start] at h
      split at h
      · simp only [startAll] at h
        split at h
        · rename_i items hlive
          cases h
          exact State.shown?_of_live? hlive
        · cases h
      · cases h

theorem serve_of_tells {cluster : Cluster} {handle : Nat}
    {pending : Pending slot.call} {value : slot.call.Answer}
    (h : (replied pending (cluster.serve handle pending.asks).1).Tells value) :
    (cluster.serve handle slot.call).1 = .ok value := by
  revert h
  cases slot with
  | item kind key =>
      cases pending with
      | get | pass =>
          generalize (cluster.serve handle (.get kind key)).1 = reply
          rintro ⟨⟩
          rfl
  | live kind =>
      cases pending with
      | all | pass =>
          generalize (cluster.serve handle (.all kind)).1 = reply
          rintro ⟨⟩
          rfl

theorem tells_of_tells_record {stage : Stage slot.call}
    {value : slot.call.Answer}
    (h : (stage.record mode now state).2.Tells value) : stage.Tells value := by
  cases slot with
  | item kind key =>
      cases stage with
      | asking | answered | aborted => exact h
      | replied pending reply =>
          cases pending with
          | pass =>
              cases h
              exact .pass _ _
          | get _ _ seen =>
              cases reply with
              | error error => cases h
              | ok item =>
                  simp only [record, recordReply, resume, withExpiry] at h
                  split at h
                  · cases h
                  · cases h
                    exact .get kind key seen _
  | live kind =>
      cases stage with
      | asking | answered | aborted => exact h
      | replied pending reply =>
          cases pending with
          | pass =>
              cases h
              exact .pass _ _
          | all _ seen =>
              cases reply with
              | error error => cases h
              | ok items =>
                  simp only [record, recordReply, resume, withExpiry] at h
                  split at h
                  · cases h
                  · cases h
                    exact .all kind seen _

end Stage

namespace Traffic

variable {mode : Mode} {handle : Nat} {traffic : Traffic} {slot : Slot}
  {position : Nat} {stage : Stage slot.call}

/-- With one move a read tells nothing new but what the backend answers. -/
theorem exists_stage_step
    (hstage : traffic.flights[position]? = some ⟨slot.call, stage⟩)
    (move : Move) :
    ∃ next : Stage slot.call,
      (traffic.step mode handle move).flights[position]? =
          some ⟨slot.call, next⟩ ∧
        ∀ value, next.Tells value → stage.Tells value ∨
          (traffic.cluster.serve handle slot.call).1 = .ok value := by
  have hsame : ∀ flights : List Flight,
      flights[position]? = some ⟨slot.call, stage⟩ →
        ∃ next : Stage slot.call, flights[position]? = some ⟨slot.call, next⟩ ∧
          ∀ value, next.Tells value → stage.Tells value ∨
            (traffic.cluster.serve handle slot.call).1 = .ok value :=
    fun flights hfound => ⟨stage, hfound, fun value h => .inl h⟩
  have hlt := (List.getElem?_eq_some_iff.mp hstage).1
  cases move with
  | tick nanos => exact hsame _ hstage
  | begin call =>
      refine hsame _ ?_
      rw [← hstage]
      exact List.getElem?_append_left hlt
  | reply place =>
      rcases step_reply_cases mode handle traffic place with
        hidle | ⟨call, pending, hflight, hstep⟩
      · rw [hidle]
        exact hsame _ hstage
      · rw [hstep]
        by_cases hplace : place = position
        · subst hplace
          rw [hstage] at hflight
          cases hflight
          exact ⟨_, List.getElem?_set_self hlt, fun value h =>
            .inr (Stage.serve_of_tells h)⟩
        · exact hsame _ ((List.getElem?_set_ne hplace).trans hstage)
  | fail place error =>
      rcases step_fail_cases mode handle traffic place error with
        hidle | ⟨call, pending, hflight, hstep⟩
      · rw [hidle]
        exact hsame _ hstage
      · rw [hstep]
        by_cases hplace : place = position
        · subst hplace
          rw [hstage] at hflight
          cases hflight
          refine ⟨_, List.getElem?_set_self hlt, fun value h => ?_⟩
          cases slot <;> cases pending <;> cases h
        · exact hsame _ ((List.getElem?_set_ne hplace).trans hstage)
  | record place =>
      rcases step_record_cases mode handle traffic place with
        ⟨hidle, -⟩ | ⟨call, found, hflight, hstep⟩
      · rw [hidle]
        exact hsame _ hstage
      · rw [hstep]
        by_cases hplace : place = position
        · subst hplace
          rw [hstage] at hflight
          cases hflight
          exact ⟨_, List.getElem?_set_self hlt, fun value h =>
            .inl (Stage.tells_of_tells_record h)⟩
        · exact hsame _ ((List.getElem?_set_ne hplace).trans hstage)

/-- What a read tells after a run it told before, or the backend answered it at
some moment of the run. -/
theorem exists_stage_run {moves : List Move}
    (hstage : traffic.flights[position]? = some ⟨slot.call, stage⟩)
    {p : slot.call.Answer → Prop} (htold : ∀ value, stage.Tells value → p value)
    (hmoment : ∀ middle rest, moves = middle ++ rest → ∀ value,
      ((run mode handle traffic middle).cluster.serve handle slot.call).1 =
        .ok value → p value) :
    ∃ next : Stage slot.call,
      (run mode handle traffic moves).flights[position]? =
          some ⟨slot.call, next⟩ ∧
        ∀ value, next.Tells value → p value := by
  induction moves generalizing traffic stage with
  | nil => exact ⟨stage, hstage, htold⟩
  | cons move rest ih =>
      obtain ⟨next, hnext, htells⟩ := exists_stage_step hstage move
      refine ih hnext (fun value h => ?_) fun middle more heq => ?_
      · rcases htells value h with hbefore | hserve
        · exact htold value hbefore
        · exact hmoment [] _ rfl value hserve
      · exact hmoment (move :: middle) more (by rw [heq]; rfl)

end Traffic

end Cache

end VersionedFlags
