import Asyncr.Scheduling.Balance

namespace Asyncr

namespace Scheduling

variable {scheduling next : Scheduling} {schedule : Nat}

/-! Wakeups against polls, read off the history. -/

/-- The schedule was woken since its latest poll began, or since its creation. -/
def wokenSincePoll (schedule : Nat) : List ScheduleEvent → Bool
  | [] => false
  | .woken woken :: earlier => woken == schedule || wokenSincePoll schedule earlier
  | .began polled _ :: earlier =>
      polled != schedule && wokenSincePoll schedule earlier
  | .sent _ :: earlier | .unwound _ :: earlier => wokenSincePoll schedule earlier

def latestPollUnwound (schedule : Nat) : List ScheduleEvent → Bool
  | [] => false
  | .unwound polled :: earlier =>
      polled == schedule || latestPollUnwound schedule earlier
  | .began polled _ :: earlier =>
      polled != schedule && latestPollUnwound schedule earlier
  | .woken _ :: earlier | .sent _ :: earlier => latestPollUnwound schedule earlier

/-- A schedule asks for a poll exactly if it was woken since its latest began. -/
def Heard (scheduling : Scheduling) (schedule : Nat) : Prop :=
  scheduling.state schedule ≠ .complete →
    latestPollUnwound schedule scheduling.log = false →
    wokenSincePoll schedule scheduling.log =
      (scheduling.state schedule).requested

theorem heard_initial (schedule : Nat) : initial.Heard schedule := by
  intro _ _
  rfl

theorem Heard.transfer (heard : scheduling.Heard schedule)
    (sameState : next.state schedule = scheduling.state schedule)
    (sameWoken : wokenSincePoll schedule next.log =
      wokenSincePoll schedule scheduling.log)
    (sameUnwound : latestPollUnwound schedule next.log =
      latestPollUnwound schedule scheduling.log) : next.Heard schedule := by
  unfold Heard
  rw [sameState, sameWoken, sameUnwound]
  exact heard

theorem Heard.wakeSection (heard : scheduling.Heard schedule) (target : Nat) :
    (scheduling.wakeSection target).1.Heard schedule := by
  cases poisoned : (scheduling.schedules target).poisoned with
  | true =>
      rw [wakeSection_poisoned poisoned]
      exact heard
  | false =>
      rw [wakeSection_unpoisoned poisoned]
      cases decEq schedule target with
      | isTrue same =>
          subst same
          intro incomplete clean
          change (scheduling.setSchedule schedule _).state schedule ≠ .complete
            at incomplete
          change _ = ((scheduling.setSchedule schedule _).state
            schedule).requested
          rw [state_setSchedule, if_pos rfl] at incomplete ⊢
          have before := heard
          unfold Heard at before
          cases current : scheduling.state schedule with
          | idle => simp [wokenSincePoll, ScheduleState.wake,
              ScheduleState.requested]
          | queued => simp [wokenSincePoll, ScheduleState.wake,
              ScheduleState.requested]
          | running notified =>
              cases notified <;>
                simp [wokenSincePoll, ScheduleState.wake,
                  ScheduleState.requested]
          | complete => simp [current, ScheduleState.wake] at incomplete
      | isFalse different =>
          apply heard.transfer
          · change (scheduling.setSchedule target _).state schedule = _
            rw [state_setSchedule, if_neg different]
          · simp [wokenSincePoll, Ne.symm different]
          · simp [latestPollUnwound]

theorem Heard.sendReady (heard : scheduling.Heard schedule) (target : Nat) :
    (scheduling.sendReady target).Heard schedule := by
  unfold Scheduling.sendReady
  split
  · exact heard.transfer rfl rfl rfl
  · exact heard

theorem Heard.same_states (heard : scheduling.Heard schedule) {target : Nat}
    {changed : TaskSchedule} (same : changed.state = scheduling.state target)
    (sameLog : next.log = scheduling.log)
    (set : next.schedules =
      (scheduling.setSchedule target changed).schedules) :
    next.Heard schedule := by
  apply heard.transfer
  · have sameState : next.state schedule =
        (scheduling.setSchedule target changed).state schedule := by
      unfold state
      rw [set]
    rw [sameState, state_setSchedule]
    split
    · rename_i equal
      rw [same, equal]
    · rfl
  · rw [sameLog]
  · rw [sameLog]

theorem Heard.beginPoll (heard : scheduling.Heard schedule) (target : Nat)
    (entry : ReadyEntry) :
    (scheduling.beginPoll target entry).Heard schedule := by
  by_cases begins : (scheduling.schedules target).poisoned = false ∧
      scheduling.state target = .queued
  · rw [beginPoll_ok begins.1 begins.2]
    cases decEq schedule target with
    | isTrue same =>
        subst same
        intro _ _
        change _ = ((scheduling.setSchedule schedule _).state schedule).requested
        rw [state_setSchedule, if_pos rfl]
        simp [wokenSincePoll, ScheduleState.requested]
    | isFalse different =>
        apply heard.transfer
        · change (scheduling.setSchedule target _).state schedule = _
          rw [state_setSchedule, if_neg different]
        · simp [wokenSincePoll, Ne.symm different]
        · simp [latestPollUnwound, Ne.symm different]
  · rw [not_and_or, Bool.not_eq_false] at begins
    obtain ⟨changed, _, same, failed⟩ := beginPoll_error begins entry
    rw [failed]
    exact heard.same_states same rfl rfl

theorem Heard.finishPoll (heard : scheduling.Heard schedule) (target : Nat)
    (result : Poll Unit) :
    (thenSend (scheduling.finishPoll target result) target).Heard schedule := by
  by_cases finishes : (scheduling.schedules target).poisoned = false ∧
      ∃ notified, scheduling.state target = .running notified
  · obtain ⟨unpoisoned, notified, running⟩ := finishes
    rw [finishPoll_running unpoisoned running]
    cases decEq schedule target with
    | isTrue same =>
        subst same
        intro incomplete clean
        change (scheduling.setSchedule schedule _).state schedule ≠ .complete
          at incomplete
        change _ = ((scheduling.setSchedule schedule _).state schedule).requested
        rw [state_setSchedule, if_pos rfl] at incomplete ⊢
        have before := heard (by simp [running]) clean
        rw [running] at before
        cases result with
        | ready => simp [finished] at incomplete
        | pending =>
            cases notified with
            | true => exact before
            | false => exact before
    | isFalse different =>
        refine heard.transfer ?_ rfl rfl
        change (scheduling.setSchedule target _).state schedule = _
        rw [state_setSchedule, if_neg different]
  · rw [not_and_or, Bool.not_eq_false, not_exists] at finishes
    obtain ⟨changed, _, same, failed⟩ := finishPoll_error finishes result
    rw [failed]
    exact heard.same_states same rfl rfl

theorem Heard.unwind (heard : scheduling.Heard schedule) (target : Nat) :
    Heard { scheduling with log := .unwound target :: scheduling.log }
      schedule := by
  intro incomplete clean
  simp only [latestPollUnwound, Bool.or_eq_false_iff] at clean
  exact heard incomplete clean.2

theorem step_heard {change : ScheduleStep}
    (fresh : scheduling.Fresh)
    (heard : scheduling.Heard schedule)
    (stepped : scheduling.step change = some next) : next.Heard schedule := by
  cases change with
  | remoteWake target =>
      simp only [step, Option.ite_none_right_eq_some, Option.some.injEq] at stepped
      obtain ⟨_, rfl⟩ := stepped
      exact heard.wakeSection target
  | remoteSend target =>
      simp only [step, Option.ite_none_right_eq_some, Option.some.injEq] at stepped
      obtain ⟨_, rfl⟩ := stepped
      exact heard.sendReady target
  | wake target =>
      simp only [step, Option.ite_none_right_eq_some, Option.some.injEq] at stepped
      obtain ⟨_, rfl⟩ := stepped
      exact heard.wakeSection target
  | send =>
      simp only [step] at stepped
      split at stepped
      · rename_i target holds
        cases stepped
        exact heard.sendReady target
      · cases stepped
  | create id =>
      simp only [step, Option.ite_none_right_eq_some, Option.some.injEq] at stepped
      obtain ⟨_, rfl⟩ := stepped
      refine Heard.wakeSection ?_ scheduling.created
      refine heard.transfer ?_ rfl rfl
      change (scheduling.setSchedule _ _).state schedule = _
      rw [state_setSchedule]
      split
      · rename_i same
        have before := fresh schedule (Nat.le_of_eq same.symm)
        exact (congrArg TaskSchedule.state before).symm
      · rfl
  | receive =>
      simp only [step] at stepped
      split at stepped
      · cases stepped
        exact heard.transfer rfl rfl rfl
      · cases stepped
  | reject =>
      simp only [step] at stepped
      split at stepped
      · cases stepped
        exact heard.transfer rfl rfl rfl
      · cases stepped
  | beginPoll target =>
      simp only [step] at stepped
      split at stepped
      · rename_i entry idle holds
        cases stepped
        exact heard.beginPoll target entry
      · cases stepped
  | finishPoll target result =>
      simp only [step, Option.ite_none_right_eq_some, Option.some.injEq] at stepped
      obtain ⟨_, rfl⟩ := stepped
      exact heard.finishPoll target result
  | unwind target =>
      simp only [step, Option.ite_none_right_eq_some, Option.some.injEq] at stepped
      obtain ⟨_, rfl⟩ := stepped
      exact heard.unwind target
  | disconnect =>
      simp only [step, Option.ite_none_right_eq_some, Option.some.injEq] at stepped
      obtain ⟨_, rfl⟩ := stepped
      exact heard.transfer rfl rfl rfl

end Scheduling

end Asyncr
