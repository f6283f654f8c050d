import Asyncr.Executor.Ownership
import Asyncr.Executor.WakeProtocol

namespace Asyncr

namespace Scheduling

variable {scheduling next : Scheduling} {schedule : Nat}

theorem Transition.incomplete {change : ScheduleStep} {before : ScheduleState}
    (transition : Transition schedule change before .complete) :
    before = .complete ∨ change = .finishPoll schedule (.ready ()) := by
  generalize completed : ScheduleState.complete = after at transition
  cases transition with
  | same => exact Or.inl rfl
  | woken =>
      left
      cases before with
      | idle => cases completed
      | queued => cases completed
      | running notified => cases notified <;> cases completed
      | complete => rfl
  | created => cases completed
  | began => cases completed
  | @finished notified result =>
      right
      cases result with
      | ready => rfl
      | pending => cases notified <;> cases completed

theorem step_clean {change : ScheduleStep}
    (stepped : scheduling.step change = some next)
    (clean : latestPollUnwound schedule scheduling.log = false) :
    latestPollUnwound schedule next.log = false ∨ change = .unwind schedule := by
  rcases step_log stepped with same | ⟨_, same⟩ | ⟨_, same⟩ |
    ⟨target, entry, _, _, _, same⟩ | ⟨target, unwinds, same⟩
  · left
    rw [same]
    exact clean
  · left
    rw [same]
    exact clean
  · left
    rw [same]
    exact clean
  · left
    rw [same]
    simp [latestPollUnwound, clean]
  · cases decEq target schedule with
    | isTrue isTarget =>
        subst isTarget
        exact Or.inr unwinds
    | isFalse different =>
        left
        rw [same]
        simp [latestPollUnwound, clean, different]

end Scheduling

namespace Executor

open Scheduling

variable {executor next : Executor} {move : Move} {schedule : Nat}

/-! Between two polls a task is idle or queued, and so is the root of the active
call of `block_on`. -/

/-- A task, or the root that the loop of `block_on` polls. -/
def Unfinished (executor : Executor) (schedule : Nat) : Prop :=
  executor.Owned schedule ∨
    executor.phase.root? = some schedule ∧ executor.phase ≠ .leaving schedule

theorem Owned.sends (owned : executor.Owned schedule)
    (coherent : executor.Coherent) :
    schedule < executor.scheduling.created ∧
      (executor.scheduling.schedules schedule).id ≠ rootTaskId := by
  rcases owned with ⟨task, pending, rfl⟩ | ⟨id, task, found, rfl⟩
  · have sends := coherent.pending task pending
    exact ⟨sends.created, sends.id ▸ sends.notRoot⟩
  · have sends := (coherent.tasks id task found).2
    exact ⟨sends.created, sends.id ▸ sends.notRoot⟩

theorem Unfinished.created (unfinished : executor.Unfinished schedule)
    (coherent : executor.Coherent) : schedule < executor.scheduling.created := by
  rcases unfinished with owned | ⟨isRoot, _⟩
  · exact (owned.sends coherent).1
  · exact (coherent.root schedule isRoot).1

theorem Moved.unfinished_back (moved : Moved executor move next)
    (unfinished : next.Unfinished schedule) :
    executor.Unfinished schedule ∨ schedule = executor.scheduling.created := by
  rcases unfinished with owned | ⟨isRoot, staying⟩
  · exact (moved.owned_back owned).imp_left Or.inl
  · cases moved with
    | blockOn phase change => exact Or.inr (Option.some.inj isRoot).symm
    | remoteWake change | remoteSend change | wake runs change | send change
    | refused runs closed | submitted runs unclosed change
    | cleared phase free pending | destroyed phase free member =>
        exact Or.inl (Or.inr ⟨isRoot, staying⟩)
    | drain phase free | settle phase free | foundEmpty phase free empty
    | tryReceived phase change | received phase change | retry phase
    | began phase taken found begins change | suspended phase finishes change
    | taskReady phase notRoot finishes change =>
        left
        right
        rw [phase]
        refine ⟨isRoot, ?_⟩
        intro other
        cases other
    | rootReady phase finishes change =>
        cases isRoot
        exact absurd rfl staying
    | _ => cases isRoot

theorem Moved.completes (moved : Moved executor move next)
    (coherent : executor.Coherent)
    (complete : next.scheduling.state schedule = .complete) :
    executor.scheduling.state schedule = .complete ∨
      move = .endPoll (.ready ()) ∧
        ∃ root id, executor.phase = .polling root id schedule := by
  rcases moved.change with same | ⟨change, changes, step⟩
  · rw [same] at complete
    exact Or.inl complete
  · have transition := step_transition coherent.addressed.fresh step schedule
    rw [complete] at transition
    rcases transition.incomplete with before | rfl
    · exact Or.inl before
    · right
      cases move with
      | endPoll result =>
          simp only [change?] at changes
          split at changes
          · rename_i root id target phase
            cases changes
            exact ⟨rfl, root, id, phase⟩
          · cases changes
      | dispatch =>
          simp only [change?] at changes
          split at changes
          · split at changes <;> cases changes
          · cases changes
      | panic =>
          simp only [change?] at changes
          split at changes <;> cases changes
      | _ => cases changes

theorem Moved.unwinds (moved : Moved executor move next)
    (unwound : latestPollUnwound schedule next.scheduling.log = true) :
    latestPollUnwound schedule executor.scheduling.log = true ∨
      move = .panic ∧ ∃ root id, executor.phase = .polling root id schedule := by
  rcases moved.change with same | ⟨change, changes, step⟩
  · rw [same] at unwound
    exact Or.inl unwound
  · cases clean : latestPollUnwound schedule executor.scheduling.log with
    | true => exact Or.inl rfl
    | false =>
        right
        rcases step_clean step clean with still | rfl
        · rw [unwound] at still
          cases still
        · cases move with
          | panic =>
              simp only [change?] at changes
              split at changes
              · rename_i root id target phase
                cases changes
                exact ⟨rfl, root, id, phase⟩
              · cases changes
          | dispatch =>
              simp only [change?] at changes
              split at changes
              · split at changes <;> cases changes
              · cases changes
          | endPoll result =>
              simp only [change?] at changes
              split at changes <;> cases changes
          | _ => cases changes

/-- What is still to be polled has not ended. -/
structure Going (executor : Executor) : Prop where
  incomplete : ∀ schedule, executor.Unfinished schedule →
    executor.scheduling.state schedule ≠ .complete
  clean : ∀ schedule, executor.Unfinished schedule →
    latestPollUnwound schedule executor.scheduling.log = false
  created : ∀ schedule,
    latestPollUnwound schedule executor.scheduling.log = true →
    schedule < executor.scheduling.created

theorem going_initial : initial.Going where
  incomplete := by
    intro schedule unfinished complete
    cases complete
  clean := by
    intro schedule unfinished
    rfl
  created := by
    intro schedule unwound
    cases unwound

theorem Going.unended (going : executor.Going) (sound : executor.Sound)
    (after : next.Sound) (apart : executor.Apart)
    (step : executor.step move = some next)
    (unfinished : next.Unfinished schedule) :
    next.scheduling.state schedule ≠ .complete := by
  intro complete
  have moved := moved_of_step step
  rcases moved.completes sound.coherent complete with
    before | ⟨rfl, root, id, phase⟩
  · rcases moved.unfinished_back unfinished with old | rfl
    · exact going.incomplete schedule old before
    · have isFresh := sound.coherent.addressed.fresh _ (Nat.le_refl _)
      simp only [Scheduling.state, isFresh] at before
      cases before
  · obtain ⟨below, isId, _⟩ := sound.coherent.polled root id schedule phase
    have sameId := moved.ids.2 schedule below
    rcases unfinished with owned | ⟨isRoot, staying⟩
    · have notRoot : id ≠ rootTaskId := by
        rw [← isId, ← sameId]
        exact (owned.sends after.coherent).2
      exact (unowned_of_finished sound apart step phase notRoot).1 owned
    · have idRoot := sameId.symm.trans (after.coherent.root schedule isRoot).2
      cases moved with
      | notFinished phased fails change => cases isRoot
      | rootReady phased finishes change =>
          cases isRoot
          exact staying rfl
      | taskReady phased notRoot finishes change =>
          cases phased.symm.trans phase
          exact notRoot (isId.symm.trans idRoot)

theorem Going.step (going : executor.Going) (sound : executor.Sound)
    (after : next.Sound) (apart : executor.Apart) (ends : executor.RootEnds move)
    (step : executor.step move = some next) : next.Going := by
  have moved := moved_of_step step
  refine ⟨?_, ?_, ?_⟩
  · intro schedule unfinished
    exact going.unended sound after apart step unfinished
  · intro schedule unfinished
    by_contra unclean
    rcases moved.unwinds (Bool.of_not_eq_false unclean) with
      before | ⟨rfl, root, id, phase⟩
    · rcases moved.unfinished_back unfinished with old | rfl
      · rw [going.clean schedule old] at before
        cases before
      · exact Nat.lt_irrefl _ (going.created _ before)
    · obtain ⟨below, isId, _⟩ := sound.coherent.polled root id schedule phase
      have idRoot := ends.isRoot phase
      rcases unfinished with owned | ⟨isRoot, _⟩
      · apply (owned.sends after.coherent).2
        rw [moved.ids.2 schedule below, isId, idRoot]
      · cases moved with
        | pollPanicked phased change => cases isRoot
        | wakerPanicked phased free | waitPanicked phased free
        | leavingPanicked phased free | clearingPanicked phased free unfailing
        | tearingPanicked phased free unfailing | droppedPanicked phased free =>
            cases isRoot
  · intro schedule unwound
    apply Nat.lt_of_lt_of_le _ moved.ids.1
    rcases moved.unwinds unwound with before | ⟨_, root, id, phase⟩
    · exact going.created schedule before
    · exact (sound.coherent.polled root id schedule phase).1

theorem Going.waits (going : executor.Going) (sound : executor.Sound)
    (unfinished : executor.Unfinished schedule)
    (unpolled : ∀ root id, executor.phase ≠ .polling root id schedule) :
    executor.scheduling.state schedule = .idle ∨
      executor.scheduling.state schedule = .queued := by
  cases state : executor.scheduling.state schedule with
  | idle => exact Or.inl rfl
  | queued => exact Or.inr rfl
  | running notified =>
      rcases sound.polling.only schedule notified state with
        ⟨root, id, phase⟩ | unwound
      · exact absurd phase (unpolled root id)
      · rw [going.clean schedule unfinished] at unwound
        cases unwound
  | complete => exact absurd state (going.incomplete schedule unfinished)

theorem run_going (reach : machine.Reach RootEnds initial executor)
    (few : executor.spawned < 2 ^ 64 - 1) :
    executor.Sound ∧ executor.Apart ∧ executor.Going := by
  induction reach with
  | refl => exact ⟨sound_initial, apart_initial, going_initial⟩
  | step move _ ends step ih =>
      have moved := moved_of_step step
      obtain ⟨sound, apart, going⟩ := ih (Nat.lt_of_le_of_lt moved.spawned_le few)
      have after := moved.sound sound few
      exact ⟨after, moved.apart sound after apart,
        going.step sound after apart ends step⟩

end Executor

end Asyncr
