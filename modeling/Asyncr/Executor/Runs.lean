import Asyncr.Executor.Balance
import Asyncr.Executor.Spawns
import Asyncr.Scheduling.Order

namespace Asyncr

namespace Executor

open Library
open Scheduling

variable {executor next : Executor}

/-! What holds in every run of the executor, and what holds besides while it has
spawned fewer than `2 ^ 64 - 1` tasks. -/

structure Steady (executor : Executor) : Prop where
  coherent : executor.Coherent
  polling : executor.Polling
  heard : ∀ schedule, executor.scheduling.Heard schedule
  entered : executor.Entered
  closing : executor.Closing

structure Sound (executor : Executor) : Prop extends Steady executor where
  numbered : executor.Numbered

theorem steady_initial : initial.Steady :=
  ⟨coherent_initial, polling_initial, heard_initial, entered_initial, rfl⟩

theorem sound_initial : initial.Sound :=
  ⟨steady_initial, numbered_initial⟩

theorem Moved.heard {move : Move} (moved : Moved executor move next)
    (coherent : executor.Coherent) {schedule : Nat}
    (heard : executor.scheduling.Heard schedule) :
    next.scheduling.Heard schedule := by
  rcases moved.change with same | ⟨change, _, stepped⟩
  · rw [same]
    exact heard
  · exact step_heard coherent.addressed.fresh heard stepped

theorem Moved.steady {move : Move} (moved : Moved executor move next)
    (steady : executor.Steady) : next.Steady :=
  ⟨moved.coherent steady.coherent,
    moved.polling steady.coherent steady.polling,
    fun schedule => moved.heard steady.coherent (steady.heard schedule),
    moved.entered steady.polling steady.entered, moved.closing steady.closing⟩

theorem Moved.sound {move : Move} (moved : Moved executor move next)
    (sound : executor.Sound) (few : next.spawned < 2 ^ 64 - 1) : next.Sound :=
  ⟨moved.steady sound.toSteady,
    moved.numbered sound.coherent sound.numbered few⟩

theorem run_steady {allowed : Executor → Move → Prop}
    (reach : machine.Reach allowed initial executor) : executor.Steady := by
  apply reach.invariant steady_initial
  intro executor move next steady _ stepped
  exact (moved_of_step stepped).steady steady

theorem run_spawned_le {allowed : Executor → Move → Prop} {start : Executor}
    (reach : machine.Reach allowed start executor) :
    start.spawned ≤ executor.spawned := by
  induction reach with
  | refl => exact Nat.le_refl _
  | step move _ _ stepped ih =>
      exact Nat.le_trans ih (moved_of_step stepped).spawned_le

theorem run_invariant {allowed : Executor → Move → Prop} {start : Executor}
    (reach : machine.Reach allowed start executor)
    (few : executor.spawned < 2 ^ 64 - 1) (sound : start.Sound)
    {holds : Executor → Prop} (initially : holds start)
    (preserved : ∀ executor move next, executor.Sound → holds executor →
      allowed executor move → Moved executor move next → next.Sound →
      holds next) : executor.Sound ∧ holds executor := by
  induction reach with
  | refl => exact ⟨sound, initially⟩
  | step move _ accepted stepped ih =>
      have moved := moved_of_step stepped
      obtain ⟨before, held⟩ := ih (Nat.lt_of_le_of_lt moved.spawned_le few)
      have after := moved.sound before few
      exact ⟨after, preserved _ _ _ before held accepted moved after⟩

theorem Moved.dropped {move : Move} (moved : Moved executor move next)
    (dropped : executor.phase = .dropped) : next.phase = .dropped := by
  cases moved with
  | remoteWake change => exact dropped
  | remoteSend change => exact dropped
  | wake runs change => exact dropped
  | send change => exact dropped
  | refused runs closed => exact dropped
  | submitted runs unclosed change => exact dropped
  | droppedPanicked phase free => rfl
  | released phase empty change => rfl
  | leaked phase change => rfl
  | blockOn phase _ | drain phase _ | settle phase _ | foundEmpty phase _ _
  | tryReceived phase _ | received phase _ | retry phase
  | notAdmitted phase _ _ _ | notBegun phase _ _ _ _ | began phase _ _ _ _
  | notFinished phase _ _ | suspended phase _ _ | rootReady phase _ _
  | taskReady phase _ _ _ | pollPanicked phase _ | wakerPanicked phase _
  | waitPanicked phase _ | leavingPanicked phase _ | clearingPanicked phase _ _
  | tearingPanicked phase _ _ | unwound phase _ | left phase _ | closed phase _
  | cleared phase _ _ | torn phase _ _ | destroyed phase _ _ =>
      rw [dropped] at phase
      cases phase

theorem queued_of_taken {scheduling : Scheduling} {entry : ReadyEntry}
    (balanced : scheduling.Balanced entry.sender)
    (taken : scheduling.taken = some entry) :
    scheduling.state entry.sender = .queued := by
  have count := balanced.count
  rw [count_inFlight, taken] at count
  by_contra other
  rw [if_neg other] at count
  simp at count

theorem begins_of_queued {schedule : TaskSchedule}
    (unpoisoned : schedule.poisoned = false) (queued : schedule.state = .queued) :
    schedule.beginPoll.2 = .ok () := by
  simp [TaskSchedule.beginPoll, unpoisoned, queued, ScheduleState.beginPoll]

theorem begins_of_balanced {scheduling : Scheduling} {entry : ReadyEntry}
    (balanced : scheduling.Balanced entry.sender)
    (taken : scheduling.taken = some entry) :
    (scheduling.schedules entry.sender).beginPoll.2 = .ok () := by
  have queued := queued_of_taken balanced taken
  apply begins_of_queued _ queued
  cases poisoned : (scheduling.schedules entry.sender).poisoned with
  | false => rfl
  | true => exact absurd queued (balanced.lock poisoned)

theorem Polling.finishes (polling : executor.Polling) {root target : Nat} {id : Id}
    (polled : executor.phase = .polling root id target) (result : Poll Unit) :
    ∃ action, ((executor.scheduling.schedules target).finishPoll result).2 =
      .ok action := by
  obtain ⟨notified, running⟩ := polling.running root id target polled
  have unpoisoned := polling.unpoisoned root id target polled
  have isRunning : (executor.scheduling.schedules target).state =
      .running notified := running
  cases result with
  | ready => simp [TaskSchedule.finishPoll, unpoisoned, isRunning,
      ScheduleState.finishPoll]
  | pending =>
      cases notified with
      | true => simp [TaskSchedule.finishPoll, unpoisoned, isRunning,
          ScheduleState.finishPoll]
      | false => simp [TaskSchedule.finishPoll, unpoisoned, isRunning,
          ScheduleState.finishPoll]

theorem Polling.finished_state (polling : executor.Polling) {root target : Nat}
    {id : Id} (polled : executor.phase = .polling root id target)
    {result : Poll Unit} {scheduling : Scheduling}
    (stepped : executor.scheduling.step (.finishPoll target result) =
      some scheduling) :
    ∃ notified, scheduling.state target = Scheduling.finished notified result := by
  obtain ⟨notified, running⟩ := polling.running root id target polled
  have unpoisoned := polling.unpoisoned root id target polled
  simp only [Scheduling.step, Option.ite_none_right_eq_some,
    Option.some.injEq] at stepped
  obtain ⟨_, rfl⟩ := stepped
  rw [finishPoll_running unpoisoned running]
  exact ⟨notified, (state_setSchedule _ _ _ _).trans (if_pos rfl)⟩

theorem Moved.begins {move : Move} (moved : Moved executor move next)
    {target : Nat} {entry : ReadyEntry}
    (taken : executor.scheduling.taken = some entry)
    (takes : executor.change? move = some (.beginPoll target)) :
    move = .dispatch ∧ ∃ root, executor.phase = .dispatching root ∧
      executor.target? root entry.id = some target := by
  cases moved with
  | notAdmitted phase holds missing change =>
      simp [change?, phase, holds, missing] at takes
  | @notBegun root _ _ _ _ phase holds found fails change
  | @began root _ _ _ phase holds found begins change =>
      obtain rfl := Option.some.inj (taken.symm.trans holds)
      simp only [change?, phase, holds, found, Option.some.injEq,
        ScheduleStep.beginPoll.injEq] at takes
      subst takes
      exact ⟨rfl, root, phase, found⟩
  | notFinished phase _ _ | suspended phase _ _ | rootReady phase _ _
  | taskReady phase _ _ _ | pollPanicked phase _ =>
      simp [change?, phase] at takes
  | wakerPanicked phase _ | waitPanicked phase _ | leavingPanicked phase _
  | clearingPanicked phase _ _ | tearingPanicked phase _ _ | droppedPanicked phase _ =>
      simp [change?, phase] at takes
  | _ => cases takes

theorem Moved.unpoisoned {move : Move} (moved : Moved executor move next)
    (polling : executor.Polling) {schedule : Nat}
    (unpoisoned : (executor.scheduling.schedules schedule).poisoned = false)
    (begins : move = .dispatch → ∀ root entry,
      executor.phase = .dispatching root →
      executor.scheduling.taken = some entry →
      executor.target? root entry.id = some schedule →
      executor.scheduling.state schedule = .queued) :
    (next.scheduling.schedules schedule).poisoned = false := by
  rcases moved.change with same | ⟨change, takes, stepped⟩
  · rw [same]
    exact unpoisoned
  · apply step_unpoisoned stepped unpoisoned
    · rintro rfl
      obtain ⟨entry, taken, _⟩ := step_beginPoll stepped
      obtain ⟨dispatch, root, phase, found⟩ := moved.begins taken takes
      exact begins dispatch root entry phase taken found
    · rintro result rfl
      cases move with
      | endPoll =>
          simp only [change?] at takes
          split at takes
          · rename_i root id target phase
            cases takes
            exact polling.running root id schedule phase
          · cases takes
      | dispatch =>
          simp only [change?] at takes
          split at takes
          · split at takes <;> cases takes
          · cases takes
      | panic =>
          simp only [change?] at takes
          split at takes <;> cases takes
      | _ => cases takes

end Executor

end Asyncr
