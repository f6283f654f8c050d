import Asyncr.Executor.Fifo
import Asyncr.Library.WorkQueue

namespace Asyncr

open Library

/-- What a schedule is for the queue of those that ask to be polled. -/
def ScheduleState.work : ScheduleState → WorkStatus
  | .idle => .resting
  | .queued => .asked
  | .running notified => .serving notified
  | .complete => .retired

theorem ScheduleState.work_wake (state : ScheduleState) :
    state.wake.1.work = state.work.ask := by
  cases state with
  | running notified => cases notified <;> rfl
  | _ => rfl

namespace Scheduling

variable {scheduling next : Scheduling} {work : WorkQueue Nat}

/-! The schedules and their channel implement a queue of work. -/

theorem work_finished (notified : Bool) (result : Poll Unit) :
    (finished notified result).work =
      (WorkStatus.serving notified).finish result.isReady := by
  cases result with
  | ready value => rfl
  | pending => cases notified <;> rfl

/-- The queue is the channel, with the entry that was received and not yet polled. -/
structure Represents (scheduling : Scheduling) (work : WorkQueue Nat) : Prop where
  status : ∀ schedule, work.status schedule = (scheduling.state schedule).work
  queue : work.queue =
    (scheduling.taken.toList ++ scheduling.ready).map ReadyEntry.sender
  served : work.served = (polled scheduling.log).map ReadyEntry.sender

def workStep? (scheduling : Scheduling) : ScheduleStep → Option (WorkStep Nat)
  | .remoteWake schedule | .wake schedule => some (.ask schedule)
  | .create _ => some (.ask scheduling.created)
  | .remoteSend schedule => some (.enter schedule)
  | .send => scheduling.own.map .enter
  | .beginPoll schedule => some (.serve schedule)
  | .finishPoll schedule result => some (.finish schedule result.isReady)
  | .receive | .reject | .unwind _ | .disconnect => none

def Follows (label : Option (WorkStep Nat)) (work after : WorkQueue Nat) : Prop :=
  match label with
  | none => after = work
  | some label => WorkQueue.machine.step work label = some after

theorem represents_initial : initial.Represents WorkQueue.initial where
  status := fun _ => rfl
  queue := rfl
  served := rfl

theorem Represents.unique {other : WorkQueue Nat} (first : scheduling.Represents work)
    (second : scheduling.Represents other) : work = other := by
  obtain ⟨status, queue, served⟩ := first
  obtain ⟨otherStatus, otherQueue, otherServed⟩ := second
  have same : work.status = other.status := by
    funext schedule
    rw [status, otherStatus]
  cases work
  cases other
  simp only at same queue otherQueue served otherServed
  subst same
  rw [← otherQueue] at queue
  rw [← otherServed] at served
  subst queue
  subst served
  rfl

theorem Represents.changed (represents : scheduling.Represents work) {target : Nat}
    {changed : TaskSchedule} {status : WorkStatus} (same : changed.state.work = status)
    (schedule : Nat) :
    Function.update work.status target status schedule =
      ((scheduling.setSchedule target changed).state schedule).work := by
  rw [state_setSchedule]
  by_cases isTarget : schedule = target
  · rw [isTarget, Function.update_self, if_pos rfl, same]
  · rw [Function.update_of_ne isTarget, if_neg isTarget]
    exact represents.status schedule

theorem Represents.wakeSection (represents : scheduling.Represents work) {target : Nat}
    (unpoisoned : (scheduling.schedules target).poisoned = false) :
    (scheduling.wakeSection target).1.Represents (work.ask target) := by
  rw [wakeSection_unpoisoned unpoisoned]
  refine ⟨?_, represents.queue, represents.served⟩
  intro schedule
  rw [WorkQueue.status_ask, represents.status target]
  exact represents.changed (ScheduleState.work_wake _) schedule

theorem Represents.sends (represents : scheduling.Represents work) {target : Nat}
    (balanced : scheduling.Balanced target)
    (sending : target ∈ scheduling.sending ∨ scheduling.own = some target) :
    work.status target = .asked ∧ target ∉ work.queue := by
  have count := balanced.count
  rw [count_inFlight] at count
  have present :
      0 < scheduling.sending.count target + scheduling.own.toList.count target := by
    rcases sending with remote | own
    · have positive := List.count_pos_iff.mpr remote
      omega
    · rw [own]
      simp
  have queued : scheduling.state target = .queued := by
    by_contra other
    rw [if_neg other] at count
    omega
  refine ⟨?_, ?_⟩
  · rw [represents.status, queued]
    rfl
  · rw [represents.queue, List.map_append, List.mem_append, not_or,
      ← List.count_eq_zero, ← List.count_eq_zero]
    rw [if_pos queued] at count
    omega

theorem Represents.sendReady (represents : scheduling.Represents work) {target : Nat}
    (connected : scheduling.connected = true)
    (entered : work.status target = .asked ∧ target ∉ work.queue) :
    (scheduling.sendReady target).Represents
      (work.enter target entered.1 entered.2) := by
  have sent := sendReady_ready connected target
  unfold Scheduling.sendReady at *
  rw [if_pos connected] at *
  refine ⟨represents.status, ?_, represents.served⟩
  change work.queue ++ [target] = _
  rw [represents.queue]
  simp

theorem Represents.step (represents : scheduling.Represents work) {change : ScheduleStep}
    (stepped : scheduling.step change = some next) (serves : scheduling.Serves change)
    (connected : scheduling.connected = true) (fresh : scheduling.Fresh)
    (balanced : ∀ schedule, scheduling.Balanced schedule)
    (unpoisoned : ∀ schedule, (scheduling.schedules schedule).poisoned = false)
    (running : ∀ schedule result, change = .finishPoll schedule result →
      ∃ notified, scheduling.state schedule = .running notified) :
    ∃ after, Follows (scheduling.workStep? change) work after ∧
      next.Represents after := by
  cases change with
  | remoteWake target =>
      simp only [Scheduling.step, Option.ite_none_right_eq_some,
        Option.some.injEq] at stepped
      obtain ⟨_, rfl⟩ := stepped
      obtain ⟨status, queue, served⟩ := represents.wakeSection (unpoisoned target)
      exact ⟨_, rfl, status, queue, served⟩
  | remoteSend target =>
      simp only [Scheduling.step, Option.ite_none_right_eq_some,
        Option.some.injEq] at stepped
      obtain ⟨member, rfl⟩ := stepped
      have entered := represents.sends (balanced target) (Or.inl member)
      obtain ⟨status, queue, served⟩ := represents.sendReady connected entered
      exact ⟨_, WorkQueue.step_iff.mpr (.entered entered.1 entered.2), status, queue,
        served⟩
  | wake target =>
      simp only [Scheduling.step, Option.ite_none_right_eq_some,
        Option.some.injEq] at stepped
      obtain ⟨_, rfl⟩ := stepped
      obtain ⟨status, queue, served⟩ := represents.wakeSection (unpoisoned target)
      exact ⟨_, rfl, status, queue, served⟩
  | send =>
      simp only [Scheduling.step] at stepped
      split at stepped
      · rename_i target own
        cases stepped
        have entered := represents.sends (balanced target) (Or.inr own)
        obtain ⟨status, queue, served⟩ := represents.sendReady connected entered
        refine ⟨work.enter target entered.1 entered.2, ?_, status, queue, served⟩
        unfold workStep?
        rw [own]
        exact WorkQueue.step_iff.mpr (.entered entered.1 entered.2)
      · cases stepped
  | create id =>
      simp only [Scheduling.step, Option.ite_none_right_eq_some,
        Option.some.injEq] at stepped
      obtain ⟨_, rfl⟩ := stepped
      have created : Represents
          { scheduling.setSchedule scheduling.created (TaskSchedule.new id) with
            created := scheduling.created + 1 } work := by
        refine ⟨?_, represents.queue, represents.served⟩
        intro schedule
        rw [represents.status]
        refine congrArg ScheduleState.work ?_
        change _ = (scheduling.setSchedule scheduling.created (TaskSchedule.new id)).state
          schedule
        rw [state_setSchedule]
        split
        · rename_i same
          unfold Scheduling.state
          rw [fresh schedule (Nat.le_of_eq same.symm)]
          rfl
        · rfl
      have still : (Scheduling.schedules
          { scheduling.setSchedule scheduling.created (TaskSchedule.new id) with
            created := scheduling.created + 1 } scheduling.created).poisoned = false := by
        change ((scheduling.setSchedule scheduling.created (TaskSchedule.new id)).schedules
          scheduling.created).poisoned = false
        rw [poisoned_setSchedule, if_pos rfl]
        rfl
      obtain ⟨status, queue, served⟩ := created.wakeSection still
      exact ⟨_, rfl, status, queue, served⟩
  | receive =>
      obtain ⟨entry, rest, ready, _, taken, rfl⟩ := step_receive stepped
      refine ⟨work, rfl, represents.status, ?_, represents.served⟩
      rw [represents.queue, taken, ready]
      rfl
  | reject => exact serves.elim
  | beginPoll target =>
      obtain ⟨entry, taken, _, rfl⟩ := step_beginPoll stepped
      obtain ⟨queued, free, own⟩ := serves
      have front : work.queue.head? = some target := by
        rw [represents.queue, taken]
        exact congrArg some (own entry taken)
      refine ⟨work.serve target front, WorkQueue.step_iff.mpr (.served front), ?_⟩
      rw [beginPoll_ok free queued]
      refine ⟨?_, ?_, ?_⟩
      · intro schedule
        exact represents.changed (by rfl) schedule
      · change work.queue.tail = _
        rw [represents.queue, taken]
        rfl
      · change work.served ++ [target] = _
        rw [represents.served, ← own entry taken]
        simp [polled]
  | finishPoll target result =>
      simp only [Scheduling.step, Option.ite_none_right_eq_some,
        Option.some.injEq] at stepped
      obtain ⟨_, rfl⟩ := stepped
      obtain ⟨notified, isRunning⟩ := running target result rfl
      have status : work.status target = .serving notified := by
        rw [represents.status, isRunning]
        rfl
      have serving : (work.status target).serves = true := by
        rw [status]
        rfl
      refine ⟨work.finish target serving result.isReady,
        WorkQueue.step_iff.mpr (.finished serving _), ?_⟩
      rw [finishPoll_running (unpoisoned target) isRunning]
      refine ⟨?_, represents.queue, represents.served⟩
      intro schedule
      rw [WorkQueue.status_finish, status]
      exact represents.changed (work_finished notified result) schedule
  | unwind target =>
      simp only [Scheduling.step, Option.ite_none_right_eq_some,
        Option.some.injEq] at stepped
      obtain ⟨_, rfl⟩ := stepped
      exact ⟨work, rfl, represents.status, represents.queue, represents.served⟩
  | disconnect => exact serves.elim

end Scheduling

namespace Executor

open Scheduling

variable {executor next : Executor} {work : WorkQueue Nat}

def workStep? (executor : Executor) (move : Move) : Option (WorkStep Nat) :=
  if move = .spawn ∧ executor.closed = true then
    none
  else
    (executor.change? move).bind executor.scheduling.workStep?

theorem Moved.queues {move : Move} (moved : Moved executor move next)
    (sound : executor.Sound) (kept : executor.Kept) (ends : executor.RootEnds move)
    (alive : next.phase ≠ .dropped) (represents : executor.scheduling.Represents work) :
    ∃ after, Follows (executor.workStep? move) work after ∧
      next.scheduling.Represents after := by
  have living : executor.phase ≠ .dropped := fun dropped => alive (moved.dropped dropped)
  have changes : ∀ {change : ScheduleStep}, executor.change? move = some change →
      executor.scheduling.step change = some next.scheduling →
      (move = .spawn → executor.closed = false) →
      (∀ schedule result, change = .finishPoll schedule result →
        ∃ root id, executor.phase = .polling root id schedule) →
      ∃ after, Follows (executor.workStep? move) work after ∧
        next.scheduling.Represents after := by
    intro change takes stepped unrefused polling
    have isStep : executor.workStep? move = executor.scheduling.workStep? change := by
      unfold Executor.workStep?
      rw [takes, if_neg]
      · rfl
      · rintro ⟨isSpawn, closed⟩
        rw [unrefused isSpawn] at closed
        cases closed
    rw [isStep]
    apply represents.step stepped (moved.serves sound kept ends alive takes)
      (sound.polling.connected living) sound.coherent.addressed.fresh
      (kept.balanced living) kept.unpoisoned
    intro schedule result finishes
    obtain ⟨root, id, phase⟩ := polling schedule result finishes
    exact sound.polling.running root id schedule phase
  cases moved with
  | remoteWake change | remoteSend change | wake runs change | send change
  | blockOn phase change | tryReceived phase change | received phase change
  | released phase empty change | leaked phase change =>
      exact changes rfl change (by simp) (by simp)
  | submitted runs unclosed change =>
      exact changes rfl change (fun _ => unclosed) (by simp)
  | refused runs closed =>
      refine ⟨work, ?_, represents⟩
      unfold Executor.workStep?
      rw [if_pos ⟨rfl, closed⟩]
      rfl
  | notAdmitted phase taken missing change =>
      exact changes (by simp [change?, phase, taken, missing]) change (by simp)
        (by simp)
  | notBegun phase taken found fails change | began phase taken found begins change =>
      exact changes (by simp [change?, phase, taken, found]) change (by simp)
        (by simp)
  | notFinished phase fails change | suspended phase finishes change
  | rootReady phase finishes change | taskReady phase notRoot finishes change =>
      refine changes (by simp [change?, phase]) change (by simp) ?_
      rintro schedule result ⟨⟩
      exact ⟨_, _, phase⟩
  | pollPanicked phase change =>
      exact changes (by simp [change?, phase]) change (by simp) (by simp)
  | wakerPanicked phase free | waitPanicked phase free | leavingPanicked phase free
  | clearingPanicked phase free unfailing | tearingPanicked phase free unfailing
  | droppedPanicked phase free =>
      refine ⟨work, ?_, represents⟩
      simp [Follows, Executor.workStep?, change?, phase]
  | drain phase free | settle phase free | foundEmpty phase free empty | retry phase
  | unwound phase free | left phase free | closed phase free
  | cleared phase free pending | torn phase free pending
  | destroyed phase free member => exact ⟨work, rfl, represents⟩

/-- A run of the executor is a run of the queue. -/
theorem run_queues {before after : Executor} (sound : before.Sound) (kept : before.Kept)
    (onward : machine.Reach RootEnds before after) (few : after.spawned < 2 ^ 64 - 1)
    (represents : before.scheduling.Represents work) (alive : after.phase ≠ .dropped) :
    ∃ later, after.scheduling.Represents later ∧
      WorkQueue.machine.Reach Machine.Any work later := by
  have start : before.Kept ∧ (before.phase ≠ .dropped →
      ∃ later, before.scheduling.Represents later ∧
        WorkQueue.machine.Reach Machine.Any work later) :=
    ⟨kept, fun _ => ⟨work, represents, .refl⟩⟩
  have kept : after.Sound ∧ after.Kept ∧ (after.phase ≠ .dropped →
      ∃ later, after.scheduling.Represents later ∧
        WorkQueue.machine.Reach Machine.Any work later) := by
    apply run_invariant onward few sound start
    rintro executor move next sound ⟨kept, reached⟩ ends moved _
    refine ⟨kept.step sound ends moved, fun living => ?_⟩
    obtain ⟨earlier, present, reach⟩ := reached fun dropped =>
      living (moved.dropped dropped)
    obtain ⟨later, follows, now⟩ := moved.queues sound kept ends living present
    refine ⟨later, now, ?_⟩
    unfold Follows at follows
    split at follows
    · rw [follows]
      exact reach
    · exact .step _ reach trivial follows
  obtain ⟨_, _, reached⟩ := kept
  exact reached alive

/-- Threads, schedules, the ready channel and the loop of `block_on` together are a
queue of work: no key is in it twice, it is served in order, and whoever asks while it
is served is served again.  Each move is the step of the queue that it stands for. -/
theorem executor_is_work_queue (reach : machine.Reach RootEnds initial executor)
    (few : executor.spawned < 2 ^ 64 - 1) (alive : executor.phase ≠ .dropped) :
    (∃ work, executor.scheduling.Represents work ∧
      WorkQueue.machine.Reach Machine.Any WorkQueue.initial work) ∧
    (∀ work move next, executor.scheduling.Represents work → executor.RootEnds move →
      machine.step executor move = some next → next.phase ≠ .dropped →
      ∃ after, Follows (executor.workStep? move) work after ∧
        next.scheduling.Represents after) ∧
    ∀ work after later, executor.scheduling.Represents work →
      machine.Reach RootEnds executor after → after.spawned < 2 ^ 64 - 1 →
      after.scheduling.Represents later → after.phase ≠ .dropped →
      WorkQueue.machine.Reach Machine.Any work later := by
  obtain ⟨sound, kept⟩ := run_kept reach few
  refine ⟨run_queues sound_initial kept_initial reach few represents_initial alive,
    ?_, ?_⟩
  · intro work move next represents ends step living
    exact (moved_of_step step).queues sound kept ends living represents
  · intro work after later represents onward fewer present living
    obtain ⟨other, there, reached⟩ :=
      run_queues sound kept onward fewer represents living
    rw [present.unique there]
    exact reached

/-- A task is woken while it is polled, and waits behind the one that was spawned. -/
def requeuedMoves : List Move :=
  [.spawn, .send, .spawn, .send, .blockOn, .send, .drain, .settle, .tryRecv, .dispatch,
    .remoteWake 0, .endPoll .pending, .send]

def requeued : Executor :=
  (machine.run RootEnds initial requeuedMoves).getD initial

theorem executor_is_work_queue_requeued :
    ∃ work : WorkQueue Nat,
      requeued.scheduling.Represents work ∧ work.queue = [1, 2, 0] ∧
      work.served = [0] ∧ work.queue.Nodup := by
  have ran : machine.run RootEnds initial requeuedMoves = some requeued := rfl
  obtain ⟨⟨work, represents, _⟩, _⟩ :=
    executor_is_work_queue (Machine.reach_of_run ran) (by decide) (by decide)
  exact ⟨work, represents, represents.queue, represents.served, work.once⟩

end Executor

end Asyncr
