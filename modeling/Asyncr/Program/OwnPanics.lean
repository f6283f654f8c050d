import Asyncr.Executor.Fifo
import Asyncr.Program.Containment
import Asyncr.Time.SleepRuns

namespace Asyncr

namespace World

open Library
open Time

variable {Output : Type} {world next : World Output} {label : Label Output}
  {clock : Clock} {os : Instant}

/-! The panics that the runtime itself can raise. -/

def panicOf {α : Type} : Except Panic α → Option Panic
  | .ok _ => none
  | .error panic => some panic

def wakeRaises (world : World Output) (schedule : Nat) : Option Panic :=
  panicOf ((world.executor.scheduling.schedules schedule).wake).2

/-- `poll_task` and the first critical section of `TaskSchedule::poll`. -/
def dispatchRaises (world : World Output) : Option Panic :=
  match world.executor.phase, world.executor.scheduling.taken with
  | .dispatching root, some entry =>
      match world.executor.target? root entry.id with
      | none => some .notAdmitted
      | some target => panicOf ((world.executor.scheduling.schedules target).beginPoll).2
  | _, _ => none

def finishRaises (world : World Output) (result : Poll Unit) : Option Panic :=
  match world.executor.phase with
  | .polling _ _ target =>
      panicOf ((world.executor.scheduling.schedules target).finishPoll result).2
  | _ => none

def frameRaises (world : World Output) : Option Panic :=
  match world.stack with
  | .fire (.task schedule) :: _ | .wake _ (.task schedule) :: _ =>
      world.wakeRaises schedule
  | .publish join result :: _ =>
      (world.joins join).bind fun cell => panicOf (cell.state.complete result)
  | _ => none

def planRaises (world : World Output) : Option Panic :=
  match world.time.call .nextDeadline with
  | some (_, .deadline (some deadline)) =>
      if world.clock.isPaused then panicOf (world.clock.advanceTo deadline) else none
  | _ => none

/-- The panic that a step raises in code of the runtime, if it raises one. -/
def raises (world : World Output) : Label Output → Option Panic
  | .executor (.wake schedule) | .executor (.remoteWake schedule) =>
      world.wakeRaises schedule
  | .dispatch => world.dispatchRaises
  | .yield .pending => world.finishRaises .pending
  | .rootYield result => world.finishRaises result
  | .finish => world.finishRaises (.ready ())
  | .proceed => world.frameRaises
  | .plan => world.planRaises
  | .pollJoin join waker =>
      (world.joins join).bind fun cell => panicOf (cell.state.poll waker).2
  | .timer call =>
      match world.time.call call with
      | some (_, .polled result) => panicOf result
      | _ => none
  | .clock call => panicOf (world.clock.call world.os call)
  | _ => none

/-- No handle is polled once it has yielded, and no test pauses the clock. -/
def Proper (world : World Output) : Label Output → Prop
  | .pollJoin join _ => ∀ result, .yielded join result ∉ world.log
  | .clock _ => False
  | _ => True

/-- Only a poll of the handle consumes a result. -/
def OnlyYielded (world : World Output) : Prop :=
  ∀ join cell, world.joins join = some cell → cell.state = .consumed →
    ∃ result, .yielded join result ∈ world.log

theorem Effect.consumed_back (effect : Effect world next) {join : JoinRef}
    {cell : JoinCell Output} (found : next.joins join = some cell)
    (consumed : cell.state = .consumed) :
    (∃ old, world.joins join = some old ∧ old.state = .consumed) ∨
      ∃ result, next.log = .yielded join result :: world.log := by
  cases effect with
  | same joins _ _ | ended _ joins _ _ _ | discarded _ joins _ _ _ =>
      exact Or.inl ⟨cell, joins ▸ found, consumed⟩
  | @kept _ before _ old joins sender handled published released =>
      rcases found_updated joins found with ⟨rfl, rfl⟩ | ⟨_, other⟩
      · generalize state : before.state = earlier at handled
        rw [consumed] at handled
        cases handled with
        | same => exact Or.inl ⟨before, old, state⟩
        | yielded log => exact Or.inr ⟨_, log⟩
      · exact Or.inl ⟨cell, other, consumed⟩
  | spawned unclosed step joins stack
  | refused closed same counted joins published released
  | published before state joins same stack published released =>
      rcases found_updated joins found with ⟨rfl, rfl⟩ | ⟨_, other⟩
      · cases consumed
      · exact Or.inl ⟨cell, other, consumed⟩
  | released before joins same published released =>
      rcases found_updated joins found with ⟨rfl, rfl⟩ | ⟨_, other⟩
      · exact Or.inl ⟨_, before, consumed⟩
      · exact Or.inl ⟨cell, other, consumed⟩

theorem OnlyYielded.step (only : world.OnlyYielded) (stepped : Stepped world label next)
    (orderly : world.Orderly) : next.OnlyYielded := by
  intro join cell found consumed
  rcases (orderly.effect stepped).consumed_back found consumed with
    ⟨old, before, was⟩ | ⟨result, log⟩
  · obtain ⟨result, member⟩ := only join old before was
    exact ⟨result, stepped.log_stays member⟩
  · exact ⟨result, log ▸ List.mem_cons_self⟩

theorem run_onlyYielded {allowed : World Output → Label Output → Prop}
    (reach : machine.Reach allowed (initial clock os) world)
    (few : world.executor.spawned < 2 ^ 64 - 1) : world.OnlyYielded := by
  have initially : (initial clock os : World Output).OnlyYielded := by
    intro join cell found
    cases found
  have both := run_invariant reach few orderly_initial initially
    fun _ _ _ orderly only _ stepped _ => only.step stepped orderly
  exact both.2

theorem panicOf_eq_none {α : Type} {outcome : Except Panic α}
    (succeeds : ∃ value, outcome = .ok value) : panicOf outcome = none := by
  obtain ⟨value, rfl⟩ := succeeds
  rfl

/-! Where none is raised. -/

theorem wake_raises_nothing (kept : world.executor.Kept) (schedule : Nat) :
    world.wakeRaises schedule = none := by
  unfold wakeRaises TaskSchedule.wake
  rw [kept.unpoisoned schedule]
  rfl

theorem dispatch_raises_nothing (sound : world.executor.Sound)
    (kept : world.executor.Kept) (admission : world.executor.Admission) :
    world.dispatchRaises = none := by
  unfold dispatchRaises
  split
  · rename_i root entry phase taken
    obtain ⟨target, found⟩ := admission.target phase taken
    rw [found]
    exact panicOf_eq_none ⟨(), (kept.begins sound phase taken found).2⟩
  · rfl

theorem finish_raises_nothing (sound : world.executor.Sound) (result : Poll Unit) :
    world.finishRaises result = none := by
  unfold finishRaises
  split
  · rename_i root id target phase
    exact panicOf_eq_none (sound.polling.finishes phase result)
  · rfl

theorem frame_raises_nothing (kept : world.executor.Kept) (cells : world.Cells) :
    world.frameRaises = none := by
  unfold frameRaises
  split
  · exact wake_raises_nothing kept _
  · exact wake_raises_nothing kept _
  · rename_i join result rest stack
    cases found : world.joins join with
    | none => rfl
    | some cell => exact panicOf_eq_none (cells.completes stack found)
  · rfl

theorem plan_raises_nothing (contained : world.Contained .plan) :
    world.planRaises = none := by
  unfold planRaises
  split
  · rename_i time deadline found
    split
    · rename_i paused
      exact panicOf_eq_none (contained.plan found paused)
    · rfl
  · rfl

theorem timer_raises_nothing (coupled : world.time.Coupled) (call : SleepCall Waker) :
    world.raises (.timer call) = none := by
  simp only [raises]
  split
  · rename_i time result called
    cases result with
    | ok ready => rfl
    | error panic => exact absurd rfl ((coupled.outcome called).no_panic panic)
  · rfl

theorem pollJoin_raises_nothing (only : world.OnlyYielded) {join : JoinRef}
    {waker : Waker} (proper : world.Proper (.pollJoin join waker)) :
    world.raises (.pollJoin join waker) = none := by
  simp only [raises]
  cases found : world.joins join with
  | none => rfl
  | some cell =>
      cases state : cell.state with
      | pending stored | ready result =>
          rw [Option.bind_some, state]
          rfl
      | consumed =>
          obtain ⟨result, yielded⟩ := only join cell found state
          exact absurd yielded (proper result)

/-- The runtime raises no panic of its own and poisons no mutex, as long as no panic of
a waker, of a destructor or of a task leaves `block_on`, no waker that `process_expired`
calls spawns into an empty channel, and no handle is polled after it has yielded. -/
theorem runtime_raises_nothing (reach : machine.Reach Contained (initial clock os) world)
    (few : world.executor.spawned < 2 ^ 64 - 1) (timed : world.time.registered < 2 ^ 64)
    (contained : world.Contained label) (proper : world.Proper label) :
    world.raises label = none ∧
      ∀ schedule, (world.executor.scheduling.schedules schedule).poisoned = false := by
  have tidy := run_tidy reach few
  obtain ⟨kept, admission⟩ := tidy.ended.kept few
  have sound := tidy.orderly.sound
  refine ⟨?_, kept.unpoisoned⟩
  cases label with
  | executor move =>
      cases move with
      | wake schedule | remoteWake schedule => exact wake_raises_nothing kept schedule
      | _ => rfl
  | timer call =>
      have start : (Timers.initial (clock.now os) : Timers Waker).Coupled :=
        Timers.coupled_initial _
      exact timer_raises_nothing (Timers.run_coupled (timers_reach reach) timed start) call
  | pollJoin join waker => exact pollJoin_raises_nothing (run_onlyYielded reach few) proper
  | yield result =>
      cases result with
      | pending => exact finish_raises_nothing sound .pending
      | ready value => rfl
  | rootYield result => exact finish_raises_nothing sound result
  | finish => exact finish_raises_nothing sound (.ready ())
  | proceed => exact frame_raises_nothing kept tidy.orderly.cells
  | plan => exact plan_raises_nothing contained
  | dispatch => exact dispatch_raises_nothing sound kept admission
  | clock call => exact proper.elim
  | _ => rfl

/-- A spawned future has panicked in its first poll, which is about to end. -/
def finishingPanic : World Nat :=
  (machine.run Contained (initial (Clock.new 0) 0) caughtLabels.dropLast).getD
    (initial (Clock.new 0) 0)

theorem runtime_raises_nothing_finishing :
    machine.step finishingPanic .finish ≠ none ∧
      finishingPanic.raises .finish = none ∧
      (finishingPanic.executor.scheduling.schedules 0).poisoned = false := by
  have ran : machine.run Contained (initial (Clock.new 0) 0) caughtLabels.dropLast =
    some finishingPanic := rfl
  have calm : finishingPanic.raises .finish = none ∧ _ :=
    runtime_raises_nothing (Machine.reach_of_run ran) (by decide) (by decide) rfl trivial
  exact ⟨nofun, calm.1, calm.2 0⟩

end World

end Asyncr
