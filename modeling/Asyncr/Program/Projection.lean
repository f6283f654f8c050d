import Asyncr.Executor.Runs
import Asyncr.Program.Steps
import Asyncr.Time.SleepRuns

namespace Asyncr

namespace World

open Library
open Time

variable {Output : Type} {world next : World Output}

/-! A run of a program is a run of its executor and a run of its timers. -/

/-- The move of the executor that a step of the program takes, and why. -/
inductive Takes (world : World Output) : Label Output → Move → Prop
  | permitted {move : Move} : world.permits move = true →
      Takes world (.executor move) move
  | spawn : world.codeRuns = true → Takes world .spawn .spawn
  | suspended {join : JoinRef} : world.stack = [.running (.inner join)] →
      Takes world (.yield .pending) (.endPoll .pending)
  | rootYielded {result : Poll Unit} : world.stack = [.running .root] →
      Takes world (.rootYield result) (.endPoll result)
  | finished : world.stack = [] → Takes world .finish (.endPoll (.ready ()))
  | unwound {label : Label Output} {rest : List (Frame Output)}
      {log : List (ProgramEvent Output)} :
      Fails world label rest log → Takes world label .panic
  | stuck {time : Timers Waker} {deadline : Instant} {panic : Panic} :
      world.time.call .nextDeadline = some (time, .deadline (some deadline)) →
      world.clock.isPaused = true →
      world.clock.advanceTo deadline = .error panic → Takes world .plan .panic
  | woke {schedule : Nat} {rest : List (Frame Output)}
      {event : ProgramEvent Output} :
      Wakes world.stack (.task schedule) rest event →
      Takes world .proceed (.wake schedule)
  | drained : Takes world .drain .drain
  | jumped : world.clock.isPaused = true → Takes world .plan .retry
  | received : Takes world .recv .recv
  | timedOut : Takes world .timeout .retry
  | dispatched : Takes world .dispatch .dispatch
  | cleared : world.stack = [] → Takes world .clear .clear
  | destroyed {id : Id} : world.stack = [] →
      Takes world (.destroy id) (.destroy id)

variable {label : Label Output}

theorem Stepped.takes (stepped : Stepped world label next) :
    next.executor = world.executor ∨
      ∃ move, Takes world label move ∧
        world.executor.step move = some next.executor := by
  cases stepped with
  | moved permitted moved => exact Or.inr ⟨_, .permitted permitted, moved⟩
  | spawned runs unclosed moved => exact Or.inr ⟨_, .spawn runs, moved⟩
  | suspended free stack moved => exact Or.inr ⟨_, .suspended stack, moved⟩
  | rootYielded free stack moved => exact Or.inr ⟨_, .rootYielded stack, moved⟩
  | unwound free fails unwinds moved => exact Or.inr ⟨_, .unwound fails, moved⟩
  | wokeTask free wakes unpoisoned moved => exact Or.inr ⟨_, .woke wakes, moved⟩
  | drained moved called => exact Or.inr ⟨_, .drained, moved⟩
  | jumped phase wait found paused advanced moved =>
      exact Or.inr ⟨_, .jumped paused, moved⟩
  | stuck phase wait found paused failed moved =>
      exact Or.inr ⟨_, .stuck found paused failed, moved⟩
  | received waits moved => exact Or.inr ⟨_, .received, moved⟩
  | timedOut waits moved => exact Or.inr ⟨_, .timedOut, moved⟩
  | began moved phase => exact Or.inr ⟨_, .dispatched, moved⟩
  | notBegun moved other => exact Or.inr ⟨_, .dispatched, moved⟩
  | finished free phase notRoot stack moved =>
      exact Or.inr ⟨_, .finished stack, moved⟩
  | cleared stack pending moved => exact Or.inr ⟨_, .cleared stack, moved⟩
  | destroyed stack found moved => exact Or.inr ⟨_, .destroyed stack, moved⟩
  | timed _ _ | timer _ _ _ | refused _ _ | rejected | awaited _ _ _ _ _
  | yielded _ _ _ _ | dropped _ _ _ | returned _ _ | codeReturned _ _ _ _
  | caught _ _ | called _ _ | wokeCode _ _ | published _ _ _ _
  | released _ _ _ _ | granted _ _ _ | planned _ _ _ _ => exact Or.inl rfl

theorem Stepped.timers (stepped : Stepped world label next) :
    next.time = world.time ∨
      ∃ call reply, world.time.call call = some (next.time, reply) := by
  cases stepped with
  | timer runs asked called => exact Or.inr ⟨_, _, called⟩
  | drained moved called => exact Or.inr ⟨_, _, called⟩
  | planned phase wait found running => exact Or.inr ⟨_, _, found⟩
  | jumped phase wait found paused advanced moved => exact Or.inr ⟨_, _, found⟩
  | stuck phase wait found paused failed moved => exact Or.inr ⟨_, _, found⟩
  | _ => exact Or.inl rfl

variable {allowed : World Output → Label Output → Prop} {start : World Output}

theorem executor_reach {permitted : Executor → Move → Prop}
    (reach : machine.Reach allowed start world)
    (lifts : ∀ world label move next, allowed world label →
      machine.step world label = some next → Takes world label move →
      world.executor.step move = some next.executor →
      permitted world.executor move) :
    Executor.machine.Reach permitted start.executor world.executor := by
  apply reach.simulate World.executor
  intro world label next allowed step
  rcases (stepped_of_step step).takes with same | ⟨move, takes, moved⟩
  · exact Or.inl same
  · exact Or.inr ⟨move, lifts world label move next allowed step takes moved,
      moved⟩

theorem timers_reach (reach : machine.Reach allowed start world) :
    Timers.machine.Reach Machine.Any start.time world.time := by
  apply reach.simulate World.time
  intro world label next allowed step
  rcases (stepped_of_step step).timers with same | ⟨call, reply, called⟩
  · exact Or.inl same
  · refine Or.inr ⟨call, trivial, ?_⟩
    simp [Timers.machine, called]

theorem run_steady {clock : Clock} {os : Instant}
    (reach : machine.Reach allowed (initial clock os) world) :
    world.executor.Steady :=
  Executor.run_steady (executor_reach reach fun _ _ _ _ _ _ _ _ => trivial :
    Executor.machine.Reach Machine.Any Executor.initial world.executor)

/-! The clock never stands behind what was read from it. -/

theorem clock_of_call {timers after : Timers Waker} {call : SleepCall Waker}
    {reply : SleepReply Waker} (called : timers.call call = some (after, reply)) :
    after.clock = timers.clock ∨
      (∃ sleep waker, call = .poll sleep waker after.clock) ∨
      call = .processExpired after.clock := by
  cases call with
  | poll sleep waker now =>
      simp only [Timers.call] at called
      split at called
      · cases called
      · split at called
        · cases called
          exact Or.inr (Or.inl ⟨sleep, waker, rfl⟩)
        · cases called
  | processExpired now =>
      simp only [Timers.call] at called
      split at called
      · cases called
        exact Or.inr (Or.inr rfl)
      · cases called
  | new deadline =>
      cases called
      exact Or.inl rfl
  | nextDeadline =>
      cases called
      exact Or.inl rfl
  | reset sleep deadline | drop sleep =>
      simp only [Timers.call] at called
      split at called
      · cases called
      · cases called
        exact Or.inl rfl

theorem clock_of_nextDeadline {timers after : Timers Waker}
    {reply : SleepReply Waker}
    (called : timers.call .nextDeadline = some (after, reply)) :
    after.clock = timers.clock := by
  rcases clock_of_call called with same | ⟨sleep, waker, other⟩ | other
  · exact same
  · cases other
  · cases other

def OnTime (world : World Output) : Prop :=
  world.time.clock ≤ world.now

theorem Stepped.onTime (stepped : Stepped world label next)
    (onTime : world.OnTime) : next.OnTime := by
  cases stepped with
  | timed origin later => exact Nat.le_trans onTime later
  | @timer call time reply runs asked called =>
      change time.clock ≤ world.now
      rcases clock_of_call called with same | ⟨sleep, waker, rfl⟩ | rfl
      · rw [same]
        exact onTime
      · simp only [sleepCall, Bool.and_eq_true, decide_eq_true_eq] at asked
        exact Nat.le_of_eq asked.1
      · cases asked
  | @drained executor time wakers moved called =>
      change time.clock ≤ world.now
      rcases clock_of_call called with same | ⟨sleep, waker, other⟩ | read
      · rw [same]
        exact onTime
      · cases other
      · simp only [SleepCall.processExpired.injEq] at read
        exact Nat.le_of_eq read.symm
  | planned phase wait found running =>
      exact Nat.le_trans (Nat.le_of_eq (clock_of_nextDeadline found)) onTime
  | jumped phase wait found paused advanced moved =>
      have read := Nat.le_trans (Nat.le_of_eq (clock_of_nextDeadline found)) onTime
      exact Nat.le_trans read (Clock.now_le_advanceTo advanced)
  | stuck phase wait found paused failed moved =>
      exact Nat.le_trans (Nat.le_of_eq (clock_of_nextDeadline found)) onTime
  | _ => exact onTime

theorem run_onTime {clock : Clock} {os : Instant}
    (reach : machine.Reach allowed (initial clock os) world) : world.OnTime := by
  apply reach.invariant (Nat.le_refl _)
  intro world label next onTime _ step
  exact (stepped_of_step step).onTime onTime

end World

end Asyncr
