import Asyncr.Program.ContextRuns
import Asyncr.Time.Interval

namespace Asyncr

open Library
open Time

/-! The free functions of the crate: each finds its runtime with `Handle::current`. -/

/-- A sleep and a join are known by their numbers in the runtime they belong to. -/
inductive FreeCall where
  | spawn
  | sleep (duration : Duration)
  | sleepUntil (deadline : Instant)
  | timeout (duration : Duration)
  | timeoutAt (deadline : Instant)
  | interval (period : Duration) (fits : period ≤ Duration.last)
  | intervalAt (start : Instant) (period : Duration) (fits : period ≤ Duration.last)

inductive FreeReply where
  | join (join : JoinRef)
  | sleep (sleep : Nat)
  /-- A `Timeout` with this sleep; the wrapped future is code of the program. -/
  | timeout (sleep : Nat)
  | interval (sleep : Nat) (interval : Interval)

def World.nextJoin {Output : Type} (world : World Output) : JoinRef :=
  if world.executor.closed then .refused world.refused
  else .task world.executor.scheduling.created

/-- Code on a thread that may panic; `none` where no code of the program runs that
could make the call. -/
abbrev OnCurrent (Output : Type) :=
  ExceptT IntervalPanic (StateT (Thread Output) Option)

namespace OnCurrent

variable {Output : Type}

def current : OnCurrent Output Handle := do
  let thread ← getThe (Thread Output)
  match OnThread.current.run thread with
  | .ok handle _ => return handle
  | .error panic _ => throw (.raised panic)

/-- The runtime that a handle shares. -/
def runtime (handle : Handle) : OnCurrent Output (World Output) :=
  fun thread => (thread.runtimes handle).map fun world => (.ok world, thread)

/-- A step of the runtime that a handle shares. -/
def act (handle : Handle) (label : Label Output) : OnCurrent Output Unit :=
  fun thread => ((thread.runtimes handle).bind fun world => world.step label).map
    fun next => (.ok (), thread.after (.setRuntime handle next))

def now (handle : Handle) : OnCurrent Output Instant := do
  return (← runtime handle).now

def deadlineAfter (instant : Instant) (duration : Duration) :
    OnCurrent Output Instant :=
  match Time.deadlineAfter instant duration with
  | .ok deadline => return deadline
  | .error panic => throw (.raised panic)

/-- `Sleep::new` with the handle's timer. -/
def newSleep (handle : Handle) (deadline : Instant) : OnCurrent Output Nat := do
  let world ← runtime handle
  act handle (.timer (.new deadline))
  return world.time.created

def spawnOn (handle : Handle) : OnCurrent Output JoinRef := do
  let world ← runtime handle
  act handle .spawn
  return world.nextJoin

def spawn : OnCurrent Output JoinRef := do
  let handle ← current
  spawnOn handle

def sleep (duration : Duration) : OnCurrent Output Nat := do
  let handle ← current
  let deadline ← deadlineAfter (← now handle) duration
  newSleep handle deadline

def sleepUntil (deadline : Instant) : OnCurrent Output Nat := do
  let handle ← current
  newSleep handle deadline

def timeout (duration : Duration) : OnCurrent Output Nat := do
  let handle ← current
  let deadline ← deadlineAfter (← now handle) duration
  newSleep handle deadline

def timeoutAt (deadline : Instant) : OnCurrent Output Nat := do
  let handle ← current
  newSleep handle deadline

/-- `Interval::new` with a sleep just created, which it drops if it panics. -/
def newInterval (handle : Handle) (start : Instant) (period : Duration)
    (fits : period ≤ Duration.last) : OnCurrent Output (Nat × Interval) := do
  let sleep ← newSleep handle start
  match Interval.new (Sleep.new start) period fits .burst with
  | .ok interval => return (sleep, interval)
  | .error panic =>
      act handle (.timer (.drop sleep))
      throw panic

def interval (period : Duration) (fits : period ≤ Duration.last) :
    OnCurrent Output (Nat × Interval) := do
  let handle ← current
  let start ← now handle
  newInterval handle start period fits

def intervalAt (start : Instant) (period : Duration) (fits : period ≤ Duration.last) :
    OnCurrent Output (Nat × Interval) := do
  let handle ← current
  newInterval handle start period fits

end OnCurrent

namespace FreeCall

variable {Output : Type}

def run : FreeCall → OnCurrent Output FreeReply
  | .spawn => return .join (← OnCurrent.spawn)
  | .sleep duration => return .sleep (← OnCurrent.sleep duration)
  | .sleepUntil deadline => return .sleep (← OnCurrent.sleepUntil deadline)
  | .timeout duration => return .timeout (← OnCurrent.timeout duration)
  | .timeoutAt deadline => return .timeout (← OnCurrent.timeoutAt deadline)
  | .interval period fits => do
      let created ← OnCurrent.interval period fits
      return .interval created.1 created.2
  | .intervalAt start period fits => do
      let created ← OnCurrent.intervalAt start period fits
      return .interval created.1 created.2

/-! What a call is for the current runtime. -/

def labels (world : World Output) : FreeCall → List (Label Output)
  | .spawn => [.spawn]
  | .sleep duration | .timeout duration =>
      match deadlineAfter world.now duration with
      | .ok deadline => [.timer (.new deadline)]
      | .error _ => []
  | .sleepUntil deadline | .timeoutAt deadline => [.timer (.new deadline)]
  | .interval period _ =>
      if 0 < period then [.timer (.new world.now)]
      else [.timer (.new world.now), .timer (.drop world.time.created)]
  | .intervalAt start period _ =>
      if 0 < period then [.timer (.new start)]
      else [.timer (.new start), .timer (.drop world.time.created)]

def outcome (world : World Output) : FreeCall → Except IntervalPanic FreeReply
  | .spawn => .ok (.join world.nextJoin)
  | .sleep duration =>
      ((deadlineAfter world.now duration).mapError .raised).map fun _ =>
        .sleep world.time.created
  | .timeout duration =>
      ((deadlineAfter world.now duration).mapError .raised).map fun _ =>
        .timeout world.time.created
  | .sleepUntil _ => .ok (.sleep world.time.created)
  | .timeoutAt _ => .ok (.timeout world.time.created)
  | .interval period fits =>
      (Interval.new (Sleep.new world.now) period fits .burst).map
        (.interval world.time.created)
  | .intervalAt start period fits =>
      (Interval.new (Sleep.new start) period fits .burst).map
        (.interval world.time.created)

end FreeCall

namespace OnCurrent

variable {Output : Type} {thread : Thread Output} {handle : Handle}
  {world : World Output} {α β : Type}

theorem run_bind (code : OnCurrent Output α) (rest : α → OnCurrent Output β) :
    (code >>= rest) thread =
      match code thread with
      | none => none
      | some (.ok value, next) => rest value next
      | some (.error panic, next) => some (.error panic, next) := by
  change (code thread).bind _ = _
  cases code thread with
  | none => rfl
  | some outcome =>
      obtain ⟨result, next⟩ := outcome
      cases result <;> rfl

theorem run_current :
    (current : OnCurrent Output Handle) thread =
      some (match thread.context with
        | some handle => .ok handle
        | none => .error (.raised .notEntered), thread) := by
  cases context : thread.context with
  | none | some outer =>
      have ran : (OnThread.current : OnThread Output Handle).run thread = _ :=
        OnThread.run_current
      rw [context] at ran
      change (match (OnThread.current : OnThread Output Handle).run thread with
        | .ok handle _ => pure handle
        | .error panic _ => throw (.raised panic) : OnCurrent Output Handle) thread = _
      rw [ran]
      rfl

theorem run_pure (value : α) :
    (pure value : OnCurrent Output α) thread = some (.ok value, thread) :=
  rfl

theorem run_throw (panic : IntervalPanic) :
    (throw panic : OnCurrent Output α) thread = some (.error panic, thread) :=
  rfl

section

variable (found : thread.runtimes handle = some world)

include found

theorem run_runtime : runtime handle thread = some (.ok world, thread) := by
  simp [runtime, found]

theorem run_now : now handle thread = some (.ok world.now, thread) := by
  rw [now, run_bind, run_runtime found]
  rfl

theorem run_act {label : Label Output} {next : World Output}
    (step : World.machine.step world label = some next) :
    act handle label thread = some (.ok (), thread.after (.setRuntime handle next)) := by
  have stepped : world.step label = some next := step
  simp [act, found, stepped]

end

end OnCurrent

namespace World

variable {Output : Type} {world : World Output}

def slept (world : World Output) (deadline : Instant) : World Output :=
  { world with
    time := { world.time with
      sleeps := Function.update world.time.sleeps world.time.created
        (some (Sleep.new deadline))
      created := world.time.created + 1 } }

/-- A sleep that was never polled is dropped. -/
def unslept (world : World Output) : World Output :=
  { world with
    time := { world.time with
      sleeps := Function.update world.time.sleeps world.time.created none
      created := world.time.created + 1 } }

theorem step_new (runs : world.codeRuns = true) (deadline : Instant) :
    machine.step world (.timer (.new deadline)) = some (world.slept deadline) := by
  simp [machine, World.step, runs, sleepCall, Timers.call, slept]

theorem step_drop (runs : world.codeRuns = true) (deadline : Instant) :
    machine.step (world.slept deadline) (.timer (.drop world.time.created)) =
      some world.unslept := by
  have still : (world.slept deadline).codeRuns = true := runs
  change (if (world.slept deadline).codeRuns && true then _ else _) = _
  rw [still]
  simp [Timers.call, slept, unslept, Sleep.drop, Sleep.release, Sleep.new]

theorem step_spawn (placed : world.Placed) (runs : world.codeRuns = true) :
    ∃ next, machine.step world .spawn = some next ∧ next.time = world.time := by
  have called := runs
  simp only [codeRuns, Bool.and_eq_true, Executor.free, Option.isNone_iff_eq_none] at runs
  obtain ⟨free, code⟩ := runs
  have phase : world.executor.phase.runsCode = true := by
    cases stack : world.stack with
    | nil =>
        rw [stack] at code
        cases phase : world.executor.phase with
        | outside | dropped => rfl
        | _ =>
            rw [phase] at code
            cases code
    | cons frame rest => exact Phase.runsCode_of_busy (placed.busy stack)
  have moves : ∃ executor, world.executor.step .spawn = some executor := by
    cases closed : world.executor.closed with
    | true => simp [Executor.step, phase, Executor.free, free, Executor.submit, closed]
    | false =>
        simp [Executor.step, phase, Executor.free, free, Executor.submit, closed,
          Executor.andThen, Scheduling.step]
  obtain ⟨executor, moved⟩ := moves
  refine ⟨world.spawn executor, ?_, ?_⟩
  · change (if world.codeRuns then _ else _) = _
    rw [if_pos called, moved]
    rfl
  · unfold World.spawn
    split <;> rfl

end World

namespace OnCurrent

variable {Output : Type} {thread : Thread Output} {handle : Handle}
  {world : World Output} {α β : Type}

/-! A free function does nothing that a handle cannot do. -/

/-- The thread gets to where the code leaves it by steps of its own. -/
def Steps (code : OnCurrent Output α) : Prop :=
  ∀ thread result next, code thread = some (result, next) →
    Thread.machine.Reach Machine.Any thread next

theorem Steps.bind {code : OnCurrent Output α} {rest : α → OnCurrent Output β}
    (first : Steps code) (second : ∀ value, Steps (rest value)) :
    Steps (code >>= rest) := by
  intro thread result next ran
  rw [run_bind] at ran
  split at ran
  · cases ran
  · rename_i value middle code
    exact (first thread _ middle code).trans (second value middle result next ran)
  · rename_i panic middle code
    cases ran
    exact first thread _ next code

theorem Steps.of_same {code : OnCurrent Output α}
    (same : ∀ thread result next, code thread = some (result, next) →
      next = thread) : Steps code := by
  intro thread result next ran
  rw [same thread result next ran]
  exact .refl

theorem steps_pure (value : α) : Steps (pure value : OnCurrent Output α) := by
  apply Steps.of_same
  intro thread result next ran
  cases ran
  rfl

theorem steps_throw (panic : IntervalPanic) :
    Steps (throw panic : OnCurrent Output α) := by
  apply Steps.of_same
  intro thread result next ran
  cases ran
  rfl

theorem steps_current : Steps (current : OnCurrent Output Handle) := by
  apply Steps.of_same
  intro thread result next ran
  rw [run_current] at ran
  cases ran
  rfl

theorem steps_runtime (handle : Handle) :
    Steps (runtime handle : OnCurrent Output (World Output)) := by
  apply Steps.of_same
  intro thread result next ran
  obtain ⟨world, _, same⟩ := Option.map_eq_some_iff.mp ran
  cases same
  rfl

theorem steps_act (handle : Handle) {label : Label Output}
    (permitted : ∀ thread : Thread Output, thread.permits handle label = true) :
    Steps (act handle label) := by
  intro thread result next ran
  obtain ⟨world, stepped, same⟩ := Option.map_eq_some_iff.mp ran
  cases same
  have step : Thread.machine.step thread (.world handle label) =
      some (thread.after (.setRuntime handle world)) := by
    change (if thread.permits handle label then _ else _) = _
    rw [if_pos (permitted thread), stepped]
    rfl
  exact .single _ trivial step

theorem steps_now (handle : Handle) : Steps (now handle : OnCurrent Output Instant) :=
  (steps_runtime handle).bind fun _ => steps_pure _

theorem steps_deadlineAfter (instant : Instant) (duration : Duration) :
    Steps (deadlineAfter instant duration : OnCurrent Output Instant) := by
  unfold OnCurrent.deadlineAfter
  split
  · exact steps_pure _
  · exact steps_throw _

theorem steps_newSleep (handle : Handle) (deadline : Instant) :
    Steps (newSleep handle deadline : OnCurrent Output Nat) :=
  (steps_runtime handle).bind fun _ =>
    (steps_act handle fun _ => rfl).bind fun _ => steps_pure _

theorem steps_newInterval (handle : Handle) (start : Instant) (period : Duration)
    (fits : period ≤ Duration.last) :
    Steps (newInterval handle start period fits : OnCurrent Output _) := by
  refine (steps_newSleep handle start).bind fun sleep => ?_
  split
  · exact steps_pure _
  · exact (steps_act handle fun _ => rfl).bind fun _ => steps_throw _

theorem steps_sleep (duration : Duration) :
    Steps (sleep duration : OnCurrent Output Nat) :=
  steps_current.bind fun handle => (steps_now handle).bind fun _ =>
    (steps_deadlineAfter _ duration).bind fun deadline => steps_newSleep handle deadline

theorem steps_sleepUntil (deadline : Instant) :
    Steps (sleepUntil deadline : OnCurrent Output Nat) :=
  steps_current.bind fun handle => steps_newSleep handle deadline

end OnCurrent

theorem FreeCall.steps {Output : Type} (call : FreeCall) :
    OnCurrent.Steps (call.run : OnCurrent Output FreeReply) := by
  cases call with
  | spawn =>
      refine OnCurrent.Steps.bind ?_ fun _ => OnCurrent.steps_pure _
      exact OnCurrent.steps_current.bind fun handle =>
        (OnCurrent.steps_runtime handle).bind fun _ =>
          (OnCurrent.steps_act handle fun _ => rfl).bind fun _ => OnCurrent.steps_pure _
  | sleep duration | timeout duration =>
      exact (OnCurrent.steps_sleep duration).bind fun _ => OnCurrent.steps_pure _
  | sleepUntil deadline | timeoutAt deadline =>
      exact (OnCurrent.steps_sleepUntil deadline).bind fun _ => OnCurrent.steps_pure _
  | interval period fits =>
      refine OnCurrent.Steps.bind ?_ fun _ => OnCurrent.steps_pure _
      exact OnCurrent.steps_current.bind fun handle =>
        (OnCurrent.steps_now handle).bind fun start =>
          OnCurrent.steps_newInterval handle start period fits
  | intervalAt start period fits =>
      refine OnCurrent.Steps.bind ?_ fun _ => OnCurrent.steps_pure _
      exact OnCurrent.steps_current.bind fun handle =>
        OnCurrent.steps_newInterval handle start period fits

namespace Thread

variable {Output : Type} {thread : Thread Output} {handle : Handle}
  {world other : World Output}

theorem setRuntime_twice :
    (thread.after (.setRuntime handle world)).after (.setRuntime handle other) =
      thread.after (.setRuntime handle other) := by
  change ({ thread with
    runtimes := Function.update (Function.update thread.runtimes handle (some world))
      handle (some other) } : Thread Output) = _
  rw [Function.update_idem]
  rfl

theorem setRuntime_same (found : thread.runtimes handle = some world) :
    thread.after (.setRuntime handle world) = thread := by
  change ({ thread with
    runtimes := Function.update thread.runtimes handle (some world) } :
      Thread Output) = _
  rw [← found, Function.update_eq_self]

end Thread

namespace OnCurrent

variable {Output : Type} {thread : Thread Output} {handle : Handle}
  {world : World Output}

/-! What each function comes to in the runtime that is current. -/

section

variable (found : thread.runtimes handle = some world) (runs : world.codeRuns = true)

include found runs

theorem run_newSleep (deadline : Instant) :
    newSleep handle deadline thread = some (.ok world.time.created,
      thread.after (.setRuntime handle (world.slept deadline))) := by
  simp only [newSleep, run_bind, run_runtime found,
    run_act found (World.step_new runs deadline), run_pure]

theorem run_newInterval (start : Instant) (period : Duration)
    (fits : period ≤ Duration.last) :
    newInterval handle start period fits thread =
      some ((Interval.new (Sleep.new start) period fits .burst).map
          fun interval => (world.time.created, interval),
        thread.after (.setRuntime handle
          (if 0 < period then world.slept start else world.unslept))) := by
  have slept : (thread.after (.setRuntime handle (world.slept start))).runtimes handle =
      some (world.slept start) := Function.update_self ..
  simp only [newInterval, run_bind, run_newSleep found runs]
  by_cases positive : 0 < period
  · simp only [Interval.new, dif_pos positive, if_pos positive, run_pure]
    rfl
  · simp only [Interval.new, dif_neg positive, if_neg positive, run_bind,
      run_act slept (World.step_drop runs start), run_throw, Thread.setRuntime_twice]
    rfl

end

end OnCurrent

namespace FreeCall

variable {Output : Type} {thread : Thread Output} {handle : Handle}
  {world : World Output}

theorem interval_labels (runs : world.codeRuns = true) (start : Instant)
    (period : Duration) :
    World.machine.run Machine.Any world
      (if 0 < period then [.timer (.new start)]
        else [.timer (.new start), .timer (.drop world.time.created)]) =
      some (if 0 < period then world.slept start else world.unslept) := by
  split
  · exact Machine.run_cons.mpr ⟨trivial, _, World.step_new runs start, rfl⟩
  · exact Machine.run_cons.mpr ⟨trivial, _, World.step_new runs start,
      Machine.run_cons.mpr ⟨trivial, _, World.step_drop runs start, rfl⟩⟩

/-- Where code of the program runs, a free function does in the current runtime what
it is for, and nothing elsewhere. -/
theorem run_current (call : FreeCall) (context : thread.context = some handle)
    (found : thread.runtimes handle = some world) (placed : world.Placed)
    (runs : world.codeRuns = true) :
    ∃ after, World.machine.run Machine.Any world (call.labels world) = some after ∧
      call.run thread =
        some (call.outcome world, thread.after (.setRuntime handle after)) ∧
      after.time.driver = world.time.driver := by
  have current : (OnCurrent.current : OnCurrent Output Handle) thread =
      some (.ok handle, thread) := by
    rw [OnCurrent.run_current, context]
  have one : ∀ {label : Label Output} {after : World Output},
      World.machine.step world label = some after →
      World.machine.run Machine.Any world [label] = some after := by
    intro label after step
    exact Machine.run_cons.mpr ⟨trivial, after, step, rfl⟩
  cases call with
  | spawn =>
      obtain ⟨after, step, time⟩ := World.step_spawn placed runs
      refine ⟨after, one step, ?_, by rw [time]⟩
      simp only [run, OnCurrent.spawn, OnCurrent.spawnOn, OnCurrent.run_bind, current,
        OnCurrent.run_runtime found, OnCurrent.run_act found step, OnCurrent.run_pure,
        outcome]
  | sleep duration | timeout duration =>
      cases reached : deadlineAfter world.now duration with
      | ok deadline =>
          refine ⟨world.slept deadline, ?_, ?_, rfl⟩
          · simp only [labels, reached]
            exact one (World.step_new runs deadline)
          · simp only [run, OnCurrent.sleep, OnCurrent.timeout, OnCurrent.run_bind,
              current, OnCurrent.run_now found, OnCurrent.deadlineAfter, reached,
              OnCurrent.run_pure, OnCurrent.run_newSleep found runs, outcome,
              Except.mapError, Except.map]
      | error panic =>
          refine ⟨world, ?_, ?_, rfl⟩
          · simp only [labels, reached]
            rfl
          · simp only [run, OnCurrent.sleep, OnCurrent.timeout, OnCurrent.run_bind,
              current, OnCurrent.run_now found, OnCurrent.deadlineAfter, reached,
              OnCurrent.run_throw, outcome, Except.mapError, Except.map,
              Thread.setRuntime_same found]
  | sleepUntil deadline | timeoutAt deadline =>
      refine ⟨world.slept deadline, one (World.step_new runs deadline), ?_, rfl⟩
      simp only [run, OnCurrent.sleepUntil, OnCurrent.timeoutAt, OnCurrent.run_bind,
        current, OnCurrent.run_newSleep found runs, OnCurrent.run_pure, outcome]
  | interval period fits =>
      refine ⟨_, interval_labels runs world.now period, ?_, ?_⟩
      · simp only [run, OnCurrent.interval, OnCurrent.run_bind, current,
          OnCurrent.run_now found, OnCurrent.run_newInterval found runs, outcome]
        cases Interval.new (Sleep.new world.now) period fits .burst <;> rfl
      · split <;> rfl
  | intervalAt start period fits =>
      refine ⟨_, interval_labels runs start period, ?_, ?_⟩
      · simp only [run, OnCurrent.intervalAt, OnCurrent.run_bind, current,
          OnCurrent.run_newInterval found runs, outcome]
        cases Interval.new (Sleep.new start) period fits .burst <;> rfl
      · split <;> rfl

theorem run_outside (call : FreeCall) (context : thread.context = none) :
    call.run thread = some (.error (.raised .notEntered), thread) := by
  have current : (OnCurrent.current : OnCurrent Output Handle) thread =
      some (.error (.raised .notEntered), thread) := by
    rw [OnCurrent.run_current, context]
  cases call with
  | spawn => simp only [run, OnCurrent.spawn, OnCurrent.run_bind, current]
  | sleep duration => simp only [run, OnCurrent.sleep, OnCurrent.run_bind, current]
  | sleepUntil deadline =>
      simp only [run, OnCurrent.sleepUntil, OnCurrent.run_bind, current]
  | timeout duration => simp only [run, OnCurrent.timeout, OnCurrent.run_bind, current]
  | timeoutAt deadline =>
      simp only [run, OnCurrent.timeoutAt, OnCurrent.run_bind, current]
  | interval period fits =>
      simp only [run, OnCurrent.interval, OnCurrent.run_bind, current]
  | intervalAt start period fits =>
      simp only [run, OnCurrent.intervalAt, OnCurrent.run_bind, current]

end FreeCall

/-- What a thread does with its runtimes, or through the free functions. -/
inductive FreeLabel (Output : Type) where
  | thread (label : ThreadLabel Output)
  | call (call : FreeCall)

namespace Thread

variable {Output : Type} {thread start : Thread Output}

def freeMachine : Machine (Thread Output) (FreeLabel Output) where
  step thread
    | .thread label => machine.step thread label
    | .call call => (call.run thread).map Prod.snd

theorem run_free {allowed : Thread Output → FreeLabel Output → Prop}
    (reach : freeMachine.Reach allowed start thread) :
    machine.Reach Machine.Any start thread := by
  induction reach with
  | refl => exact .refl
  | step label _ _ step ih =>
      cases label with
      | thread label => exact .step label ih trivial step
      | call call =>
          obtain ⟨⟨result, next⟩, ran, rfl⟩ := Option.map_eq_some_iff.mp step
          exact ih.trans (call.steps _ result next ran)

/-- Called by code that a runtime polls, or where a guard has entered one, a free
function always returns or panics as documented, and acts on that runtime alone; it
registers no timer.  Outside it panics and changes nothing.  A thread that calls free
functions goes nowhere that one which uses its handles cannot. -/
theorem free_functions_use_current
    (reach : freeMachine.Reach Machine.Any (initial : Thread Output) thread)
    (call : FreeCall) :
    machine.Reach Machine.Any initial thread ∧
      (thread.context = none →
        call.run thread = some (.error (.raised .notEntered), thread)) ∧
      ∀ handle world, thread.runtimes handle = some world →
        (thread.context = some handle ∧ world.codeRuns = true ∨
          ∃ code rest, world.stack = .running code :: rest ∧ code.hosted = true ∧
            world.executor.scheduling.own = none) →
        ∃ after, World.machine.run Machine.Any world (call.labels world) = some after ∧
          call.run thread =
            some (call.outcome world, thread.after (.setRuntime handle after)) ∧
          after.time.driver = world.time.driver := by
  have plain := run_free reach
  have sound := run_sound plain
  refine ⟨plain, call.run_outside, ?_⟩
  intro handle world found calls
  obtain ⟨clock, os, ran⟩ := sound.ran handle world found
  have placed := World.run_placed ran
  rcases calls with ⟨context, runs⟩ | ⟨code, rest, stack, hosted, free⟩
  · exact call.run_current context found placed runs
  · have member : .running code ∈ world.stack := stack ▸ List.mem_cons_self
    have runs : world.codeRuns = true := by
      simp [World.codeRuns, Executor.free, free, stack]
    exact call.run_current (sound.current found member hosted) found placed runs

def polledLabels : List (FreeLabel Nat) :=
  [.thread (.create (Clock.new 0) 0), .thread (.create (Clock.new 0) 0),
    .thread (.enter 1), .call .spawn, .thread (.dropGuard ⟨0, 1⟩),
    .thread (.blockOn 0), .thread (.world 0 (.executor .send)),
    .thread (.world 0 .drain), .thread (.world 0 (.executor .settle)),
    .thread (.world 0 (.executor .tryRecv)), .thread (.world 0 .dispatch)]

def polledThread : Thread Nat :=
  (freeMachine.run Machine.Any initial polledLabels).getD initial

theorem free_functions_use_current_polled :
    ∃ (world after : World Nat),
      polledThread.runtimes 0 = some world ∧ polledThread.runtimes 1 ≠ none ∧
      World.machine.run Machine.Any world [.timer (.new 5)] = some after ∧
      (FreeCall.sleep 5).run polledThread =
        some (.ok (.sleep 0), polledThread.after (.setRuntime 0 after)) := by
  have ran : freeMachine.run Machine.Any initial polledLabels =
    some polledThread := rfl
  obtain ⟨after, moved, called, -⟩ :=
    (free_functions_use_current (Machine.reach_of_run ran) (.sleep 5)).2.2 0 _ rfl
      (Or.inr ⟨.root, [], rfl, rfl, rfl⟩)
  exact ⟨_, after, rfl, by decide, moved, called⟩

end Thread

end Asyncr
