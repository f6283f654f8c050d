import Asyncr.Executor.Moves
import Asyncr.Program.World

namespace Asyncr

namespace World

open Library
open Time

variable {Output : Type} {world next : World Output}

/-! Everything one step of a program can do. -/

/-- The topmost frame invokes a waker. -/
inductive Wakes : List (Frame Output) → Waker → List (Frame Output) →
    ProgramEvent Output → Prop
  | fire {waker : Waker} {rest : List (Frame Output)} :
      Wakes (.fire waker :: rest) waker rest (.fired waker)
  | wake {join : JoinRef} {waker : Waker} {rest : List (Frame Output)} :
      Wakes (.wake join waker :: rest) waker rest (.woke join waker)

/-- A panic leaves `block_on` or the drop of the executor: what it leaves on the
stack. -/
inductive Unwinds (world : World Output) (rest : List (Frame Output)) :
    List (Frame Output) → Prop
  | loop :
      (∃ root id target, world.executor.phase = .polling root id target) ∨
        (∃ root, world.executor.phase = .expiring root) →
      Unwinds world rest (cleanup rest ++ [.call .dropRoot])
  | leaving {root : Nat} : world.executor.phase = .leaving root →
      Unwinds world rest (cleanup rest)
  | closing : world.executor.phase.closing = true →
      Unwinds world rest (cleanup rest)

/-- Why a panic leaves the runtime's frames above `rest`. -/
inductive Fails (world : World Output) : Label Output → List (Frame Output) →
    List (ProgramEvent Output) → Prop
  | code {code : Code} {rest : List (Frame Output)} :
      world.stack = .running code :: rest →
      (∀ join, code = .inner join → rest ≠ []) →
      Fails world .panic rest world.log
  | poisoned {schedule : Nat} {rest : List (Frame Output)}
      {event : ProgramEvent Output} :
      Wakes world.stack (.task schedule) rest event →
      (world.executor.scheduling.schedules schedule).poisoned = true →
      Fails world .proceed rest (event :: world.log)
  | published {join : JoinRef} {result : Except JoinError Output}
      {rest : List (Frame Output)} {cell : JoinCell Output} {panic : Panic} :
      world.stack = .publish join result :: rest →
      world.joins join = some cell → cell.state.complete result = .error panic →
      Fails world .proceed (.release join :: rest) world.log

inductive Stepped (world : World Output) : Label Output → World Output → Prop
  | moved {move : Move} {executor : Executor} :
      world.permits move = true → world.executor.step move = some executor →
      Stepped world (.executor move) { world with executor := executor }
  | timed {label : Label Output} {clock : Clock} {os : Instant} :
      (∃ reading, label = .tick reading ∧ clock = world.clock) ∨
        (world.codeRuns = true ∧ ∃ call, label = .clock call) →
      world.now ≤ clock.now os →
      Stepped world label { world with clock := clock, os := os }
  | timer {call : SleepCall Waker} {time : Timers Waker}
      {reply : SleepReply Waker} :
      world.codeRuns = true → world.sleepCall call = true →
      world.time.call call = some (time, reply) →
      Stepped world (.timer call) { world with time := time }
  | refused :
      world.codeRuns = true → world.executor.closed = true →
      Stepped world .spawn
        { world.setJoin (.refused world.refused) (JoinCell.new false) with
          refused := world.refused + 1
          stack := .call (.dropFuture (.refused world.refused)) ::
            .publish (.refused world.refused) (.error .cancelled) ::
            .grant (.refused world.refused) :: world.stack }
  | spawned {executor : Executor} :
      world.codeRuns = true → world.executor.closed = false →
      world.executor.step .spawn = some executor →
      Stepped world .spawn
        { world.setJoin (.task world.executor.scheduling.created)
            (JoinCell.new true) with executor := executor }
  | rejected {join : JoinRef} {waker : Waker} :
      Stepped world (.pollJoin join waker) world
  | awaited {join : JoinRef} {waker : Waker} {cell : JoinCell Output}
      {stored : Option Waker} :
      world.codeRuns = true → world.joins join = some cell →
      cell.handle = true →
      waker.known world.executor.scheduling.created = true →
      cell.state = .pending stored →
      Stepped world (.pollJoin join waker)
        { world.setJoin join { cell with state := .pending (some waker) } with
          log := .awaited join waker :: world.log }
  | yielded {join : JoinRef} {waker : Waker} {cell : JoinCell Output}
      {result : Except JoinError Output} :
      world.codeRuns = true → world.joins join = some cell →
      cell.handle = true → cell.state = .ready result →
      Stepped world (.pollJoin join waker)
        { world.setJoin join { cell with state := .consumed } with
          log := .yielded join result :: world.log }
  | dropped {join : JoinRef} {cell : JoinCell Output} :
      world.codeRuns = true → world.joins join = some cell →
      cell.handle = true →
      Stepped world (.dropJoin join) (world.dropJoin join cell)
  | suspended {join : JoinRef} {executor : Executor} :
      world.executor.scheduling.own = none →
      world.stack = [.running (.inner join)] →
      world.executor.step (.endPoll .pending) = some executor →
      Stepped world (.yield .pending)
        { world with executor := executor, stack := unwound executor }
  | returned {join : JoinRef} {value : Output} :
      world.executor.scheduling.own = none →
      world.stack = [.running (.inner join)] →
      Stepped world (.yield (.ready value))
        { world with
          stack := harness join (.ok value)
          log := .returned join value :: world.log }
  | rootYielded {result : Poll Unit} {executor : Executor} :
      world.executor.scheduling.own = none → world.stack = [.running .root] →
      world.executor.step (.endPoll result) = some executor →
      Stepped world (.rootYield result)
        { world with
          executor := executor
          stack := match executor.phase with
            | .leaving _ | .unwinding => [.call .dropRoot]
            | _ => [] }
  | codeReturned {code : Code} {rest : List (Frame Output)} :
      world.executor.scheduling.own = none →
      world.stack = .running code :: rest → code ≠ .root →
      (∀ join, code ≠ .inner join) →
      Stepped world .codeReturns { world with stack := rest }
  | caught {join : JoinRef} :
      world.executor.scheduling.own = none →
      world.stack = [.running (.inner join)] →
      Stepped world .panic
        { world with
          stack := [.call (.dropFuture join), .call (.dropPayload join),
            .publish join (.error .panic)]
          log := .panicked join :: world.log }
  | unwound {label : Label Output} {rest left : List (Frame Output)}
      {log : List (ProgramEvent Output)} {executor : Executor} :
      world.executor.scheduling.own = none → Fails world label rest log →
      Unwinds world rest left → world.executor.step .panic = some executor →
      Stepped world label
        { world with executor := executor, stack := left, log := log }
  | called {code : Code} {rest : List (Frame Output)} :
      world.executor.scheduling.own = none →
      world.stack = .call code :: rest →
      Stepped world .proceed { world with stack := .running code :: rest }
  | wokeCode {code : Nat} {rest : List (Frame Output)}
      {event : ProgramEvent Output} :
      world.executor.scheduling.own = none →
      Wakes world.stack (.custom code) rest event →
      Stepped world .proceed
        { world with
          stack := .running (.waker code) :: rest
          log := event :: world.log }
  | wokeTask {schedule : Nat} {rest : List (Frame Output)}
      {event : ProgramEvent Output} {executor : Executor} :
      world.executor.scheduling.own = none →
      Wakes world.stack (.task schedule) rest event →
      (world.executor.scheduling.schedules schedule).poisoned = false →
      world.executor.step (.wake schedule) = some executor →
      Stepped world .proceed
        { world with
          executor := executor
          stack := rest
          log := event :: world.log }
  | published {join : JoinRef} {result : Except JoinError Output}
      {rest : List (Frame Output)} {cell : JoinCell Output}
      {waker : Option Waker} :
      world.executor.scheduling.own = none →
      world.stack = .publish join result :: rest →
      world.joins join = some cell → cell.state = .pending waker →
      Stepped world .proceed
        { world.setJoin join { cell with state := .ready result } with
          stack := (waker.map (Frame.wake join)).toList ++ .release join :: rest
          log := .published join result waker :: world.log }
  | released {join : JoinRef} {rest front : List (Frame Output)}
      {cell : JoinCell Output} :
      world.executor.scheduling.own = none →
      world.stack = .release join :: rest → world.joins join = some cell →
      front = [] ∨ front = [.call (.dropOutput join)] ∧ cell.handle = false →
      Stepped world .proceed
        { world.setJoin join { cell with sender := false } with
          stack := front ++ rest }
  | granted {join : JoinRef} {rest : List (Frame Output)}
      {cell : JoinCell Output} :
      world.executor.scheduling.own = none →
      world.stack = .grant join :: rest → world.joins join = some cell →
      Stepped world .proceed
        { world.setJoin join { cell with handle := true } with stack := rest }
  | drained {executor : Executor} {time : Timers Waker} {wakers : List Waker} :
      world.executor.step .drain = some executor →
      world.time.call (.processExpired world.now) = some (time, .woken wakers) →
      Stepped world .drain
        { world with
          executor := executor
          time := time
          stack := wakers.map Frame.fire }
  | planned {root : Nat} {time : Timers Waker} {deadline : Option Instant} :
      world.executor.phase = .waiting root → world.wait = none →
      world.time.call .nextDeadline = some (time, .deadline deadline) →
      world.clock.isPaused = false ∨ deadline = none →
      Stepped world .plan
        { world with
          time := time
          wait := some (deadline.map fun deadline =>
            deadline.saturatingDurationSince world.now) }
  | jumped {root : Nat} {time : Timers Waker} {deadline : Instant}
      {clock : Clock} {executor : Executor} :
      world.executor.phase = .waiting root → world.wait = none →
      world.time.call .nextDeadline = some (time, .deadline (some deadline)) →
      world.clock.isPaused = true → world.clock.advanceTo deadline = .ok clock →
      world.executor.step .retry = some executor →
      Stepped world .plan
        { world with executor := executor, time := time, clock := clock }
  | stuck {root : Nat} {time : Timers Waker} {deadline : Instant} {panic : Panic}
      {executor : Executor} :
      world.executor.phase = .waiting root → world.wait = none →
      world.time.call .nextDeadline = some (time, .deadline (some deadline)) →
      world.clock.isPaused = true →
      world.clock.advanceTo deadline = .error panic →
      world.executor.step .panic = some executor →
      Stepped world .plan
        { world with
          executor := executor
          time := time
          stack := [.call .dropRoot] }
  | received {timeout : Option Duration} {executor : Executor} :
      world.wait = some timeout → world.executor.step .recv = some executor →
      Stepped world .recv { world with executor := executor, wait := none }
  | timedOut {timeout : Duration} {executor : Executor} :
      world.wait = some (some timeout) →
      world.executor.step .retry = some executor →
      Stepped world .timeout { world with executor := executor, wait := none }
  | began {root target : Nat} {id : Id} {executor : Executor} :
      world.executor.step .dispatch = some executor →
      executor.phase = .polling root id target →
      Stepped world .dispatch
        { world with
          executor := executor
          stack :=
            [.running (if id = rootTaskId then .root else .inner (.task target))]
          log := .polled target :: world.log }
  | notBegun {executor : Executor} :
      world.executor.step .dispatch = some executor →
      (∀ root id target, executor.phase ≠ .polling root id target) →
      Stepped world .dispatch
        { world with executor := executor, stack := [.call .dropRoot] }
  | finished {root target : Nat} {id : Id} {executor : Executor} :
      world.executor.scheduling.own = none →
      world.executor.phase = .polling root id target → id ≠ rootTaskId →
      world.stack = [] →
      world.executor.step (.endPoll (.ready ())) = some executor →
      Stepped world .finish
        { world with executor := executor, stack := unwound executor }
  | cleared {task : LocalTask} {rest : List LocalTask} {executor : Executor} :
      world.stack = [] → world.executor.pendingSpawns = task :: rest →
      world.executor.step .clear = some executor →
      Stepped world .clear
        { world with executor := executor, stack := world.dropTask task }
  | destroyed {id : Id} {task : LocalTask} {executor : Executor} :
      world.stack = [] → world.executor.tasks.lookup id = some task →
      world.executor.step (.destroy id) = some executor →
      Stepped world (.destroy id)
        { world with executor := executor, stack := world.dropTask task }

theorem unwind_spec {rest : List (Frame Output)}
    (unwinds : world.unwind rest = some next) :
    ∃ executor left, Unwinds world rest left ∧
      world.executor.step .panic = some executor ∧
      next = { world with executor := executor, stack := left } := by
  unfold unwind at unwinds
  split at unwinds
  · rename_i root id target phase
    obtain ⟨executor, moved, rfl⟩ := Option.map_eq_some_iff.mp unwinds
    exact ⟨executor, _, .loop (Or.inl ⟨root, id, target, phase⟩), moved, rfl⟩
  · rename_i root phase
    obtain ⟨executor, moved, rfl⟩ := Option.map_eq_some_iff.mp unwinds
    exact ⟨executor, _, .loop (Or.inr ⟨root, phase⟩), moved, rfl⟩
  · rename_i root phase
    obtain ⟨executor, moved, rfl⟩ := Option.map_eq_some_iff.mp unwinds
    exact ⟨executor, _, .leaving phase, moved, rfl⟩
  · rename_i phase
    obtain ⟨executor, moved, rfl⟩ := Option.map_eq_some_iff.mp unwinds
    exact ⟨executor, _, .closing (by rw [phase]; rfl), moved, rfl⟩
  · rename_i phase
    obtain ⟨executor, moved, rfl⟩ := Option.map_eq_some_iff.mp unwinds
    exact ⟨executor, _, .closing (by rw [phase]; rfl), moved, rfl⟩
  · rename_i phase
    obtain ⟨executor, moved, rfl⟩ := Option.map_eq_some_iff.mp unwinds
    exact ⟨executor, _, .closing (by rw [phase]; rfl), moved, rfl⟩
  · cases unwinds

theorem free_iff : world.executor.free = true ↔
    world.executor.scheduling.own = none :=
  Executor.free_iff

theorem stepped_invoke (free : world.executor.scheduling.own = none)
    {waker : Waker} {rest : List (Frame Output)} {event : ProgramEvent Output}
    (wakes : Wakes world.stack waker rest event)
    (invoked : { world with log := event :: world.log }.invoke waker rest =
      some next) : Stepped world .proceed next := by
  unfold invoke at invoked
  split at invoked
  · cases invoked
    exact .wokeCode free wakes
  · rename_i schedule
    split at invoked
    · rename_i poisoned
      obtain ⟨executor, left, unwinds, moved, rfl⟩ := unwind_spec invoked
      have leaves : Unwinds world rest left := by
        cases unwinds with
        | loop phase => exact .loop phase
        | leaving phase => exact .leaving phase
        | closing phase => exact .closing phase
      exact .unwound free (.poisoned wakes poisoned) leaves moved
    · rename_i unpoisoned
      obtain ⟨executor, moved, rfl⟩ := Option.map_eq_some_iff.mp invoked
      exact .wokeTask free wakes (Bool.not_eq_true _ ▸ unpoisoned) moved

theorem stepped_publish (free : world.executor.scheduling.own = none)
    {join : JoinRef} {result : Except JoinError Output}
    {rest : List (Frame Output)} (stack : world.stack = .publish join result :: rest)
    (published : world.publish join result rest = some next) :
    Stepped world .proceed next := by
  unfold publish at published
  split at published
  · cases published
  · rename_i cell found
    split at published
    · rename_i panic twice
      obtain ⟨executor, left, unwinds, moved, rfl⟩ := unwind_spec published
      exact .unwound free (.published stack found twice) unwinds moved
    · rename_i state waker completed
      cases published
      cases current : cell.state with
      | pending stored =>
          rw [current] at completed
          cases completed
          exact .published free stack found current
      | ready other =>
          rw [current] at completed
          cases completed
      | consumed =>
          rw [current] at completed
          cases completed

theorem stepped_release (free : world.executor.scheduling.own = none)
    {join : JoinRef} {rest : List (Frame Output)}
    (stack : world.stack = .release join :: rest)
    (released : world.release join rest = some next) :
    Stepped world .proceed next := by
  unfold release at released
  split at released
  · cases released
  · rename_i cell found
    dsimp only at released
    split at released
    · rename_i frees
      cases released
      have gone := (JoinCell.freesOutput_iff.mp frees).1
      exact .released free stack found (Or.inr ⟨rfl, gone⟩)
    · cases released
      exact .released free stack found (Or.inl rfl)

theorem stepped_proceed (free : world.executor.scheduling.own = none)
    (proceeds : world.proceed = some next) : Stepped world .proceed next := by
  unfold proceed at proceeds
  split at proceeds
  · rename_i code rest stack
    cases proceeds
    exact .called free stack
  · rename_i waker rest stack
    exact stepped_invoke free (stack ▸ .fire) proceeds
  · rename_i join waker rest stack
    exact stepped_invoke free (stack ▸ .wake) proceeds
  · rename_i join result rest stack
    exact stepped_publish free stack proceeds
  · rename_i join rest stack
    exact stepped_release free stack proceeds
  · rename_i join rest stack
    obtain ⟨cell, found, rfl⟩ := Option.map_eq_some_iff.mp proceeds
    exact .granted free stack found
  · cases proceeds
  · cases proceeds

theorem stepped_panic (free : world.executor.scheduling.own = none)
    (panics : world.panic = some next) : Stepped world .panic next := by
  unfold panic at panics
  split at panics
  · rename_i join stack
    cases panics
    exact .caught free stack
  · rename_i code rest other stack
    obtain ⟨executor, left, unwinds, moved, rfl⟩ := unwind_spec panics
    refine .unwound free (.code stack ?_) unwinds moved
    intro join isInner empty
    exact other join empty isInner
  · cases panics

theorem timeUntil_of_call {timers left : Timers Waker} {soonest : Option Instant}
    (called : timers.call .nextDeadline = some (left, .deadline soonest))
    (now : Instant) : (timers.driver.timeUntilNextDeadline now).2 =
      soonest.map fun deadline => deadline.saturatingDurationSince now := by
  cases called
  rfl

theorem stepped_plan (plans : world.plan = some next) :
    Stepped world .plan next := by
  unfold plan at plans
  split at plans
  · rename_i root time soonest phase wait found
    split at plans
    · rename_i deadline paused
      split at plans
      · rename_i clock advanced
        obtain ⟨executor, moved, rfl⟩ := Option.map_eq_some_iff.mp plans
        exact .jumped phase wait found paused advanced moved
      · rename_i panic failed
        obtain ⟨executor, moved, rfl⟩ := Option.map_eq_some_iff.mp plans
        exact .stuck phase wait found paused failed moved
    · rename_i other
      rw [timeUntil_of_call found] at plans
      cases plans
      refine .planned phase wait found ?_
      cases paused : world.clock.isPaused with
      | false => exact Or.inl rfl
      | true =>
          right
          by_contra present
          obtain ⟨deadline, isSome⟩ := Option.ne_none_iff_exists'.mp present
          exact other deadline paused isSome
  · cases plans

theorem stepped_yield (free : world.executor.scheduling.own = none)
    {result : Poll Output} (yields : world.yield result = some next) :
    Stepped world (.yield result) next := by
  unfold yield at yields
  split at yields
  · rename_i stack
    obtain ⟨executor, moved, rfl⟩ := Option.map_eq_some_iff.mp yields
    exact .suspended free stack moved
  · rename_i stack
    cases yields
    exact .returned free stack
  · cases yields

theorem stepped_dispatch (dispatched : world.dispatch = some next) :
    Stepped world .dispatch next := by
  obtain ⟨executor, moved, rfl⟩ := Option.map_eq_some_iff.mp dispatched
  split
  · rename_i root id target phase
    exact .began moved phase
  · rename_i other
    exact .notBegun moved other

theorem stepped_spawn (runs : world.codeRuns = true) {executor : Executor}
    (moved : world.executor.step .spawn = some executor) :
    Stepped world .spawn (world.spawn executor) := by
  unfold spawn
  split
  · rename_i closed
    have same : executor = world.executor := by
      cases Executor.moved_of_step moved with
      | refused => rfl
      | submitted _ unclosed _ =>
          rw [closed] at unclosed
          cases unclosed
    subst same
    exact .refused runs closed
  · rename_i unclosed
    exact .spawned runs (Bool.not_eq_true _ ▸ unclosed) moved

theorem stepped_pollJoin (runs : world.codeRuns = true) {join : JoinRef}
    {waker : Waker} {cell : JoinCell Output} (found : world.joins join = some cell)
    (handle : cell.handle = true)
    (known : waker.known world.executor.scheduling.created = true) :
    Stepped world (.pollJoin join waker) (world.pollJoin join waker cell) := by
  unfold pollJoin
  cases current : cell.state with
  | pending stored => exact .awaited runs found handle known current
  | ready result => exact .yielded runs found handle current
  | consumed => exact .rejected

theorem stepped_of_step {label : Label Output}
    (stepped : machine.step world label = some next) :
    Stepped world label next := by
  change world.step label = some next at stepped
  cases label with
  | executor move =>
      simp only [step, Option.ite_none_right_eq_some,
        Option.map_eq_some_iff] at stepped
      obtain ⟨permitted, executor, moved, rfl⟩ := stepped
      exact .moved permitted moved
  | tick os =>
      simp only [step, Option.ite_none_right_eq_some, Option.some.injEq] at stepped
      obtain ⟨later, rfl⟩ := stepped
      exact .timed (Or.inl ⟨os, rfl, rfl⟩) (Clock.now_mono world.clock later)
  | clock call =>
      simp only [step, Option.ite_none_right_eq_some] at stepped
      obtain ⟨runs, called⟩ := stepped
      split at called
      · rename_i clock changed
        cases called
        exact .timed (Or.inr ⟨runs, call, rfl⟩) (Clock.now_le_call changed)
      · cases called
        exact .timed (Or.inr ⟨runs, call, rfl⟩) (Nat.le_refl _)
  | timer call =>
      simp only [step, Option.ite_none_right_eq_some, Option.map_eq_some_iff,
        Bool.and_eq_true] at stepped
      obtain ⟨⟨runs, asked⟩, ⟨time, reply⟩, called, rfl⟩ := stepped
      exact .timer runs asked called
  | spawn =>
      simp only [step, Option.ite_none_right_eq_some,
        Option.map_eq_some_iff] at stepped
      obtain ⟨runs, executor, moved, rfl⟩ := stepped
      exact stepped_spawn runs moved
  | pollJoin join waker =>
      simp only [step] at stepped
      split at stepped
      · rename_i cell found
        simp only [Option.ite_none_right_eq_some, Option.some.injEq,
          Bool.and_eq_true] at stepped
        obtain ⟨⟨⟨runs, handle⟩, known⟩, rfl⟩ := stepped
        exact stepped_pollJoin runs found handle known
      · cases stepped
  | dropJoin join =>
      simp only [step] at stepped
      split at stepped
      · rename_i cell found
        simp only [Option.ite_none_right_eq_some, Option.some.injEq,
          Bool.and_eq_true] at stepped
        obtain ⟨⟨runs, handle⟩, rfl⟩ := stepped
        exact .dropped runs found handle
      · cases stepped
  | yield result =>
      simp only [step, Option.ite_none_right_eq_some] at stepped
      exact stepped_yield (free_iff.mp stepped.1) stepped.2
  | rootYield result =>
      simp only [step, Option.ite_none_right_eq_some, rootYield] at stepped
      obtain ⟨free, yields⟩ := stepped
      split at yields
      · rename_i stack
        obtain ⟨executor, moved, rfl⟩ := Option.map_eq_some_iff.mp yields
        exact .rootYielded (free_iff.mp free) stack moved
      · cases yields
  | codeReturns =>
      simp only [step, Option.ite_none_right_eq_some, codeReturns] at stepped
      obtain ⟨free, returns⟩ := stepped
      split at returns
      · rename_i code rest stack
        cases code with
        | root => cases returns
        | inner join => cases returns
        | _ =>
            cases returns
            exact .codeReturned (free_iff.mp free) stack (by simp) (by simp)
      · cases returns
  | panic =>
      simp only [step, Option.ite_none_right_eq_some] at stepped
      exact stepped_panic (free_iff.mp stepped.1) stepped.2
  | proceed =>
      simp only [step, Option.ite_none_right_eq_some] at stepped
      exact stepped_proceed (free_iff.mp stepped.1) stepped.2
  | drain =>
      simp only [step, drain] at stepped
      split at stepped
      · rename_i executor time wakers moved called
        cases stepped
        exact .drained moved called
      · cases stepped
  | plan => exact stepped_plan stepped
  | recv =>
      simp only [step, recv] at stepped
      split at stepped
      · rename_i timeout waits
        obtain ⟨executor, moved, rfl⟩ := Option.map_eq_some_iff.mp stepped
        exact .received waits moved
      · cases stepped
  | timeout =>
      simp only [step, timeout] at stepped
      split at stepped
      · rename_i timeout waits
        obtain ⟨executor, moved, rfl⟩ := Option.map_eq_some_iff.mp stepped
        exact .timedOut waits moved
      · cases stepped
  | dispatch => exact stepped_dispatch stepped
  | finish =>
      simp only [step, Option.ite_none_right_eq_some, finish] at stepped
      obtain ⟨free, finishes⟩ := stepped
      split at finishes
      · rename_i root id target phase
        simp only [Option.ite_none_right_eq_some,
          Option.map_eq_some_iff] at finishes
        obtain ⟨⟨notRoot, stack⟩, executor, moved, rfl⟩ := finishes
        exact .finished (free_iff.mp free) phase notRoot stack moved
      · cases finishes
  | clear =>
      simp only [step, clear] at stepped
      split at stepped
      · rename_i task rest stack pending
        obtain ⟨executor, moved, rfl⟩ := Option.map_eq_some_iff.mp stepped
        exact .cleared stack pending moved
      · cases stepped
  | destroy id =>
      simp only [step, destroy] at stepped
      split at stepped
      · rename_i task stack found
        obtain ⟨executor, moved, rfl⟩ := Option.map_eq_some_iff.mp stepped
        exact .destroyed stack found moved
      · cases stepped

end World

end Asyncr
