import Asyncr.Executor.State
import Asyncr.Program.Join
import Asyncr.Time.Clock
import Asyncr.Time.Timers

namespace Asyncr

open Library
open Time

/-! A program that runs on one executor.  Its futures, destructors and wakers are
code that may call the runtime in any order; the runtime calls them from a stack
of frames.  A spawned future is known by its `JoinState`. -/

inductive JoinRef where
  /-- The task with this schedule. -/
  | task (schedule : Nat)
  /-- A spawn after the executor was closed. -/
  | refused (number : Nat)
  deriving DecidableEq, Repr

/-- Code of the program that the runtime calls. -/
inductive Code where
  | root
  | inner (join : JoinRef)
  | waker (code : Nat)
  | dropFuture (join : JoinRef)
  | dropPayload (join : JoinRef)
  | dropOutput (join : JoinRef)
  | dropRoot
  deriving DecidableEq, Repr

/-- What the executor's thread is doing, and what it will do after. -/
inductive Frame (Output : Type) where
  | running (code : Code)
  | call (code : Code)
  /-- `process_expired` wakes what it has removed. -/
  | fire (waker : Waker)
  /-- `publish_inner` wakes the waiter. -/
  | wake (join : JoinRef) (waker : Waker)
  | publish (join : JoinRef) (result : Except JoinError Output)
  /-- `publish_inner` drops its reference. -/
  | release (join : JoinRef)
  /-- `Handle::spawn` returns the handle of a refused spawn. -/
  | grant (join : JoinRef)

/-- History of a program. -/
inductive ProgramEvent (Output : Type) where
  | polled (schedule : Nat)
  | returned (join : JoinRef) (value : Output)
  | panicked (join : JoinRef)
  | fired (waker : Waker)
  | published (join : JoinRef) (result : Except JoinError Output)
      (waker : Option Waker)
  | woke (join : JoinRef) (waker : Waker)
  /-- A poll of the handle found it pending. -/
  | awaited (join : JoinRef) (waker : Waker)
  | yielded (join : JoinRef) (result : Except JoinError Output)

structure World (Output : Type) where
  executor : Executor
  time : Timers Waker
  clock : Clock
  /-- What the operating system's clock shows. -/
  os : Instant
  joins : JoinRef → Option (JoinCell Output)
  /-- How many spawns were refused. -/
  refused : Nat
  stack : List (Frame Output)
  /-- The timeout of the blocking receive, once it is known. -/
  wait : Option (Option Duration)
  /-- History, the latest event first. -/
  log : List (ProgramEvent Output)

/-- A step of the program, of the runtime that runs it, or of the clock. -/
inductive Label (Output : Type) where
  /-- A step that concerns the executor alone. -/
  | executor (move : Move)
  | tick (os : Instant)
  | clock (call : ClockCall)
  | timer (call : SleepCall Waker)
  | spawn
  | pollJoin (join : JoinRef) (waker : Waker)
  | dropJoin (join : JoinRef)
  /-- The poll of a spawned future returns. -/
  | yield (result : Poll Output)
  /-- The poll of the root returns. -/
  | rootYield (result : Poll Unit)
  /-- A destructor or a waker returns. -/
  | codeReturns
  | panic
  /-- The runtime does what its topmost frame says. -/
  | proceed
  | drain
  | plan
  | recv
  | timeout
  | dispatch
  /-- The harness of a spawned future returns `Ready`. -/
  | finish
  | clear
  | destroy (id : Id)

def Waker.known (created : Nat) : Waker → Bool
  | .task schedule => decide (schedule < created)
  | .custom _ => true

namespace World

variable {Output : Type}

def initial (clock : Clock) (os : Instant) : World Output where
  executor := Executor.initial
  time := Timers.initial (clock.now os)
  clock := clock
  os := os
  joins := fun _ => none
  refused := 0
  stack := []
  wait := none
  log := []

def now (world : World Output) : Instant :=
  world.clock.now world.os

def codeRuns (world : World Output) : Bool :=
  world.executor.free &&
    match world.stack, world.executor.phase with
    | .running _ :: _, _ => true
    | [], .outside | [], .dropped => true
    | _, _ => false

/-- The moves that concern the executor alone, where each of them may be made. -/
def permits (world : World Output) : Move → Bool
  | .remoteWake _ | .remoteSend _ | .send => true
  | .wake _ => world.codeRuns
  | .blockOn | .settle | .tryRecv | .unwound | .leave | .close | .tear
  | .release => world.stack.isEmpty
  | _ => false

def setJoin (world : World Output) (join : JoinRef) (cell : JoinCell Output) :
    World Output :=
  { world with joins := Function.update world.joins join (some cell) }

/-- What the program may ask of its sleeps. -/
def sleepCall (world : World Output) : SleepCall Waker → Bool
  | .new _ | .reset _ _ | .drop _ => true
  | .poll _ waker now =>
      decide (now = world.now) && waker.known world.executor.scheduling.created
  | .processExpired _ | .nextDeadline => false

/-- `Handle::spawn`.  A refused harness is dropped before the handle is returned:
its future first, then its sender. -/
def spawn (world : World Output) (executor : Executor) : World Output :=
  if world.executor.closed then
    let join := JoinRef.refused world.refused
    { world.setJoin join (JoinCell.new false) with
      executor := executor
      refused := world.refused + 1
      stack := .call (.dropFuture join) :: .publish join (.error .cancelled) ::
        .grant join :: world.stack }
  else
    { world.setJoin (.task world.executor.scheduling.created)
        (JoinCell.new true) with executor := executor }

/-- `JoinHandle::poll`; polling a consumed one panics and changes nothing. -/
def pollJoin (world : World Output) (join : JoinRef) (waker : Waker)
    (cell : JoinCell Output) : World Output :=
  match cell.state.poll waker with
  | (state, .ok .pending) =>
      { world.setJoin join { cell with state := state } with
        log := .awaited join waker :: world.log }
  | (state, .ok (.ready result)) =>
      { world.setJoin join { cell with state := state } with
        log := .yielded join result :: world.log }
  | (_, .error _) => world

/-- `Drop for JoinHandle`, then its reference to the state.  Where that frees an output,
the destructor of the output is part of the code that drops the handle. -/
def dropJoin (world : World Output) (join : JoinRef) (cell : JoinCell Output) :
    World Output :=
  world.setJoin join { cell with state := cell.state.abandon, handle := false }

/-- What an unwinding panic drops on its way, the sender of a harness included.  The
result of a poll is still on the stack only where the destructor of its future has
panicked; the compiled code then leaks the output, or the payload of the panic. -/
def cleanup : List (Frame Output) → List (Frame Output)
  | [] => []
  | .publish join _ :: rest => .publish join (.error .cancelled) :: cleanup rest
  | .call (.dropPayload _) :: rest => cleanup rest
  | .call code :: rest => .call code :: cleanup rest
  | .release join :: rest => .release join :: cleanup rest
  | .running _ :: rest | .fire _ :: rest | .wake _ _ :: rest | .grant _ :: rest =>
      cleanup rest

/-- A panic leaves the frames above `rest`, and unwinds through `block_on` or out of
the drop of the executor.  No code of the program catches it on its way.  One that
starts while another unwinds aborts. -/
def unwind (world : World Output) (rest : List (Frame Output)) :
    Option (World Output) :=
  match world.executor.phase with
  | .polling _ _ _ | .expiring _ =>
      (world.executor.step .panic).map fun executor =>
        { world with
          executor := executor
          stack := cleanup rest ++ [.call .dropRoot] }
  | .leaving _ | .clearing | .tearing | .dropped =>
      (world.executor.step .panic).map fun executor =>
        { world with executor := executor, stack := cleanup rest }
  | _ => none

/-- `Waker::wake`; a task's poisoned mutex makes it panic. -/
def invoke (world : World Output) (waker : Waker) (rest : List (Frame Output)) :
    Option (World Output) :=
  match waker with
  | .custom code => some { world with stack := .running (.waker code) :: rest }
  | .task schedule =>
      if (world.executor.scheduling.schedules schedule).poisoned then
        world.unwind rest
      else
        (world.executor.step (.wake schedule)).map fun executor =>
          { world with executor := executor, stack := rest }

/-- What is left of the harness once the inner future is done, or is dropped. -/
def harness (join : JoinRef) (result : Except JoinError Output) :
    List (Frame Output) :=
  [.call (.dropFuture join), .publish join result]

def publish (world : World Output) (join : JoinRef)
    (result : Except JoinError Output) (rest : List (Frame Output)) :
    Option (World Output) :=
  match world.joins join with
  | none => none
  | some cell =>
      match cell.state.complete result with
      | .error _ => world.unwind (.release join :: rest)
      | .ok (state, waker) =>
          some { world.setJoin join { cell with state := state } with
            stack := (waker.map (Frame.wake join)).toList ++ .release join :: rest
            log := .published join result waker :: world.log }

/-- The sender's reference goes; the last one takes the output with it. -/
def release (world : World Output) (join : JoinRef) (rest : List (Frame Output)) :
    Option (World Output) :=
  match world.joins join with
  | none => none
  | some cell =>
      let left := { cell with sender := false }
      let released := world.setJoin join left
      if left.freesOutput then
        some { released with stack := .call (.dropOutput join) :: rest }
      else
        some { released with stack := rest }

def proceed (world : World Output) : Option (World Output) :=
  match world.stack with
  | .call code :: rest => some { world with stack := .running code :: rest }
  | .fire waker :: rest =>
      { world with log := .fired waker :: world.log }.invoke waker rest
  | .wake join waker :: rest =>
      { world with log := .woke join waker :: world.log }.invoke waker rest
  | .publish join result :: rest => world.publish join result rest
  | .release join :: rest => world.release join rest
  | .grant join :: rest =>
      (world.joins join).map fun cell =>
        { world.setJoin join { cell with handle := true } with stack := rest }
  | .running _ :: _ | [] => none

/-- The panic of an inner future is caught; any other one unwinds. -/
def panic (world : World Output) : Option (World Output) :=
  match world.stack with
  | [.running (.inner join)] =>
      some { world with
        stack := [.call (.dropFuture join), .call (.dropPayload join),
          .publish join (.error .panic)]
        log := .panicked join :: world.log }
  | .running _ :: rest => world.unwind rest
  | _ => none

/-- The frames of the program after `block_on` has gone on to `executor`: the root
is dropped if a panic unwinds. -/
def unwound (executor : Executor) : List (Frame Output) :=
  if executor.phase = .unwinding then [.call .dropRoot] else []

def yield (world : World Output) (result : Poll Output) : Option (World Output) :=
  match world.stack, result with
  | [.running (.inner _)], .pending =>
      (world.executor.step (.endPoll .pending)).map fun executor =>
        { world with executor := executor, stack := unwound executor }
  | [.running (.inner join)], .ready value =>
      some { world with
        stack := harness join (.ok value)
        log := .returned join value :: world.log }
  | _, _ => none

def rootYield (world : World Output) (result : Poll Unit) : Option (World Output) :=
  match world.stack with
  | [.running .root] =>
      (world.executor.step (.endPoll result)).map fun executor =>
        { world with
          executor := executor
          stack := match executor.phase with
            | .leaving _ | .unwinding => [.call .dropRoot]
            | _ => [] }
  | _ => none

def codeReturns (world : World Output) : Option (World Output) :=
  match world.stack with
  | .running code :: rest =>
      match code with
      | .root | .inner _ => none
      | .waker _ | .dropFuture _ | .dropPayload _ | .dropOutput _ | .dropRoot =>
          some { world with stack := rest }
  | _ => none

/-- `drain_pending_spawns`, then `process_expired` up to its first wake. -/
def drain (world : World Output) : Option (World Output) :=
  match world.executor.step .drain, world.time.call (.processExpired world.now) with
  | some executor, some (time, .woken wakers) =>
      some { world with
        executor := executor
        time := time
        stack := wakers.map Frame.fire }
  | _, _ => none

/-- The loop of `next_ready_id` after `try_recv` has found nothing: a paused clock
jumps to the next deadline, otherwise the timeout is computed. -/
def plan (world : World Output) : Option (World Output) :=
  match world.executor.phase, world.wait, world.time.call .nextDeadline with
  | .waiting _, none, some (time, .deadline next) =>
      match world.clock.isPaused, next with
      | true, some deadline =>
          match world.clock.advanceTo deadline with
          | .ok clock =>
              (world.executor.step .retry).map fun executor =>
                { world with executor := executor, time := time, clock := clock }
          | .error _ =>
              (world.executor.step .panic).map fun executor =>
                { world with
                  executor := executor
                  time := time
                  stack := [.call .dropRoot] }
      | _, _ =>
          some { world with
            time := time
            wait := some (world.time.driver.timeUntilNextDeadline world.now).2 }
  | _, _, _ => none

def recv (world : World Output) : Option (World Output) :=
  match world.wait with
  | some _ =>
      (world.executor.step .recv).map fun executor =>
        { world with executor := executor, wait := none }
  | none => none

def timeout (world : World Output) : Option (World Output) :=
  match world.wait with
  | some (some _) =>
      (world.executor.step .retry).map fun executor =>
        { world with executor := executor, wait := none }
  | _ => none

def dispatch (world : World Output) : Option (World Output) :=
  (world.executor.step .dispatch).map fun executor =>
    match executor.phase with
    | .polling _ id target =>
        { world with
          executor := executor
          stack :=
            [.running (if id = rootTaskId then .root else .inner (.task target))]
          log := .polled target :: world.log }
    | _ => { world with executor := executor, stack := [.call .dropRoot] }

def finish (world : World Output) : Option (World Output) :=
  match world.executor.phase with
  | .polling _ id _ =>
      if id ≠ rootTaskId ∧ world.stack = [] then
        (world.executor.step (.endPoll (.ready ()))).map fun executor =>
          { world with executor := executor, stack := unwound executor }
      else
        none
  | _ => none

/-- The frames that drop a task: its future and its sender, if they are left. -/
def dropTask (world : World Output) (task : LocalTask) : List (Frame Output) :=
  match world.joins (.task task.schedule) with
  | some cell =>
      if cell.sender then harness (.task task.schedule) (.error .cancelled) else []
  | none => []

def clear (world : World Output) : Option (World Output) :=
  match world.stack, world.executor.pendingSpawns with
  | [], task :: _ =>
      (world.executor.step .clear).map fun executor =>
        { world with executor := executor, stack := world.dropTask task }
  | _, _ => none

def destroy (world : World Output) (id : Id) : Option (World Output) :=
  match world.stack, world.executor.tasks.lookup id with
  | [], some task =>
      (world.executor.step (.destroy id)).map fun executor =>
        { world with executor := executor, stack := world.dropTask task }
  | _, _ => none

def step (world : World Output) : Label Output → Option (World Output)
  | .executor move =>
      if world.permits move then
        (world.executor.step move).map fun executor =>
          { world with executor := executor }
      else
        none
  | .tick os => if world.os ≤ os then some { world with os := os } else none
  | .clock call =>
      if world.codeRuns then
        match world.clock.call world.os call with
        | .ok clock => some { world with clock := clock }
        | .error _ => some world
      else
        none
  | .timer call =>
      if world.codeRuns && world.sleepCall call then
        (world.time.call call).map fun outcome => { world with time := outcome.1 }
      else
        none
  | .spawn =>
      if world.codeRuns then
        (world.executor.step .spawn).map world.spawn
      else
        none
  | .pollJoin join waker =>
      match world.joins join with
      | some cell =>
          if world.codeRuns && cell.handle &&
              waker.known world.executor.scheduling.created then
            some (world.pollJoin join waker cell)
          else
            none
      | none => none
  | .dropJoin join =>
      match world.joins join with
      | some cell =>
          if world.codeRuns && cell.handle then
            some (world.dropJoin join cell)
          else
            none
      | none => none
  | .yield result => if world.executor.free then world.yield result else none
  | .rootYield result =>
      if world.executor.free then world.rootYield result else none
  | .codeReturns => if world.executor.free then world.codeReturns else none
  | .panic => if world.executor.free then world.panic else none
  | .proceed => if world.executor.free then world.proceed else none
  | .drain => world.drain
  | .plan => world.plan
  | .recv => world.recv
  | .timeout => world.timeout
  | .dispatch => world.dispatch
  | .finish => if world.executor.free then world.finish else none
  | .clear => world.clear
  | .destroy id => world.destroy id

def machine : Machine (World Output) (Label Output) where
  step := step

end World

end Asyncr
