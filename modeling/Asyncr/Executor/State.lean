import Mathlib.Data.List.AList
import Asyncr.Library.Machine
import Asyncr.Scheduling.Machine

namespace Asyncr

open Library

/-! The executor of `executor.rs`: its tasks, the spawns it has not admitted yet,
and its loop.  A task's future is known by the number of its schedule. -/

structure LocalTask where
  id : Id
  schedule : Nat
  deriving DecidableEq, Repr

abbrev Tasks := AList fun _ : Id => LocalTask

/-- Where the executor's thread stands. -/
inductive Phase where
  /-- No call of `block_on` is active. -/
  | outside
  /-- At the top of the loop of `next_ready_id`. -/
  | iterating (root : Nat)
  /-- `process_expired` is waking what it has removed. -/
  | expiring (root : Nat)
  /-- Before `try_recv`. -/
  | receiving (root : Nat)
  /-- `try_recv` has found the channel empty. -/
  | waiting (root : Nat)
  /-- `next_ready_id` has returned the id that was taken. -/
  | dispatching (root : Nat)
  | polling (root : Nat) (id : Id) (schedule : Nat)
  /-- `block_on` returns and drops its root future. -/
  | leaving (root : Nat)
  /-- A panic leaves `block_on`. -/
  | unwinding
  /-- `Drop for Executor` clears `pending_spawns`, which it has borrowed. -/
  | clearing
  /-- The fields of the executor are dropped, `tasks` first. -/
  | tearing
  /-- A panic leaves the drop of `tasks`; what is left of them is leaked. -/
  | leaking
  | dropped
  deriving DecidableEq, Repr

namespace Phase

/-- The root of the active `block_on`. -/
def root? : Phase → Option Nat
  | .iterating root | .expiring root | .receiving root | .waiting root
  | .dispatching root | .polling root _ _ | .leaving root => some root
  | .outside | .unwinding | .clearing | .tearing | .leaking | .dropped => none

/-- Code of the program may be running on the executor's thread. -/
def runsCode : Phase → Bool
  | .outside | .expiring _ | .polling _ _ _ | .leaving _ | .unwinding
  | .clearing | .tearing | .leaking | .dropped => true
  | .iterating _ | .receiving _ | .waiting _ | .dispatching _ => false

def closing : Phase → Bool
  | .clearing | .tearing | .leaking | .dropped => true
  | _ => false

end Phase

structure Executor where
  scheduling : Scheduling
  tasks : Tasks
  pendingSpawns : List LocalTask
  nextId : UInt64
  closed : Bool
  phase : Phase
  /-- A panic unwinds out of the drop of the executor. -/
  failing : Bool
  /-- History: how many ids `submit` has given out. -/
  spawned : Nat

/-- A step of the executor's thread, or of another thread that holds a waker. -/
inductive Move where
  | remoteWake (schedule : Nat)
  | remoteSend (schedule : Nat)
  | wake (schedule : Nat)
  | send
  | spawn
  | blockOn
  | drain
  | settle
  | tryRecv
  | recv
  | retry
  | dispatch
  | endPoll (result : Poll Unit)
  | panic
  | unwound
  | leave
  | close
  | clear
  | tear
  | destroy (id : Id)
  | release
  deriving DecidableEq, Repr

namespace Executor

/-- `Executor::new`. -/
def initial : Executor where
  scheduling := Scheduling.initial
  tasks := ∅
  pendingSpawns := []
  nextId := 1
  closed := false
  phase := .outside
  failing := false
  spawned := 0

/-- `SpawnState::next_id`: the loop goes round once more on zero. -/
def takeNextId (nextId : UInt64) : Id × UInt64 :=
  if nextId = 0 then (⟨nextId + 1⟩, nextId + 2) else (⟨nextId⟩, nextId + 1)

/-- One step of the schedules, and what else changes with it. -/
def andThen (executor : Executor) (change : ScheduleStep)
    (update : Executor → Executor) : Option Executor :=
  (executor.scheduling.step change).map fun scheduling =>
    update { executor with scheduling := scheduling }

/-- The executor's thread goes on only after the send it has decided on. -/
def free (executor : Executor) : Bool :=
  executor.scheduling.own.isNone

def setPhase (phase : Phase) (executor : Executor) : Executor :=
  { executor with phase := phase }

/-- `SpawnState::submit`, up to the send. -/
def submit (executor : Executor) : Option Executor :=
  if executor.closed then
    some executor
  else
    let (id, nextId) := takeNextId executor.nextId
    let task : LocalTask := ⟨id, executor.scheduling.created⟩
    executor.andThen (.create id) fun executor =>
      { executor with
        pendingSpawns := executor.pendingSpawns ++ [task]
        nextId := nextId
        spawned := executor.spawned + 1 }

def drainPendingSpawns (executor : Executor) : Executor :=
  { executor with
    tasks := executor.pendingSpawns.foldl
      (fun tasks task => tasks.insert task.id task) executor.tasks
    pendingSpawns := [] }

/-- The schedule that `block_on` polls for an id. -/
def target? (executor : Executor) (root : Nat) (id : Id) : Option Nat :=
  if id = rootTaskId then
    some root
  else
    (executor.tasks.lookup id).map LocalTask.schedule

/-- The body of the loop of `block_on`, up to the poll. -/
def dispatch (executor : Executor) (root : Nat) (entry : ReadyEntry) :
    Option Executor :=
  match executor.target? root entry.id with
  | none => executor.andThen .reject (setPhase .unwinding)
  | some target =>
      match ((executor.scheduling.schedules target).beginPoll).2 with
      | .ok _ =>
          executor.andThen (.beginPoll target)
            (setPhase (.polling root entry.id target))
      | .error _ => executor.andThen (.beginPoll target) (setPhase .unwinding)

/-- The end of `TaskSchedule::poll`, with what the loop does with its result. -/
def endPoll (executor : Executor) (root : Nat) (id : Id) (target : Nat)
    (result : Poll Unit) : Option Executor :=
  match ((executor.scheduling.schedules target).finishPoll result).2, result with
  | .error _, _ =>
      executor.andThen (.finishPoll target result) (setPhase .unwinding)
  | .ok _, .pending =>
      executor.andThen (.finishPoll target result) (setPhase (.iterating root))
  | .ok _, .ready _ =>
      executor.andThen (.finishPoll target result) fun executor =>
        if id = rootTaskId then
          { executor with phase := .leaving root }
        else
          { executor with
            tasks := executor.tasks.erase id
            phase := .iterating root }

/-- A panic while the executor is dropped: `pending_spawns` and `tasks` are dropped
nevertheless, but `tasks` stops where a panic leaves it.  A second panic aborts. -/
def failDrop (executor : Executor) : Option Executor :=
  match executor.phase, executor.failing with
  | .clearing, false => some { executor with failing := true }
  | .tearing, false => some { executor with phase := .leaking, failing := true }
  | .dropped, _ => some executor
  | _, _ => none

def step (executor : Executor) : Move → Option Executor
  | .remoteWake schedule => executor.andThen (.remoteWake schedule) id
  | .remoteSend schedule => executor.andThen (.remoteSend schedule) id
  | .wake schedule =>
      if executor.phase.runsCode then
        executor.andThen (.wake schedule) id
      else
        none
  | .send => executor.andThen .send id
  | .spawn =>
      if executor.phase.runsCode ∧ executor.free then executor.submit else none
  | .blockOn =>
      if executor.phase = .outside then
        executor.andThen (.create rootTaskId)
          (setPhase (.iterating executor.scheduling.created))
      else
        none
  | .drain =>
      match executor.phase, executor.free with
      | .iterating root, true =>
          some { executor.drainPendingSpawns with phase := .expiring root }
      | _, _ => none
  | .settle =>
      match executor.phase, executor.free with
      | .expiring root, true => some { executor with phase := .receiving root }
      | _, _ => none
  | .tryRecv =>
      match executor.phase, executor.free with
      | .receiving root, true =>
          match executor.scheduling.ready with
          | [] => some { executor with phase := .waiting root }
          | _ :: _ => executor.andThen .receive (setPhase (.dispatching root))
      | _, _ => none
  | .recv =>
      match executor.phase with
      | .waiting root => executor.andThen .receive (setPhase (.dispatching root))
      | _ => none
  | .retry =>
      match executor.phase with
      | .waiting root => some { executor with phase := .iterating root }
      | _ => none
  | .dispatch =>
      match executor.phase, executor.scheduling.taken with
      | .dispatching root, some entry => executor.dispatch root entry
      | _, _ => none
  | .endPoll result =>
      match executor.phase with
      | .polling root id target => executor.endPoll root id target result
      | _ => none
  | .panic =>
      match executor.phase, executor.free with
      | .polling _ _ target, _ =>
          executor.andThen (.unwind target) (setPhase .unwinding)
      | .expiring _, true | .waiting _, true | .leaving _, true =>
          some { executor with phase := .unwinding }
      | .clearing, true | .tearing, true | .dropped, true => executor.failDrop
      | _, _ => none
  | .unwound =>
      if executor.phase = .unwinding ∧ executor.free then
        some { executor with phase := .outside }
      else
        none
  | .leave =>
      match executor.phase, executor.free with
      | .leaving _, true => some { executor with phase := .outside }
      | _, _ => none
  | .close =>
      if executor.phase = .outside ∧ executor.free then
        some { executor with closed := true, phase := .clearing }
      else
        none
  | .clear =>
      match executor.phase, executor.free, executor.pendingSpawns with
      | .clearing, true, _ :: rest => some { executor with pendingSpawns := rest }
      | _, _, _ => none
  | .tear =>
      match executor.phase, executor.free, executor.pendingSpawns with
      | .clearing, true, [] => some { executor with phase := .tearing }
      | _, _, _ => none
  | .destroy id =>
      if executor.phase = .tearing ∧ executor.free ∧ id ∈ executor.tasks then
        some { executor with tasks := executor.tasks.erase id }
      else
        none
  | .release =>
      if executor.phase = .tearing ∧ executor.tasks = ∅ ∨
          executor.phase = .leaking then
        executor.andThen .disconnect (setPhase .dropped)
      else
        none

def machine : Machine Executor Move where
  step := step

end Executor

end Asyncr
