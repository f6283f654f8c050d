import Asyncr.Panic
import Asyncr.Task

namespace Asyncr

/-! The scheduling state of one task, `scheduling/state.rs`. -/

inductive ScheduleState where
  | idle
  | queued
  | running (notified : Bool)
  | complete
  deriving DecidableEq, Repr

inductive ScheduleAction where
  | none
  | enqueue
  | complete
  deriving DecidableEq, Repr

namespace ScheduleState

def wake : ScheduleState → ScheduleState × ScheduleAction
  | .idle => (.queued, .enqueue)
  | .running false => (.running true, .none)
  | state => (state, .none)

def beginPoll : ScheduleState → Except Panic ScheduleState
  | .queued => .ok (.running false)
  | _ => .error .onlyQueuedPolled

def finishPoll : ScheduleState → Poll Unit →
    Except Panic (ScheduleState × ScheduleAction)
  | .running _, .ready () => .ok (.complete, .complete)
  | .running false, .pending => .ok (.idle, .none)
  | .running true, .pending => .ok (.queued, .enqueue)
  | _, _ => .error .notRunningAtFinish

/-- Somebody has asked for a poll that has not begun. -/
def requested : ScheduleState → Bool
  | .queued | .running true => true
  | .idle | .running false | .complete => false

end ScheduleState

/-! `TaskSchedule` with its mutex: a panic under the lock poisons it, and every
later `lock().unwrap()` panics. -/

structure TaskSchedule where
  id : Id
  state : ScheduleState
  poisoned : Bool
  deriving Repr

namespace TaskSchedule

def new (id : Id) : TaskSchedule where
  id := id
  state := .idle
  poisoned := false

/-- The critical section of `request_schedule`. -/
def wake (schedule : TaskSchedule) :
    TaskSchedule × Except Panic ScheduleAction :=
  if schedule.poisoned then
    (schedule, .error .mutexPoisoned)
  else
    ({ schedule with state := schedule.state.wake.1 },
      .ok schedule.state.wake.2)

/-- The first critical section of `poll`. -/
def beginPoll (schedule : TaskSchedule) : TaskSchedule × Except Panic Unit :=
  if schedule.poisoned then
    (schedule, .error .mutexPoisoned)
  else
    match schedule.state.beginPoll with
    | .ok state => ({ schedule with state := state }, .ok ())
    | .error panic => ({ schedule with poisoned := true }, .error panic)

/-- The second critical section of `poll`. -/
def finishPoll (schedule : TaskSchedule) (result : Poll Unit) :
    TaskSchedule × Except Panic ScheduleAction :=
  if schedule.poisoned then
    (schedule, .error .mutexPoisoned)
  else
    match schedule.state.finishPoll result with
    | .ok (state, action) => ({ schedule with state := state }, .ok action)
    | .error panic => ({ schedule with poisoned := true }, .error panic)

end TaskSchedule

end Asyncr
