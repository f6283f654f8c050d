import Mathlib.Logic.Function.Basic
import Asyncr.Scheduling.State

namespace Asyncr

/-! All `TaskSchedule`s that send on one ready channel.  A schedule is known by
the order in which it was created.  Each critical section and each operation of
the channel is one step; between them any thread may take its own. -/

/-- An id in the channel.  Which schedule sent it is history: no code reads it. -/
structure ReadyEntry where
  id : Id
  sender : Nat
  deriving DecidableEq, Repr

/-- History of the schedules and of their channel. -/
inductive ScheduleEvent where
  | woken (schedule : Nat)
  | sent (entry : ReadyEntry)
  | began (schedule : Nat) (entry : ReadyEntry)
  | unwound (schedule : Nat)
  deriving DecidableEq, Repr

structure Scheduling where
  schedules : Nat → TaskSchedule
  created : Nat
  ready : List ReadyEntry
  /-- The receiver exists. -/
  connected : Bool
  /-- What the executor has received and not yet begun to poll. -/
  taken : Option ReadyEntry
  /-- The executor's thread has left a critical section and must send next. -/
  own : Option Nat
  /-- Other threads between their critical section and their send. -/
  sending : List Nat
  /-- History, the latest event first. -/
  log : List ScheduleEvent

inductive ScheduleStep where
  | remoteWake (schedule : Nat)
  | remoteSend (schedule : Nat)
  | wake (schedule : Nat)
  | send
  | create (id : Id)
  | receive
  | reject
  | beginPoll (schedule : Nat)
  | finishPoll (schedule : Nat) (result : Poll Unit)
  | unwind (schedule : Nat)
  | disconnect
  deriving DecidableEq, Repr

namespace Scheduling

def initial : Scheduling where
  schedules := fun _ => TaskSchedule.new rootTaskId
  created := 0
  ready := []
  connected := true
  taken := none
  own := none
  sending := []
  log := []

def state (scheduling : Scheduling) (schedule : Nat) : ScheduleState :=
  (scheduling.schedules schedule).state

def setSchedule (scheduling : Scheduling) (schedule : Nat)
    (changed : TaskSchedule) : Scheduling :=
  { scheduling with
    schedules := Function.update scheduling.schedules schedule changed }

/-- The critical section of `request_schedule`, and whether a send must follow. -/
def wakeSection (scheduling : Scheduling) (schedule : Nat) : Scheduling × Bool :=
  match (scheduling.schedules schedule).wake with
  | (_, .error _) => (scheduling, false)
  | (changed, .ok action) =>
      ({ scheduling.setSchedule schedule changed with
          log := .woken schedule :: scheduling.log },
        action == .enqueue)

/-- `ready_tx.send(self.id)`; without a receiver the error is dropped. -/
def sendReady (scheduling : Scheduling) (schedule : Nat) : Scheduling :=
  if scheduling.connected then
    let entry : ReadyEntry := ⟨(scheduling.schedules schedule).id, schedule⟩
    { scheduling with
      ready := scheduling.ready ++ [entry]
      log := .sent entry :: scheduling.log }
  else
    scheduling

/-- `TaskSchedule::new`, with the `request_schedule` that follows at once. -/
def create (scheduling : Scheduling) (id : Id) : Scheduling × Bool :=
  let schedule := scheduling.created
  { scheduling.setSchedule schedule (TaskSchedule.new id) with
    created := scheduling.created + 1 }.wakeSection schedule

/-- `begin_poll` of the entry just received; the guard of a failed one poisons
its mutex. -/
def beginPoll (scheduling : Scheduling) (schedule : Nat) (entry : ReadyEntry) :
    Scheduling :=
  match (scheduling.schedules schedule).beginPoll with
  | (changed, .ok _) =>
      { scheduling.setSchedule schedule changed with
        taken := none
        log := .began schedule entry :: scheduling.log }
  | (changed, .error _) =>
      { scheduling.setSchedule schedule changed with taken := none }

/-- `finish_poll`, and whether a send must follow. -/
def finishPoll (scheduling : Scheduling) (schedule : Nat) (result : Poll Unit) :
    Scheduling × Bool :=
  match (scheduling.schedules schedule).finishPoll result with
  | (changed, .ok action) =>
      (scheduling.setSchedule schedule changed, action == .enqueue)
  | (changed, .error _) => (scheduling.setSchedule schedule changed, false)

def thenSend (outcome : Scheduling × Bool) (schedule : Nat) : Scheduling :=
  { outcome.1 with own := if outcome.2 then some schedule else none }

def step (scheduling : Scheduling) : ScheduleStep → Option Scheduling
  | .remoteWake schedule =>
      if schedule < scheduling.created then
        let outcome := scheduling.wakeSection schedule
        some { outcome.1 with
          sending := if outcome.2 then schedule :: scheduling.sending
            else scheduling.sending }
      else
        none
  | .remoteSend schedule =>
      if schedule ∈ scheduling.sending then
        some { scheduling.sendReady schedule with
          sending := scheduling.sending.erase schedule }
      else
        none
  | .wake schedule =>
      if scheduling.own = none ∧ schedule < scheduling.created then
        some (thenSend (scheduling.wakeSection schedule) schedule)
      else
        none
  | .send =>
      match scheduling.own with
      | some schedule =>
          some { scheduling.sendReady schedule with own := none }
      | none => none
  | .create id =>
      if scheduling.own = none then
        some (thenSend (scheduling.create id) scheduling.created)
      else
        none
  | .receive =>
      match scheduling.own, scheduling.taken, scheduling.ready with
      | none, none, entry :: rest =>
          some { scheduling with ready := rest, taken := some entry }
      | _, _, _ => none
  | .reject =>
      match scheduling.own, scheduling.taken with
      | none, some _ => some { scheduling with taken := none }
      | _, _ => none
  | .beginPoll schedule =>
      match scheduling.own, scheduling.taken with
      | none, some entry => some (scheduling.beginPoll schedule entry)
      | _, _ => none
  | .finishPoll schedule result =>
      if scheduling.own = none then
        some (thenSend (scheduling.finishPoll schedule result) schedule)
      else
        none
  | .unwind schedule =>
      if scheduling.own = none then
        some { scheduling with log := .unwound schedule :: scheduling.log }
      else
        none
  | .disconnect =>
      if scheduling.own = none then
        some { scheduling with ready := [], connected := false }
      else
        none

end Scheduling

end Asyncr
