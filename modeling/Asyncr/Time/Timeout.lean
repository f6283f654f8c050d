import Asyncr.Time.Timers

namespace Asyncr.Time

open Asyncr
open Library

universe u v

/-! `Timeout` of `time/timeout.rs`, around any future.  Its sleep is one of the
sleeps of the driver; the wrapped future and all other code may use the others. -/

inductive Elapsed where
  | elapsed
  deriving DecidableEq, Repr

inductive TimeoutPanic where
  | polledAfterCompletion
  | raised (panic : Panic)
  deriving DecidableEq, Repr

/-- One call of `poll`: what the wrapped future returned and what the sleep then read
from the clock, if either was polled, and the reply. -/
structure TimeoutRound (W : Type u) (Output : Type v) where
  waker : W
  inner : Option (Poll Output)
  read : Option Instant
  reply : Except TimeoutPanic (Poll (Except Elapsed Output))

/-- Where the call in progress, if any, has got to. -/
inductive TimeoutPoint (W : Type u) (Output : Type v) where
  | idle
  /-- The wrapped future is being polled. -/
  | polling (waker : W)
  /-- It is pending; the sleep is polled next. -/
  | sleeping (waker : W)
  /-- Its destructor runs, in a poll that is about to return or in a drop. -/
  | dropping (round : Option (TimeoutRound W Output))
  | gone

structure TimeoutRun (W : Type u) (Output : Type v) where
  timers : Timers W
  /-- The number of the timeout's own sleep. -/
  owner : Nat
  /-- `future` and `sleep` are `Some`. -/
  future : Bool
  sleep : Bool
  point : TimeoutPoint W Output
  /-- History: the polls that have ended, oldest first. -/
  rounds : List (TimeoutRound W Output)
  /-- History: how often the wrapped future was polled and dropped. -/
  innerPolls : Nat
  innerDrops : Nat

inductive TimeoutStep (W : Type u) (Output : Type v) where
  | poll (waker : W)
  /-- The wrapped future's poll returns. -/
  | innerReady (value : Output)
  | innerPending
  | pollSleep (now : Instant)
  /-- The wrapped future's destructor returns. -/
  | innerDropped
  | drop
  /-- Code of the wrapped future, or any other code, uses the driver. -/
  | timers (call : SleepCall W)

namespace TimeoutRun

variable {W : Type u} [WillWake W] {Output : Type v}

/-- `Timeout::new`, with a sleep that `Sleep::new` has just made. -/
def start (timers : Timers W) (deadline : Instant) : TimeoutRun W Output where
  timers := { timers with
    sleeps := Function.update timers.sleeps timers.created (some (Sleep.new deadline))
    created := timers.created + 1 }
  owner := timers.created
  future := true
  sleep := true
  point := .idle
  rounds := []
  innerPolls := 0
  innerDrops := 0

/-- `self.future.take()`: the destructor of the wrapped future begins. -/
def takeFuture (run : TimeoutRun W Output) (round : Option (TimeoutRound W Output)) :
    TimeoutRun W Output :=
  { run with
    future := false
    innerDrops := run.innerDrops + 1
    point := .dropping round }

def takeSleep (run : TimeoutRun W Output) : TimeoutRun W Output :=
  match run.timers.call (.drop run.owner) with
  | some (timers, _) => { run with timers := timers, sleep := false }
  | none => { run with sleep := false }

def replied (run : TimeoutRun W Output) (round : TimeoutRound W Output) :
    TimeoutRun W Output :=
  { run with point := .idle, rounds := run.rounds ++ [round] }

/-- The poll of the sleep, whose reply decides how the poll ends. -/
def sleepPolled (run : TimeoutRun W Output) (waker : W) (now : Instant) :
    Except Panic (Poll Unit) → TimeoutRun W Output
  | .ok (.ready ()) =>
      run.takeFuture (some ⟨waker, some .pending, some now, .ok (.ready (.error .elapsed))⟩)
  | .ok .pending => run.replied ⟨waker, some .pending, some now, .ok .pending⟩
  | .error panic => run.replied ⟨waker, some .pending, some now, .error (.raised panic)⟩

def step (run : TimeoutRun W Output) (label : TimeoutStep W Output) :
    Option (TimeoutRun W Output) :=
  match label with
  | .poll waker =>
      match run.point with
      | .idle =>
          if run.future then
            some { run with
              point := .polling waker
              innerPolls := run.innerPolls + 1 }
          else
            some (run.replied ⟨waker, none, none, .error .polledAfterCompletion⟩)
      | _ => none
  | .innerReady value =>
      match run.point with
      | .polling waker =>
          some (run.takeFuture
            (some ⟨waker, some (.ready value), none, .ok (.ready (.ok value))⟩))
      | _ => none
  | .innerPending =>
      match run.point with
      | .polling waker => some { run with point := .sleeping waker }
      | _ => none
  | .pollSleep now =>
      match run.point with
      | .sleeping waker =>
          if run.sleep then
            match run.timers.call (.poll run.owner waker now) with
            | some (timers, .polled reply) =>
                some (({ run with timers := timers } : TimeoutRun W Output).sleepPolled
                  waker now reply)
            | _ => none
          else
            some (run.replied ⟨waker, some .pending, none, .error .polledAfterCompletion⟩)
      | _ => none
  | .innerDropped =>
      match run.point with
      | .dropping (some round) => some (run.takeSleep.replied round)
      | .dropping none => some { run.takeSleep with point := .gone }
      | _ => none
  | .drop =>
      match run.point with
      | .idle =>
          if run.future then some (run.takeFuture none)
          else some { run.takeSleep with point := .gone }
      | _ => none
  | .timers call =>
      if call.target? = some run.owner then
        none
      else
        (run.timers.call call).map fun called => { run with timers := called.1 }

def machine : Machine (TimeoutRun W Output) (TimeoutStep W Output) := ⟨step⟩

end TimeoutRun

end Asyncr.Time
