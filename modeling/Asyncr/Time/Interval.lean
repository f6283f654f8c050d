import Asyncr.Time.Sleep

namespace Asyncr.Time

open Asyncr

universe u

variable {W : Type u}

/-! `Interval` of `time/interval.rs`.  Its sleep's timer is again the shared driver
state. -/

/-- The last duration: seconds in 64 bits and 999999999 nanoseconds. -/
def Duration.last : Duration := 2 ^ 64 * 1000000000 - 1

/-- The panics on the way of `poll_tick`: those of the runtime, and those of the
standard library's arithmetic. -/
inductive IntervalPanic where
  | raised (panic : Panic)
  | zeroPeriod
  | remainderByZero
  | nanosOutOfRange
  | durationUnderflow
  deriving DecidableEq, Repr

inductive MissedTickBehavior where
  | burst
  | skip
  | delay
  deriving DecidableEq, Repr

namespace Duration

/-- The remainder of `as_nanos`. -/
def remainder (duration divisor : Duration) : Except IntervalPanic Nat :=
  if divisor = 0 then .error .remainderByZero else .ok (duration % divisor)

/-- `Duration::from_nanos_u128`. -/
def fromNanos (nanos : Nat) : Except IntervalPanic Duration :=
  if nanos ≤ Duration.last then .ok nanos else .error .nanosOutOfRange

/-- The `Sub` of durations. -/
def minus (duration other : Duration) : Except IntervalPanic Duration :=
  if other ≤ duration then .ok (duration - other) else .error .durationUnderflow

end Duration

def MissedTickBehavior.nextDeadline (behavior : MissedTickBehavior)
    (deadline now : Instant) (period : Duration) : Except IntervalPanic Instant :=
  match behavior with
  | .burst => (deadlineAfter deadline period).mapError .raised
  | .delay => (deadlineAfter now period).mapError .raised
  | .skip => do
      let elapsed := now.saturatingDurationSince deadline
      let nanos ← elapsed.remainder period
      let remainder ← Duration.fromNanos nanos
      let rest ← period.minus remainder
      (deadlineAfter now rest).mapError .raised

/-- `Interval::new` lets no other period pass, and the period is a `Duration`. -/
structure Period where
  val : Duration
  positive : 0 < val
  fits : val ≤ Duration.last

structure Interval where
  sleep : Sleep
  period : Period
  missedTickBehavior : MissedTickBehavior

namespace Interval

def missedTickGraceDelay : Duration := 5000000

/-- `Interval::new`; every `Duration` fits. -/
def new (sleep : Sleep) (period : Duration) (fits : period ≤ Duration.last)
    (behavior : MissedTickBehavior) : Except IntervalPanic Interval :=
  if positive : 0 < period then
    .ok ⟨sleep, ⟨period, positive, fits⟩, behavior⟩
  else
    .error .zeroPeriod

/-- The deadline after the one that `poll_tick` is about to return. -/
def nextDeadline (interval : Interval) (deadline now : Instant) :
    Except IntervalPanic Instant :=
  if missedTickGraceDelay < now.saturatingDurationSince deadline then
    interval.missedTickBehavior.nextDeadline deadline now interval.period.val
  else
    (deadlineAfter deadline interval.period.val).mapError .raised

/-- `Interval::poll_tick`; `polledAt` is the value that `Sleep::poll` reads and `now`
the one read when the sleep is ready. -/
def pollTick [WillWake W] (interval : Interval) (timer : TimerState W)
    (polledAt now : Instant) (waker : W) :
    TimerState W × Interval × Except IntervalPanic (Poll Instant) :=
  match interval.sleep.poll timer polledAt waker with
  | (timer, sleep, .error panic) =>
      (timer, { interval with sleep := sleep }, .error (.raised panic))
  | (timer, sleep, .ok .pending) =>
      (timer, { interval with sleep := sleep }, .ok .pending)
  | (timer, sleep, .ok (.ready ())) =>
      let deadline := sleep.deadline
      match interval.nextDeadline deadline now with
      | .error panic => (timer, { interval with sleep := sleep }, .error panic)
      | .ok next =>
          let (timer, sleep) := sleep.reset timer next
          (timer, { interval with sleep := sleep }, .ok (.ready deadline))

def setMissedTickBehavior (interval : Interval) (behavior : MissedTickBehavior) :
    Interval :=
  { interval with missedTickBehavior := behavior }

def resetAt (interval : Interval) (timer : TimerState W) (deadline : Instant) :
    TimerState W × Interval :=
  let (timer, sleep) := interval.sleep.reset timer deadline
  (timer, { interval with sleep := sleep })

/-- `now` is what the sleep reads from the clock, here and below. -/
def resetAfter (interval : Interval) (timer : TimerState W) (now : Instant)
    (after : Duration) : Except Panic (TimerState W × Interval) :=
  (deadlineAfter now after).map (interval.resetAt timer)

def reset (interval : Interval) (timer : TimerState W) (now : Instant) :
    Except Panic (TimerState W × Interval) :=
  (deadlineAfter now interval.period.val).map (interval.resetAt timer)

def resetImmediately (interval : Interval) (timer : TimerState W) (now : Instant) :
    TimerState W × Interval :=
  interval.resetAt timer now

end Interval

end Asyncr.Time
