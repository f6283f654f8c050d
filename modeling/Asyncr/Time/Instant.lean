import Asyncr.Panic
import Mathlib.Algebra.Order.Ring.Nat

namespace Asyncr.Time

open Asyncr

/-! Instants and durations at nanosecond precision.  Only the additions the code
checks can leave the range of the standard library's `Instant`. -/

abbrev Duration := Nat

abbrev Instant := Nat

/-- The last instant: seconds in 63 bits and 999999999 nanoseconds. -/
def Instant.last : Instant := 2 ^ 63 * 1000000000 - 1

def Instant.checkedAdd (instant : Instant) (duration : Duration) :
    Option Instant :=
  if instant + duration ≤ Instant.last then some (instant + duration) else none

/-- Natural subtraction is already saturating. -/
def Instant.saturatingDurationSince (later earlier : Instant) : Duration :=
  later - earlier

def deadlineAfter (instant : Instant) (duration : Duration) :
    Except Panic Instant :=
  match instant.checkedAdd duration with
  | some deadline => .ok deadline
  | none => .error .deadlineOutOfRange

end Asyncr.Time
