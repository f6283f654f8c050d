import Mathlib.Order.Basic
import Asyncr.Time.Instant

namespace Asyncr.Time

open Asyncr

/-! `time/clock.rs`, with the reading of the operating system's clock passed in.
Outside of tests a clock is never paused. -/

inductive ClockMode where
  | real (startedAt base : Instant)
  | paused (now : Instant)
  deriving DecidableEq, Repr

/-- All clones of a clock share its state. -/
structure Clock where
  state : ClockMode
  deriving DecidableEq, Repr

/-- The methods that change a clock. -/
inductive ClockCall where
  | pause
  | resume
  | advance (duration : Duration)
  | advanceTo (instant : Instant)
  deriving DecidableEq, Repr

namespace Clock

def new (os : Instant) : Clock where
  state := .real os os

def newPaused (os : Instant) : Clock where
  state := .paused os

/-- The sum has no bound here; that of `std` panics beyond the last instant. -/
def now (clock : Clock) (os : Instant) : Instant :=
  match clock.state with
  | .real startedAt base => base + os.saturatingDurationSince startedAt
  | .paused now => now

def pause (clock : Clock) (os : Instant) : Except Panic Clock :=
  match clock.state with
  | .real startedAt base =>
      .ok ⟨.paused (base + os.saturatingDurationSince startedAt)⟩
  | .paused _ => .error .clockAlreadyPaused

def resume (clock : Clock) (os : Instant) : Except Panic Clock :=
  match clock.state with
  | .paused now => .ok ⟨.real os now⟩
  | .real _ _ => .error .clockAlreadyRunning

def advance (clock : Clock) (duration : Duration) : Except Panic Clock :=
  match clock.state with
  | .paused now =>
      match now.checkedAdd duration with
      | some now => .ok ⟨.paused now⟩
      | none => .error .clockAdvanceOutOfRange
  | .real _ _ => .error .clockNotPaused

def advanceTo (clock : Clock) (instant : Instant) : Except Panic Clock :=
  match clock.state with
  | .paused now =>
      if now ≤ instant then .ok ⟨.paused instant⟩ else .error .clockMovedBackwards
  | .real _ _ => .error .clockNotPaused

def isPaused (clock : Clock) : Bool :=
  match clock.state with
  | .paused _ => true
  | .real _ _ => false

def call (clock : Clock) (os : Instant) : ClockCall → Except Panic Clock
  | .pause => clock.pause os
  | .resume => clock.resume os
  | .advance duration => clock.advance duration
  | .advanceTo instant => clock.advanceTo instant

variable {clock next : Clock} {os later : Instant}

theorem now_mono (clock : Clock) (passed : os ≤ later) :
    clock.now os ≤ clock.now later := by
  cases clock with
  | mk state =>
      cases state with
      | real startedAt base =>
          exact Nat.add_le_add_left (Nat.sub_le_sub_right passed startedAt) base
      | paused now => exact Nat.le_refl now

theorem now_le_advanceTo {instant : Instant}
    (advanced : clock.advanceTo instant = .ok next) :
    clock.now os ≤ next.now os := by
  cases clock with
  | mk state =>
      cases state with
      | real startedAt base => cases advanced
      | paused now =>
          simp only [advanceTo] at advanced
          split at advanced
          · rename_i forward
            cases advanced
            exact forward
          · cases advanced

theorem now_advanceTo {instant : Instant}
    (advanced : clock.advanceTo instant = .ok next) (os : Instant) :
    next.isPaused = true ∧ next.now os = instant := by
  cases clock with
  | mk state =>
      cases state with
      | real startedAt base => cases advanced
      | paused now =>
          simp only [advanceTo] at advanced
          split at advanced
          · cases advanced
            exact ⟨rfl, rfl⟩
          · cases advanced

theorem advanceTo_forward (paused : clock.isPaused = true) {instant : Instant}
    (forward : clock.now os ≤ instant) :
    ∃ next, clock.advanceTo instant = .ok next := by
  cases clock with
  | mk state =>
      cases state with
      | real startedAt base => cases paused
      | paused now => exact ⟨_, if_pos forward⟩

theorem now_paused (paused : clock.isPaused = true) : clock.now later = clock.now os := by
  cases clock with
  | mk state =>
      cases state with
      | real startedAt base => cases paused
      | paused now => rfl

theorem now_le_call {call : ClockCall} (called : clock.call os call = .ok next) :
    clock.now os ≤ next.now os := by
  cases call with
  | pause =>
      cases clock with
      | mk state =>
          cases state with
          | real startedAt base =>
              cases called
              exact Nat.le_refl _
          | paused now => cases called
  | resume =>
      cases clock with
      | mk state =>
          cases state with
          | real startedAt base => cases called
          | paused now =>
              cases called
              exact Nat.le_add_right now _
  | advance duration =>
      cases clock with
      | mk state =>
          cases state with
          | real startedAt base => cases called
          | paused now =>
              simp only [Clock.call, Clock.advance, Instant.checkedAdd] at called
              split at called
              · rename_i after added
                cases called
                split at added
                · cases added
                  exact Nat.le_add_right now duration
                · cases added
              · cases called
  | advanceTo instant => exact now_le_advanceTo called

end Clock

end Asyncr.Time
