import Mathlib.Data.List.Basic
import Asyncr.Library.Machine
import Asyncr.Time.Clock

namespace Asyncr.Time

open Asyncr
open Library

/-! The methods of a clock as they act on the cell that its clones share: what a
method has written before it panics stays written. -/

abbrev ClockCell := EStateM Panic ClockMode

namespace ClockCell

def pause (os : Instant) : ClockCell Unit := do
  match ← get with
  | .real startedAt base =>
      set (ClockMode.paused (base + os.saturatingDurationSince startedAt))
  | .paused _ => throw .clockAlreadyPaused

def resume (os : Instant) : ClockCell Unit := do
  match ← get with
  | .paused now => set (ClockMode.real os now)
  | .real _ _ => throw .clockAlreadyRunning

def advance (duration : Duration) : ClockCell Unit := do
  match ← get with
  | .paused now =>
      match now.checkedAdd duration with
      | some now => set (ClockMode.paused now)
      | none => throw .clockAdvanceOutOfRange
  | .real _ _ => throw .clockNotPaused

def advanceTo (instant : Instant) : ClockCell Unit := do
  match ← get with
  | .paused now =>
      unless now ≤ instant do
        throw .clockMovedBackwards
      set (ClockMode.paused instant)
  | .real _ _ => throw .clockNotPaused

def call (os : Instant) : ClockCall → ClockCell Unit
  | .pause => pause os
  | .resume => resume os
  | .advance duration => advance duration
  | .advanceTo instant => advanceTo instant

/-- A call that panics has written nothing, and one that returns has done what
`Clock.call` says. -/
theorem run_call (os : Instant) (called : ClockCall) (mode : ClockMode) :
    (call os called).run mode =
      match (⟨mode⟩ : Clock).call os called with
      | .ok next => .ok () next.state
      | .error panic => .error panic mode := by
  cases called with
  | pause =>
      cases mode with
      | real startedAt base => rfl
      | paused now => rfl
  | resume =>
      cases mode with
      | real startedAt base => rfl
      | paused now => rfl
  | advance duration =>
      cases mode with
      | real startedAt base => rfl
      | paused now =>
          change (match now.checkedAdd duration with
              | some after => set (ClockMode.paused after)
              | none => throw .clockAdvanceOutOfRange : ClockCell Unit).run
                (.paused now) =
            match (match now.checkedAdd duration with
              | some after => .ok ⟨.paused after⟩
              | none => .error .clockAdvanceOutOfRange : Except Panic Clock) with
            | .ok next => .ok () next.state
            | .error panic => .error panic (.paused now)
          cases now.checkedAdd duration with
          | none => rfl
          | some after => rfl
  | advanceTo instant =>
      cases mode with
      | real startedAt base => rfl
      | paused now =>
          change (if now ≤ instant then set (ClockMode.paused instant)
              else throw .clockMovedBackwards : ClockCell Unit).run
                (.paused now) =
            match (if now ≤ instant then .ok ⟨.paused instant⟩
              else .error .clockMovedBackwards : Except Panic Clock) with
            | .ok next => .ok () next.state
            | .error panic => .error panic (.paused now)
          by_cases forward : now ≤ instant
          · rw [if_pos forward, if_pos forward]
            rfl
          · rw [if_neg forward, if_neg forward]
            rfl

theorem run_call_error {os : Instant} {called : ClockCall} {mode after : ClockMode}
    {panic : Panic} (failed : (call os called).run mode = .error panic after) :
    after = mode ∧ (⟨mode⟩ : Clock).call os called = .error panic := by
  rw [run_call] at failed
  cases outcome : (⟨mode⟩ : Clock).call os called with
  | ok next =>
      simp only [outcome] at failed
      cases failed
  | error raised =>
      simp only [outcome] at failed
      cases failed
      exact ⟨rfl, rfl⟩

end ClockCell

structure ClockRun where
  mode : ClockMode
  /-- How many clones there are; each refers to the same cell. -/
  clones : Nat
  /-- The last reading of the operating system's clock. -/
  os : Instant
  created : Instant
  /-- History: the operating system's time spent in running mode. -/
  running : Duration
  /-- History: what the advances added while paused. -/
  advanced : Duration
  /-- History: the values that `now` returned, oldest first. -/
  values : List Instant

/-- What is done through one of the clones, with the time at which it happens. -/
inductive ClockEvent where
  | clone (source : Nat)
  | now (source : Nat) (os : Instant)
  | call (source : Nat) (os : Instant) (call : ClockCall)
  deriving DecidableEq, Repr

/-- How far a call moves a paused clock that reads `now`. -/
def ClockCall.jump (now : Instant) : ClockCall → Duration
  | .advance duration => duration
  | .advanceTo instant => instant.saturatingDurationSince now
  | .pause | .resume => 0

namespace ClockRun

def clock (run : ClockRun) : Clock := ⟨run.mode⟩

def start (clock : Clock) (os : Instant) : ClockRun where
  mode := clock.state
  clones := 1
  os := os
  created := os
  running := 0
  advanced := 0
  values := []

/-- What the operating system's clock adds between two readings of it. -/
def span (run : ClockRun) (os : Instant) : Duration :=
  if run.clock.isPaused then 0 else os - run.os

def passed (run : ClockRun) (os : Instant) : ClockRun :=
  { run with os := os, running := run.running + run.span os }

def called (run : ClockRun) (os : Instant) (call : ClockCall) : ClockRun :=
  match (ClockCell.call os call).run run.mode with
  | .ok () mode =>
      { run with
        mode := mode
        advanced := run.advanced + call.jump (run.clock.now os) }
  | .error _ mode => { run with mode := mode }

def step (run : ClockRun) : ClockEvent → Option ClockRun
  | .clone source =>
      if source < run.clones then some { run with clones := run.clones + 1 } else none
  | .now source os =>
      if source < run.clones ∧ run.os ≤ os then
        let run := run.passed os
        some { run with values := run.values ++ [run.clock.now os] }
      else
        none
  | .call source os call =>
      if source < run.clones ∧ run.os ≤ os then
        some ((run.passed os).called os call)
      else
        none

def machine : Machine ClockRun ClockEvent := ⟨step⟩

def total (run : ClockRun) : Instant :=
  run.created + run.running + run.advanced

/-- The base plus the offset, or the frozen instant, is the sum of all spans. -/
def Accounted (run : ClockRun) : Prop :=
  match run.mode with
  | .real startedAt base =>
      startedAt ≤ run.os ∧ base + (run.os - startedAt) = run.total
  | .paused now => now = run.total

namespace Accounted

variable {run : ClockRun} {os : Instant}

theorem now_eq (accounted : run.Accounted) (later : run.os ≤ os) :
    run.clock.now os = run.total + run.span os := by
  cases run with
  | mk mode clones reading created running advanced values =>
      cases mode with
      | real startedAt base =>
          have started : startedAt ≤ reading := accounted.1
          have balance : base + (reading - startedAt) =
            created + running + advanced := accounted.2
          have elapsed : reading ≤ os := later
          show base + (os - startedAt) = created + running + advanced + (os - reading)
          simp only [Instant, Duration] at *
          omega
      | paused now => exact accounted

theorem passed (accounted : run.Accounted) (later : run.os ≤ os) :
    (run.passed os).Accounted := by
  cases run with
  | mk mode clones reading created running advanced values =>
      cases mode with
      | real startedAt base =>
          have started : startedAt ≤ reading := accounted.1
          have balance : base + (reading - startedAt) =
            created + running + advanced := accounted.2
          have elapsed : reading ≤ os := later
          refine ⟨Nat.le_trans started elapsed, ?_⟩
          show base + (os - startedAt) = created + (running + (os - reading)) + advanced
          simp only [Instant, Duration] at *
          omega
      | paused now => exact accounted

theorem called (accounted : run.Accounted) (call : ClockCall) :
    (run.called run.os call).Accounted := by
  cases run with
  | mk mode clones reading created running advanced values =>
      unfold ClockRun.called
      rw [ClockCell.run_call]
      cases call with
      | pause =>
          cases mode with
          | real startedAt base => exact accounted.2
          | paused now => exact accounted
      | resume =>
          cases mode with
          | real startedAt base => exact accounted
          | paused now =>
              have shown : now = created + running + advanced := accounted
              refine ⟨Nat.le_refl reading, ?_⟩
              show now + (reading - reading) = created + running + advanced
              simp only [Instant, Duration] at *
              omega
      | advance duration =>
          cases mode with
          | real startedAt base => exact accounted
          | paused now =>
              have shown : now = created + running + advanced := accounted
              simp only [Clock.call, Clock.advance, Instant.checkedAdd]
              split_ifs with fits
              · show now + duration = created + running + (advanced + duration)
                simp only [Instant, Duration] at *
                omega
              · exact accounted
      | advanceTo instant =>
          cases mode with
          | real startedAt base => exact accounted
          | paused now =>
              have shown : now = created + running + advanced := accounted
              simp only [Clock.call, Clock.advanceTo]
              split_ifs with forward
              · show instant = created + running + (advanced + (instant - now))
                simp only [Instant, Duration] at *
                omega
              · exact accounted

end Accounted

theorem Accounted.step {run next : ClockRun} {event : ClockEvent}
    (accounted : run.Accounted) (stepped : run.step event = some next) :
    next.Accounted := by
  cases event with
  | clone source =>
      simp only [ClockRun.step, Option.ite_none_right_eq_some,
        Option.some.injEq] at stepped
      obtain ⟨held, rfl⟩ := stepped
      exact accounted
  | now source os =>
      simp only [ClockRun.step, Option.ite_none_right_eq_some,
        Option.some.injEq] at stepped
      obtain ⟨⟨held, later⟩, rfl⟩ := stepped
      exact accounted.passed later
  | call source os call =>
      simp only [ClockRun.step, Option.ite_none_right_eq_some,
        Option.some.injEq] at stepped
      obtain ⟨⟨held, later⟩, rfl⟩ := stepped
      exact (accounted.passed later).called call

/-- The values shown so far rise, and the clock shows no less than any of them. -/
structure Rising (run : ClockRun) : Prop where
  ordered : run.values.Pairwise (· ≤ ·)
  reached : ∀ value ∈ run.values, value ≤ run.total

namespace Rising

variable {run next : ClockRun} {event : ClockEvent}

theorem of_later (rising : run.Rising) {after : ClockRun}
    (same : after.values = run.values) (later : run.total ≤ after.total) :
    after.Rising where
  ordered := by
    rw [same]
    exact rising.ordered
  reached := by
    rw [same]
    exact fun value member => Nat.le_trans (rising.reached value member) later

theorem total_le_passed (run : ClockRun) (os : Instant) :
    run.total ≤ (run.passed os).total := by
  have grown : run.running ≤ run.running + run.span os := Nat.le_add_right _ _
  exact Nat.add_le_add_right (Nat.add_le_add_left grown _) _

theorem total_le_called (run : ClockRun) (os : Instant) (call : ClockCall) :
    run.total ≤ (run.called os call).total := by
  unfold called
  cases (ClockCell.call os call).run run.mode with
  | ok done mode => exact Nat.add_le_add_left (Nat.le_add_right _ _) _
  | error panic mode => exact Nat.le_refl _

theorem values_called (run : ClockRun) (os : Instant) (call : ClockCall) :
    (run.called os call).values = run.values := by
  unfold called
  cases (ClockCell.call os call).run run.mode with
  | ok done mode => rfl
  | error panic mode => rfl

theorem step (rising : run.Rising) (accounted : run.Accounted)
    (stepped : run.step event = some next) : next.Rising := by
  cases event with
  | clone source =>
      simp only [ClockRun.step, Option.ite_none_right_eq_some,
        Option.some.injEq] at stepped
      obtain ⟨held, rfl⟩ := stepped
      exact rising.of_later rfl (Nat.le_refl _)
  | call source os call =>
      simp only [ClockRun.step, Option.ite_none_right_eq_some,
        Option.some.injEq] at stepped
      obtain ⟨⟨held, later⟩, rfl⟩ := stepped
      have same : ((run.passed os).called os call).values = run.values :=
        values_called (run.passed os) os call
      apply rising.of_later same
      exact Nat.le_trans (total_le_passed run os) (total_le_called _ os call)
  | now source os =>
      simp only [ClockRun.step, Option.ite_none_right_eq_some,
        Option.some.injEq] at stepped
      obtain ⟨⟨held, later⟩, rfl⟩ := stepped
      have passed : (run.passed os).Rising :=
        rising.of_later rfl (total_le_passed run os)
      have shown : (run.passed os).clock.now os = (run.passed os).total := by
        rw [(accounted.passed later).now_eq (Nat.le_refl os)]
        simp [span, ClockRun.passed]
      refine ⟨?_, ?_⟩
      · rw [List.pairwise_append]
        refine ⟨passed.ordered, List.pairwise_singleton _ _, ?_⟩
        intro value member last lastMember
        rw [List.mem_singleton.mp lastMember, shown]
        exact passed.reached value member
      · intro value member
        rcases List.mem_append.mp member with before | last
        · exact passed.reached value before
        · rw [List.mem_singleton.mp last, shown]
          exact Nat.le_refl _

end Rising

theorem accounted_start (os : Instant) :
    (start (Clock.new os) os).Accounted ∧ (start (Clock.newPaused os) os).Accounted := by
  refine ⟨⟨Nat.le_refl os, ?_⟩, rfl⟩
  show os + (os - os) = os + 0 + 0
  simp

/-- Whatever the clones are used for, `now` is the creation instant, the time run
and the advances together; it never goes back, and a call that panics has changed
nothing. -/
theorem clock_accounts {clock : Clock} {os : Instant} {run : ClockRun}
    (created : clock = Clock.new os ∨ clock = Clock.newPaused os)
    (reach : machine.Reach Machine.Any (start clock os) run) :
    (∀ later, run.os ≤ later →
      run.clock.now later = run.created + (run.running + run.span later) + run.advanced) ∧
    (run.values.Pairwise (· ≤ ·) ∧
      ∀ value ∈ run.values, ∀ later, run.os ≤ later → value ≤ run.clock.now later) ∧
    ∀ later call panic mode,
      (ClockCell.call later call).run run.mode = .error panic mode → mode = run.mode := by
  have initially : (start clock os).Accounted ∧ (start clock os).Rising := by
    refine ⟨?_, List.Pairwise.nil, nofun⟩
    rcases created with rfl | rfl
    · exact (accounted_start os).1
    · exact (accounted_start os).2
  have kept : ∀ before event next, (before.Accounted ∧ before.Rising) →
      Machine.Any before event → machine.step before event = some next →
      next.Accounted ∧ next.Rising :=
    fun before event next holds _ stepped =>
      ⟨holds.1.step stepped, holds.2.step holds.1 stepped⟩
  obtain ⟨accounted, rising⟩ := reach.invariant initially kept
  refine ⟨?_, ⟨rising.ordered, ?_⟩, ?_⟩
  · intro later passed
    rw [accounted.now_eq passed]
    simp only [total, Instant, Duration]
    omega
  · intro value member later passed
    rw [accounted.now_eq passed]
    exact Nat.le_trans (rising.reached value member) (Nat.le_add_right _ _)
  · intro later call panic mode failed
    exact (ClockCell.run_call_error failed).1

/-- Created at 10, paused at 17, moved by 5, resumed at 20 and read at 21. -/
def resumedRun : ClockRun where
  mode := .real 20 22
  clones := 2
  os := 21
  created := 10
  running := 8
  advanced := 5
  values := [17, 23]

def resumedEvents : List ClockEvent :=
  [.clone 0, .now 1 17, .call 0 17 .pause, .call 1 18 (.advance 5), .call 0 20 .resume,
    .now 1 21]

theorem clock_accounts_resumed :
    resumedRun.clock.now 24 = 10 + (8 + 3) + 5 ∧
      (17 : Instant) ≤ resumedRun.clock.now 24 := by
  have ran : machine.run Machine.Any (start (Clock.new 10) 10) resumedEvents =
      some resumedRun := rfl
  have settled := clock_accounts (.inl rfl) (Machine.reach_of_run ran)
  exact ⟨settled.1 24 (by decide), settled.2.1.2 17 (by decide) 24 (by decide)⟩

end ClockRun

end Asyncr.Time
