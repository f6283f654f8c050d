import Asyncr.Time.IntervalRuns
import Asyncr.Time.SleepRuns

namespace Asyncr.Time

open Asyncr
open Library

universe u

variable {W : Type u} [WillWake W]

/-! An interval and its resets, with the driver that its sleep shares with others. -/

inductive IntervalEvent where
  /-- `Interval::new` or a reset was called for this deadline. -/
  | placed (deadline : Instant)
  | ticked (tick : Tick)
  deriving DecidableEq, Repr

structure SharedInterval (W : Type u) where
  timers : Timers W
  /-- The number of the interval's own sleep, which is there until its drop. -/
  owner : Nat
  period : Period
  missedTickBehavior : MissedTickBehavior
  /-- The last value read from the clock. -/
  clock : Instant
  /-- History: the behavior that was set last. -/
  behavior : MissedTickBehavior
  /-- History, the latest event first. -/
  events : List IntervalEvent

inductive SharedStep (W : Type u) where
  | pollTick (waker : W) (polledAt now : Instant)
  | setMissedTickBehavior (behavior : MissedTickBehavior)
  | resetAt (deadline : Instant)
  | resetAfter (now : Instant) (after : Duration)
  | reset (now : Instant)
  | resetImmediately (now : Instant)
  | drop
  /-- Other code uses the driver. -/
  | timers (call : SleepCall W)

/-- What a call reads from the clock. -/
def SleepCall.reads {W : Type u} : SleepCall W → Option Instant
  | .poll _ _ now | .processExpired now => some now
  | .new _ | .reset _ _ | .drop _ | .nextDeadline => none

namespace SharedInterval

/-- `Interval::new`, with a sleep that `Sleep::new` has just made. -/
def start (timers : Timers W) (first : Instant) (period : Period)
    (behavior : MissedTickBehavior) : SharedInterval W where
  timers := { timers with
    sleeps := Function.update timers.sleeps timers.created (some (Sleep.new first))
    created := timers.created + 1 }
  owner := timers.created
  period := period
  missedTickBehavior := behavior
  clock := timers.clock
  behavior := behavior
  events := [.placed first]

def interval? (shared : SharedInterval W) : Option Interval :=
  (shared.timers.sleeps shared.owner).map fun sleep =>
    ⟨sleep, shared.period, shared.missedTickBehavior⟩

def withInterval (shared : SharedInterval W) (driver : TimerState W)
    (interval : Interval) : SharedInterval W :=
  { shared with
    timers := { shared.timers with
      driver := driver
      sleeps := Function.update shared.timers.sleeps shared.owner (some interval.sleep) }
    missedTickBehavior := interval.missedTickBehavior }

def polled (shared : SharedInterval W) (interval : Interval) (waker : W)
    (polledAt now : Instant) : SharedInterval W × Except IntervalPanic (Poll Instant) :=
  let registered := shared.timers.registered +
    (if interval.sleep.registers polledAt then 1 else 0)
  let (driver, after, reply) :=
    interval.pollTick shared.timers.driver polledAt now waker
  let moved := shared.withInterval driver after
  let events :=
    match reply with
    | .ok (.ready deadline) =>
        .ticked ⟨deadline, polledAt, now, shared.behavior⟩ :: shared.events
    | .ok .pending | .error _ => shared.events
  ({ moved with
      timers := { moved.timers with clock := polledAt, registered := registered }
      clock := now
      events := events }, reply)

/-- A call of a reset, with the deadline that it asks for if there is such an instant,
and what it then does. -/
def replaced (shared : SharedInterval W) (now : Instant) (asked : Option Instant)
    (result : Except Panic (TimerState W × Interval)) : SharedInterval W :=
  let moved :=
    match result with
    | .ok (driver, interval) => shared.withInterval driver interval
    | .error _ => shared
  { moved with
    clock := now
    events := asked.toList.map .placed ++ shared.events }

def step (shared : SharedInterval W) (label : SharedStep W) :
    Option (SharedInterval W) :=
  match label, shared.interval? with
  | .pollTick waker polledAt now, some interval =>
      if shared.clock ≤ polledAt ∧ polledAt ≤ now then
        some (shared.polled interval waker polledAt now).1
      else
        none
  | .setMissedTickBehavior behavior, some interval =>
      some { shared.withInterval shared.timers.driver
          (interval.setMissedTickBehavior behavior) with
        behavior := behavior }
  | .resetAt deadline, some interval =>
      some (shared.replaced shared.clock (some deadline)
        (.ok (interval.resetAt shared.timers.driver deadline)))
  | .resetAfter now after, some interval =>
      if shared.clock ≤ now then
        some (shared.replaced now (now.checkedAdd after)
          (interval.resetAfter shared.timers.driver now after))
      else
        none
  | .reset now, some interval =>
      if shared.clock ≤ now then
        some (shared.replaced now (now.checkedAdd shared.period.val)
          (interval.reset shared.timers.driver now))
      else
        none
  | .resetImmediately now, some interval =>
      if shared.clock ≤ now then
        some (shared.replaced now (some now)
          (.ok (interval.resetImmediately shared.timers.driver now)))
      else
        none
  | .drop, some _ =>
      (shared.timers.call (.drop shared.owner)).map fun called =>
        { shared with timers := called.1 }
  | .timers call, _ =>
      if call.target? = some shared.owner then
        none
      else if call.reads.all fun now => decide (shared.clock ≤ now) then
        (shared.timers.call call).map fun called =>
          { shared with
            timers := called.1
            clock := call.reads.getD shared.clock }
      else
        none
  | _, none => none

def machine : Machine (SharedInterval W) (SharedStep W) := ⟨step⟩

variable {shared next : SharedInterval W} {label : SharedStep W}

omit [WillWake W] in
theorem interval_eq {interval : Interval} (there : shared.interval? = some interval) :
    shared.timers.sleeps shared.owner = some interval.sleep ∧
      interval.period = shared.period ∧
      interval.missedTickBehavior = shared.missedTickBehavior := by
  obtain ⟨sleep, found, rfl⟩ := Option.map_eq_some_iff.mp there
  exact ⟨found, rfl, rfl⟩

def Spares (_ : SharedInterval W) : SharedStep W → Prop
  | .pollTick _ _ _ | .drop => False
  | .setMissedTickBehavior _ | .resetAt _ | .resetAfter _ _ | .reset _
  | .resetImmediately _ | .timers _ => True

/-- `step` as a relation: the five resets come to the same, unless the deadline they
compute is out of range. -/
inductive Stepped (shared : SharedInterval W) : SharedStep W → SharedInterval W → Prop
  | polled {interval : Interval} {waker : W} {polledAt now : Instant} :
      shared.interval? = some interval → shared.clock ≤ polledAt → polledAt ≤ now →
      Stepped shared (.pollTick waker polledAt now)
        (shared.polled interval waker polledAt now).1
  | behaved {behavior : MissedTickBehavior} :
      Stepped shared (.setMissedTickBehavior behavior)
        { shared with missedTickBehavior := behavior, behavior := behavior }
  | reset {label : SharedStep W} {sleep : Sleep} {now deadline : Instant}
      {timers : Timers W} :
      Spares shared label → shared.timers.sleeps shared.owner = some sleep →
      shared.clock ≤ now →
      shared.timers.call (.reset shared.owner deadline) = some (timers, .done) →
      Stepped shared label
        { shared with
          timers := timers
          clock := now
          events := .placed deadline :: shared.events }
  | overflowed {label : SharedStep W} {now : Instant} :
      Spares shared label → shared.clock ≤ now →
      Stepped shared label { shared with clock := now }
  | dropped {timers : Timers W} {reply : SleepReply W} :
      shared.timers.call (.drop shared.owner) = some (timers, reply) →
      Stepped shared .drop { shared with timers := timers }
  | elsewhere {call : SleepCall W} {timers : Timers W} {reply : SleepReply W} :
      call.target? ≠ some shared.owner →
      (∀ now ∈ call.reads, shared.clock ≤ now) →
      shared.timers.call call = some (timers, reply) →
      Stepped shared (.timers call)
        { shared with timers := timers, clock := call.reads.getD shared.clock }

theorem call_reset {sleep : Sleep} (found : shared.timers.sleeps shared.owner = some sleep)
    (deadline : Instant) :
    shared.timers.call (.reset shared.owner deadline) =
      some ({ shared.timers with
        driver := (sleep.reset shared.timers.driver deadline).1
        sleeps := Function.update shared.timers.sleeps shared.owner
          (some (sleep.reset shared.timers.driver deadline).2) }, .done) := by
  simp only [Timers.call, found]

theorem sleeps_of_drop {timers after : Timers W} {owner : Nat} {reply : SleepReply W}
    (called : timers.call (.drop owner) = some (after, reply)) :
    after.sleeps owner = none := by
  simp only [Timers.call] at called
  split at called
  · cases called
  · cases called
    exact Function.update_self ..

theorem deadlineAfter_toOption (instant : Instant) (duration : Duration) :
    (deadlineAfter instant duration).toOption = instant.checkedAdd duration := by
  unfold deadlineAfter
  cases instant.checkedAdd duration with
  | none => rfl
  | some deadline => rfl

theorem stepped_reset {interval : Interval} (there : shared.interval? = some interval)
    (spares : Spares shared label) {now : Instant} (later : shared.clock ≤ now)
    (computed : Except Panic Instant) :
    Stepped shared label (shared.replaced now computed.toOption
      (computed.map (interval.resetAt shared.timers.driver))) := by
  obtain ⟨found, samePeriod, sameBehavior⟩ := interval_eq there
  cases computed with
  | error panic => exact .overflowed spares later
  | ok deadline =>
      have reset : Stepped shared label _ := .reset spares found later
        (call_reset found deadline)
      simp only [Except.map, replaced, withInterval, Interval.resetAt, sameBehavior]
      exact reset

theorem stepped_of_step (step : machine.step shared label = some next) :
    Stepped shared label next := by
  change shared.step label = some next at step
  unfold SharedInterval.step at step
  split at step
  · rename_i interval there
    rw [Option.ite_none_right_eq_some] at step
    obtain ⟨⟨later, after⟩, same⟩ := step
    cases same
    exact .polled there later after
  · rename_i behavior interval there
    cases step
    obtain ⟨found, _, _⟩ := interval_eq there
    have same : Function.update shared.timers.sleeps shared.owner (some interval.sleep) =
        shared.timers.sleeps := by
      rw [← found]
      exact Function.update_eq_self _ _
    simp only [withInterval, Interval.setMissedTickBehavior, same]
    exact .behaved
  · rename_i deadline interval there
    cases step
    have spares : Spares shared (.resetAt deadline) := trivial
    exact stepped_reset there spares (Nat.le_refl _) (.ok deadline)
  · rename_i now after interval there
    rw [Option.ite_none_right_eq_some] at step
    obtain ⟨later, same⟩ := step
    cases same
    have spares : Spares shared (.resetAfter now after) := trivial
    rw [← deadlineAfter_toOption]
    exact stepped_reset there spares later _
  · rename_i now interval there
    rw [Option.ite_none_right_eq_some] at step
    obtain ⟨later, same⟩ := step
    cases same
    have spares : Spares shared (.reset now) := trivial
    obtain ⟨_, samePeriod, _⟩ := interval_eq there
    rw [← deadlineAfter_toOption, ← samePeriod]
    exact stepped_reset there spares later _
  · rename_i now interval there
    rw [Option.ite_none_right_eq_some] at step
    obtain ⟨later, same⟩ := step
    cases same
    have spares : Spares shared (.resetImmediately now) := trivial
    exact stepped_reset there spares later (.ok now)
  · obtain ⟨⟨timers, reply⟩, called, rfl⟩ := Option.map_eq_some_iff.mp step
    exact .dropped called
  · rename_i call _
    rw [Option.ite_none_left_eq_some, Option.ite_none_right_eq_some] at step
    obtain ⟨other, later, moved⟩ := step
    obtain ⟨⟨timers, reply⟩, called, rfl⟩ := Option.map_eq_some_iff.mp moved
    refine .elsewhere other ?_ called
    intro now read
    rw [Option.mem_def.mp read] at later
    exact of_decide_eq_true later
  · cases step

/-! The calls of the driver that a step comes to. -/

/-- `poll_tick` polls the sleep, and sets its next deadline when it is ready. -/
theorem polled_calls {interval : Interval} (there : shared.interval? = some interval)
    (waker : W) {polledAt : Instant} (now : Instant)
    (later : shared.timers.clock ≤ polledAt) :
    ∃ timers reply,
      shared.timers.call (.poll shared.owner waker polledAt) =
        some (timers, .polled reply) ∧
      ((shared.polled interval waker polledAt now).1.timers = timers ∨
        ∃ deadline, timers.call (.reset shared.owner deadline) =
          some ((shared.polled interval waker polledAt now).1.timers, .done)) ∧
      ((shared.polled interval waker polledAt now).2 = .ok .pending ↔
        reply = .ok .pending) ∧
      (reply = .ok .pending →
        (shared.polled interval waker polledAt now).1.timers = timers) := by
  obtain ⟨found, _, _⟩ := interval_eq there
  simp only [Timers.call, found, if_pos later]
  unfold polled Interval.pollTick
  rcases polls : interval.sleep.poll shared.timers.driver polledAt waker with
    ⟨driver, sleep, reply⟩
  refine ⟨_, reply, rfl, ?_⟩
  cases reply with
  | error panic => exact ⟨Or.inl rfl, by simp, by simp⟩
  | ok ready =>
      cases ready with
      | pending => exact ⟨Or.inl rfl, ⟨fun _ => rfl, fun _ => rfl⟩, fun _ => rfl⟩
      | ready value =>
          dsimp only
          cases computed : interval.nextDeadline sleep.deadline now with
          | error panic => exact ⟨Or.inl rfl, by simp, by simp⟩
          | ok deadline =>
              refine ⟨Or.inr ⟨deadline, ?_⟩, by simp, by simp⟩
              simp only [Function.update_self, withInterval, Function.update_idem]

theorem clock_of_call {timers after : Timers W} {call : SleepCall W}
    {reply : SleepReply W} (called : timers.call call = some (after, reply)) :
    after.clock = call.reads.getD timers.clock := by
  cases call with
  | new deadline | nextDeadline =>
      cases called
      rfl
  | poll target waker now =>
      simp only [Timers.call] at called
      split at called
      · cases called
      · split at called
        · cases called
          rfl
        · cases called
  | reset target deadline | drop target =>
      simp only [Timers.call] at called
      split at called
      · cases called
      · cases called
        rfl
  | processExpired now =>
      simp only [Timers.call] at called
      split at called
      · cases called
        rfl
      · cases called

theorem created_le_of_call {timers after : Timers W} {call : SleepCall W}
    {reply : SleepReply W} (called : timers.call call = some (after, reply)) :
    timers.created ≤ after.created := by
  cases call with
  | new deadline =>
      cases called
      exact Nat.le_succ _
  | nextDeadline =>
      cases called
      exact Nat.le_refl _
  | poll target waker now =>
      simp only [Timers.call] at called
      split at called
      · cases called
      · split at called
        · cases called
          exact Nat.le_refl _
        · cases called
  | reset target deadline | drop target =>
      simp only [Timers.call] at called
      split at called
      · cases called
      · cases called
        exact Nat.le_refl _
  | processExpired now =>
      simp only [Timers.call] at called
      split at called
      · cases called
        exact Nat.le_refl _
      · cases called

theorem run_created_le {allowed : Timers W → SleepCall W → Prop}
    {timers after : Timers W} (reach : Timers.machine.Reach allowed timers after) :
    timers.created ≤ after.created := by
  induction reach with
  | refl => exact Nat.le_refl _
  | step call _ _ step ih =>
      obtain ⟨reply, called⟩ := Timers.machine_step.mp step
      exact Nat.le_trans ih (created_le_of_call called)

theorem reach_of_call {allowed : Timers W → SleepCall W → Prop}
    {timers after : Timers W} {call : SleepCall W} {reply : SleepReply W}
    (accepted : allowed timers call) (called : timers.call call = some (after, reply)) :
    Timers.machine.Reach allowed timers after :=
  .single call accepted (Timers.machine_step.mpr ⟨reply, called⟩)

theorem Stepped.leaves (stepped : Stepped shared label next)
    (spares : Spares shared label) :
    Timers.machine.Reach (Timers.Leaves shared.owner) shared.timers next.timers := by
  cases stepped with
  | polled there later after => exact spares.elim
  | dropped called => exact spares.elim
  | behaved | overflowed spares later => exact .refl
  | @reset _ sleep now deadline timers spares found later called =>
      have leaves : Timers.Leaves shared.owner shared.timers
        (.reset shared.owner deadline) := trivial
      exact reach_of_call leaves called
  | @elsewhere call timers reply other later called =>
      refine reach_of_call ?_ called
      cases call with
      | poll target waker now | drop target => exact fun same => other (congrArg some same)
      | new deadline | reset target deadline | processExpired now | nextDeadline =>
          exact trivial

theorem Stepped.calls (stepped : Stepped shared label next)
    (behind : shared.timers.clock ≤ shared.clock) :
    Timers.machine.Reach Machine.Any shared.timers next.timers := by
  cases stepped with
  | @polled interval waker polledAt now there later after =>
      obtain ⟨timers, reply, polls, moved, _, _⟩ :=
        polled_calls there waker now (Nat.le_trans behind later)
      have first : Timers.machine.Reach Machine.Any shared.timers timers :=
        reach_of_call trivial polls
      rcases moved with same | ⟨deadline, resets⟩
      · rw [same]
        exact first
      · exact first.trans (reach_of_call trivial resets)
  | behaved | overflowed spares later => exact .refl
  | reset spares found later called => exact reach_of_call trivial called
  | dropped called => exact reach_of_call trivial called
  | elsewhere other later called => exact reach_of_call trivial called

theorem Stepped.clock (stepped : Stepped shared label next)
    (behind : shared.timers.clock ≤ shared.clock) :
    next.timers.clock ≤ next.clock ∧ shared.clock ≤ next.clock ∧
      next.owner = shared.owner := by
  cases stepped with
  | polled there later after => exact ⟨after, Nat.le_trans later after, rfl⟩
  | behaved => exact ⟨behind, Nat.le_refl _, rfl⟩
  | overflowed spares later => exact ⟨Nat.le_trans behind later, later, rfl⟩
  | reset spares found later called =>
      refine ⟨?_, later, rfl⟩
      rw [clock_of_call called]
      exact Nat.le_trans behind later
  | dropped called =>
      refine ⟨?_, Nat.le_refl _, rfl⟩
      rw [clock_of_call called]
      exact behind
  | @elsewhere call timers reply other later called =>
      rw [clock_of_call called]
      cases reads : call.reads with
      | none => exact ⟨behind, Nat.le_refl _, rfl⟩
      | some now =>
          exact ⟨Nat.le_refl _, later now (Option.mem_def.mpr reads), rfl⟩

/-! The history of an interval with resets. -/

/-- Which deadline an interval waits for after an event. -/
inductive Awaits (period : Duration) : IntervalEvent → Instant → Prop
  | placed {deadline : Instant} : Awaits period (.placed deadline) deadline
  | ticked {tick : Tick} {deadline : Instant} :
      Follows period tick deadline → Awaits period (.ticked tick) deadline

/-- Each tick is the deadline that was awaited after the event before it, and so is
the sleep's deadline. -/
structure Lawful (first : Instant) (period : Period) (shared : SharedInterval W) :
    Prop where
  same : shared.period = period
  behaves : shared.missedTickBehavior = shared.behavior
  first : shared.events.getLast? = some (.placed first)
  chained : shared.events.IsChain fun later earlier => ∀ tick,
    later = .ticked tick → Awaits period.val earlier tick.deadline
  upcoming : ∀ sleep, shared.timers.sleeps shared.owner = some sleep →
    ∃ event ∈ shared.events.head?, Awaits period.val event sleep.deadline
  timely : ∀ tick, .ticked tick ∈ shared.events →
    tick.deadline ≤ tick.polledAt ∧ tick.polledAt ≤ tick.now

namespace Lawful

variable {first : Instant} {period : Period}

omit [WillWake W] in
theorem frame (lawful : Lawful first period shared)
    (same : next.period = shared.period)
    (behaves : next.missedTickBehavior = next.behavior)
    (events : next.events = shared.events)
    (kept : ∀ sleep, next.timers.sleeps next.owner = some sleep →
      ∃ before, shared.timers.sleeps shared.owner = some before ∧
        sleep.deadline = before.deadline) : Lawful first period next where
  same := same.trans lawful.same
  behaves := behaves
  first := by
    rw [events]
    exact lawful.first
  chained := by
    rw [events]
    exact lawful.chained
  upcoming := by
    intro sleep found
    obtain ⟨before, present, deadline⟩ := kept sleep found
    rw [events, deadline]
    exact lawful.upcoming before present
  timely := by
    rw [events]
    exact lawful.timely

omit [WillWake W] in
theorem cons (lawful : Lawful first period shared) {event : IntervalEvent}
    (same : next.period = shared.period)
    (behaves : next.missedTickBehavior = next.behavior)
    (events : next.events = event :: shared.events)
    (awaited : ∀ tick, event = .ticked tick → ∃ sleep,
      shared.timers.sleeps shared.owner = some sleep ∧ tick.deadline = sleep.deadline ∧
        tick.deadline ≤ tick.polledAt ∧ tick.polledAt ≤ tick.now)
    (upcoming : ∀ sleep, next.timers.sleeps next.owner = some sleep →
      Awaits period.val event sleep.deadline) : Lawful first period next where
  same := same.trans lawful.same
  behaves := behaves
  first := by
    have before := lawful.first
    rw [events]
    cases earlier : shared.events with
    | nil =>
        rw [earlier] at before
        cases before
    | cons last rest =>
        rw [earlier] at before
        rw [List.getLast?_cons_cons]
        exact before
  chained := by
    rw [events, List.isChain_cons]
    refine ⟨?_, lawful.chained⟩
    intro earlier last tick isTick
    obtain ⟨sleep, found, deadline, _⟩ := awaited tick isTick
    obtain ⟨event, latest, awaits⟩ := lawful.upcoming sleep found
    rw [Option.mem_unique last latest, deadline]
    exact awaits
  upcoming := by
    intro sleep found
    rw [events]
    exact ⟨event, rfl, upcoming sleep found⟩
  timely := by
    rw [events]
    intro tick member
    rcases List.mem_cons.mp member with isTick | before
    · obtain ⟨_, _, _, timely⟩ := awaited tick isTick.symm
      exact timely
    · exact lawful.timely tick before

theorem polled (lawful : Lawful first period shared) {interval : Interval}
    (there : shared.interval? = some interval) (waker : W) {polledAt now : Instant}
    (later : polledAt ≤ now) :
    Lawful first period (shared.polled interval waker polledAt now).1 := by
  obtain ⟨found, samePeriod, sameBehavior⟩ := interval_eq there
  have behaves := sameBehavior.trans lawful.behaves
  have outcome := interval.pollTick_outcome shared.timers.driver later waker
  unfold SharedInterval.polled
  rcases called : interval.pollTick shared.timers.driver polledAt now waker with
    ⟨driver, after, reply⟩
  rw [called] at outcome
  cases outcome with
  | early sleep _ early kept unready =>
      refine lawful.frame rfl behaves ?_ ?_
      · cases reply with
        | error panic => rfl
        | ok reply =>
            cases reply with
            | pending => rfl
            | ready value => exact absurd rfl (unready value)
      · intro other present
        dsimp only [withInterval] at present
        rw [Function.update_self] at present
        cases present
        exact ⟨_, found, kept⟩
  | ticked sleep tick shown due follows fits =>
      subst shown
      refine lawful.cons rfl behaves rfl ?_ ?_
      · rintro tick ⟨rfl⟩
        exact ⟨_, found, rfl, due, later⟩
      · intro other present
        dsimp only [withInterval] at present
        rw [Function.update_self] at present
        cases present
        rw [← lawful.same, ← samePeriod, ← behaves]
        exact .ticked follows
  | overflowed sleep tick next shown due kept follows concluded =>
      refine lawful.frame rfl behaves rfl ?_
      intro other present
      dsimp only [withInterval] at present
      rw [Function.update_self] at present
      cases present
      exact ⟨_, found, kept⟩

theorem step (lawful : Lawful first period shared) (stepped : Stepped shared label next)
    (created : shared.owner < shared.timers.created) : Lawful first period next := by
  cases stepped with
  | polled there later after => exact lawful.polled there _ after
  | behaved => exact lawful.frame rfl rfl rfl fun sleep found => ⟨sleep, found, rfl⟩
  | overflowed spares later =>
      exact lawful.frame rfl lawful.behaves rfl fun sleep found => ⟨sleep, found, rfl⟩
  | @reset _ sleep now deadline timers spares found later called =>
      rw [call_reset found] at called
      cases called
      refine lawful.cons rfl lawful.behaves rfl nofun ?_
      intro other present
      dsimp only at present
      rw [Function.update_self] at present
      cases present
      rw [Sleep.reset_deadline]
      exact .placed
  | dropped called =>
      refine lawful.frame rfl lawful.behaves rfl fun sleep found => ?_
      rw [sleeps_of_drop called] at found
      cases found
  | elsewhere other later called =>
      refine lawful.frame rfl lawful.behaves rfl fun sleep found => ?_
      obtain ⟨same, _⟩ := Timers.sleeps_of_other called other created
      exact ⟨sleep, same ▸ found, rfl⟩

end Lawful

/-! The runs of an interval with resets. -/

structure Sound (first : Instant) (period : Period) (shared : SharedInterval W) :
    Prop where
  lawful : Lawful first period shared
  behind : shared.timers.clock ≤ shared.clock
  created : shared.owner < shared.timers.created

variable {first : Instant} {period : Period} {behavior : MissedTickBehavior}
  {timers : Timers W}

omit [WillWake W] in
theorem sound_start (timers : Timers W) (first : Instant) (period : Period)
    (behavior : MissedTickBehavior) :
    Sound first period (start timers first period behavior) where
  lawful := by
    refine ⟨rfl, rfl, rfl, List.isChain_singleton _, ?_, ?_⟩
    · intro sleep found
      dsimp only [start] at found
      rw [Function.update_self] at found
      cases found
      exact ⟨_, rfl, .placed⟩
    · intro tick member
      cases List.mem_singleton.mp member
  behind := Nat.le_refl _
  created := Nat.lt_succ_self _

theorem Sound.step (sound : Sound first period shared)
    (stepped : Stepped shared label next) : Sound first period next := by
  obtain ⟨behind, _, owner⟩ := stepped.clock sound.behind
  refine ⟨sound.lawful.step stepped sound.created, behind, ?_⟩
  rw [owner]
  exact Nat.lt_of_lt_of_le sound.created (run_created_le (stepped.calls sound.behind))

theorem run_sound {allowed : SharedInterval W → SharedStep W → Prop}
    (reach : machine.Reach allowed shared next) (sound : Sound first period shared) :
    Sound first period next ∧ next.owner = shared.owner ∧
      Timers.machine.Reach Machine.Any shared.timers next.timers := by
  induction reach with
  | refl => exact ⟨sound, rfl, .refl⟩
  | step label _ _ step ih =>
      have stepped := stepped_of_step step
      obtain ⟨before, owner, calls⟩ := ih
      exact ⟨before.step stepped, (stepped.clock before.behind).2.2.trans owner,
        calls.trans (stepped.calls before.behind)⟩

theorem run_leaves (reach : machine.Reach Spares shared next)
    (sound : Sound first period shared) :
    Timers.machine.Reach (Timers.Leaves shared.owner) shared.timers next.timers := by
  induction reach with
  | refl => exact .refl
  | step label before spares step ih =>
      have leaves := (stepped_of_step step).leaves spares
      rw [(run_sound before sound).2.1] at leaves
      exact ih.trans leaves

theorem run_coupled {clock : Instant}
    (made : Timers.machine.Reach Machine.Any (Timers.initial clock) timers)
    (reach : machine.Reach Machine.Any (start timers first period behavior) shared)
    (few : shared.timers.registered < 2 ^ 64) :
    shared.timers.Coupled ∧ shared.timers.FiredOnce := by
  obtain ⟨_, _, calls⟩ := run_sound reach (sound_start timers first period behavior)
  have created : Timers.machine.Reach Machine.Any timers
      (start timers first period behavior).timers :=
    .single (.new first) trivial rfl
  exact Timers.run_firedOnce ((made.trans created).trans calls) few

theorem polled_reply (shared : SharedInterval W) (interval : Interval) (waker : W)
    {polledAt now : Instant} (later : polledAt ≤ now) :
    (polledAt < interval.sleep.deadline →
      ∀ value, (shared.polled interval waker polledAt now).2 ≠ .ok (.ready value)) ∧
    (interval.sleep.deadline ≤ polledAt →
      ∃ next, Follows interval.period.val ⟨interval.sleep.deadline, polledAt, now,
          interval.missedTickBehavior⟩ next ∧
        (shared.polled interval waker polledAt now).2 =
          if next ≤ Instant.last then .ok (.ready interval.sleep.deadline)
          else .error (.raised .deadlineOutOfRange)) := by
  exact IntervalRun.polled_reply
    (IntervalRun.start interval shared.timers.driver shared.clock) waker later

theorem drop_cancels {after : Timers W} {owner : Nat} {reply : SleepReply W}
    (called : timers.call (.drop owner) = some (after, reply)) :
    (∀ id, timers.Holds owner id → after.driver.registrations.lookup id = none) ∧
      ∀ id, ¬ timers.Holds owner id →
        after.driver.registrations.lookup id = timers.driver.registrations.lookup id := by
  simp only [Timers.call] at called
  split at called
  · cases called
  · rename_i sleep found
    cases called
    refine ⟨?_, ?_⟩
    · rintro id ⟨other, present, held⟩
      cases found.symm.trans present
      exact Sleep.lookup_release_held held _
    · intro id unheld
      exact Sleep.lookup_release_other (fun held => unheld ⟨sleep, found, held⟩) _

theorem pending_of_early (coupled : shared.timers.Coupled) {interval : Interval}
    (there : shared.interval? = some interval) {waker : W} {polledAt now : Instant}
    (later : shared.timers.clock ≤ polledAt)
    (early : polledAt < interval.sleep.deadline) :
    (shared.polled interval waker polledAt now).2 = .ok .pending := by
  obtain ⟨found, _, _⟩ := interval_eq there
  obtain ⟨timers, reply, polls, _, told, _⟩ :=
    polled_calls there waker now later
  apply told.mpr
  cases reply with
  | error panic => exact absurd rfl ((coupled.outcome polls).no_panic panic)
  | ok ready =>
      cases ready with
      | pending => rfl
      | ready value =>
          rcases (Timers.sleep_of_poll found polls).2.2 with ⟨_, due⟩ | ⟨unready, _⟩
          · exact absurd early (Nat.not_lt.mpr due)
          · exact absurd rfl unready

theorem sleep_of_waiting {owner : Nat} {id : TimerId} {waker : W}
    (waiting : timers.Waiting owner id waker) :
    ∃ sleep, timers.sleeps owner = some sleep := by
  cases waiting with
  | armed present held live same silent => exact ⟨_, present⟩
  | fired present held retired same once => exact ⟨_, present⟩

theorem registered_of_waiting {owner : Nat} {id : TimerId} {waker : W} {sleep : Sleep}
    (coupled : timers.Coupled) (waiting : timers.Waiting owner id waker)
    (found : timers.sleeps owner = some sleep) (silent : timers.wakesOf id = []) :
    ∃ registration, timers.driver.registrations.lookup id = some registration ∧
      registration.deadline = sleep.deadline ∧ SameWake registration.waker waker := by
  cases waiting with
  | fired present held retired same once =>
      rw [silent] at once
      cases once
  | @armed other registration present held live same _ =>
      cases found.symm.trans present
      obtain ⟨holder, holding, there, holds, deadline⟩ :=
        coupled.owned id registration live
      cases coupled.heldOnce id holder owner ⟨holding, there, holds⟩
        ⟨sleep, found, held⟩
      cases found.symm.trans there
      exact ⟨registration, live, deadline.symm, same⟩

/-- An interval whose deadline may be reset at any time: each tick is the deadline asked
for last, or follows the tick before; it comes when it is due; a pending tick is awaited
by one registration, which moves with the resets and wakes the last waker once; and a
drop cancels it. -/
theorem interval_resets {clock : Instant}
    (made : Timers.machine.Reach Machine.Any (Timers.initial clock) timers)
    (reach : machine.Reach Machine.Any (start timers first period behavior) shared)
    (few : shared.timers.registered < 2 ^ 64) :
    Lawful first period shared ∧
    (∀ interval, shared.interval? = some interval →
      ∀ waker polledAt now, shared.clock ≤ polledAt → polledAt ≤ now →
      (polledAt < interval.sleep.deadline →
        (shared.polled interval waker polledAt now).2 = .ok .pending) ∧
      (interval.sleep.deadline ≤ polledAt →
        ∃ next, Follows period.val ⟨interval.sleep.deadline, polledAt, now,
            shared.missedTickBehavior⟩ next ∧
          (shared.polled interval waker polledAt now).2 =
            if next ≤ Instant.last then .ok (.ready interval.sleep.deadline)
            else .error (.raised .deadlineOutOfRange))) ∧
    (∀ interval, shared.interval? = some interval →
      ∀ waker polledAt now, shared.clock ≤ polledAt → polledAt ≤ now →
      (shared.polled interval waker polledAt now).2 = .ok .pending →
      ∃ id, ∀ later, machine.Reach Spares (shared.polled interval waker polledAt now).1
          later → later.timers.registered < 2 ^ 64 →
        (later.timers.wakesOf id = [] ∨ ∃ stored, SameWake stored waker ∧
          later.timers.wakesOf id = [stored]) ∧
        ∃ sleep, later.timers.sleeps later.owner = some sleep ∧
          (later.timers.wakesOf id = [] → ∃ registration,
            later.timers.driver.registrations.lookup id = some registration ∧
              registration.deadline = sleep.deadline ∧
              SameWake registration.waker waker) ∧
          ∀ instant after reply, sleep.deadline ≤ instant →
            later.timers.call (.processExpired instant) = some (after, reply) →
            ∃ stored, SameWake stored waker ∧ after.wakesOf id = [stored]) ∧
    ∀ next, machine.step shared .drop = some next →
      next.interval? = none ∧
      (∀ id, shared.timers.Holds shared.owner id →
        next.timers.driver.registrations.lookup id = none) ∧
      ∀ id, ¬ shared.timers.Holds shared.owner id →
        next.timers.driver.registrations.lookup id =
          shared.timers.driver.registrations.lookup id := by
  obtain ⟨sound, _, _⟩ := run_sound reach (sound_start timers first period behavior)
  obtain ⟨coupled, once⟩ := run_coupled made reach few
  refine ⟨sound.lawful, ?_, ?_, ?_⟩
  · intro interval there waker polledAt now later after
    obtain ⟨found, samePeriod, sameBehavior⟩ := interval_eq there
    obtain ⟨_, due⟩ := shared.polled_reply interval waker after
    rw [samePeriod, sameBehavior, sound.lawful.same] at due
    exact ⟨pending_of_early coupled there (Nat.le_trans sound.behind later), due⟩
  · intro interval there waker polledAt now later after pending
    obtain ⟨found, _, _⟩ := interval_eq there
    obtain ⟨timers', reply, polls, _, told, same⟩ :=
      polled_calls there waker now (Nat.le_trans sound.behind later)
    have isPending := told.mp pending
    subst isPending
    obtain ⟨id, _, waiting⟩ := coupled.waiting_of_pending once polls
    rw [← same rfl] at polls waiting
    refine ⟨id, fun finish run bound => ?_⟩
    have polled : Stepped shared (.pollTick waker polledAt now) _ :=
      .polled there later after
    have begun := sound.step polled
    have calls := run_leaves run begun
    have polledFew := Nat.lt_of_le_of_lt (Timers.run_registered_le calls) bound
    have polledCoupled := (coupled.outcome polls).coupled coupled polledFew
    obtain ⟨laterCoupled, laterWaiting⟩ :=
      Timers.run_invariant calls bound polledCoupled
      waiting fun timers call next reply before still leaves outcome =>
        outcome.waiting before leaves still
    have owner := (run_sound run begun).2.1
    refine ⟨laterWaiting.wakesOf_cases, ?_⟩
    obtain ⟨sleep, present⟩ := sleep_of_waiting laterWaiting
    refine ⟨sleep, ?_, registered_of_waiting laterCoupled laterWaiting present, ?_⟩
    · rw [owner]
      exact present
    · intro instant after reply due processed
      exact laterWaiting.fired_of_due laterCoupled present due processed
  · intro next step
    cases stepped_of_step step with
    | reset spares found later called => exact spares.elim
    | overflowed spares later => exact spares.elim
    | dropped called =>
        refine ⟨?_, drop_cancels called⟩
        unfold interval?
        rw [sleeps_of_drop called]
        rfl

/-- Ticks at 0 and 5, a reset to 40 while the third is awaited, and a drop. -/
def resetSteps : List (SharedStep Waker) :=
  [.pollTick (.task 1) 0 0, .timers (.new 30), .pollTick (.task 1) 5 5,
    .pollTick (.task 1) 6 6, .resetAt 40, .timers (.poll 1 (.task 2) 7)]

def resetInterval : SharedInterval Waker :=
  (machine.run Machine.Any (start (Timers.initial 0) 0 ⟨5, by decide, by decide⟩ .burst)
    resetSteps).getD (start (Timers.initial 0) 0 ⟨5, by decide, by decide⟩ .burst)

theorem interval_resets_moved :
    resetInterval.timers.sleeps 0 = some ⟨40, some ⟨0⟩⟩ ∧
      (resetInterval.polled ⟨⟨40, some ⟨0⟩⟩, ⟨5, by decide, by decide⟩, .burst⟩
        (.task 3) 39 39).2 = .ok .pending ∧
      ∀ next, machine.step resetInterval .drop = some next →
        next.timers.driver.registrations.lookup ⟨0⟩ = none := by
  have made : Timers.machine.Reach Machine.Any (Timers.initial 0)
    (Timers.initial 0 : Timers Waker) := .refl
  have ran : machine.run Machine.Any
    (start (Timers.initial 0) 0 ⟨5, by decide, by decide⟩ .burst) resetSteps =
      some resetInterval := rfl
  obtain ⟨_, replies, _, drops⟩ :=
    interval_resets made (Machine.reach_of_run ran) (by decide)
  refine ⟨rfl, ?_, ?_⟩
  · exact (replies _ rfl (.task 3) 39 39 (by decide) (by decide)).1 (by decide)
  · intro next step
    exact (drops next step).2.1 ⟨0⟩ ⟨_, rfl, rfl⟩

end SharedInterval

end Asyncr.Time
