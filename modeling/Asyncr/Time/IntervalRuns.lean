import Mathlib.Data.List.Chain
import Asyncr.Library.Grid
import Asyncr.Library.Machine
import Asyncr.Time.Interval
import Asyncr.Time.Timers

namespace Asyncr.Time

open Asyncr
open Library

universe u

variable {W : Type u} [WillWake W]

/-! Which instant follows a tick, and what the code computes for it. -/

structure Tick where
  deadline : Instant
  /-- The clock when the sleep was polled, and when it was found ready. -/
  polledAt : Instant
  now : Instant
  behavior : MissedTickBehavior
  deriving DecidableEq, Repr

inductive Follows (period : Duration) (tick : Tick) : Instant → Prop
  | regular :
      tick.now - tick.deadline ≤ Interval.missedTickGraceDelay ∨
        tick.behavior = .burst →
      Follows period tick (tick.deadline + period)
  | skipped {next : Instant} :
      Interval.missedTickGraceDelay < tick.now - tick.deadline →
      tick.behavior = .skip →
      IsLeast {point | ∃ steps : Nat, 1 ≤ steps ∧ point = tick.deadline + steps * period ∧
        tick.now < point} next →
      Follows period tick next
  | delayed :
      Interval.missedTickGraceDelay < tick.now - tick.deadline →
      tick.behavior = .delay →
      Follows period tick (tick.now + period)

theorem deadlineAfter_eq (instant : Instant) (duration : Duration) :
    (deadlineAfter instant duration).mapError IntervalPanic.raised =
      if instant + duration ≤ Instant.last then .ok (instant + duration)
      else .error (.raised .deadlineOutOfRange) := by
  unfold deadlineAfter Instant.checkedAdd
  by_cases fits : instant + duration ≤ Instant.last
  · rw [if_pos fits, if_pos fits]
    rfl
  · rw [if_neg fits, if_neg fits]
    rfl

theorem skip_eq (deadline now : Instant) (period : Period) :
    MissedTickBehavior.skip.nextDeadline deadline now period.val =
      (deadlineAfter now (period.val - (now - deadline) % period.val)).mapError
        .raised := by
  have rest : (now - deadline) % period.val < period.val :=
    Nat.mod_lt _ period.positive
  have nonzero : period.val ≠ 0 := Nat.pos_iff_ne_zero.mp period.positive
  have fits : (now - deadline) % period.val ≤ Duration.last :=
    Nat.le_trans rest.le period.fits
  simp only [MissedTickBehavior.nextDeadline, Instant.saturatingDurationSince,
    Duration.remainder, Duration.fromNanos, Duration.minus, if_neg nonzero,
    if_pos fits, if_pos rest.le, bind, Except.bind]

theorem isLeast_skip {deadline now : Instant} {period : Duration}
    (positive : 0 < period) (reached : deadline ≤ now) :
    IsLeast {point | ∃ steps : Nat, 1 ≤ steps ∧ point = deadline + steps * period ∧
      now < point} (pointAfter deadline period now) := by
  obtain ⟨⟨⟨steps, found⟩, later⟩, least⟩ :=
    Grid.isLeast_pointAfter positive reached
  refine ⟨⟨steps, ?_, found, later⟩, ?_⟩
  · by_contra few
    have zero : steps = 0 := by omega
    rw [found, zero, Nat.zero_mul, Nat.add_zero] at later
    exact absurd reached (Nat.not_le_of_lt later)
  · rintro point ⟨more, _, rfl, passed⟩
    exact least ⟨⟨more, rfl⟩, passed⟩

/-- The code computes the instant that follows, or finds that it is out of range. -/
theorem Interval.nextDeadline_spec (interval : Interval) (tick : Tick)
    (reached : tick.deadline ≤ tick.now)
    (behavior : tick.behavior = interval.missedTickBehavior) :
    ∃ next, Follows interval.period.val tick next ∧
      interval.nextDeadline tick.deadline tick.now =
        if next ≤ Instant.last then .ok next
        else .error (.raised .deadlineOutOfRange) := by
  unfold Interval.nextDeadline
  by_cases late : missedTickGraceDelay <
      tick.now.saturatingDurationSince tick.deadline
  · rw [if_pos late]
    cases mode : interval.missedTickBehavior with
    | burst =>
        rw [mode] at behavior
        exact ⟨_, .regular (Or.inr behavior), deadlineAfter_eq _ _⟩
    | delay =>
        rw [mode] at behavior
        exact ⟨_, .delayed late behavior, deadlineAfter_eq _ _⟩
    | skip =>
        rw [mode] at behavior
        refine ⟨_, .skipped late behavior
          (isLeast_skip interval.period.positive reached), ?_⟩
        rw [skip_eq]
        exact deadlineAfter_eq _ _
  · rw [if_neg late]
    exact ⟨_, .regular (Or.inl (Nat.le_of_not_lt late)), deadlineAfter_eq _ _⟩

namespace Follows

variable {period : Duration} {tick : Tick} {next : Instant}

theorem later (follows : Follows period tick next) (positive : 0 < period)
    (reached : tick.deadline ≤ tick.now) : tick.deadline < next := by
  cases follows with
  | regular due => exact Nat.lt_add_of_pos_right positive
  | skipped late behavior least =>
      obtain ⟨⟨steps, _, _, passed⟩, _⟩ := least
      exact Nat.lt_of_le_of_lt reached passed
  | delayed late behavior =>
      exact Nat.lt_of_le_of_lt reached (Nat.lt_add_of_pos_right positive)

theorem on_grid (follows : Follows period tick next) (behavior : tick.behavior ≠ .delay) :
    next ∈ grid tick.deadline period := by
  cases follows with
  | regular due => exact Grid.next_mem Grid.self_mem
  | skipped late skip least =>
      obtain ⟨⟨steps, _, found, _⟩, _⟩ := least
      exact ⟨steps, found⟩
  | delayed late delay => exact absurd delay behavior

theorem omitted (follows : Follows period tick next) (positive : 0 < period)
    (behavior : tick.behavior ≠ .delay) {point : Instant}
    (member : point ∈ grid tick.deadline period) (after : tick.deadline < point)
    (before : point < next) : tick.behavior = .skip ∧ point ≤ tick.now := by
  cases follows with
  | regular due =>
      have least := (Grid.isLeast_next positive).2 ⟨member, after⟩
      exact absurd before (Nat.not_lt.mpr least)
  | delayed late delay => exact absurd delay behavior
  | skipped late skip least =>
      refine ⟨skip, Nat.le_of_not_lt fun passed => ?_⟩
      obtain ⟨steps, found⟩ := member
      have some_step : 1 ≤ steps := by
        by_contra few
        have zero : steps = 0 := by omega
        rw [found, zero, Nat.zero_mul, Nat.add_zero] at after
        exact Nat.lt_irrefl _ after
      exact absurd before (Nat.not_lt.mpr (least.2 ⟨steps, some_step, found, passed⟩))

end Follows

/-! `poll_tick` in terms of what follows. -/

/-- What one call does to the interval, whatever the driver holds. -/
inductive TickOutcome (interval : Interval) (polledAt now : Instant) :
    Interval → Except IntervalPanic (Poll Instant) → Prop
  | early (sleep : Sleep) (result : Except IntervalPanic (Poll Instant)) :
      polledAt < interval.sleep.deadline →
      sleep.deadline = interval.sleep.deadline →
      (∀ value, result ≠ .ok (.ready value)) →
      TickOutcome interval polledAt now { interval with sleep := sleep } result
  | ticked (sleep : Sleep) (tick : Tick) :
      tick = ⟨interval.sleep.deadline, polledAt, now, interval.missedTickBehavior⟩ →
      interval.sleep.deadline ≤ polledAt →
      Follows interval.period.val tick sleep.deadline →
      sleep.deadline ≤ Instant.last →
      TickOutcome interval polledAt now { interval with sleep := sleep }
        (.ok (.ready interval.sleep.deadline))
  | overflowed (sleep : Sleep) (tick : Tick) (next : Instant) :
      tick = ⟨interval.sleep.deadline, polledAt, now, interval.missedTickBehavior⟩ →
      interval.sleep.deadline ≤ polledAt →
      sleep.deadline = interval.sleep.deadline →
      Follows interval.period.val tick next → Instant.last < next →
      TickOutcome interval polledAt now { interval with sleep := sleep }
        (.error (.raised .deadlineOutOfRange))

theorem Interval.pollTick_outcome (interval : Interval) (timer : TimerState W)
    {polledAt now : Instant} (later : polledAt ≤ now) (waker : W) :
    TickOutcome interval polledAt now (interval.pollTick timer polledAt now waker).2.1
      (interval.pollTick timer polledAt now waker).2.2 := by
  unfold pollTick
  by_cases due : interval.sleep.deadline ≤ polledAt
  · rw [interval.sleep.poll_elapsed timer due waker]
    have kept := interval.sleep.release_deadline timer
    obtain ⟨next, follows, computed⟩ := interval.nextDeadline_spec
      ⟨interval.sleep.deadline, polledAt, now, interval.missedTickBehavior⟩
      (Nat.le_trans due later) rfl
    simp only at computed
    simp only [kept, computed]
    by_cases fits : next ≤ Instant.last
    · simp only [if_pos fits]
      refine .ticked _ _ rfl due ?_ ?_
      · rw [Sleep.reset_deadline]
        exact follows
      · rw [Sleep.reset_deadline]
        exact fits
    · simp only [if_neg fits]
      exact .overflowed _ _ next rfl due kept follows (Nat.lt_of_not_le fits)
  · have early := Nat.lt_of_not_le due
    obtain ⟨kept, told⟩ :=
      (Timers.poll_outcome interval.sleep timer polledAt waker).decides
    rcases polled : interval.sleep.poll timer polledAt waker with ⟨after, sleep, result⟩
    rw [polled] at kept told
    have unready := (told.resolve_left fun ready => due ready.2).1
    cases result with
    | error panic => exact .early sleep _ early kept nofun
    | ok reply =>
        cases reply with
        | pending => exact .early sleep _ early kept nofun
        | ready value => exact absurd rfl unready

/-! The runs of one interval. -/

/-- The future of `tick`, which borrows the interval while it is alive. -/
inductive TickFuture where
  | waiting
  | finished
  deriving DecidableEq, Repr

structure IntervalRun (W : Type u) where
  interval : Interval
  driver : TimerState W
  /-- The last value read from the clock. -/
  clock : Instant
  future : Option TickFuture
  /-- History: the behavior that was set last. -/
  behavior : MissedTickBehavior
  /-- History: the ticks returned, oldest first. -/
  ticks : List Tick

inductive IntervalStep (W : Type u) where
  | pollTick (waker : W) (polledAt now : Instant)
  | tick
  | pollFuture (waker : W) (polledAt now : Instant)
  | dropFuture
  | setMissedTickBehavior (behavior : MissedTickBehavior)
  /-- Other code uses the shared driver, or the clock is read elsewhere. -/
  | elsewhere (driver : TimerState W) (clock : Instant)

namespace IntervalRun

def start (interval : Interval) (driver : TimerState W) (clock : Instant) :
    IntervalRun W where
  interval := interval
  driver := driver
  clock := clock
  future := none
  behavior := interval.missedTickBehavior
  ticks := []

/-- One call of `poll_tick`; the reply tells whether a future of `tick` goes on. -/
def polled (run : IntervalRun W) (waker : W) (polledAt now : Instant) :
    IntervalRun W × Except IntervalPanic (Poll Instant) :=
  let (driver, interval, reply) := run.interval.pollTick run.driver polledAt now waker
  let ticks :=
    match reply with
    | .ok (.ready deadline) => run.ticks ++ [⟨deadline, polledAt, now, run.behavior⟩]
    | .ok .pending | .error _ => run.ticks
  ({ run with driver := driver, interval := interval, clock := now, ticks := ticks },
    reply)

def step (run : IntervalRun W) : IntervalStep W → Option (IntervalRun W)
  | .pollTick waker polledAt now =>
      if run.future = none ∧ run.clock ≤ polledAt ∧ polledAt ≤ now then
        some (run.polled waker polledAt now).1
      else
        none
  | .tick =>
      if run.future = none then some { run with future := some .waiting } else none
  | .pollFuture waker polledAt now =>
      if run.future = some .waiting ∧ run.clock ≤ polledAt ∧ polledAt ≤ now then
        let (after, reply) := run.polled waker polledAt now
        match reply with
        | .ok .pending => some after
        | .ok (.ready _) | .error _ => some { after with future := some .finished }
      else
        none
  | .dropFuture =>
      if run.future.isSome then some { run with future := none } else none
  | .setMissedTickBehavior behavior =>
      if run.future = none then
        some { run with
          interval := run.interval.setMissedTickBehavior behavior
          behavior := behavior }
      else
        none
  | .elsewhere driver clock =>
      if run.clock ≤ clock then
        some { run with driver := driver, clock := clock }
      else
        none

def machine : Machine (IntervalRun W) (IntervalStep W) := ⟨step⟩

/-- Each tick follows the one before it, and the sleep waits for the one that follows
the last. -/
structure Lawful (first : Instant) (period : Period) (run : IntervalRun W) : Prop where
  same : run.interval.period = period
  behaves : run.interval.missedTickBehavior = run.behavior
  head : ∀ tick ∈ run.ticks.head?, tick.deadline = first
  chained : run.ticks.IsChain fun earlier later =>
    Follows period.val earlier later.deadline
  fresh : run.ticks = [] → run.interval.sleep.deadline = first
  upcoming : ∀ tick ∈ run.ticks.getLast?,
    Follows period.val tick run.interval.sleep.deadline
  timely : ∀ tick ∈ run.ticks, tick.deadline ≤ tick.polledAt ∧ tick.polledAt ≤ tick.now

namespace Lawful

variable {first : Instant} {period : Period} {run next : IntervalRun W}

omit [WillWake W] in
theorem frame (lawful : Lawful first period run)
    (same : next.interval.period = run.interval.period)
    (behaves : next.interval.missedTickBehavior = next.behavior)
    (ticks : next.ticks = run.ticks)
    (deadline : next.interval.sleep.deadline = run.interval.sleep.deadline) :
    Lawful first period next where
  same := same.trans lawful.same
  behaves := behaves
  head := by
    rw [ticks]
    exact lawful.head
  chained := by
    rw [ticks]
    exact lawful.chained
  fresh := by
    rw [ticks, deadline]
    exact lawful.fresh
  upcoming := by
    rw [ticks, deadline]
    exact lawful.upcoming
  timely := by
    rw [ticks]
    exact lawful.timely

omit [WillWake W] in
theorem ticked (lawful : Lawful first period run) {tick : Tick}
    (same : next.interval.period = run.interval.period)
    (behaves : next.interval.missedTickBehavior = next.behavior)
    (ticks : next.ticks = run.ticks ++ [tick])
    (awaited : tick.deadline = run.interval.sleep.deadline)
    (due : tick.deadline ≤ tick.polledAt) (later : tick.polledAt ≤ tick.now)
    (follows : Follows period.val tick next.interval.sleep.deadline) :
    Lawful first period next where
  same := same.trans lawful.same
  behaves := behaves
  head := by
    rw [ticks]
    cases before : run.ticks with
    | nil =>
        rintro found ⟨rfl⟩
        exact awaited.trans (lawful.fresh before)
    | cons oldest rest =>
        rintro found ⟨rfl⟩
        exact lawful.head oldest (by simp [before])
  chained := by
    rw [ticks, List.isChain_append]
    refine ⟨lawful.chained, List.isChain_singleton tick, ?_⟩
    rintro earlier last found ⟨rfl⟩
    rw [awaited]
    exact lawful.upcoming earlier last
  fresh := by
    rw [ticks]
    intro empty
    simp at empty
  upcoming := by
    rw [ticks, List.getLast?_append]
    rintro found ⟨rfl⟩
    exact follows
  timely := by
    rw [ticks]
    intro found member
    rcases List.mem_append.mp member with before | last
    · exact lawful.timely found before
    · rw [List.mem_singleton.mp last]
      exact ⟨due, later⟩

theorem polled (lawful : Lawful first period run) (waker : W) {polledAt now : Instant}
    (later : polledAt ≤ now) : Lawful first period (run.polled waker polledAt now).1 := by
  have outcome := run.interval.pollTick_outcome run.driver later waker
  unfold IntervalRun.polled
  rcases called : run.interval.pollTick run.driver polledAt now waker with
    ⟨driver, interval, reply⟩
  rw [called] at outcome
  cases outcome with
  | early sleep _ early kept unready =>
      refine lawful.frame rfl lawful.behaves ?_ kept
      cases reply with
      | error panic => rfl
      | ok reply =>
          cases reply with
          | pending => rfl
          | ready value => exact absurd rfl (unready value)
  | ticked sleep tick shown due follows fits =>
      subst shown
      rw [lawful.same, lawful.behaves] at follows
      exact lawful.ticked rfl lawful.behaves rfl rfl due later follows
  | overflowed sleep tick next shown due kept follows concluded =>
      exact lawful.frame rfl lawful.behaves rfl kept

theorem step (lawful : Lawful first period run) {label : IntervalStep W}
    (stepped : run.step label = some next) : Lawful first period next := by
  cases label with
  | pollTick waker polledAt now =>
      simp only [IntervalRun.step, Option.ite_none_right_eq_some,
        Option.some.injEq] at stepped
      obtain ⟨⟨_, _, later⟩, rfl⟩ := stepped
      exact lawful.polled waker later
  | tick =>
      simp only [IntervalRun.step, Option.ite_none_right_eq_some,
        Option.some.injEq] at stepped
      obtain ⟨_, rfl⟩ := stepped
      exact lawful.frame rfl lawful.behaves rfl rfl
  | pollFuture waker polledAt now =>
      simp only [IntervalRun.step, Option.ite_none_right_eq_some] at stepped
      obtain ⟨⟨_, _, later⟩, stepped⟩ := stepped
      have after := lawful.polled waker later
      split at stepped
      · cases stepped
        exact after
      · cases stepped
        exact after.frame rfl after.behaves rfl rfl
      · cases stepped
        exact after.frame rfl after.behaves rfl rfl
  | dropFuture =>
      simp only [IntervalRun.step, Option.ite_none_right_eq_some,
        Option.some.injEq] at stepped
      obtain ⟨_, rfl⟩ := stepped
      exact lawful.frame rfl lawful.behaves rfl rfl
  | setMissedTickBehavior behavior =>
      simp only [IntervalRun.step, Option.ite_none_right_eq_some,
        Option.some.injEq] at stepped
      obtain ⟨_, rfl⟩ := stepped
      exact lawful.frame rfl rfl rfl rfl
  | elsewhere driver clock =>
      simp only [IntervalRun.step, Option.ite_none_right_eq_some,
        Option.some.injEq] at stepped
      obtain ⟨_, rfl⟩ := stepped
      exact lawful.frame rfl lawful.behaves rfl rfl

end Lawful

omit [WillWake W] in
theorem lawful_start (interval : Interval) (driver : TimerState W) (clock : Instant) :
    Lawful interval.sleep.deadline interval.period (start interval driver clock) where
  same := rfl
  behaves := rfl
  head := nofun
  chained := List.isChain_nil
  fresh := fun _ => rfl
  upcoming := nofun
  timely := nofun

namespace Lawful

variable {first : Instant} {period : Period} {run : IntervalRun W}

omit [WillWake W] in
theorem increasing (lawful : Lawful first period run) :
    run.ticks.Pairwise fun earlier later => earlier.deadline < later.deadline := by
  have rising : run.ticks.IsChain fun earlier later =>
      earlier.deadline < later.deadline := by
    apply lawful.chained.imp_of_mem_imp
    intro earlier later member _ follows
    obtain ⟨due, passed⟩ := lawful.timely earlier member
    exact follows.later period.positive (Nat.le_trans due passed)
  have pairs := (List.isChain_map Tick.deadline).mpr rising
  exact List.pairwise_map.mp pairs.pairwise

omit [WillWake W] in
theorem on_grid (lawful : Lawful first period run)
    (behaviors : ∀ tick ∈ run.ticks, tick.behavior ≠ .delay) :
    ∀ tick ∈ run.ticks, tick.deadline ∈ grid first period.val := by
  have steps : run.ticks.IsChain fun earlier later =>
      later.deadline ∈ grid earlier.deadline period.val := by
    apply lawful.chained.imp_of_mem_imp
    intro earlier later member _ follows
    exact follows.on_grid (behaviors earlier member)
  apply steps.induction
  · intro earlier later next member
    exact Grid.trans member next
  · intro some_tick
    rw [lawful.head _ (List.head_mem_head? some_tick)]
    exact Grid.self_mem

omit [WillWake W] in
theorem omitted (lawful : Lawful first period run)
    (behaviors : ∀ tick ∈ run.ticks, tick.behavior ≠ .delay) :
    run.ticks.IsChain fun earlier later => ∀ point ∈ grid first period.val,
      earlier.deadline < point → point < later.deadline →
        earlier.behavior = .skip ∧ point ≤ earlier.now := by
  apply lawful.chained.imp_of_mem_imp
  intro earlier later member _ follows point pointMember after before
  have shifted : point ∈ grid earlier.deadline period.val :=
    Grid.mem_of_le (lawful.on_grid behaviors earlier member) pointMember after.le
  exact follows.omitted period.positive (behaviors earlier member) shifted after before

end Lawful

theorem polled_reply (run : IntervalRun W) (waker : W) {polledAt now : Instant}
    (later : polledAt ≤ now) :
    (polledAt < run.interval.sleep.deadline →
      ∀ value, (run.polled waker polledAt now).2 ≠ .ok (.ready value)) ∧
    (run.interval.sleep.deadline ≤ polledAt →
      ∃ next, Follows run.interval.period.val ⟨run.interval.sleep.deadline, polledAt,
          now, run.interval.missedTickBehavior⟩ next ∧
        (run.polled waker polledAt now).2 =
          if next ≤ Instant.last then .ok (.ready run.interval.sleep.deadline)
          else .error (.raised .deadlineOutOfRange)) := by
  have outcome := run.interval.pollTick_outcome run.driver later waker
  unfold IntervalRun.polled
  rcases called : run.interval.pollTick run.driver polledAt now waker with
    ⟨driver, interval, reply⟩
  rw [called] at outcome
  cases outcome with
  | early sleep _ early kept unready =>
      exact ⟨fun _ => unready, fun due => absurd early (Nat.not_lt.mpr due)⟩
  | ticked sleep tick shown due follows fits =>
      subst shown
      refine ⟨fun early => absurd early (Nat.not_lt.mpr due), fun _ => ?_⟩
      exact ⟨_, follows, (if_pos fits).symm⟩
  | overflowed sleep tick next shown due kept follows concluded =>
      subst shown
      refine ⟨fun early => absurd early (Nat.not_lt.mpr due), fun _ => ?_⟩
      exact ⟨next, follows, (if_neg (Nat.not_le_of_lt concluded)).symm⟩

/-- The ticks start at the start of the interval and each follows the one before;
each is returned once, when it is due, by the first poll that finds the clock there,
and no arithmetic on the way panics unless the next deadline is out of range.  Without
`Delay` the ticks stay on the grid, and only `Skip` leaves points out, all of them
missed. -/
theorem interval_ticks {interval : Interval} {driver : TimerState W} {clock : Instant}
    {run : IntervalRun W}
    (reach : machine.Reach Machine.Any (start interval driver clock) run) :
    (∀ tick ∈ run.ticks.head?, tick.deadline = interval.sleep.deadline) ∧
    (∀ tick ∈ run.ticks, tick.deadline ≤ tick.polledAt ∧ tick.polledAt ≤ tick.now) ∧
    (run.ticks.Pairwise fun earlier later => earlier.deadline < later.deadline) ∧
    (run.ticks.IsChain fun earlier later =>
      Follows interval.period.val earlier later.deadline) ∧
    (run.ticks = [] ∧ run.interval.sleep.deadline = interval.sleep.deadline ∨
      ∃ tick ∈ run.ticks.getLast?,
        Follows interval.period.val tick run.interval.sleep.deadline) ∧
    (∀ waker polledAt now, run.clock ≤ polledAt → polledAt ≤ now →
      (polledAt < run.interval.sleep.deadline →
        ∀ value, (run.polled waker polledAt now).2 ≠ .ok (.ready value)) ∧
      (run.interval.sleep.deadline ≤ polledAt →
        ∃ next, Follows interval.period.val ⟨run.interval.sleep.deadline, polledAt, now,
            run.interval.missedTickBehavior⟩ next ∧
          (run.polled waker polledAt now).2 =
            if next ≤ Instant.last then .ok (.ready run.interval.sleep.deadline)
            else .error (.raised .deadlineOutOfRange))) ∧
    run.interval.missedTickBehavior = run.behavior ∧
    ((∀ tick ∈ run.ticks, tick.behavior ≠ .delay) →
      (∀ tick ∈ run.ticks,
        tick.deadline ∈ grid interval.sleep.deadline interval.period.val) ∧
      run.ticks.IsChain fun earlier later =>
        ∀ point ∈ grid interval.sleep.deadline interval.period.val,
          earlier.deadline < point → point < later.deadline →
            earlier.behavior = .skip ∧ point ≤ earlier.now) := by
  have lawful : Lawful interval.sleep.deadline interval.period run :=
    reach.invariant (lawful_start interval driver clock) fun _ _ _ lawful _ stepped =>
      lawful.step stepped
  refine ⟨lawful.head, lawful.timely, lawful.increasing, lawful.chained, ?_, ?_,
    lawful.behaves, ?_⟩
  · cases last : run.ticks.getLast? with
    | none =>
        have empty := List.getLast?_eq_none_iff.mp last
        exact Or.inl ⟨empty, lawful.fresh empty⟩
    | some tick => exact Or.inr ⟨tick, rfl, lawful.upcoming tick last⟩
  · intro waker polledAt now _ later
    rw [← lawful.same]
    exact run.polled_reply waker later
  · exact fun behaviors => ⟨lawful.on_grid behaviors, lawful.omitted behaviors⟩

def lateInterval : Interval where
  sleep := Sleep.new 0
  period := ⟨10000000, by decide, by decide⟩
  missedTickBehavior := .burst

/-- A tick future is dropped while it waits, and the second tick comes 35 ms late. -/
def lateSteps : List (IntervalStep Waker) :=
  [.pollTick (.task 1) 0 0, .setMissedTickBehavior .skip, .tick,
    .pollFuture (.task 1) 3 3, .dropFuture, .pollTick (.task 2) 45000000 45000000]

def lateRun : IntervalRun Waker :=
  (machine.run Machine.Any (start lateInterval TimerState.initial 0) lateSteps).getD
    (start lateInterval TimerState.initial 0)

theorem interval_ticks_late :
    lateRun.ticks.length = 2 ∧ lateRun.interval.sleep.deadline = 50000000 ∧
      ∀ tick ∈ lateRun.ticks, tick.deadline ∈ grid 0 10000000 := by
  have ran : machine.run Machine.Any (start lateInterval TimerState.initial 0)
      lateSteps = some lateRun := rfl
  obtain ⟨_, _, _, _, _, _, _, gridded⟩ := interval_ticks (Machine.reach_of_run ran)
  exact ⟨rfl, rfl, (gridded (by decide)).1⟩

end IntervalRun

end Asyncr.Time
