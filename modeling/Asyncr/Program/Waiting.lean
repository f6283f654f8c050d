import Asyncr.Program.Projection

namespace Asyncr

namespace World

open Library
open Time

variable {Output : Type} {world next : World Output} {label : Label Output}
  {allowed : World Output → Label Output → Prop} {clock : Clock} {os : Instant}

/-! The blocking receive of `next_ready_id`. -/

theorem run_covered (reach : machine.Reach allowed (initial clock os) world) :
    world.time.driver.Covered := by
  apply reach.invariant
  · exact TimerState.covered_initial
  · intro world label next covered _ step
    rcases (stepped_of_step step).timers with same | ⟨call, reply, called⟩
    · rw [same]
      exact covered
    · exact Timers.covered_of_call covered called

theorem waiting_of_moved {executor after : Executor} {move : Move} {root : Nat}
    (moved : Executor.Moved executor move after)
    (phase : after.phase = .waiting root) :
    executor.phase = .waiting root ∧
        executor.pendingSpawns = after.pendingSpawns ∨
      move = .tryRecv ∧ executor.scheduling.ready = [] ∧
        executor.pendingSpawns = after.pendingSpawns := by
  cases moved with
  | remoteWake change => exact Or.inl ⟨phase, rfl⟩
  | remoteSend change => exact Or.inl ⟨phase, rfl⟩
  | wake runs change => exact Or.inl ⟨phase, rfl⟩
  | send change => exact Or.inl ⟨phase, rfl⟩
  | refused runs closed => exact Or.inl ⟨phase, rfl⟩
  | submitted runs unclosed change =>
      rw [show executor.phase = .waiting root from phase] at runs
      cases runs
  | foundEmpty before free empty => exact Or.inr ⟨rfl, empty, rfl⟩
  | cleared before free pending => cases before.symm.trans phase
  | destroyed before free member => cases before.symm.trans phase
  | _ => cases phase

theorem wait_of_stepped (stepped : Stepped world label next)
    {timeout : Option Duration} (waits : next.wait = some timeout) :
    world.wait = some timeout ∨
      label = .plan ∧ next.executor = world.executor ∧
        ∃ root time deadline, world.executor.phase = .waiting root ∧
          world.time.call .nextDeadline = some (time, .deadline deadline) ∧
          timeout = deadline.map fun deadline =>
            deadline.saturatingDurationSince world.now := by
  cases stepped with
  | @planned root time deadline phase wait found running =>
      cases waits
      exact Or.inr ⟨rfl, rfl, root, time, deadline, phase, found, rfl⟩
  | received held moved => cases waits
  | timedOut held moved => cases waits
  | _ => exact Or.inl waits

/-- `time_until_next_deadline`, by what is registered. -/
theorem timeout_spec {timers after : Timers Waker} (covered : timers.driver.Covered)
    {soonest : Option Instant}
    (called : timers.call .nextDeadline = some (after, .deadline soonest))
    (now : Instant) :
    ((soonest.map fun deadline => deadline.saturatingDurationSince now) = none ↔
      ∀ id, timers.driver.registrations.lookup id = none) ∧
    ∀ timeout,
      (soonest.map fun deadline => deadline.saturatingDurationSince now) =
        some timeout →
      ∃ deadline, IsLeast timers.driver.liveDeadlines deadline ∧
        timeout = deadline - now := by
  cases found : timers.driver.nextDeadline.2 with
  | none =>
      simp only [Timers.call, found, Option.some.injEq, Prod.mk.injEq,
        SleepReply.deadline.injEq] at called
      obtain ⟨_, rfl⟩ := called
      refine ⟨?_, ?_⟩
      · simpa using TimerState.nextDeadline_eq_none covered found
      · intro timeout isSome
        cases isSome
  | some deadline =>
      simp only [Timers.call, found, Option.some.injEq, Prod.mk.injEq,
        SleepReply.deadline.injEq] at called
      obtain ⟨_, rfl⟩ := called
      have least := TimerState.nextDeadline_eq_some covered found
      refine ⟨?_, ?_⟩
      · constructor
        · intro isNone
          cases isNone
        · intro absent
          obtain ⟨id, live⟩ := least.1
          simp [TimerState.liveDeadline, absent id] at live
      · intro timeout isSome
        cases isSome
        exact ⟨deadline, least, rfl⟩

/-! The deadline that the program last gave to each of its sleeps. -/

def asks (asked : List Instant) : Label Output → List Instant
  | .timer call => call.asks asked
  | _ => asked

def asked (labels : List (Label Output)) : List Instant :=
  labels.foldl asks []

theorem Stepped.answers {asked : List Instant} (stepped : Stepped world label next)
    (answers : world.time.Answers asked) : next.time.Answers (asks asked label) := by
  cases stepped with
  | timer runs permitted called => exact Timers.answers_of_call answers called
  | drained moved called => exact Timers.answers_of_call answers called
  | planned phase wait called running => exact Timers.answers_of_call answers called
  | jumped phase wait called paused advanced moved =>
      exact Timers.answers_of_call answers called
  | stuck phase wait called paused failed moved =>
      exact Timers.answers_of_call answers called
  | timed cause later =>
      rcases cause with ⟨_, rfl, _⟩ | ⟨_, _, rfl⟩
      · exact answers
      · exact answers
  | unwound free fails unwinds moved =>
      cases fails with
      | code top outermost => exact answers
      | poisoned wakes poisoned => exact answers
      | published top found twice => exact answers
  | _ => exact answers

theorem run_answers {labels : List (Label Output)} {asked : List Instant}
    (answers : world.time.Answers asked)
    (ran : machine.run Machine.Any world labels = some next) :
    next.time.Answers (labels.foldl asks asked) := by
  induction labels generalizing world asked with
  | nil =>
      cases ran
      exact answers
  | cons label rest ih =>
      obtain ⟨_, middle, step, later⟩ := Machine.run_cons.mp ran
      exact ih ((stepped_of_step step).answers answers) later

/-- The executor blocks only with nothing to do, and never for too long: what is
registered is the deadline that the program gave last. -/
theorem blocks_without_work {labels : List (Label Output)}
    (ran : machine.run Machine.Any (initial clock os) labels = some world)
    (step : machine.step world label = some next) :
    (∀ root, next.executor.phase = .waiting root →
      world.executor.phase = .waiting root ∨
        world.executor.scheduling.ready = [] ∧
          world.executor.pendingSpawns = []) ∧
    (∀ timeout, next.wait = some timeout → world.wait ≠ some timeout →
      (∃ root, next.executor.phase = .waiting root) ∧
      next.executor.pendingSpawns = [] ∧
      (timeout = none ↔
        ∀ id, world.time.driver.registrations.lookup id = none) ∧
      (∀ duration, timeout = some duration →
        ∃ deadline, IsLeast world.time.driver.liveDeadlines deadline ∧
          duration = deadline - world.now)) ∧
    (world.time.registered < 2 ^ 64 →
      (∀ id registration,
        world.time.driver.registrations.lookup id = some registration →
        ∃ owner sleep, world.time.sleeps owner = some sleep ∧
          sleep.registration = some id ∧
          sleep.deadline = registration.deadline ∧
          (asked labels)[owner]? = some registration.deadline) ∧
      (∀ owner sleep id, world.time.sleeps owner = some sleep →
        sleep.registration = some id →
        TimerState.liveDeadline world.time.driver.registrations id =
            (asked labels)[owner]? ∨
          ∃ deadline, (asked labels)[owner]? = some deadline ∧
            deadline ≤ world.time.clock)) := by
  have reach := Machine.reach_of_run ran
  have stepped := stepped_of_step step
  have steady := run_steady reach
  have covered := run_covered reach
  refine ⟨?_, ?_, ?_⟩
  · intro root phase
    rcases stepped.takes with same | ⟨move, takes, moved⟩
    · exact Or.inl (same ▸ phase)
    · have after := Executor.moved_of_step moved
      rcases waiting_of_moved after phase with ⟨before, _⟩ | ⟨_, empty, same⟩
      · exact Or.inl before
      · right
        refine ⟨empty, ?_⟩
        rw [same]
        exact ((after.steady steady).entered.waiting root phase).2
  · intro timeout waits changed
    rcases wait_of_stepped stepped waits with
      same | ⟨_, same, root, time, deadline, phase, called, rfl⟩
    · exact absurd same changed
    · obtain ⟨unbounded, bounded⟩ := timeout_spec covered called world.now
      rw [same]
      exact ⟨⟨root, phase⟩, (steady.entered.waiting root phase).2, unbounded,
        bounded⟩
  · intro few
    have coupled := Timers.run_coupled (timers_reach reach) few (Timers.coupled_initial _)
    have answers : world.time.Answers (asked labels) :=
      run_answers (Timers.answers_initial _) ran
    refine ⟨?_, ?_⟩
    · intro id registration found
      obtain ⟨owner, sleep, present, held, same⟩ := coupled.owned id registration found
      exact ⟨owner, sleep, present, held, same, same ▸ answers.2 owner sleep present⟩
    · intro owner sleep id present held
      have given := answers.2 owner sleep present
      cases found : world.time.driver.registrations.lookup id with
      | none =>
          have past := coupled.elapsed owner sleep id present held found
          exact Or.inr ⟨sleep.deadline, given, past⟩
      | some registration =>
          obtain ⟨other, same, there, holds, agrees⟩ := coupled.owned id registration found
          cases coupled.heldOnce id owner other ⟨sleep, present, held⟩ ⟨same, there, holds⟩
          cases present.symm.trans there
          left
          rw [given, agrees]
          simp [TimerState.liveDeadline, found]

/-- The root has registered a sleep, moved it to a later deadline and returned. -/
def sleepingLabels : List (Label Nat) :=
  [.executor .blockOn, .executor .send, .drain, .executor .settle,
    .executor .tryRecv, .dispatch, .timer (.new 5), .timer (.poll 0 (.task 0) 0),
    .timer (.reset 0 9), .rootYield .pending, .tick 2, .drain, .executor .settle,
    .executor .tryRecv]

def sleeping : World Nat :=
  (machine.run Machine.Any (initial (Clock.new 0) 0) sleepingLabels).getD
    (initial (Clock.new 0) 0)

theorem blocks_without_work_sleeping :
    ∃ next, machine.step sleeping .plan = some next ∧
      next.wait = some (some 7) ∧ next.executor.pendingSpawns = [] ∧
      (∃ deadline, IsLeast sleeping.time.driver.liveDeadlines deadline ∧
        7 = deadline - sleeping.now) ∧
      ∃ owner : Nat, (asked sleepingLabels)[owner]? = some 9 := by
  have ran : machine.run Machine.Any (initial (Clock.new 0) 0) sleepingLabels =
    some sleeping := rfl
  have planned : machine.step sleeping .plan = some _ := rfl
  have unplanned : sleeping.wait = none := rfl
  obtain ⟨_, blocked, owned⟩ := blocks_without_work ran planned
  obtain ⟨_, pending, _, bounded⟩ :=
    blocked (some 7) rfl (by rw [unplanned]; exact nofun)
  obtain ⟨live, _⟩ := owned (by decide)
  obtain ⟨owner, _, _, _, _, given⟩ := live ⟨0⟩ ⟨9, .task 0⟩ rfl
  exact ⟨_, planned, rfl, pending, bounded 7 rfl, owner, given⟩

end World

end Asyncr
