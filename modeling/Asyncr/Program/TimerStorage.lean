import Asyncr.Program.ContextRuns
import Asyncr.Program.Furnished
import Asyncr.Time.Storage

namespace Asyncr

namespace World

open Library
open Time

variable {Output : Type} {world next start : World Output} {label : Label Output}
  {allowed : World Output → Label Output → Prop} {clock : Clock} {os : Instant}

/-! What the timer driver of a running program stores. -/

/-- The calls of the driver that a step makes. -/
def stepCalls (world : World Output) : Label Output → List (TimerCall Waker)
  | .timer call => world.time.driverCalls call
  | .drain => [.processExpired world.now]
  | .plan => [.nextDeadline]
  | _ => []

def driverCalls (world : World Output) : List (Label Output) → List (TimerCall Waker)
  | [] => []
  | label :: rest =>
      match world.step label with
      | some next => world.stepCalls label ++ next.driverCalls rest
      | none => []

theorem Stepped.driver (stepped : Stepped world label next) :
    next.time.driver = (world.time.driver.calls (world.stepCalls label)).1 := by
  cases stepped with
  | timer runs asked called => exact Timers.driver_of_call called
  | drained moved called => exact Timers.driver_of_call called
  | planned phase wait found running => exact Timers.driver_of_call found
  | jumped phase wait found paused advanced moved => exact Timers.driver_of_call found
  | stuck phase wait found paused failed moved => exact Timers.driver_of_call found
  | timed origin later =>
      rcases origin with ⟨reading, rfl, _⟩ | ⟨_, call, rfl⟩ <;> rfl
  | unwound free fails unwinds moved => cases fails <;> rfl
  | _ => rfl

theorem driver_of_run {labels : List (Label Output)}
    (ran : machine.run Machine.Any start labels = some world) :
    world.time.driver = (start.time.driver.calls (start.driverCalls labels)).1 := by
  induction labels generalizing start with
  | nil =>
      cases ran
      rfl
  | cons label rest ih =>
      obtain ⟨_, next, step, later⟩ := Machine.run_cons.mp ran
      have taken : start.step label = some next := step
      simp only [driverCalls, taken]
      rw [TimerState.calls_append, ← (stepped_of_step step).driver]
      exact ih later

/-- Nothing in the heap comes before every live timer. -/
def Trimmed (world : World Output) : Prop :=
  ∀ entry ∈ world.time.driver.deadlines.entries,
    ∃ current ∈ TimerState.liveEntries world.time.driver.registrations,
      current ≤ entry

theorem trimmed_of_nextDeadline {time : Timers Waker} {deadline : Option Instant}
    (found : world.time.call .nextDeadline = some (time, .deadline deadline))
    (same : next.time = time) : next.Trimmed := by
  cases found
  intro entry member
  rw [same] at member ⊢
  exact TimerState.behind_live_of_nextDeadline world.time.driver entry member

theorem Stepped.trimmed (stepped : Stepped world label next) (placed : world.Placed)
    (waits : world.Waits)
    (trimmed : ∀ timeout, world.wait = some timeout → world.Trimmed) :
    ∀ timeout, next.wait = some timeout → next.Trimmed := by
  intro timeout waiting
  cases stepped with
  | timer runs asked called =>
      obtain ⟨⟨root, phase⟩, _⟩ := waits timeout waiting
      rw [codeRuns_waiting placed phase] at runs
      cases runs
  | drained moved called =>
      obtain ⟨⟨root, phase⟩, _⟩ := waits timeout waiting
      cases Executor.moved_of_step moved with
      | drain starts => simp_all
  | planned phase wait found running => exact trimmed_of_nextDeadline found rfl
  | jumped phase wait found paused advanced moved
  | stuck phase wait found paused failed moved =>
      rw [show world.wait = some timeout from waiting] at wait
      cases wait
  | received held moved | timedOut held moved => cases waiting
  | _ => exact trimmed timeout waiting

theorem run_trimmed (reach : machine.Reach allowed (initial clock os) world) :
    world.Waits ∧ ∀ timeout, world.wait = some timeout → world.Trimmed := by
  induction reach with
  | refl =>
      refine ⟨?_, ?_⟩ <;>
        · intro timeout waiting
          cases waiting
  | step label before _ step ih =>
      have stepped := stepped_of_step step
      have placed := run_placed before
      exact ⟨stepped.waits placed (run_covered before) ih.1,
        stepped.trimmed placed ih.1 ih.2⟩

/-- The heap of the timer driver holds exactly one entry for each live timer, and those
of timers cancelled or moved before their old deadline was processed.  Its loops take
no more turns than entries were pushed.  When the runtime blocks, nothing is kept in
front of the live timers, and nothing at all if there are none. -/
theorem timer_storage {labels : List (Label Output)}
    (ran : machine.run Machine.Any (initial clock os) labels = some world) :
    world.time.driver = (TimerState.initial.calls
        ((initial clock os).driverCalls labels)).1 ∧
      world.time.driver.deadlines.entries.Perm
        (TimerState.liveEntries world.time.driver.registrations ++
          TimerState.initial.superseded ((initial clock os).driverCalls labels) []) ∧
      TimerState.initial.popped ((initial clock os).driverCalls labels) +
          world.time.driver.deadlines.entries.length =
        TimerState.initial.pushed ((initial clock os).driverCalls labels) ∧
      ∀ timeout, world.wait = some timeout →
        (∀ entry ∈ world.time.driver.deadlines.entries,
          ∃ current ∈ TimerState.liveEntries world.time.driver.registrations,
            current ≤ entry) ∧
        (timeout = none → world.time.driver.deadlines.entries = []) := by
  have driver : world.time.driver = (TimerState.initial.calls
      ((initial clock os).driverCalls labels)).1 := driver_of_run ran
  obtain ⟨waits, trimmed⟩ := run_trimmed (Machine.reach_of_run ran)
  have stores := TimerState.stores_initial.calls ((initial clock os).driverCalls labels)
  have counted := TimerState.popped_add_length ((initial clock os).driverCalls labels)
    TimerState.initial
  rw [← driver] at stores counted
  refine ⟨driver, stores.perm, ?_, ?_⟩
  · exact counted.trans (Nat.zero_add _)
  · intro timeout waiting
    have front := trimmed timeout waiting
    refine ⟨front, fun unbounded => ?_⟩
    refine List.eq_nil_iff_forall_not_mem.mpr fun entry member => ?_
    obtain ⟨current, isLive, _⟩ := front entry member
    have present := (TimerState.mem_liveEntries _ _).mp isLive
    simp [LazyQueue.Current, TimerState.liveDeadline,
      (waits timeout waiting).2 unbounded] at present

/-- Planning the wait drops the entry of a deadline that the root has moved. -/
theorem timer_storage_moved :
    (TimerState.initial.superseded ((initial (Clock.new 0) 0).driverCalls
        sleepingLabels) []) = [toLex (5, ⟨0⟩)] ∧
      ∃ blocked : World Nat,
        machine.run Machine.Any (initial (Clock.new 0) 0) (sleepingLabels ++ [.plan]) =
          some blocked ∧
        TimerState.initial.popped ((initial (Clock.new 0) 0).driverCalls
          (sleepingLabels ++ [.plan])) = 1 ∧
        1 + blocked.time.driver.deadlines.entries.length = 2 ∧
        ∀ entry ∈ blocked.time.driver.deadlines.entries,
          ∃ current ∈ TimerState.liveEntries blocked.time.driver.registrations,
            current ≤ entry := by
  have ran : machine.run Machine.Any (initial (Clock.new 0) 0)
    (sleepingLabels ++ [.plan]) = some _ := rfl
  obtain ⟨_, _, counted, trimmed⟩ := timer_storage ran
  exact ⟨by decide, _, ran, by decide, counted, (trimmed (some 7) rfl).1⟩

end World

end Asyncr
