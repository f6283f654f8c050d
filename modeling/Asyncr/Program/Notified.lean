import Asyncr.Executor.Turns
import Asyncr.Program.History
import Asyncr.Program.Service

namespace Asyncr

def Frame.wakes? {Output : Type} : Frame Output → Option Nat
  | .fire (.task schedule) | .wake _ (.task schedule) => some schedule
  | .fire (.custom _) | .wake _ (.custom _) | .running _ | .call _ | .publish _ _
  | .release _ | .grant _ => none

namespace World

open Library
open Time
open Scheduling

variable {Output : Type} {world next before middle after : World Output}
  {label : Label Output} {clock : Clock} {os : Instant} {frame : Frame Output}
  {target : Nat}

/-! A task whose timer has expired, or whose join was published, gets its turn. -/

theorem Wakes.announced {stack rest : List (Frame Output)} {waker : Waker}
    {event : ProgramEvent Output} (wakes : Wakes stack waker rest event)
    (member : frame ∈ stack) (announced : frame.wakes? = some target) :
    waker = .task target ∨ frame ∈ rest := by
  cases wakes with
  | fire | wake =>
      rcases List.mem_cons.mp member with rfl | below
      · left
        unfold Frame.wakes? at announced
        split at announced <;> simp_all
      · exact Or.inr below

theorem Stepped.wakes_on (stepped : Stepped world label next) (placed : world.Placed)
    (calm : next.executor.phase ≠ .unwinding)
    (opened : world.executor.phase.closing = false) (member : frame ∈ world.stack)
    (announced : frame.wakes? = some target) :
    frame ∈ next.stack ∨
      world.executor.step (.wake target) = some next.executor := by
  have busy : world.executor.phase.idle = false := by
    cases idle : world.executor.phase.idle with
    | false => rfl
    | true =>
        rw [placed idle] at member
        cases member
  have below : ∀ {top : Frame Output} {rest : List (Frame Output)},
      world.stack = top :: rest → top.wakes? = none → frame ∈ rest := by
    intro top rest stack silent
    rw [stack] at member
    refine (List.mem_cons.mp member).resolve_left ?_
    rintro rfl
    rw [silent] at announced
    cases announced
  have alone : ∀ {top : Frame Output}, world.stack = [top] → top.wakes? = none →
      False := by
    intro top stack silent
    cases below stack silent
  cases stepped with
  | refused runs closed => exact Or.inl (by simp [member])
  | unwound free fails unwinds step =>
      exact absurd (unwinding_of_panic step opened) calm
  | codeReturned free stack notRoot notInner => exact Or.inl (below stack rfl)
  | called free stack => exact Or.inl (List.mem_cons_of_mem _ (below stack rfl))
  | wokeCode free wakes =>
      rcases wakes.announced member announced with other | rest
      · cases other
      · exact Or.inl (List.mem_cons_of_mem _ rest)
  | wokeTask free wakes unpoisoned step =>
      rcases wakes.announced member announced with same | rest
      · cases same
        exact Or.inr step
      · exact Or.inl rest
  | published free stack found pending =>
      left
      exact List.mem_append_right _ (List.mem_cons_of_mem _ (below stack rfl))
  | released free stack found front =>
      exact Or.inl (List.mem_append_right _ (below stack rfl))
  | granted free stack found => exact Or.inl (below stack rfl)
  | stuck phase wait found paused failed step =>
      rw [phase] at busy
      cases busy
  | drained step _ | began step _ | notBegun step _ =>
      rw [Executor.idle_of_loop step rfl] at busy
      cases busy
  | suspended _ stack _ | returned _ stack | rootYielded _ stack _
  | caught _ stack => exact (alone stack rfl).elim
  | finished _ _ _ stack _ | cleared stack _ _ | destroyed stack _ _ =>
      rw [stack] at member
      cases member
  | moved _ _ | timed _ _ | timer _ _ _ | spawned _ _ _ | rejected
  | awaited _ _ _ _ _ | yielded _ _ _ _ | dropped _ _ _ | planned _ _ _ _
  | jumped _ _ _ _ _ _ | received _ _ | timedOut _ _ => exact Or.inl member

theorem opened_back {allowed : World Output → Label Output → Prop}
    (reach : machine.Reach allowed (initial clock os) world)
    (may : allowed world label) (step : machine.step world label = some next)
    (opened : next.executor.phase.closing = false) :
    world.executor.phase.closing = false := by
  have later := (run_steady (.step label reach may step)).closing.trans opened
  by_contra closing
  have closed := (run_steady reach).closing.trans (Bool.of_not_eq_false closing)
  rw [(stepped_of_step step).closed_stays closed] at later
  cases later

theorem run_wakes (reach : machine.Reach Returns (initial clock os) before)
    (onward : machine.Reach Returns before after)
    (opened : after.executor.phase.closing = false) (member : frame ∈ before.stack)
    (announced : frame.wakes? = some target) :
    frame ∈ after.stack ∨ ∃ middle woken : World Output,
      machine.Reach Returns before middle ∧
      middle.executor.step (.wake target) = some woken.executor ∧
      machine.Reach Returns woken after := by
  induction onward with
  | refl => exact Or.inl member
  | @step middle woken label onward returns step ih =>
      have still := opened_back (reach.trans onward) returns step opened
      rcases ih still with present | ⟨earlier, woken, first, wakes, second⟩
      · have placed := run_placed (reach.trans onward)
        rcases (stepped_of_step step).wakes_on placed (returns.phase step) still
            present announced with stays | wakes
        · exact Or.inl stays
        · exact Or.inr ⟨middle, woken, onward, wakes, .refl⟩
      · exact Or.inr ⟨earlier, woken, first, wakes, .step label second returns step⟩

/-- A step that leaves a task to be woken: `process_expired` finds its timer expired,
or a result is published that it waits for. -/
inductive Notifies (before : World Output) : Label Output → World Output → Nat → Prop
  | expired {next : World Output} {id : TimerId} {registration : TimerRegistration Waker}
      {target : Nat} :
      before.time.driver.registrations.lookup id = some registration →
      registration.deadline ≤ before.now → registration.waker = .task target →
      Notifies before .drain next target
  | published {label : Label Output} {next : World Output} {join : JoinRef}
      {result : Except JoinError Output} {target : Nat} :
      next.log = .published join result (some (.task target)) :: before.log →
      Notifies before label next target

theorem Notifies.announced (reach : machine.Reach Returns (initial clock os) before)
    (step : machine.step before label = some next)
    (notifies : Notifies before label next target) :
    ∃ frame ∈ next.stack, frame.wakes? = some target := by
  have stepped := stepped_of_step step
  cases notifies with
  | @expired _ id registration _ live due waker =>
      cases stepped with
      | @drained executor time wakers moved called =>
          have expired : (id, registration) ∈ before.time.driver.expired before.now :=
            (TimerState.mem_expired (run_covered reach) _ id registration).mpr
              ⟨live, due⟩
          obtain ⟨_, replied⟩ := fired_of_processExpired called
          cases replied
          refine ⟨.fire registration.waker, ?_, by rw [waker]; rfl⟩
          exact List.mem_map_of_mem (List.mem_map_of_mem
            (f := fun removed => removed.2.waker) expired)
      | timed cause later =>
          rcases cause with ⟨_, other, _⟩ | ⟨_, _, other⟩ <;> cases other
      | unwound free fails unwinds step => cases fails
  | @published _ _ join result _ log =>
      rcases stepped.logged with same | ⟨event, grown, logged⟩
      · exact absurd (same.symm.trans log) (List.cons_ne_self _ _).symm
      · obtain rfl := (List.cons.inj (grown.symm.trans log)).1
        cases logged with
        | published stack found pending executor joins pushed =>
            refine ⟨.wake join (.task target), ?_, rfl⟩
            rw [pushed]
            exact List.mem_cons_self
        | woke wakes joins =>
            rcases wakes.event with other | ⟨_, other⟩ <;> cases other

/-- A task that is notified, and has not been polled since, has its entry in the
channel when the loop looks there, but for one that another thread has yet to send; and
until its poll only the tasks in front of it are polled, each of them once. -/
theorem notified_served {root : Nat} {events : List ScheduleEvent}
    (reach : machine.Reach Returns (initial clock os) before)
    (returns : before.Returns label) (step : machine.step before label = some next)
    (notifies : Notifies before label next target)
    (onward : machine.Reach Returns next middle)
    (few : middle.executor.spawned < 2 ^ 64 - 1)
    (phase : middle.executor.phase = .receiving root)
    (log : middle.executor.scheduling.log =
      events ++ before.executor.scheduling.log)
    (unpolled : target ∉ (polled events).map ReadyEntry.sender) :
    (middle.executor.scheduling.state target = .complete ∨
      target ∈ middle.executor.scheduling.sending ∨
      target ∈ middle.executor.scheduling.ready.map ReadyEntry.sender) ∧
    ∀ later more, target ∈ middle.executor.scheduling.ready.map ReadyEntry.sender →
      machine.Reach Returns middle later →
      later.executor.spawned < 2 ^ 64 - 1 → later.executor.phase ≠ .dropped →
      later.executor.scheduling.log = more ++ middle.executor.scheduling.log →
      target ∉ (polled more).map ReadyEntry.sender →
      (polled more).map ReadyEntry.sender <+:
          (middle.executor.scheduling.ready.map ReadyEntry.sender).takeWhile
            (· ≠ target) ∧
        ((polled more).map ReadyEntry.sender).Nodup := by
  have notified := reach.trans (.single label returns step)
  have whole := returning_reach (notified.trans onward)
  refine ⟨?_, ?_⟩
  · obtain ⟨frame, member, announced⟩ := notifies.announced reach step
    have settled : middle.stack = [] :=
      run_placed (notified.trans onward) (by rw [phase]; rfl)
    rcases run_wakes notified onward (by rw [phase]; rfl) member announced with
      waiting | ⟨waking, woken, first, wakes, second⟩
    · rw [settled] at waiting
      cases waiting
    · have earlier := returning_reach
        ((Machine.Reach.single label returns step).trans first)
      have accepted : waking.executor.Returns (.wake target) := rfl
      have between := earlier.trans (.single _ accepted wakes)
      obtain ⟨prior, grown⟩ := Executor.run_log_grows between
      obtain ⟨since, added⟩ := Executor.run_log_grows (returning_reach second)
      have split : events = since ++ prior := by
        rw [added, grown, ← List.append_assoc] at log
        exact (List.append_cancel_right log).symm
      refine Executor.wake_enters (returning_reach (notified.trans first)) wakes
        (returning_reach second) few phase added ?_
      intro member
      apply unpolled
      rw [split, polled_append, List.map_append]
      exact List.mem_append_right _ member
  · intro later more member further fewer alive grown unserved
    exact Executor.waits_in_turn whole phase member (returning_reach further) fewer
      alive grown unserved

/-- The root spawns a task and sleeps; its timer expires behind the task. -/
def dozingLabels : List (Label Nat) :=
  [.executor .blockOn, .executor .send, .drain, .executor .settle,
    .executor .tryRecv, .dispatch, .spawn, .executor .send, .timer (.new 5),
    .timer (.poll 0 (.task 0) 0), .rootYield .pending, .tick 7]

def dozing : World Nat :=
  (machine.run Returns (initial (Clock.new 0) 0) dozingLabels).getD
    (initial (Clock.new 0) 0)

def overdue : World Nat :=
  (machine.step dozing .drain).getD dozing

def overdueLabels : List (Label Nat) :=
  [.proceed, .executor .send, .executor .settle]

def requeued : World Nat :=
  (machine.run Returns overdue overdueLabels).getD overdue

theorem notified_served_dozing :
    0 ∈ requeued.executor.scheduling.ready.map ReadyEntry.sender ∧
    ∀ later more, machine.Reach Returns requeued later →
      later.executor.spawned < 2 ^ 64 - 1 → later.executor.phase ≠ .dropped →
      later.executor.scheduling.log = more ++ requeued.executor.scheduling.log →
      0 ∉ (polled more).map ReadyEntry.sender →
      (polled more).map ReadyEntry.sender <+: [1] := by
  have ran : machine.run Returns (initial (Clock.new 0) 0) dozingLabels =
    some dozing := rfl
  have expires : machine.step dozing .drain = some overdue := rfl
  have onward : machine.run Returns overdue overdueLabels = some requeued := rfl
  have notifies : Notifies dozing .drain overdue 0 :=
    .expired (show dozing.time.driver.registrations.lookup ⟨0⟩ =
      some ⟨5, .task 0⟩ from rfl)
      (by decide) rfl
  have log : requeued.executor.scheduling.log =
    [.sent ⟨rootTaskId, 0⟩, .woken 0] ++ dozing.executor.scheduling.log := rfl
  have phase : requeued.executor.phase = .receiving 0 := rfl
  obtain ⟨entered, waits⟩ := notified_served (Machine.reach_of_run ran) (by decide)
    expires notifies (Machine.reach_of_run onward) (by decide) phase log (by decide)
  have member : 0 ∈ requeued.executor.scheduling.ready.map ReadyEntry.sender := by
    rcases entered with complete | sending | ready
    · exact absurd complete (by decide)
    · exact absurd sending (by decide)
    · exact ready
  refine ⟨member, ?_⟩
  intro later more further few alive grown unserved
  exact (waits later more member further few alive grown unserved).1

end World

end Asyncr
