import Asyncr.Executor.Queueing
import Asyncr.Executor.Unfinished

namespace Asyncr

open Library

namespace Scheduling

variable {scheduling next : Scheduling} {work : WorkQueue Nat}

theorem Represents.senders (represents : scheduling.Represents work)
    (untaken : scheduling.taken = none) :
    work.queue = scheduling.ready.map ReadyEntry.sender := by
  rw [represents.queue, untaken]
  rfl

/-- The schedules polled since, in their order, are what the queue has served. -/
theorem Represents.serves {later : WorkQueue Nat}
    (represents : scheduling.Represents work)
    (present : next.Represents later) {events : List ScheduleEvent}
    (log : next.log = events ++ scheduling.log) :
    later.served = work.served ++ (polled events).map ReadyEntry.sender := by
  rw [present.served, represents.served, log, polled_append, List.map_append]

theorem step_log_grows {change : ScheduleStep}
    (stepped : scheduling.step change = some next) :
    ∃ events, next.log = events ++ scheduling.log := by
  rcases step_log stepped with same | ⟨_, same⟩ | ⟨_, same⟩ |
    ⟨_, _, _, _, _, same⟩ | ⟨_, _, same⟩
  · exact ⟨[], same⟩
  all_goals exact ⟨[_], same⟩

end Scheduling

namespace Executor

open Scheduling

variable {executor next before woken middle after : Executor}

/-! A schedule that is woken gets its turn at the channel. -/

theorem Returns.unpanicked {move : Move} (returns : executor.Returns move) {root : Nat}
    {id : Id} {schedule : Nat} (phase : executor.phase = .polling root id schedule) :
    move ≠ .panic := by
  rintro rfl
  simp [Returns, Executor.returns, phase, Phase.closing] at returns

theorem run_unwoundless (reach : machine.Reach Returns initial executor)
    (schedule : Nat) : latestPollUnwound schedule executor.scheduling.log = false := by
  induction reach with
  | refl => rfl
  | step move _ returns step ih =>
      by_contra unwound
      rcases (moved_of_step step).unwinds (eq_true_of_ne_false unwound) with
        before | ⟨panics, _, _, phase⟩
      · rw [ih] at before
        cases before
      · exact returns.unpanicked phase panics

/-- What is asked for is in the channel, but for what another thread has yet to send. -/
theorem Kept.asked (kept : executor.Kept) (alive : executor.phase ≠ .dropped)
    (free : executor.scheduling.own = none) (untaken : executor.scheduling.taken = none)
    {target : Nat} (queued : executor.scheduling.state target = .queued) :
    target ∈ executor.scheduling.sending ∨
      target ∈ executor.scheduling.ready.map ReadyEntry.sender := by
  have count := (kept.balanced alive target).count
  rw [count_inFlight, if_pos queued, free, untaken] at count
  by_contra absent
  rw [not_or, ← List.count_eq_zero, ← List.count_eq_zero] at absent
  simp only [Option.toList_none, List.map_nil, List.count_nil] at count
  omega

theorem run_living {allowed : Executor → Move → Prop}
    (onward : machine.Reach allowed before after) (alive : after.phase ≠ .dropped) :
    before.phase ≠ .dropped := by
  induction onward with
  | refl => exact alive
  | step move _ _ step ih =>
      exact ih fun dropped => alive ((moved_of_step step).dropped dropped)

theorem run_log_grows {allowed : Executor → Move → Prop}
    (onward : machine.Reach allowed before after) :
    ∃ events, after.scheduling.log = events ++ before.scheduling.log := by
  induction onward with
  | refl => exact ⟨[], rfl⟩
  | step move _ _ step ih =>
      obtain ⟨events, log⟩ := ih
      rcases (moved_of_step step).change with same | ⟨_, _, stepped⟩
      · exact ⟨events, same ▸ log⟩
      · obtain ⟨newer, grown⟩ := step_log_grows stepped
        exact ⟨newer ++ events, by rw [grown, log, List.append_assoc]⟩

/-- Once woken, and not polled since, a schedule is in the channel whenever the loop
looks there. -/
theorem wake_enters {target root : Nat} {events : List ScheduleEvent}
    (reach : machine.Reach Returns initial before)
    (step : machine.step before (.wake target) = some woken)
    (onward : machine.Reach Returns woken after) (few : after.spawned < 2 ^ 64 - 1)
    (phase : after.phase = .receiving root)
    (log : after.scheduling.log = events ++ woken.scheduling.log)
    (unpolled : target ∉ (polled events).map ReadyEntry.sender) :
    after.scheduling.state target = .complete ∨ target ∈ after.scheduling.sending ∨
      target ∈ after.scheduling.ready.map ReadyEntry.sender := by
  have wakes : before.Returns (.wake target) := rfl
  have moved : Moved before (.wake target) woken := moved_of_step step
  have alive : after.phase ≠ .dropped := by simp [phase]
  have living := run_living onward alive
  have second := onward.weaken fun _ _ => Returns.rootEnds
  have fewer := Nat.lt_of_le_of_lt (run_spawned_le onward) few
  have fewest := Nat.lt_of_le_of_lt moved.spawned_le fewer
  have first := reach.weaken fun _ _ => Returns.rootEnds
  obtain ⟨work, represents, _⟩ := run_queues sound_initial kept_initial first fewest
    represents_initial fun dropped => living (moved.dropped dropped)
  obtain ⟨sound, kept⟩ := run_kept first fewest
  obtain ⟨asked, follows, now⟩ :=
    moved.queues sound kept wakes.rootEnds living represents
  obtain rfl : work.ask target = asked := Option.some.inj follows
  have soundly := moved.sound sound fewer
  obtain ⟨later, present, served⟩ := run_queues soundly
    (kept.step sound wakes.rootEnds moved) second few now alive
  have due := WorkQueue.due_stays served (now.serves present log) unpolled
    (WorkQueue.due_ask work target)
  have whole := (reach.trans (.single _ wakes step)).trans onward
  obtain ⟨finalSound, finalKept⟩ :=
    run_kept (whole.weaken fun _ _ => Returns.rootEnds) few
  rw [WorkQueue.Due, present.status target] at due
  cases state : after.scheduling.state target with
  | idle =>
      rw [state] at due
      rcases due with owed | retired
      · cases owed
      · cases retired
  | queued =>
      exact Or.inr (finalKept.asked alive (finalSound.entered.receiving root phase)
        (finalSound.coherent.taken.resolve_left (by simp [phase])) state)
  | running notified =>
      rcases finalSound.polling.only target notified state with
        ⟨_, _, polling⟩ | unwound
      · rw [phase] at polling
        cases polling
      · rw [run_unwoundless whole target] at unwound
        cases unwound
  | complete => exact Or.inl rfl

/-- Until it is polled, only what is in front of it in the channel is. -/
theorem waits_in_turn {target root : Nat} {events : List ScheduleEvent}
    (reach : machine.Reach Returns initial before)
    (phase : before.phase = .receiving root)
    (member : target ∈ before.scheduling.ready.map ReadyEntry.sender)
    (onward : machine.Reach Returns before after) (few : after.spawned < 2 ^ 64 - 1)
    (alive : after.phase ≠ .dropped)
    (log : after.scheduling.log = events ++ before.scheduling.log)
    (unpolled : target ∉ (polled events).map ReadyEntry.sender) :
    (polled events).map ReadyEntry.sender <+:
        (before.scheduling.ready.map ReadyEntry.sender).takeWhile (· ≠ target) ∧
      ((polled events).map ReadyEntry.sender).Nodup := by
  have first := reach.weaken fun _ _ => Returns.rootEnds
  have fewer := Nat.lt_of_le_of_lt (run_spawned_le onward) few
  obtain ⟨sound, kept⟩ := run_kept first fewer
  obtain ⟨work, represents, _⟩ := run_queues sound_initial kept_initial first fewer
    represents_initial (by simp [phase])
  obtain ⟨later, present, served⟩ := run_queues sound kept
    (onward.weaken fun _ _ => Returns.rootEnds) few represents alive
  have channel := represents.senders (sound.coherent.taken.resolve_left (by simp [phase]))
  rw [← channel] at member ⊢
  exact WorkQueue.waits served (represents.serves present log) member unpolled

end Executor

end Asyncr
