import Asyncr.Executor.Coherent

namespace Asyncr

namespace Executor

open Scheduling

variable {executor next : Executor}

/-! Which schedule runs.  Coherence is all that is needed of the ids. -/

structure Polling (executor : Executor) : Prop where
  running : ∀ root id target, executor.phase = .polling root id target →
    ∃ notified, executor.scheduling.state target = .running notified
  unpoisoned : ∀ root id target, executor.phase = .polling root id target →
    (executor.scheduling.schedules target).poisoned = false
  only : ∀ schedule notified,
    executor.scheduling.state schedule = .running notified →
    (∃ root id, executor.phase = .polling root id schedule) ∨
      latestPollUnwound schedule executor.scheduling.log = true
  connected : executor.phase ≠ .dropped →
    executor.scheduling.connected = true

theorem polling_initial : initial.Polling where
  running := by
    intro root id target phase
    cases phase
  unpoisoned := by
    intro root id target phase
    cases phase
  only := by
    intro schedule notified running
    cases running
  connected := fun _ => rfl

theorem Polling.stepped (polling : executor.Polling) (coherent : executor.Coherent)
    {change : ScheduleStep} {scheduling : Scheduling} {phase : Phase}
    (stepped : executor.scheduling.step change = some scheduling)
    (unbegun : ∀ target, change ≠ .beginPoll target)
    (unfinished : ∀ target result, change ≠ .finishPoll target result)
    (attached : change ≠ .disconnect)
    (polled : ∀ root id target, phase = .polling root id target →
      executor.phase = .polling root id target)
    (stays : ∀ root id target, executor.phase = .polling root id target →
      phase = .polling root id target ∨ change = .unwind target)
    (alive : phase ≠ .dropped → executor.phase ≠ .dropped) :
    Polling { executor with scheduling := scheduling, phase := phase } where
  running := by
    intro root id target now
    obtain ⟨notified, running⟩ := polling.running root id target
      (polled root id target now)
    have transition := step_transition coherent.addressed.fresh stepped target
    rw [running] at transition
    exact transition.running fun result => unfinished target result
  unpoisoned := by
    intro root id target now
    apply step_unpoisoned stepped
      (polling.unpoisoned root id target (polled root id target now))
    · intro begins
      exact absurd begins (unbegun target)
    · intro result finishes
      exact absurd finishes (unfinished target result)
  only := by
    intro schedule notified running
    have transition := step_transition coherent.addressed.fresh stepped schedule
    change scheduling.state schedule = _ at running
    rw [running] at transition
    rcases transition.runs with ⟨earlier, before⟩ | begins
    · rcases polling.only schedule earlier before with
        ⟨root, id, current⟩ | unwound
      · rcases stays root id schedule current with same | unwinds
        · exact Or.inl ⟨root, id, same⟩
        · right
          subst unwinds
          change latestPollUnwound schedule scheduling.log = true
          simp only [Scheduling.step, Option.ite_none_right_eq_some,
            Option.some.injEq] at stepped
          obtain ⟨_, rfl⟩ := stepped
          simp [latestPollUnwound]
      · exact Or.inr (step_unwound stepped unwound (by simp [before]))
    · exact absurd begins (unbegun schedule)
  connected := by
    intro now
    change scheduling.connected = true
    rw [step_connected stepped attached]
    exact polling.connected (alive now)

theorem Polling.transfer (polling : executor.Polling)
    (scheduling : next.scheduling = executor.scheduling)
    (polled : ∀ root id target, next.phase = .polling root id target →
      executor.phase = .polling root id target)
    (stays : ∀ root id target, executor.phase = .polling root id target →
      next.phase = .polling root id target)
    (alive : next.phase ≠ .dropped → executor.phase ≠ .dropped) :
    next.Polling where
  running := by
    intro root id target now
    rw [scheduling]
    exact polling.running root id target (polled root id target now)
  unpoisoned := by
    intro root id target now
    rw [scheduling]
    exact polling.unpoisoned root id target (polled root id target now)
  only := by
    intro schedule notified running
    rw [scheduling] at running ⊢
    rcases polling.only schedule notified running with ⟨root, id, current⟩ | old
    · exact Or.inl ⟨root, id, stays root id schedule current⟩
    · exact Or.inr old
  connected := by
    intro now
    rw [scheduling]
    exact polling.connected (alive now)

theorem Polling.began (polling : executor.Polling) (coherent : executor.Coherent)
    {root target : Nat} {id : Id} {scheduling : Scheduling}
    (dispatching : executor.phase = .dispatching root)
    (begins : ((executor.scheduling.schedules target).beginPoll).2 = .ok ())
    (stepped : executor.scheduling.step (.beginPoll target) = some scheduling) :
    Polling { executor with
      scheduling := scheduling, phase := .polling root id target } := by
  obtain ⟨unpoisoned, queued⟩ := beginPoll_begun begins
  have elsewhere : ∀ schedule root id,
      executor.phase ≠ .polling root id schedule := by
    intro schedule root id other
    rw [dispatching] at other
    cases other
  refine ⟨?_, ?_, ?_, ?_⟩
  · intro _ _ _ now
    cases now
    obtain ⟨entry, _, _, rfl⟩ := step_beginPoll stepped
    refine ⟨false, ?_⟩
    rw [beginPoll_ok unpoisoned queued]
    exact (state_setSchedule _ _ _ _).trans (if_pos rfl)
  · intro _ _ _ now
    cases now
    apply step_unpoisoned stepped unpoisoned
    · intro _
      exact queued
    · intro _ same
      cases same
  · intro schedule notified running
    have transition := step_transition coherent.addressed.fresh stepped schedule
    change scheduling.state schedule = _ at running
    rw [running] at transition
    rcases transition.runs with ⟨earlier, before⟩ | same
    · rcases polling.only schedule earlier before with ⟨root, id, current⟩ | old
      · exact absurd current (elsewhere schedule root id)
      · exact Or.inr (step_unwound stepped old (by simp [before]))
    · cases same
      exact Or.inl ⟨root, id, rfl⟩
  · intro _
    change scheduling.connected = true
    rw [step_connected stepped (by simp)]
    exact polling.connected (by simp [dispatching])

theorem Polling.notBegun (polling : executor.Polling) {root target : Nat} {panic : Panic}
    {scheduling : Scheduling} (dispatching : executor.phase = .dispatching root)
    (fails : ((executor.scheduling.schedules target).beginPoll).2 = .error panic)
    (stepped : executor.scheduling.step (.beginPoll target) = some scheduling) :
    Polling { executor with
      scheduling := scheduling, phase := .unwinding } := by
  obtain ⟨log, states⟩ := step_notBegun fails stepped
  refine ⟨by simp, by simp, ?_, ?_⟩
  · intro schedule notified running
    have before := (states schedule).symm.trans running
    rcases polling.only schedule notified before with ⟨_, _, current⟩ | old
    · rw [dispatching] at current
      cases current
    · right
      change latestPollUnwound schedule scheduling.log = true
      rw [log]
      exact old
  · intro _
    change scheduling.connected = true
    rw [step_connected stepped (by simp)]
    exact polling.connected (by simp [dispatching])

theorem Polling.finished (polling : executor.Polling)
    (coherent : executor.Coherent) {root target : Nat} {id : Id}
    {result : Poll Unit} {scheduling : Scheduling} {phase : Phase} {tasks : Tasks}
    (polled : executor.phase = .polling root id target)
    (stepped : executor.scheduling.step (.finishPoll target result) =
      some scheduling)
    (concluded : ∀ root id target, phase ≠ .polling root id target) :
    Polling { executor with
      scheduling := scheduling, tasks := tasks, phase := phase } := by
  obtain ⟨notified, running⟩ := polling.running root id target polled
  have unpoisoned := polling.unpoisoned root id target polled
  refine ⟨?_, ?_, ?_, ?_⟩
  · intro root id target now
    exact absurd now (concluded root id target)
  · intro root id target now
    exact absurd now (concluded root id target)
  · intro schedule later runs
    have transition := step_transition coherent.addressed.fresh stepped schedule
    change scheduling.state schedule = _ at runs
    rw [runs] at transition
    have different : schedule ≠ target := by
      rintro rfl
      simp only [Scheduling.step, Option.ite_none_right_eq_some,
        Option.some.injEq] at stepped
      obtain ⟨_, rfl⟩ := stepped
      rw [finishPoll_running unpoisoned running] at runs
      have stopped := (state_setSchedule _ _ _ _).symm.trans runs
      rw [if_pos rfl] at stopped
      cases result with
      | ready => cases stopped
      | pending => cases notified <;> cases stopped
    rcases transition.runs with ⟨earlier, before⟩ | begins
    · rcases polling.only schedule earlier before with ⟨_, _, current⟩ | old
      · rw [polled] at current
        cases current
        exact absurd rfl different
      · exact Or.inr (step_unwound stepped old (by simp [before]))
    · cases begins
  · intro _
    change scheduling.connected = true
    rw [step_connected stepped (by simp)]
    exact polling.connected (by simp [polled])

theorem Moved.polling {move : Move} (moved : Moved executor move next)
    (coherent : executor.Coherent) (polling : executor.Polling) :
    next.Polling := by
  cases moved with
  | remoteWake change =>
      exact polling.stepped coherent change (by simp) (by simp) (by simp)
        (fun _ _ _ now => now) (fun _ _ _ now => Or.inl now) (fun now => now)
  | remoteSend change =>
      exact polling.stepped coherent change (by simp) (by simp) (by simp)
        (fun _ _ _ now => now) (fun _ _ _ now => Or.inl now) (fun now => now)
  | wake runs change =>
      exact polling.stepped coherent change (by simp) (by simp) (by simp)
        (fun _ _ _ now => now) (fun _ _ _ now => Or.inl now) (fun now => now)
  | send change =>
      exact polling.stepped coherent change (by simp) (by simp) (by simp)
        (fun _ _ _ now => now) (fun _ _ _ now => Or.inl now) (fun now => now)
  | refused runs closed => exact polling
  | submitted runs unclosed change =>
      have kept := polling.stepped coherent change (by simp) (by simp) (by simp)
        (fun _ _ _ now => now) (fun _ _ _ now => Or.inl now) (fun now => now)
      exact ⟨kept.running, kept.unpoisoned, kept.only, kept.connected⟩
  | blockOn outside change =>
      exact polling.stepped coherent change (by simp) (by simp) (by simp)
        (by simp) (by simp [outside]) (by simp [outside])
  | drain phase free =>
      exact polling.transfer rfl (by simp) (by simp [phase]) (by simp [phase])
  | settle phase free =>
      exact polling.transfer rfl (by simp) (by simp [phase]) (by simp [phase])
  | foundEmpty phase free empty =>
      exact polling.transfer rfl (by simp) (by simp [phase]) (by simp [phase])
  | tryReceived phase change =>
      exact polling.stepped coherent change (by simp) (by simp) (by simp)
        (by simp) (by simp [phase]) (by simp [phase])
  | received phase change =>
      exact polling.stepped coherent change (by simp) (by simp) (by simp)
        (by simp) (by simp [phase]) (by simp [phase])
  | retry phase =>
      exact polling.transfer rfl (by simp) (by simp [phase]) (by simp [phase])
  | notAdmitted phase taken missing change =>
      exact polling.stepped coherent change (by simp) (by simp) (by simp)
        (by simp) (by simp [phase]) (by simp [phase])
  | notBegun phase taken found fails change =>
      exact polling.notBegun phase fails change
  | began phase taken found begins change =>
      exact polling.began coherent phase begins change
  | notFinished phase fails change =>
      exact polling.finished coherent phase change (by simp)
  | suspended phase finishes change =>
      exact polling.finished coherent phase change (by simp)
  | rootReady phase finishes change =>
      exact polling.finished coherent phase change (by simp)
  | taskReady phase notRoot finishes change =>
      exact polling.finished coherent phase change (by simp)
  | pollPanicked phase change =>
      exact polling.stepped coherent change (by simp) (by simp) (by simp)
        (by simp) (by simp [phase]) (by simp [phase])
  | wakerPanicked phase free =>
      exact polling.transfer rfl (by simp) (by simp [phase]) (by simp [phase])
  | waitPanicked phase free =>
      exact polling.transfer rfl (by simp) (by simp [phase]) (by simp [phase])
  | leavingPanicked phase free =>
      exact polling.transfer rfl (by simp) (by simp [phase]) (by simp [phase])
  | clearingPanicked phase free unfailing =>
      exact polling.transfer rfl (by simp) (by simp [phase]) (by simp [phase])
  | tearingPanicked phase free unfailing =>
      exact polling.transfer rfl (by simp) (by simp [phase]) (by simp [phase])
  | droppedPanicked phase free =>
      exact polling.transfer rfl (by simp) (by simp [phase]) (by simp [phase])
  | unwound phase free =>
      exact polling.transfer rfl (by simp) (by simp [phase]) (by simp [phase])
  | left phase free =>
      exact polling.transfer rfl (by simp) (by simp [phase]) (by simp [phase])
  | closed phase free =>
      exact polling.transfer rfl (by simp) (by simp [phase]) (by simp [phase])
  | cleared phase free pending =>
      exact polling.transfer rfl (fun _ _ _ now => now) (fun _ _ _ now => now)
        (fun now => now)
  | torn phase free pending =>
      exact polling.transfer rfl (by simp) (by simp [phase]) (by simp [phase])
  | destroyed phase free member =>
      exact polling.transfer rfl (fun _ _ _ now => now) (fun _ _ _ now => now)
        (fun now => now)
  | released phase empty change | leaked phase change =>
      refine ⟨by simp, by simp, ?_, fun alive => absurd rfl alive⟩
      intro schedule notified running
      have transition :=
        step_transition coherent.addressed.fresh change schedule
      change _ = _ at running
      rw [running] at transition
      rcases transition.runs with ⟨earlier, before⟩ | begins
      · rcases polling.only schedule earlier before with ⟨_, _, current⟩ | old
        · rw [phase] at current
          cases current
        · exact Or.inr (step_unwound change old (by simp [before]))
      · cases begins

end Executor

end Asyncr
