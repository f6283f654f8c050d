import Asyncr.Executor.Polling

namespace Asyncr

namespace Executor

open Scheduling

variable {executor next : Executor}

/-! Spawns made since the last `drain_pending_spawns` of the iteration. -/

/-- What is spawned while `process_expired` wakes is in the channel, or about to
be, when the executor looks there. -/
structure Entered (executor : Executor) : Prop where
  entered : ∀ root, executor.phase = .expiring root ∨
      executor.phase = .receiving root →
    ∀ task ∈ executor.pendingSpawns,
      executor.scheduling.own = some task.schedule ∨
        task.schedule ∈ executor.scheduling.ready.map ReadyEntry.sender
  receiving : ∀ root, executor.phase = .receiving root →
    executor.scheduling.own = none
  waiting : ∀ root, executor.phase = .waiting root →
    executor.scheduling.own = none ∧ executor.pendingSpawns = []

theorem entered_initial : initial.Entered where
  entered := by
    intro root phase
    rcases phase with phase | phase <;> cases phase
  receiving := by
    intro root phase
    cases phase
  waiting := by
    intro root phase
    cases phase

theorem Entered.elsewhere
    (unexpiring : ∀ root, next.phase ≠ .expiring root)
    (unreceiving : ∀ root, next.phase ≠ .receiving root)
    (unwaiting : ∀ root, next.phase ≠ .waiting root) : next.Entered where
  entered := by
    intro root phase
    rcases phase with phase | phase
    · exact absurd phase (unexpiring root)
    · exact absurd phase (unreceiving root)
  receiving := fun root phase => absurd phase (unreceiving root)
  waiting := fun root phase => absurd phase (unwaiting root)

theorem Entered.remote (entered : executor.Entered) {scheduling : Scheduling}
    (own : scheduling.own = executor.scheduling.own)
    (grows : ∀ schedule ∈ executor.scheduling.ready.map ReadyEntry.sender,
      schedule ∈ scheduling.ready.map ReadyEntry.sender) :
    Entered { executor with scheduling := scheduling } where
  entered := by
    intro root phase task member
    change scheduling.own = _ ∨ _
    rw [own]
    exact (entered.entered root phase task member).imp_right (grows _)
  receiving := by
    intro root phase
    exact own.trans (entered.receiving root phase)
  waiting := by
    intro root phase
    exact ⟨own.trans (entered.waiting root phase).1,
      (entered.waiting root phase).2⟩

theorem Entered.code (entered : executor.Entered)
    (runs : executor.phase.runsCode = true) {scheduling : Scheduling}
    {pending : List LocalTask} {nextId : UInt64} {spawned : Nat}
    (kept : ∀ task ∈ pending,
      task ∈ executor.pendingSpawns ∧
          (executor.scheduling.own = some task.schedule →
            scheduling.own = some task.schedule ∨
              task.schedule ∈ scheduling.ready.map ReadyEntry.sender) ∨
        scheduling.own = some task.schedule)
    (grows : ∀ schedule ∈ executor.scheduling.ready.map ReadyEntry.sender,
      schedule ∈ scheduling.ready.map ReadyEntry.sender) :
    Entered { executor with
      scheduling := scheduling
      pendingSpawns := pending
      nextId := nextId
      spawned := spawned } where
  entered := by
    intro root phase task member
    rcases kept task member with ⟨before, moved⟩ | now
    · rcases entered.entered root phase task before with own | sent
      · exact moved own
      · exact Or.inr (grows _ sent)
    · exact Or.inl now
  receiving := by
    intro root phase
    rw [phase] at runs
    cases runs
  waiting := by
    intro root phase
    rw [phase] at runs
    cases runs

theorem mem_ready_of_step {scheduling after : Scheduling} {change : ScheduleStep}
    (stepped : scheduling.step change = some after)
    (unreceived : change ≠ .receive) (attached : change ≠ .disconnect) :
    ∀ schedule ∈ scheduling.ready.map ReadyEntry.sender,
      schedule ∈ after.ready.map ReadyEntry.sender := by
  intro schedule member
  rcases step_ready stepped unreceived attached with same | ⟨_, grown, _⟩
  · rw [same]
    exact member
  · rw [grown, List.map_append]
    exact List.mem_append_left _ member

theorem Moved.entered {move : Move} (moved : Moved executor move next)
    (polling : executor.Polling) (entered : executor.Entered) :
    next.Entered := by
  cases moved with
  | remoteWake change =>
      exact entered.remote (step_remote_own (Or.inl rfl) change)
        (mem_ready_of_step change (by simp) (by simp))
  | remoteSend change =>
      exact entered.remote (step_remote_own (Or.inr rfl) change)
        (mem_ready_of_step change (by simp) (by simp))
  | wake runs change =>
      apply entered.code runs _ (mem_ready_of_step change (by simp) (by simp))
      intro task member
      left
      refine ⟨member, ?_⟩
      intro own
      rw [step_wake_own change] at own
      cases own
  | send change =>
      have notFree : executor.scheduling.own ≠ none := by
        intro none
        simp [Scheduling.step, none] at change
      refine ⟨?_, ?_, ?_⟩
      · intro root phase task member
        have alive : executor.phase ≠ .dropped := by
          rcases phase with phase | phase <;> simp_all
        obtain ⟨schedule, own, _, ready⟩ :=
          step_send (polling.connected alive) change
        right
        simp only [ready, List.map_append, List.mem_append]
        rcases entered.entered root phase task member with isOwn | sent
        · right
          obtain rfl := Option.some.inj (own.symm.trans isOwn)
          exact List.mem_singleton.mpr rfl
        · exact Or.inl sent
      · intro root phase
        exact absurd (entered.receiving root phase) notFree
      · intro root phase
        exact absurd (entered.waiting root phase).1 notFree
  | refused runs closed => exact entered
  | submitted runs unclosed change =>
      have created := step_create change
      apply entered.code runs _ (mem_ready_of_step change (by simp) (by simp))
      intro task member
      rcases List.mem_append.mp member with before | last
      · left
        refine ⟨before, ?_⟩
        intro own
        simp only [Scheduling.step, Option.ite_none_right_eq_some] at change
        rw [change.1] at own
        cases own
      · right
        obtain rfl := List.mem_singleton.mp last
        rw [created]
  | blockOn outside change => exact Entered.elsewhere (by simp) (by simp) (by simp)
  | drain phase free =>
      refine ⟨?_, by simp, by simp⟩
      intro root _ task member
      cases member
  | @settle root phase free =>
      refine ⟨?_, fun _ _ => free, by simp⟩
      intro _ _ task member
      exact entered.entered root (Or.inl phase) task member
  | @foundEmpty root phase free empty =>
      refine ⟨by simp, by simp, ?_⟩
      intro _ _
      refine ⟨free, ?_⟩
      rw [List.eq_nil_iff_forall_not_mem]
      intro task member
      rcases entered.entered root (Or.inr phase) task member with own | sent
      · rw [free] at own
        cases own
      · rw [empty] at sent
        cases sent
  | tryReceived phase change =>
      exact Entered.elsewhere (by simp) (by simp) (by simp)
  | received phase change => exact Entered.elsewhere (by simp) (by simp) (by simp)
  | retry phase => exact Entered.elsewhere (by simp) (by simp) (by simp)
  | notAdmitted phase taken missing change =>
      exact Entered.elsewhere (by simp) (by simp) (by simp)
  | notBegun phase taken found fails change =>
      exact Entered.elsewhere (by simp) (by simp) (by simp)
  | began phase taken found begun change =>
      exact Entered.elsewhere (by simp) (by simp) (by simp)
  | notFinished phase fails change =>
      exact Entered.elsewhere (by simp) (by simp) (by simp)
  | suspended phase finishes change =>
      exact Entered.elsewhere (by simp) (by simp) (by simp)
  | rootReady phase finishes change =>
      exact Entered.elsewhere (by simp) (by simp) (by simp)
  | taskReady phase notRoot finishes change =>
      exact Entered.elsewhere (by simp) (by simp) (by simp)
  | pollPanicked phase change =>
      exact Entered.elsewhere (by simp) (by simp) (by simp)
  | wakerPanicked phase free =>
      exact Entered.elsewhere (by simp) (by simp) (by simp)
  | waitPanicked phase free =>
      exact Entered.elsewhere (by simp) (by simp) (by simp)
  | leavingPanicked phase free =>
      exact Entered.elsewhere (by simp) (by simp) (by simp)
  | clearingPanicked phase free unfailing =>
      exact Entered.elsewhere (by simp) (by simp) (by simp)
  | tearingPanicked phase free unfailing =>
      exact Entered.elsewhere (by simp) (by simp) (by simp)
  | droppedPanicked phase free =>
      exact Entered.elsewhere (by simp) (by simp) (by simp)
  | unwound phase free => exact Entered.elsewhere (by simp) (by simp) (by simp)
  | left phase free => exact Entered.elsewhere (by simp) (by simp) (by simp)
  | closed phase free => exact Entered.elsewhere (by simp) (by simp) (by simp)
  | cleared phase free pending =>
      exact Entered.elsewhere (by simp [phase]) (by simp [phase]) (by simp [phase])
  | torn phase free pending => exact Entered.elsewhere (by simp) (by simp) (by simp)
  | destroyed phase free member =>
      exact Entered.elsewhere (by simp [phase]) (by simp [phase]) (by simp [phase])
  | released phase empty change | leaked phase change =>
      exact Entered.elsewhere (by simp) (by simp) (by simp)

/-! The executor is closed from the start of its drop on. -/

def Closing (executor : Executor) : Prop :=
  executor.closed = executor.phase.closing

theorem Moved.closing {move : Move} (moved : Moved executor move next)
    (closing : executor.Closing) : next.Closing := by
  unfold Closing at *
  cases moved with
  | remoteWake change => exact closing
  | remoteSend change => exact closing
  | wake runs change => exact closing
  | send change => exact closing
  | refused runs closed => exact closing
  | submitted runs unclosed change => exact closing
  | cleared phase free pending => exact closing
  | destroyed phase free member => exact closing
  | closed phase free => rfl
  | blockOn phase _ | drain phase _ | settle phase _ | foundEmpty phase _ _
  | tryReceived phase _ | received phase _ | retry phase
  | notAdmitted phase _ _ _ | notBegun phase _ _ _ _ | began phase _ _ _ _
  | notFinished phase _ _ | suspended phase _ _ | rootReady phase _ _
  | taskReady phase _ _ _ | pollPanicked phase _ | wakerPanicked phase _
  | waitPanicked phase _ | leavingPanicked phase _ | clearingPanicked phase _ _
  | tearingPanicked phase _ _ | droppedPanicked phase _ | unwound phase _ | left phase _
  | torn phase _ _ | released phase _ _ | leaked phase _ =>
      rw [phase] at closing
      exact closing

end Executor

end Asyncr
