import Asyncr.Executor.Coherent

namespace Asyncr

namespace Executor

variable {executor next : Executor}

/-! Ids are given out once, while the counter has not wrapped. -/

structure Numbered (executor : Executor) : Prop where
  counter : executor.nextId.toNat = executor.spawned + 1
  given : ∀ schedule, schedule < executor.scheduling.created →
    (executor.scheduling.schedules schedule).id.val.toNat ≤ executor.spawned
  once : ∀ first second, first < executor.scheduling.created →
    second < executor.scheduling.created →
    (executor.scheduling.schedules first).id =
      (executor.scheduling.schedules second).id →
    (executor.scheduling.schedules first).id ≠ rootTaskId → first = second

theorem numbered_initial : initial.Numbered where
  counter := rfl
  given := by
    intro schedule below
    cases below
  once := by
    intro first second below
    cases below

theorem takeNextId_of_ne_zero {nextId : UInt64} (nonzero : nextId ≠ 0) :
    takeNextId nextId = (⟨nextId⟩, nextId + 1) :=
  if_neg nonzero

theorem Numbered.transfer (numbered : executor.Numbered)
    (created : next.scheduling.created = executor.scheduling.created)
    (ids : ∀ schedule, (next.scheduling.schedules schedule).id =
      (executor.scheduling.schedules schedule).id)
    (nextId : next.nextId = executor.nextId)
    (spawned : next.spawned = executor.spawned) : next.Numbered where
  counter := by
    rw [nextId, spawned]
    exact numbered.counter
  given := by
    intro schedule below
    rw [ids, spawned]
    exact numbered.given schedule (created ▸ below)
  once := by
    intro first second firstBelow secondBelow equal notRoot
    rw [ids] at equal notRoot
    rw [ids] at equal
    exact numbered.once first second (created ▸ firstBelow)
      (created ▸ secondBelow) equal notRoot

theorem Numbered.created (numbered : executor.Numbered) (coherent : executor.Coherent)
    {id : Id} {scheduling : Scheduling}
    (stepped : executor.scheduling.step (.create id) = some scheduling)
    (unused : id ≠ rootTaskId → ∀ schedule, schedule < executor.scheduling.created →
      (executor.scheduling.schedules schedule).id ≠ id) :
    ∀ first second, first < scheduling.created → second < scheduling.created →
      (scheduling.schedules first).id = (scheduling.schedules second).id →
      (scheduling.schedules first).id ≠ rootTaskId → first = second := by
  obtain ⟨_, grown, newId, ids⟩ := coherent.created stepped
  intro first second firstBelow secondBelow equal notRoot
  rw [grown] at firstBelow secondBelow
  rcases Nat.lt_succ_iff_lt_or_eq.mp firstBelow with firstOld | rfl
  · rcases Nat.lt_succ_iff_lt_or_eq.mp secondBelow with secondOld | rfl
    · rw [ids first firstOld] at equal notRoot
      rw [ids second secondOld] at equal
      exact numbered.once first second firstOld secondOld equal notRoot
    · rw [ids first firstOld, newId] at equal
      rw [ids first firstOld, equal] at notRoot
      exact absurd equal (unused notRoot first firstOld)
  · rcases Nat.lt_succ_iff_lt_or_eq.mp secondBelow with secondOld | rfl
    · rw [ids second secondOld, newId] at equal
      rw [newId] at notRoot
      exact absurd equal.symm (unused notRoot second secondOld)
    · rfl

theorem Numbered.submitted (numbered : executor.Numbered)
    (coherent : executor.Coherent) {scheduling : Scheduling}
    (stepped : executor.scheduling.step
      (.create (takeNextId executor.nextId).1) = some scheduling)
    (few : executor.spawned + 1 < 2 ^ 64 - 1) :
    Numbered { executor with
      scheduling := scheduling
      pendingSpawns := executor.pendingSpawns ++
        [⟨(takeNextId executor.nextId).1, executor.scheduling.created⟩]
      nextId := (takeNextId executor.nextId).2
      spawned := executor.spawned + 1 } := by
  obtain ⟨_, grown, newId, ids⟩ := coherent.created stepped
  have counter := numbered.counter
  have nonzero : executor.nextId ≠ 0 := by
    intro zero
    rw [zero] at counter
    cases counter
  rw [takeNextId_of_ne_zero nonzero] at stepped newId ⊢
  have above : ∀ schedule, schedule < executor.scheduling.created →
      (executor.scheduling.schedules schedule).id ≠ ⟨executor.nextId⟩ := by
    intro schedule old same
    have bound := numbered.given schedule old
    rw [same, counter] at bound
    omega
  refine ⟨?_, ?_, numbered.created coherent stepped fun _ => above⟩
  · change (executor.nextId + 1).toNat = executor.spawned + 1 + 1
    rw [UInt64.toNat_add, counter]
    exact Nat.mod_eq_of_lt (by change executor.spawned + 1 + 1 < 2 ^ 64; omega)
  · intro schedule below
    change (scheduling.schedules schedule).id.val.toNat ≤ executor.spawned + 1
    change schedule < scheduling.created at below
    rw [grown] at below
    rcases Nat.lt_succ_iff_lt_or_eq.mp below with old | rfl
    · rw [ids schedule old]
      exact Nat.le_succ_of_le (numbered.given schedule old)
    · rw [newId]
      exact Nat.le_of_eq counter

theorem Numbered.blockOn (numbered : executor.Numbered)
    (coherent : executor.Coherent) {scheduling : Scheduling}
    (stepped : executor.scheduling.step (.create rootTaskId) = some scheduling) :
    Numbered { executor with
      scheduling := scheduling
      phase := .iterating executor.scheduling.created } := by
  obtain ⟨_, grown, newId, ids⟩ := coherent.created stepped
  refine ⟨numbered.counter, ?_,
    numbered.created coherent stepped fun notRoot => absurd rfl notRoot⟩
  intro schedule below
  change (scheduling.schedules schedule).id.val.toNat ≤ executor.spawned
  change schedule < scheduling.created at below
  rw [grown] at below
  rcases Nat.lt_succ_iff_lt_or_eq.mp below with old | rfl
  · rw [ids schedule old]
    exact numbered.given schedule old
  · rw [newId]
    exact Nat.zero_le _

theorem Moved.spawned_le {move : Move} (moved : Moved executor move next) :
    executor.spawned ≤ next.spawned := by
  cases moved with
  | submitted => exact Nat.le_succ _
  | _ => exact Nat.le_refl _

theorem Moved.numbered {move : Move} (moved : Moved executor move next)
    (coherent : executor.Coherent) (numbered : executor.Numbered)
    (few : next.spawned < 2 ^ 64 - 1) : next.Numbered := by
  have stepped : ∀ {change : ScheduleStep} {after : Executor},
      executor.scheduling.step change = some after.scheduling →
      Scheduling.created? change = none → after.nextId = executor.nextId →
      after.spawned = executor.spawned → after.Numbered := by
    intro change after stepped old nextId spawned
    obtain ⟨created, ids⟩ := Scheduling.step_ids old stepped
    exact numbered.transfer created ids nextId spawned
  cases moved with
  | submitted runs unclosed change => exact numbered.submitted coherent change few
  | blockOn outside change => exact numbered.blockOn coherent change
  | remoteWake change | remoteSend change | wake _ change | send change
  | tryReceived _ change | received _ change | notAdmitted _ _ _ change
  | notBegun _ _ _ _ change | began _ _ _ _ change | notFinished _ _ change
  | suspended _ _ change | rootReady _ _ change | taskReady _ _ _ change
  | pollPanicked _ change | released _ _ change | leaked _ change =>
      exact stepped change rfl rfl rfl
  | refused _ _ | drain _ _ | settle _ _ | foundEmpty _ _ _ | retry _
  | wakerPanicked _ _ | waitPanicked _ _ | leavingPanicked _ _ | clearingPanicked _ _ _
  | tearingPanicked _ _ _ | droppedPanicked _ _ | unwound _ _ | left _ _ | closed _ _
  | cleared _ _ _ | torn _ _ _ | destroyed _ _ _ =>
      exact numbered.transfer rfl (fun _ => rfl) rfl rfl

end Executor

end Asyncr
