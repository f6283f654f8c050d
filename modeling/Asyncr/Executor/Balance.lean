import Asyncr.Executor.Numbering
import Asyncr.Executor.Polling

namespace Asyncr

namespace Executor

open Scheduling

variable {executor next : Executor}

/-! Which schedule answers a received entry, and what that keeps in balance. -/

/-- An abandoned root has no say in a later call of `block_on`: an entry with the
root's id is the active root's. -/
def OwnRoot (executor : Executor) : Prop :=
  ∀ root entry, executor.phase = .dispatching root →
    executor.scheduling.taken = some entry → entry.id = rootTaskId →
    entry.sender = root

theorem Coherent.answered (coherent : executor.Coherent)
    (numbered : executor.Numbered) {root target : Nat}
    {entry : ReadyEntry} (phase : executor.phase = .dispatching root)
    (taken : executor.scheduling.taken = some entry)
    (found : executor.target? root entry.id = some target)
    (own : entry.id = rootTaskId → entry.sender = root) :
    entry.sender = target := by
  obtain ⟨below, address⟩ := coherent.addressed.taken entry taken
  obtain ⟨targetBelow, targetId, isRoot⟩ :=
    coherent.target (by rw [phase]; rfl) found
  by_cases root : entry.id = rootTaskId
  · rw [own root, isRoot root]
  · apply numbered.once _ _ below targetBelow
    · rw [← address, targetId]
    · rw [← address]
      exact root

theorem Coherent.answers_task (coherent : executor.Coherent)
    (numbered : executor.Numbered)
    {root target schedule : Nat} {entry : ReadyEntry}
    (phase : executor.phase = .dispatching root)
    (taken : executor.scheduling.taken = some entry)
    (found : executor.target? root entry.id = some target)
    (below : schedule < executor.scheduling.created)
    (notRoot : (executor.scheduling.schedules schedule).id ≠ rootTaskId) :
    entry.sender = schedule ↔ target = schedule := by
  obtain ⟨senderBelow, address⟩ := coherent.addressed.taken entry taken
  obtain ⟨targetBelow, targetId, _⟩ :=
    coherent.target (by rw [phase]; rfl) found
  have sameId : (executor.scheduling.schedules entry.sender).id =
      (executor.scheduling.schedules target).id := by
    rw [← address, targetId]
  constructor
  · rintro rfl
    exact (numbered.once _ _ below targetBelow sameId notRoot).symm
  · rintro rfl
    exact (numbered.once _ _ below senderBelow sameId.symm notRoot).symm

/-- A move keeps `schedule` in balance if the entry it dispatches is answered. -/
theorem Moved.balanced {move : Move} (moved : Moved executor move next)
    (coherent : executor.Coherent) (polling : executor.Polling)
    {schedule : Nat} (balanced : executor.scheduling.Balanced schedule)
    (answered : move = .dispatch → ∀ root entry,
      executor.phase = .dispatching root →
      executor.scheduling.taken = some entry →
      (entry.sender = schedule → executor.target? root entry.id ≠ none) ∧
        ∀ target, executor.target? root entry.id = some target →
          (entry.sender = schedule ↔ target = schedule))
    (alive : next.phase ≠ .dropped) : next.scheduling.Balanced schedule := by
  have connected : executor.phase ≠ .dropped →
      executor.scheduling.connected = true := polling.connected
  have stepped : ∀ {change : ScheduleStep} {scheduling : Scheduling},
      executor.phase ≠ .dropped →
      executor.scheduling.step change = some scheduling →
      executor.scheduling.Keeps schedule change →
      scheduling.Balanced schedule := by
    intro change scheduling living step keeps
    exact step_balanced coherent.addressed.fresh (connected living) balanced
      keeps step
  have ends : ∀ {root target : Nat} {id : Id} {result : Poll Unit}
      {scheduling : Scheduling}, executor.phase = .polling root id target →
      executor.scheduling.step (.finishPoll target result) = some scheduling →
      scheduling.Balanced schedule := by
    intro root target id result scheduling phase step
    apply stepped (by simp [phase]) step
    intro same
    subst same
    exact polling.running root id target phase
  have begins : move = .dispatch → ∀ {root target : Nat} {entry : ReadyEntry}
      {scheduling : Scheduling}, executor.phase = .dispatching root →
      executor.scheduling.taken = some entry →
      executor.target? root entry.id = some target →
      executor.scheduling.step (.beginPoll target) = some scheduling →
      scheduling.Balanced schedule := by
    intro dispatch root target entry scheduling phase taken found step
    apply stepped (by simp [phase]) step
    intro other otherTaken
    obtain rfl := Option.some.inj (taken.symm.trans otherTaken)
    exact (answered dispatch root entry phase taken).2 target found
  cases moved with
  | remoteWake change => exact stepped alive change trivial
  | remoteSend change => exact stepped alive change trivial
  | wake runs change => exact stepped alive change trivial
  | send change => exact stepped alive change trivial
  | refused runs closed => exact balanced
  | submitted runs unclosed change => exact stepped alive change trivial
  | blockOn outside change => exact stepped (by simp [outside]) change trivial
  | drain phase free => exact balanced
  | settle phase free => exact balanced
  | foundEmpty phase free empty => exact balanced
  | tryReceived phase change => exact stepped (by simp [phase]) change trivial
  | received phase change => exact stepped (by simp [phase]) change trivial
  | retry phase => exact balanced
  | notAdmitted phase taken missing change =>
      apply stepped (by simp [phase]) change
      intro entry holds same
      obtain rfl := Option.some.inj (taken.symm.trans holds)
      exact (answered rfl _ _ phase taken).1 same missing
  | notBegun phase taken found fails change =>
      exact begins rfl phase taken found change
  | began phase taken found begun change => exact begins rfl phase taken found change
  | notFinished phase fails change => exact ends phase change
  | suspended phase finishes change => exact ends phase change
  | rootReady phase finishes change => exact ends phase change
  | taskReady phase notRoot finishes change => exact ends phase change
  | pollPanicked phase change => exact stepped (by simp [phase]) change trivial
  | wakerPanicked phase free => exact balanced
  | waitPanicked phase free => exact balanced
  | leavingPanicked phase free => exact balanced
  | clearingPanicked phase free unfailing => exact balanced
  | tearingPanicked phase free unfailing => exact balanced
  | droppedPanicked phase free => exact balanced
  | unwound phase free => exact balanced
  | left phase free => exact balanced
  | closed phase free => exact balanced
  | cleared phase free pending => exact balanced
  | torn phase free pending => exact balanced
  | destroyed phase free member => exact balanced
  | released phase empty change => exact absurd rfl alive
  | leaked phase change => exact absurd rfl alive

end Executor

end Asyncr
