import Asyncr.Executor.WakeProtocol

namespace Asyncr

namespace Scheduling

variable {earlier later : List ScheduleEvent}

theorem entered_append :
    entered (later ++ earlier) = entered earlier ++ entered later := by
  induction later with
  | nil => simp [entered]
  | cons event rest ih => cases event <;> simp [entered, ih]

theorem polled_append :
    polled (later ++ earlier) = polled earlier ++ polled later := by
  induction later with
  | nil => simp [polled]
  | cons event rest ih => cases event <;> simp [polled, ih]

end Scheduling

namespace Executor

open Library
open Scheduling

variable {executor next before after : Executor}

/-! Calls of `block_on` that return: the channel is served in order. -/

/-- No panic leaves `block_on`. -/
def returns (executor : Executor) (move : Move) : Bool :=
  (move != .panic || executor.phase.closing) && executor.rootEnds move

def Returns (executor : Executor) (move : Move) : Prop :=
  executor.returns move = true

theorem Returns.rootEnds {move : Move} (returns : executor.Returns move) :
    executor.RootEnds move :=
  (Bool.and_eq_true_iff.mp returns).2

theorem Kept.begins (kept : executor.Kept) (sound : executor.Sound) {root target : Nat}
    {entry : ReadyEntry} (phase : executor.phase = .dispatching root)
    (taken : executor.scheduling.taken = some entry)
    (found : executor.target? root entry.id = some target) :
    entry.sender = target ∧
      ((executor.scheduling.schedules target).beginPoll).2 = .ok () := by
  have all := kept.balanced (by simp [phase])
  have same := sound.coherent.answered sound.numbered phase taken found
    (kept.settled.ownRoot sound.coherent all root entry phase taken)
  subst same
  exact ⟨rfl, begins_of_balanced (all entry.sender) taken⟩

theorem Moved.serves {move : Move} (moved : Moved executor move next)
    (sound : executor.Sound) (kept : executor.Kept)
    (ends : executor.RootEnds move) (alive : next.phase ≠ .dropped)
    {change : ScheduleStep} (takes : executor.change? move = some change) :
    executor.scheduling.Serves change := by
  cases moved with
  | notAdmitted phase taken missing step =>
      exact absurd missing (ends.admitted phase taken)
  | notBegun phase taken found fails step =>
      have begins := (kept.begins sound phase taken found).2
      rw [fails] at begins
      cases begins
  | began phase taken found begins step =>
      simp only [change?, phase, taken, found, Option.some.injEq] at takes
      subst takes
      obtain ⟨unpoisoned, queued⟩ := beginPoll_begun begins
      refine ⟨queued, unpoisoned, ?_⟩
      intro entry holds
      obtain rfl := Option.some.inj (taken.symm.trans holds)
      exact (kept.begins sound phase taken found).1
  | notFinished phase _ _ | suspended phase _ _ | rootReady phase _ _
  | taskReady phase _ _ _ | pollPanicked phase _ =>
      simp only [change?, phase, Option.some.injEq] at takes
      subst takes
      trivial
  | wakerPanicked phase _ | waitPanicked phase _ | leavingPanicked phase _
  | clearingPanicked phase _ _ | tearingPanicked phase _ _ | droppedPanicked phase _ =>
      simp [change?, phase] at takes
  | released phase empty step => exact absurd rfl alive
  | leaked phase step => exact absurd rfl alive
  | remoteWake _ | remoteSend _ | wake _ _ | send _ | refused _ _
  | submitted _ _ _ | blockOn _ _ | foundEmpty _ _ _ | tryReceived _ _
  | received _ _ =>
      cases takes
      trivial
  | _ => cases takes

theorem run_inOrder (reach : machine.Reach Returns initial executor)
    (few : executor.spawned < 2 ^ 64 - 1) :
    executor.Sound ∧ executor.Kept ∧
      (executor.phase ≠ .dropped → executor.scheduling.InOrder) := by
  have start : initial.Kept ∧
      (initial.phase ≠ .dropped → initial.scheduling.InOrder) :=
    ⟨kept_initial, fun _ => inOrder_initial⟩
  apply run_invariant reach few sound_initial start
  intro executor move next sound ⟨kept, inOrder⟩ returns moved _
  refine ⟨kept.step sound returns.rootEnds moved, ?_⟩
  intro alive
  have before := inOrder fun dropped => alive (moved.dropped dropped)
  rcases moved.change with same | ⟨change, takes, stepped⟩
  · rw [same]
    exact before
  · have serves := moved.serves sound kept returns.rootEnds alive takes
    exact step_inOrder before serves stepped

theorem run_ids {allowed : Executor → Move → Prop}
    (onward : machine.Reach allowed before after) :
    before.scheduling.created ≤ after.scheduling.created ∧
      ∀ schedule, schedule < before.scheduling.created →
        (after.scheduling.schedules schedule).id =
          (before.scheduling.schedules schedule).id := by
  induction onward with
  | refl => exact ⟨Nat.le_refl _, fun _ _ => rfl⟩
  | step move _ _ stepped ih =>
      obtain ⟨grown, ids⟩ := (moved_of_step stepped).ids
      refine ⟨Nat.le_trans ih.1 grown, ?_⟩
      intro schedule below
      exact (ids schedule (Nat.lt_of_lt_of_le below ih.1)).trans
        (ih.2 schedule below)

/-- What was in the channel is polled, in its order, before anything else. -/
theorem served_first {scheduling next : Scheduling} (inOrder : scheduling.InOrder)
    (untaken : scheduling.taken = none) (later : next.InOrder)
    {events between : List ScheduleEvent} {schedule : Nat} {entry : ReadyEntry}
    (grown : next.log =
      events ++ .began schedule entry :: (between ++ scheduling.log))
    (absent : entry ∉ scheduling.ready) :
    scheduling.ready <+: polled between := by
  have order := later.order
  have log : next.log = (events ++ .began schedule entry :: between) ++
      scheduling.log := by
    rw [grown]
    simp
  rw [log, entered_append, polled_append, polled_append, inOrder.order,
    untaken] at order
  simp only [Option.toList_none, List.nil_append, List.append_assoc, polled,
    List.append_cancel_left_eq] at order
  rcases List.append_eq_append_iff.mp order with
    ⟨rest, extended, _⟩ | ⟨rest, extended, remaining⟩
  · exact ⟨rest, extended.symm⟩
  · cases rest with
    | nil => exact ⟨[], by simpa using extended⟩
    | cons head rest =>
        exfalso
        apply absent
        obtain ⟨rfl, _⟩ := List.cons.inj remaining
        rw [extended]
        simp

theorem queued_of_ready {scheduling : Scheduling} {entry : ReadyEntry}
    (balanced : scheduling.Balanced entry.sender)
    (member : entry ∈ scheduling.ready) :
    scheduling.state entry.sender = .queued := by
  by_contra other
  have count := balanced.count
  rw [count_inFlight, if_neg other] at count
  have present : 0 <
      (scheduling.ready.map ReadyEntry.sender).count entry.sender :=
    List.count_pos_iff.mpr (List.mem_map_of_mem member)
  omega

section

variable (reach : machine.Reach Returns initial before)
  (onward : machine.Reach Returns before after)
  (few : after.spawned < 2 ^ 64 - 1) (alive : after.phase ≠ .dropped)
  {events between : List ScheduleEvent} {schedule : Nat} {entry : ReadyEntry}
  (grown : after.scheduling.log =
    events ++ .began schedule entry :: (between ++ before.scheduling.log))

include reach onward few alive grown

theorem answered_later : entry.sender = schedule := by
  obtain ⟨_, _, inOrder⟩ := run_inOrder (reach.trans onward) few
  apply (inOrder alive).answered schedule entry
  rw [grown]
  simp

theorem served_before (living : before.phase ≠ .dropped)
    (untaken : before.scheduling.taken = none)
    (absent : entry ∉ before.scheduling.ready) :
    before.scheduling.ready <+: polled between := by
  have fewer : before.spawned < 2 ^ 64 - 1 :=
    Nat.lt_of_le_of_lt (run_spawned_le onward) few
  obtain ⟨_, _, inOrder⟩ := run_inOrder reach fewer
  obtain ⟨_, _, later⟩ := run_inOrder (reach.trans onward) few
  exact served_first (inOrder living) untaken (later alive) grown absent

/-- Whoever is in the channel when a poll of `schedule` starts is polled before
the next poll of `schedule` starts. -/
theorem not_overtaken {root : Nat} {id : Id}
    (phase : before.phase = .polling root id schedule) :
    before.scheduling.ready <+: polled between := by
  have fewer : before.spawned < 2 ^ 64 - 1 :=
    Nat.lt_of_le_of_lt (run_spawned_le onward) few
  obtain ⟨sound, kept⟩ := run_kept (reach.weaken fun _ _ => Returns.rootEnds) fewer
  have own := answered_later reach onward few alive grown
  have living : before.phase ≠ .dropped := by simp [phase]
  apply served_before reach onward few alive grown living
  · exact sound.coherent.taken.resolve_left (by simp [phase])
  · intro member
    have queued := queued_of_ready (kept.balanced living entry.sender) member
    obtain ⟨notified, running⟩ := sound.polling.running root id schedule phase
    rw [own, running] at queued
    cases queued

/-- Whoever is in the channel between two calls of `block_on` is polled before the
second one's root. -/
theorem served_before_root (phase : before.phase = .outside)
    (isRoot : (after.scheduling.schedules schedule).id = rootTaskId) :
    before.scheduling.ready <+: polled between := by
  have fewer : before.spawned < 2 ^ 64 - 1 :=
    Nat.lt_of_le_of_lt (run_spawned_le onward) few
  obtain ⟨sound, kept⟩ := run_kept (reach.weaken fun _ _ => Returns.rootEnds) fewer
  have own := answered_later reach onward few alive grown
  have living : before.phase ≠ .dropped := by simp [phase]
  apply served_before reach onward few alive grown living
  · exact sound.coherent.taken.resolve_left (by simp [phase])
  · intro member
    obtain ⟨below, _⟩ := sound.coherent.addressed.ready entry member
    have queued := queued_of_ready (kept.balanced living entry.sender) member
    rw [own] at below queued
    have active := kept.root_queued below
      ((run_ids onward).2 schedule below ▸ isRoot) queued
    rw [phase] at active
    cases active

end

end Executor

end Asyncr
