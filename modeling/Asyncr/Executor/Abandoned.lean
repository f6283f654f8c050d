import Asyncr.Executor.Runs

namespace Asyncr

namespace Executor

open Library
open Scheduling

variable {executor next : Executor}

/-! Calls of `block_on` that any panic may end.  The schedule of an abandoned
root, and its wakers, outlive the call; the loop knows a root by its id alone. -/

/-- A root whose call of `block_on` is over. -/
def Abandoned (executor : Executor) (schedule : Nat) : Prop :=
  (executor.scheduling.schedules schedule).id = rootTaskId ∧
    executor.phase.root? ≠ some schedule

instance (executor : Executor) (schedule : Nat) :
    Decidable (executor.Abandoned schedule) :=
  inferInstanceAs (Decidable (_ ∧ _))

/-- The id that `block_on` is about to poll for is not an abandoned root's. -/
def Unmixed (executor : Executor) (move : Move) : Prop :=
  move = .dispatch → ∀ entry ∈ executor.scheduling.taken,
    ¬ executor.Abandoned entry.sender

instance (executor : Executor) (move : Move) : Decidable (executor.Unmixed move) :=
  inferInstanceAs (Decidable (_ → _))

/-- The roots are polled for their own requests. -/
structure RootsServed (executor : Executor) : Prop where
  balanced : executor.phase ≠ .dropped → ∀ schedule,
    (executor.scheduling.schedules schedule).id = rootTaskId →
    executor.scheduling.Balanced schedule
  unpoisoned : ∀ schedule,
    (executor.scheduling.schedules schedule).id = rootTaskId →
    (executor.scheduling.schedules schedule).poisoned = false
  answered : ∀ schedule entry, .began schedule entry ∈ executor.scheduling.log →
    (executor.scheduling.schedules schedule).id = rootTaskId →
    entry.sender = schedule

theorem rootsServed_initial : initial.RootsServed where
  balanced := by
    intro _ schedule _
    refine ⟨rfl, ?_⟩
    intro poisoned
    cases poisoned
  unpoisoned := fun _ _ => rfl
  answered := by
    intro schedule entry member
    cases member

theorem Moved.root_id {move : Move} (moved : Moved executor move next)
    (coherent : executor.Coherent) {schedule : Nat}
    (isRoot : (next.scheduling.schedules schedule).id = rootTaskId) :
    (executor.scheduling.schedules schedule).id = rootTaskId := by
  cases Nat.lt_or_ge schedule executor.scheduling.created with
  | inl old => exact (moved.ids.2 schedule old).symm.trans isRoot
  | inr new => exact congrArg TaskSchedule.id (coherent.addressed.fresh schedule new)

theorem Unmixed.answered (unmixed : executor.Unmixed .dispatch)
    (coherent : executor.Coherent) {root schedule : Nat} {entry : ReadyEntry}
    (phase : executor.phase = .dispatching root)
    (taken : executor.scheduling.taken = some entry)
    (isRoot : (executor.scheduling.schedules schedule).id = rootTaskId) :
    (entry.sender = schedule → executor.target? root entry.id ≠ none) ∧
      ∀ target, executor.target? root entry.id = some target →
        (entry.sender = schedule ↔ target = schedule) := by
  obtain ⟨below, address⟩ := coherent.addressed.taken entry taken
  have own : entry.id = rootTaskId → entry.sender = root := by
    intro idRoot
    by_contra other
    apply unmixed rfl entry taken
    refine ⟨address.symm.trans idRoot, ?_⟩
    rw [phase]
    intro same
    exact other (Option.some.inj same).symm
  refine ⟨?_, ?_⟩
  · rintro rfl missing
    simp [target?, address, isRoot] at missing
  · intro target found
    obtain ⟨_, targetId, active⟩ := coherent.target (by rw [phase]; rfl) found
    constructor
    · rintro rfl
      have idRoot := address.trans isRoot
      rw [active idRoot, own idRoot]
    · rintro rfl
      have idRoot := targetId.symm.trans isRoot
      rw [active idRoot, own idRoot]

theorem Moved.balanced_roots {move : Move} (moved : Moved executor move next)
    (coherent : executor.Coherent) (polling : executor.Polling)
    (served : executor.RootsServed) (unmixed : executor.Unmixed move)
    (alive : next.phase ≠ .dropped) (schedule : Nat)
    (isRoot : (next.scheduling.schedules schedule).id = rootTaskId) :
    next.scheduling.Balanced schedule := by
  have before := moved.root_id coherent isRoot
  have living : executor.phase ≠ .dropped :=
    fun dropped => alive (moved.dropped dropped)
  apply moved.balanced coherent polling (served.balanced living schedule before) _
    alive
  intro dispatch root entry phase taken
  subst dispatch
  exact unmixed.answered coherent phase taken before

theorem Moved.unpoisoned_roots {move : Move} (moved : Moved executor move next)
    (coherent : executor.Coherent) (polling : executor.Polling)
    (served : executor.RootsServed) (unmixed : executor.Unmixed move)
    (schedule : Nat)
    (isRoot : (next.scheduling.schedules schedule).id = rootTaskId) :
    (next.scheduling.schedules schedule).poisoned = false := by
  have before := moved.root_id coherent isRoot
  apply moved.unpoisoned polling (served.unpoisoned schedule before)
  intro dispatch root entry phase taken found
  subst dispatch
  have answered := unmixed.answered coherent phase taken before
  obtain rfl := (answered.2 schedule found).mpr rfl
  exact queued_of_taken
    (served.balanced (by simp [phase]) entry.sender before) taken

theorem Moved.answered_roots {move : Move} (moved : Moved executor move next)
    (coherent : executor.Coherent) (served : executor.RootsServed)
    (unmixed : executor.Unmixed move) (schedule : Nat) (entry : ReadyEntry)
    (member : .began schedule entry ∈ next.scheduling.log)
    (isRoot : (next.scheduling.schedules schedule).id = rootTaskId) :
    entry.sender = schedule := by
  have before := moved.root_id coherent isRoot
  have earlier : .began schedule entry ∈ executor.scheduling.log →
      entry.sender = schedule :=
    fun known => served.answered schedule entry known before
  rcases moved.change with same | ⟨change, takes, stepped⟩
  · exact earlier (same ▸ member)
  · rcases step_log stepped with same | ⟨woken, grown⟩ | ⟨sent, grown⟩ |
      ⟨target, holds, rfl, _, taken, grown⟩ | ⟨target, _, grown⟩
    · exact earlier (same ▸ member)
    · rw [grown] at member
      exact earlier (by simpa using member)
    · rw [grown] at member
      exact earlier (by simpa using member)
    · rw [grown] at member
      rcases List.mem_cons.mp member with now | known
      · cases now
        obtain ⟨rfl, root, phase, found⟩ := moved.begins taken takes
        have answered := unmixed.answered coherent phase taken before
        exact (answered.2 schedule found).mpr rfl
      · exact earlier known
    · rw [grown] at member
      exact earlier (by simpa using member)

theorem run_rootsServed (reach : machine.Reach Unmixed initial executor) :
    executor.Steady ∧ executor.RootsServed := by
  induction reach with
  | refl => exact ⟨steady_initial, rootsServed_initial⟩
  | step move _ unmixed stepped ih =>
      obtain ⟨steady, served⟩ := ih
      have moved := moved_of_step stepped
      have balanced :=
        moved.balanced_roots steady.coherent steady.polling served unmixed
      have unpoisoned :=
        moved.unpoisoned_roots steady.coherent steady.polling served unmixed
      have answered := moved.answered_roots steady.coherent served unmixed
      exact ⟨moved.steady steady, balanced, unpoisoned, answered⟩

/-- Whatever panics, every root is polled for its own requests, and at each poll
of one `begin_poll` finds it queued exactly if the id is not an abandoned root's. -/
theorem roots_polled_for_own_requests
    (reach : machine.Reach Unmixed initial executor) :
    (∀ schedule entry, .began schedule entry ∈ executor.scheduling.log →
      (executor.scheduling.schedules schedule).id = rootTaskId →
      entry.sender = schedule) ∧
    (∀ schedule, (executor.scheduling.schedules schedule).id = rootTaskId →
      (executor.scheduling.schedules schedule).poisoned = false) ∧
    (∀ root entry, executor.phase = .dispatching root →
      executor.scheduling.taken = some entry → entry.id = rootTaskId →
      (¬ executor.Abandoned entry.sender ↔
        entry.sender = root ∧
          ((executor.scheduling.schedules root).beginPoll).2 = .ok ())) := by
  obtain ⟨steady, served⟩ := run_rootsServed reach
  refine ⟨served.answered, served.unpoisoned, ?_⟩
  intro root entry phase taken idRoot
  obtain ⟨below, address⟩ := steady.coherent.addressed.taken entry taken
  have isRoot := address.symm.trans idRoot
  constructor
  · intro own
    have same : entry.sender = root := by
      by_contra other
      apply own
      refine ⟨isRoot, ?_⟩
      rw [phase]
      intro active
      exact other (Option.some.inj active).symm
    refine ⟨same, ?_⟩
    have begins := begins_of_balanced
      (served.balanced (by simp [phase]) entry.sender isRoot) taken
    rwa [same] at begins
  · rintro ⟨rfl, _⟩ abandoned
    apply abandoned.2
    rw [phase]
    rfl

/-- A task's output panics in its destructor, through the first of two calls. -/
def abandonedRootMoves : List Move :=
  [.blockOn, .send, .drain, .settle, .tryRecv, .dispatch, .spawn, .send,
    .endPoll .pending, .drain, .settle, .tryRecv, .dispatch, .panic, .unwound]

def laterRoot : Executor :=
  (machine.run Unmixed initial (abandonedRootMoves ++
    [.blockOn, .send, .drain, .settle, .tryRecv])).getD initial

theorem roots_polled_for_own_requests_later :
    laterRoot.Abandoned 0 ∧
      (laterRoot.scheduling.schedules 0).poisoned = false ∧
      ((laterRoot.scheduling.schedules 2).beginPoll).2 = .ok () := by
  have ran : machine.run Unmixed initial (abandonedRootMoves ++
    [.blockOn, .send, .drain, .settle, .tryRecv]) = some laterRoot := rfl
  have phase : laterRoot.phase = .dispatching 2 := rfl
  have taken : laterRoot.scheduling.taken = some ⟨rootTaskId, 2⟩ := rfl
  obtain ⟨_, unpoisoned, own⟩ :=
    roots_polled_for_own_requests (Machine.reach_of_run ran)
  exact ⟨by decide, unpoisoned 0 rfl,
    ((own 2 _ phase taken rfl).mp (by decide)).2⟩

/-- Another thread wakes the abandoned root before the second call. -/
def abandonedWakeMoves : List Move :=
  abandonedRootMoves ++ [.remoteWake 0, .remoteSend 0, .blockOn, .send, .drain,
    .settle, .tryRecv, .dispatch, .endPoll .pending, .drain, .settle, .tryRecv]

def abandonedWake : Executor :=
  (machine.run Machine.Any initial abandonedWakeMoves).getD initial

/-- The second root is polled for the entry of the first, and is found idle when
its own entry is taken: `begin_poll` panics. -/
theorem later_root_polled_for_abandoned :
    machine.Reach Machine.Any initial abandonedWake ∧
      .began 2 ⟨rootTaskId, 0⟩ ∈ abandonedWake.scheduling.log ∧
      (abandonedWake.scheduling.schedules 2).id = rootTaskId ∧
      abandonedWake.phase = .dispatching 2 ∧
      abandonedWake.scheduling.taken = some ⟨rootTaskId, 2⟩ ∧
      ((abandonedWake.scheduling.schedules 2).beginPoll).2 =
        .error .onlyQueuedPolled := by
  have ran : machine.run Machine.Any initial abandonedWakeMoves =
    some abandonedWake := rfl
  exact ⟨Machine.reach_of_run ran, by decide, rfl, rfl, rfl, rfl⟩

end Executor

end Asyncr
