import Mathlib.Data.List.Nodup
import Asyncr.Executor.Runs

namespace Asyncr

namespace Executor

open Library
open Scheduling

variable {executor next : Executor}

/-! Calls of `block_on` that end with their root: every wakeup is answered by one
poll. -/

/-- A call of `block_on` ends with its root ready, or with a panic of the root's
own poll or of its destructor. -/
def rootEnds (executor : Executor) : Move → Bool
  | .panic =>
      match executor.phase with
      | .polling _ id _ => id == rootTaskId
      | .leaving _ => true
      | phase => phase.closing
  | .dispatch =>
      match executor.phase, executor.scheduling.taken with
      | .dispatching root, some entry => (executor.target? root entry.id).isSome
      | _, _ => true
  | _ => true

def RootEnds (executor : Executor) (move : Move) : Prop :=
  executor.rootEnds move = true

instance (executor : Executor) (move : Move) :
    Decidable (executor.RootEnds move) :=
  inferInstanceAs (Decidable (_ = true))

theorem RootEnds.admitted (ends : executor.RootEnds .dispatch) {root : Nat}
    {entry : ReadyEntry} (phase : executor.phase = .dispatching root)
    (taken : executor.scheduling.taken = some entry) :
    executor.target? root entry.id ≠ none := by
  simp only [RootEnds, rootEnds, phase, taken, Option.isSome_iff_ne_none] at ends
  exact ends

/-- A panic that leaves the drop of the executor ends no call. -/
theorem rootEnds_of_closing (closing : executor.phase.closing = true) :
    executor.RootEnds .panic := by
  simp only [RootEnds, rootEnds]
  split
  · rename_i phase
    rw [phase] at closing
    cases closing
  · rfl
  · exact closing

theorem RootEnds.isRoot (ends : executor.RootEnds .panic) {root target : Nat} {id : Id}
    (phase : executor.phase = .polling root id target) : id = rootTaskId := by
  simpa [RootEnds, rootEnds, phase] using ends

theorem RootEnds.panic (ends : executor.RootEnds .panic) :
    (∃ root target, executor.phase = .polling root rootTaskId target) ∨
      (∃ root, executor.phase = .leaving root) ∨
      executor.phase.closing = true := by
  simp only [RootEnds, rootEnds] at ends
  split at ends
  · rename_i root id target phase
    obtain rfl := beq_iff_eq.mp ends
    exact Or.inl ⟨root, target, phase⟩
  · rename_i root phase
    exact Or.inr (Or.inl ⟨root, phase⟩)
  · exact Or.inr (Or.inr ends)

theorem RootEnds.panicked (ends : executor.RootEnds .panic)
    (opened : executor.phase.closing = false) :
    (∃ root target, executor.phase = .polling root rootTaskId target) ∨
      ∃ root, executor.phase = .leaving root := by
  rcases ends.panic with polled | leaves | closing
  · exact Or.inl polled
  · exact Or.inr leaves
  · rw [opened] at closing
    cases closing

/-- The roots of earlier calls will never be queued again. -/
structure Settled (executor : Executor) : Prop where
  concluded : ∀ schedule, schedule < executor.scheduling.created →
    (executor.scheduling.schedules schedule).id = rootTaskId →
    executor.phase.root? ≠ some schedule →
    executor.scheduling.state schedule = .complete ∨
      ∃ notified, executor.scheduling.state schedule = .running notified
  leaving : ∀ root, executor.phase = .leaving root →
    executor.scheduling.state root = .complete

theorem settled_initial : initial.Settled where
  concluded := by
    intro schedule below
    cases below
  leaving := by
    intro root phase
    cases phase

theorem Settled.ownRoot (settled : executor.Settled) (coherent : executor.Coherent)
    (balanced : ∀ schedule, executor.scheduling.Balanced schedule) :
    executor.OwnRoot := by
  intro root entry phase taken isRoot
  obtain ⟨below, address⟩ := coherent.addressed.taken entry taken
  have queued := queued_of_taken (balanced entry.sender) taken
  by_contra different
  have idle : executor.phase.root? ≠ some entry.sender := by
    rw [phase]
    intro same
    exact different (Option.some.inj same).symm
  rcases settled.concluded entry.sender below (address.symm.trans isRoot) idle with
    complete | ⟨notified, running⟩
  · rw [complete] at queued
    cases queued
  · rw [running] at queued
    cases queued

theorem Settled.stepped (settled : executor.Settled)
    (coherent : executor.Coherent) {change : ScheduleStep}
    {scheduling : Scheduling} {tasks : Tasks} {phase : Phase}
    (stepped : executor.scheduling.step change = some scheduling)
    (old : created? change = none)
    (active : ∀ schedule result, change = .finishPoll schedule result →
      (executor.scheduling.schedules schedule).id = rootTaskId →
      executor.phase.root? = some schedule)
    (gone : ∀ schedule, executor.phase.root? = some schedule →
      phase.root? ≠ some schedule →
      scheduling.state schedule = .complete ∨
        ∃ notified, scheduling.state schedule = .running notified)
    (leaving : ∀ root, phase = .leaving root → scheduling.state root = .complete) :
    Settled { executor with
      scheduling := scheduling, tasks := tasks, phase := phase } where
  concluded := by
    intro schedule below isRoot idle
    obtain ⟨created, ids⟩ := step_ids old stepped
    have belowBefore : schedule < executor.scheduling.created := created ▸ below
    have isRootBefore := (ids schedule).symm.trans isRoot
    cases decEq (executor.phase.root?) (some schedule) with
    | isTrue current => exact gone schedule current idle
    | isFalse elsewhere =>
        apply step_ended coherent.addressed.fresh stepped
        · intro result same
          exact elsewhere (active schedule result same isRootBefore)
        · exact settled.concluded schedule belowBefore isRootBefore elsewhere
  leaving := leaving

theorem Settled.transfer (settled : executor.Settled)
    (scheduling : next.scheduling = executor.scheduling)
    (gone : ∀ schedule, executor.phase.root? = some schedule →
      next.phase.root? ≠ some schedule →
      executor.scheduling.state schedule = .complete ∨
        ∃ notified, executor.scheduling.state schedule = .running notified)
    (leaving : ∀ root, next.phase = .leaving root →
      executor.phase = .leaving root) : next.Settled where
  concluded := by
    intro schedule below isRoot idle
    rw [scheduling] at below isRoot ⊢
    cases decEq (executor.phase.root?) (some schedule) with
    | isTrue current => exact gone schedule current idle
    | isFalse elsewhere => exact settled.concluded schedule below isRoot elsewhere
  leaving := by
    intro root phase
    rw [scheduling]
    exact settled.leaving root (leaving root phase)

theorem Settled.created (settled : executor.Settled)
    (coherent : executor.Coherent) {id : Id} {scheduling : Scheduling}
    (stepped : executor.scheduling.step (.create id) = some scheduling)
    {phase : Phase} {pending : List LocalTask} {nextId : UInt64} {spawned : Nat}
    (root : phase.root? = some executor.scheduling.created ∨
      id ≠ rootTaskId ∧ phase = executor.phase)
    (outside : phase = executor.phase ∨ executor.phase.root? = none)
    (staying : ∀ root, phase ≠ .leaving root ∨ phase = executor.phase) :
    Settled { executor with
      scheduling := scheduling
      pendingSpawns := pending
      nextId := nextId
      phase := phase
      spawned := spawned } := by
  obtain ⟨_, grown, newId, ids⟩ := coherent.created stepped
  have result := step_create stepped
  have kept : ∀ schedule, schedule < executor.scheduling.created →
      scheduling.state schedule = executor.scheduling.state schedule := by
    intro schedule below
    rw [result]
    exact (state_setSchedule _ _ _ _).trans (if_neg (Nat.ne_of_lt below))
  refine ⟨?_, ?_⟩
  · intro schedule below isRoot idle
    change schedule < scheduling.created at below
    change (scheduling.schedules schedule).id = rootTaskId at isRoot
    change scheduling.state schedule = _ ∨ ∃ notified,
      scheduling.state schedule = _
    have range : schedule < executor.scheduling.created ∨
        schedule = executor.scheduling.created := by omega
    rcases range with before | rfl
    · rw [kept schedule before]
      rw [ids schedule before] at isRoot
      apply settled.concluded schedule before isRoot
      rcases outside with same | none
      · exact same ▸ idle
      · rw [none]
        simp
    · rcases root with active | ⟨notRoot, _⟩
      · exact absurd active idle
      · exact absurd (newId.symm.trans isRoot) notRoot
  · intro current now
    change phase = .leaving current at now
    change scheduling.state current = .complete
    rcases staying current with elsewhere | same
    · exact absurd now elsewhere
    · have before := same ▸ now
      have below := (coherent.root current (by rw [before]; rfl)).1
      rw [kept current below]
      exact settled.leaving current before

theorem Settled.step (settled : executor.Settled) (sound : executor.Sound)
    (balanced : executor.phase ≠ .dropped →
      ∀ schedule, executor.scheduling.Balanced schedule)
    {move : Move} (ends : executor.RootEnds move)
    (moved : Moved executor move next) : next.Settled := by
  have coherent := sound.coherent
  have polling := sound.polling
  have stays : ∀ {change : ScheduleStep} {scheduling : Scheduling},
      executor.scheduling.step change = some scheduling →
      (∀ schedule result, change ≠ .finishPoll schedule result) →
      ∀ root, executor.phase = .leaving root →
        scheduling.state root = .complete := by
    intro change scheduling stepped unfinished root phase
    have transition :=
      step_transition coherent.addressed.fresh stepped root
    rw [settled.leaving root phase] at transition
    exact transition.complete
  have active : ∀ {root target : Nat} {id : Id} {result : Poll Unit},
      executor.phase = .polling root id target →
      ∀ schedule other,
        ScheduleStep.finishPoll target result = .finishPoll schedule other →
        (executor.scheduling.schedules schedule).id = rootTaskId →
        executor.phase.root? = some schedule := by
    intro root target id result phase schedule other same isRoot
    cases same
    obtain ⟨_, isId, sameRoot⟩ := coherent.polled root id target phase
    rw [phase, sameRoot (isId.symm.trans isRoot)]
    rfl
  cases moved with
  | remoteWake change =>
      exact settled.stepped coherent change rfl (by simp)
        (fun _ active idle => absurd active idle) (stays change (by simp))
  | remoteSend change =>
      exact settled.stepped coherent change rfl (by simp)
        (fun _ active idle => absurd active idle) (stays change (by simp))
  | wake runs change =>
      exact settled.stepped coherent change rfl (by simp)
        (fun _ active idle => absurd active idle) (stays change (by simp))
  | send change =>
      exact settled.stepped coherent change rfl (by simp)
        (fun _ active idle => absurd active idle) (stays change (by simp))
  | refused runs closed => exact settled
  | submitted runs unclosed change =>
      exact settled.created coherent change
        (Or.inr ⟨takeNextId_ne_root executor.nextId, rfl⟩) (Or.inl rfl)
        fun _ => Or.inr rfl
  | blockOn outside change =>
      exact settled.created coherent change (Or.inl rfl)
        (Or.inr (by rw [outside]; rfl)) fun _ => Or.inl (by simp)
  | drain phase free =>
      exact settled.transfer rfl (by simp [phase, Phase.root?]) (by simp)
  | settle phase free =>
      exact settled.transfer rfl (by simp [phase, Phase.root?]) (by simp)
  | foundEmpty phase free empty =>
      exact settled.transfer rfl (by simp [phase, Phase.root?]) (by simp)
  | tryReceived phase change =>
      exact settled.stepped coherent change rfl (by simp)
        (by simp [phase, Phase.root?]) (by simp)
  | received phase change =>
      exact settled.stepped coherent change rfl (by simp)
        (by simp [phase, Phase.root?]) (by simp)
  | retry phase =>
      exact settled.transfer rfl (by simp [phase, Phase.root?]) (by simp)
  | notAdmitted phase taken missing change =>
      exact absurd missing (ends.admitted phase taken)
  | notBegun phase taken found fails change =>
      have all := balanced (by simp [phase])
      have own := settled.ownRoot coherent all _ _ phase taken
      have same := coherent.answered sound.numbered phase taken found own
      subst same
      rw [begins_of_balanced (all _) taken] at fails
      cases fails
  | began phase taken found begun change =>
      exact settled.stepped coherent change rfl (by simp)
        (by simp [phase, Phase.root?]) (by simp)
  | notFinished phase fails change =>
      obtain ⟨action, finishes⟩ := polling.finishes phase _
      rw [finishes] at fails
      cases fails
  | suspended phase finishes change =>
      exact settled.stepped coherent change rfl (active phase)
        (by simp [phase, Phase.root?]) (by simp)
  | @rootReady root target _ _ phase finishes change =>
      refine settled.stepped coherent change rfl (active phase)
        (by simp [phase, Phase.root?]) ?_
      intro current now
      cases now
      obtain ⟨_, _, same⟩ := coherent.polled _ _ _ phase
      obtain rfl := same rfl
      obtain ⟨_, state⟩ := polling.finished_state phase change
      exact state
  | taskReady phase notRoot finishes change =>
      exact settled.stepped coherent change rfl (active phase)
        (by simp [phase, Phase.root?]) (by simp)
  | @pollPanicked root target id _ phase change =>
      refine settled.stepped coherent change rfl (by simp) ?_ (by simp)
      intro schedule current _
      rw [phase] at current
      cases current
      obtain ⟨_, _, same⟩ := coherent.polled _ _ _ phase
      obtain rfl := same (ends.isRoot phase)
      apply step_ended coherent.addressed.fresh change (by simp)
      exact Or.inr (polling.running _ _ _ phase)
  | wakerPanicked phase free | waitPanicked phase free =>
      simp [RootEnds, rootEnds, phase, Phase.closing] at ends
  | @leavingPanicked root phase free =>
      refine settled.transfer rfl ?_ (by simp)
      intro schedule current _
      rw [phase] at current
      cases current
      exact Or.inl (settled.leaving root phase)
  | clearingPanicked phase free unfailing | tearingPanicked phase free unfailing
  | droppedPanicked phase free =>
      exact settled.transfer rfl (by simp [phase, Phase.root?]) (by simp)
  | unwound phase free =>
      exact settled.transfer rfl (by simp [phase, Phase.root?]) (by simp)
  | @left root phase free =>
      refine settled.transfer rfl ?_ (by simp)
      intro schedule current _
      rw [phase] at current
      cases current
      exact Or.inl (settled.leaving root phase)
  | closed phase free =>
      exact settled.transfer rfl (by simp [phase, Phase.root?]) (by simp)
  | cleared phase free pending =>
      exact settled.transfer rfl (fun _ active idle => absurd active idle)
        fun _ now => now
  | torn phase free pending =>
      exact settled.transfer rfl (by simp [phase, Phase.root?]) (by simp)
  | destroyed phase free member =>
      exact settled.transfer rfl (fun _ active idle => absurd active idle)
        fun _ now => now
  | released phase empty change | leaked phase change =>
      exact settled.stepped coherent change rfl (by simp)
        (by simp [phase, Phase.root?]) (by simp)

theorem balanced_initial (schedule : Nat) :
    initial.scheduling.Balanced schedule := by
  refine ⟨rfl, ?_⟩
  intro poisoned
  cases poisoned

/-- What the wake protocol keeps while the executor is alive. -/
structure Kept (executor : Executor) : Prop where
  settled : executor.Settled
  balanced : executor.phase ≠ .dropped →
    ∀ schedule, executor.scheduling.Balanced schedule
  unpoisoned : ∀ schedule,
    (executor.scheduling.schedules schedule).poisoned = false

theorem kept_initial : initial.Kept :=
  ⟨settled_initial, fun _ => balanced_initial, fun _ => rfl⟩

theorem Kept.step (kept : executor.Kept) (sound : executor.Sound) {move : Move}
    (ends : executor.RootEnds move) (moved : Moved executor move next) :
    next.Kept where
  settled := kept.settled.step sound kept.balanced ends moved
  balanced := by
    intro alive schedule
    have living : executor.phase ≠ .dropped :=
      fun dropped => alive (moved.dropped dropped)
    have all := kept.balanced living
    apply moved.balanced sound.coherent sound.polling (all schedule) _ alive
    intro dispatch root entry phase taken
    subst dispatch
    refine ⟨fun _ => ends.admitted phase taken, ?_⟩
    intro target found
    rw [sound.coherent.answered sound.numbered phase taken found
      (kept.settled.ownRoot sound.coherent all root entry phase taken)]
  unpoisoned := by
    intro schedule
    apply moved.unpoisoned sound.polling (kept.unpoisoned schedule)
    intro dispatch root entry phase taken found
    have all := kept.balanced (by simp [phase])
    have answered := sound.coherent.answered sound.numbered phase taken found
      (kept.settled.ownRoot sound.coherent all root entry phase taken)
    exact answered ▸ queued_of_taken (all entry.sender) taken

theorem Kept.root_queued (kept : executor.Kept) {schedule : Nat}
    (below : schedule < executor.scheduling.created)
    (isRoot : (executor.scheduling.schedules schedule).id = rootTaskId)
    (queued : executor.scheduling.state schedule = .queued) :
    executor.phase.root? = some schedule := by
  by_contra idle
  rcases kept.settled.concluded schedule below isRoot idle with
    complete | ⟨notified, running⟩
  · rw [complete] at queued
    cases queued
  · rw [running] at queued
    cases queued

theorem Kept.ready_nodup (kept : executor.Kept) (sound : executor.Sound)
    (alive : executor.phase ≠ .dropped) :
    (executor.scheduling.ready.map ReadyEntry.id).Nodup := by
  have once : ∀ schedule,
      (executor.scheduling.ready.map ReadyEntry.sender).count schedule ≤ 1 := by
    intro schedule
    have count := (kept.balanced alive schedule).count
    rw [count_inFlight] at count
    split at count <;> omega
  have senders : (executor.scheduling.ready.map ReadyEntry.sender).Nodup :=
    List.nodup_iff_count_le_one.mpr once
  have queued : ∀ entry ∈ executor.scheduling.ready,
      executor.scheduling.state entry.sender = .queued := by
    intro entry member
    by_contra other
    have count := (kept.balanced alive entry.sender).count
    rw [count_inFlight, if_neg other] at count
    have present : 0 <
        (executor.scheduling.ready.map ReadyEntry.sender).count entry.sender :=
      List.count_pos_iff.mpr (List.mem_map_of_mem member)
    omega
  refine List.Nodup.map_on ?_ (List.Nodup.of_map _ senders)
  intro first firstMember second secondMember sameId
  apply List.inj_on_of_nodup_map senders firstMember secondMember
  obtain ⟨firstBelow, firstId⟩ :=
    sound.coherent.addressed.ready first firstMember
  obtain ⟨secondBelow, secondId⟩ :=
    sound.coherent.addressed.ready second secondMember
  have same := firstId.symm.trans (sameId.trans secondId)
  by_cases isRoot : (executor.scheduling.schedules first.sender).id = rootTaskId
  · have firstActive := kept.root_queued firstBelow isRoot
      (queued first firstMember)
    have secondActive := kept.root_queued secondBelow (same.symm.trans isRoot)
      (queued second secondMember)
    exact Option.some.inj (firstActive.symm.trans secondActive)
  · exact sound.numbered.once _ _ firstBelow secondBelow same isRoot

theorem run_kept (reach : machine.Reach RootEnds initial executor)
    (few : executor.spawned < 2 ^ 64 - 1) : executor.Sound ∧ executor.Kept := by
  apply run_invariant reach few sound_initial kept_initial
  intro executor move next sound kept ends moved _
  exact kept.step sound ends moved

theorem requested_iff (state : ScheduleState) :
    state.requested = true ↔ state = .queued ∨ state = .running true := by
  cases state with
  | running notified => cases notified <;> simp [ScheduleState.requested]
  | _ => simp [ScheduleState.requested]

/-- Wakes from any thread, at any time, and any number of calls of `block_on`:
no wakeup is lost, none is duplicated, and no poll meets an unexpected state. -/
theorem wakeups_answered_once (reach : machine.Reach RootEnds initial executor)
    (few : executor.spawned < 2 ^ 64 - 1) (alive : executor.phase ≠ .dropped) :
    (∀ schedule, executor.scheduling.inFlight.count schedule =
      if executor.scheduling.state schedule = .queued then 1 else 0) ∧
    (executor.scheduling.ready.map ReadyEntry.id).Nodup ∧
    (∀ schedule, executor.scheduling.state schedule ≠ .complete →
      latestPollUnwound schedule executor.scheduling.log = false →
      (wokenSincePoll schedule executor.scheduling.log = true ↔
        executor.scheduling.state schedule = .queued ∨
          executor.scheduling.state schedule = .running true)) ∧
    (∀ root entry target, executor.phase = .dispatching root →
      executor.scheduling.taken = some entry →
      executor.target? root entry.id = some target →
      entry.sender = target ∧
        ((executor.scheduling.schedules target).beginPoll).2 = .ok ()) ∧
    (∀ root id target result, executor.phase = .polling root id target →
      ∃ action, ((executor.scheduling.schedules target).finishPoll result).2 =
        .ok action) := by
  obtain ⟨sound, kept⟩ := run_kept reach few
  refine ⟨fun schedule => (kept.balanced alive schedule).count,
    kept.ready_nodup sound alive, ?_, ?_, ?_⟩
  · intro schedule incomplete clean
    rw [sound.heard schedule incomplete clean]
    exact requested_iff _
  · intro root entry target phase taken found
    have same := sound.coherent.answered sound.numbered phase taken found
      (kept.settled.ownRoot sound.coherent (kept.balanced alive) root entry phase
        taken)
    subst same
    exact ⟨rfl, begins_of_balanced (kept.balanced alive _) taken⟩
  · intro root id target result phase
    exact sound.polling.finishes phase result

/-- A task woken by another thread in the middle of its poll, then a second call
of `block_on`. -/
def wokenTaskMoves : List Move :=
  [.spawn, .send, .blockOn, .send, .drain, .settle, .tryRecv, .dispatch,
    .remoteWake 0, .endPoll .pending, .send, .remoteWake 1, .drain, .settle,
    .tryRecv, .dispatch, .endPoll (.ready ()), .leave, .remoteWake 1, .blockOn,
    .remoteWake 0, .send]

def wokenTask : Executor :=
  (machine.run RootEnds initial wokenTaskMoves).getD initial

theorem wakeups_answered_once_woken :
    wokenTask.scheduling.inFlight.count 0 = 1 ∧
      wokenTask.scheduling.inFlight.count 1 = 0 ∧
      (wokenTask.scheduling.ready.map ReadyEntry.id).Nodup := by
  have ran : machine.run RootEnds initial wokenTaskMoves = some wokenTask := rfl
  obtain ⟨count, distinct, _⟩ := wakeups_answered_once
    (Machine.reach_of_run ran) (by decide) (by decide)
  exact ⟨count 0, count 1, distinct⟩

end Executor

end Asyncr
