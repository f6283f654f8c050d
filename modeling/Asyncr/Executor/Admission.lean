import Asyncr.Executor.Runs

namespace Asyncr

namespace Executor

open Library
open Scheduling

variable {executor next : Executor}

/-! Every id that `next_ready_id` returns is a key of `tasks`, unless a waker that
`process_expired` calls spawns into an empty channel. -/

/-- A task spawned while `process_expired` wakes finds the channel not empty when
its id is sent. -/
def admits (executor : Executor) : Move → Bool
  | .send =>
      match executor.phase, executor.scheduling.own with
      | .expiring _, some schedule =>
          !executor.scheduling.ready.isEmpty ||
            executor.pendingSpawns.all fun task => task.schedule != schedule
      | _, _ => true
  | _ => true

def Admits (executor : Executor) (move : Move) : Prop :=
  executor.admits move = true

instance (executor : Executor) (move : Move) :
    Decidable (executor.Admits move) :=
  inferInstanceAs (Decidable (_ = true))

/-- `poll_task` will find the task of the entry. -/
def Admitted (executor : Executor) (entry : ReadyEntry) : Prop :=
  entry.id = rootTaskId ∨ entry.id ∈ executor.tasks

structure Admission (executor : Executor) : Prop where
  balanced : executor.phase ≠ .dropped →
    ∀ schedule, schedule < executor.scheduling.created →
      (executor.scheduling.schedules schedule).id ≠ rootTaskId →
      executor.scheduling.Balanced schedule
  live : executor.closed = false →
    ∀ schedule, schedule < executor.scheduling.created →
      (executor.scheduling.schedules schedule).id ≠ rootTaskId →
      executor.scheduling.state schedule ≠ .complete →
      (∃ task ∈ executor.pendingSpawns, task.schedule = schedule) ∨
        (executor.scheduling.schedules schedule).id ∈ executor.tasks
  head : ∀ root, executor.phase = .expiring root ∨
      executor.phase = .receiving root →
    ∀ entry, executor.scheduling.ready.head? = some entry →
      executor.Admitted entry
  taken : ∀ root entry, executor.phase = .dispatching root →
    executor.scheduling.taken = some entry → executor.Admitted entry

theorem admission_initial : initial.Admission where
  balanced := by
    intro _ schedule below
    cases below
  live := by
    intro _ schedule below
    cases below
  head := by
    intro root phase
    rcases phase with phase | phase <;> cases phase
  taken := by
    intro root entry phase
    cases phase

theorem balanced_uncreated {scheduling : Scheduling}
    (addressed : scheduling.Addressed) {schedule : Nat}
    (uncreated : scheduling.created ≤ schedule) :
    scheduling.Balanced schedule := by
  have absent : schedule ∉ scheduling.inFlight := by
    intro member
    rcases List.mem_append.mp member with ready | others
    · obtain ⟨entry, inReady, rfl⟩ := List.mem_map.mp ready
      exact absurd (addressed.ready entry inReady).1 (Nat.not_lt.mpr uncreated)
    · rcases List.mem_append.mp others with taken | others
      · obtain ⟨entry, isTaken, rfl⟩ := List.mem_map.mp taken
        exact absurd (addressed.taken entry (Option.mem_toList.mp isTaken)).1
          (Nat.not_lt.mpr uncreated)
      · rcases List.mem_append.mp others with sending | own
        · exact absurd (addressed.sending schedule sending)
            (Nat.not_lt.mpr uncreated)
        · exact absurd (addressed.own schedule (Option.mem_toList.mp own))
            (Nat.not_lt.mpr uncreated)
  have blank := addressed.fresh schedule uncreated
  refine ⟨?_, ?_⟩
  · rw [List.count_eq_zero_of_not_mem absent]
    unfold Scheduling.state
    rw [blank]
    rfl
  · intro poisoned
    rw [blank] at poisoned
    cases poisoned

theorem Admission.live_of_inFlight (admission : executor.Admission)
    (sound : executor.Sound) (unclosed : executor.closed = false)
    {schedule : Nat} (member : schedule ∈ executor.scheduling.inFlight)
    (below : schedule < executor.scheduling.created)
    (notRoot : (executor.scheduling.schedules schedule).id ≠ rootTaskId) :
    (∃ task ∈ executor.pendingSpawns, task.schedule = schedule) ∨
      (executor.scheduling.schedules schedule).id ∈ executor.tasks := by
  have alive : executor.phase ≠ .dropped := by
    intro dropped
    have closing := sound.closing
    unfold Closing at closing
    rw [unclosed, dropped] at closing
    cases closing
  have count := (admission.balanced alive schedule below notRoot).count
  have present : 0 < executor.scheduling.inFlight.count schedule :=
    List.count_pos_iff.mpr member
  apply admission.live unclosed schedule below notRoot
  intro complete
  rw [complete] at count
  simp at count
  exact absurd member (List.count_eq_zero.mp (by simpa using count))

theorem Admission.balanced_step (admission : executor.Admission)
    (sound : executor.Sound) {move : Move} (moved : Moved executor move next)
    (alive : next.phase ≠ .dropped) (schedule : Nat)
    (below : schedule < next.scheduling.created)
    (notRoot : (next.scheduling.schedules schedule).id ≠ rootTaskId) :
    next.scheduling.Balanced schedule := by
  have living : executor.phase ≠ .dropped :=
    fun dropped => alive (moved.dropped dropped)
  obtain ⟨grown, ids⟩ := moved.ids
  have before : executor.scheduling.Balanced schedule := by
    cases Nat.lt_or_ge schedule executor.scheduling.created with
    | inl old =>
        exact admission.balanced living schedule old (ids schedule old ▸ notRoot)
    | inr new => exact balanced_uncreated sound.coherent.addressed new
  apply moved.balanced sound.coherent sound.polling before _ alive
  intro _ root entry phase taken
  obtain ⟨senderBelow, address⟩ := sound.coherent.addressed.taken entry taken
  refine ⟨?_, ?_⟩
  · intro _ missing
    rcases admission.taken root entry phase taken with isRoot | member
    · simp [target?, isRoot] at missing
    · unfold target? at missing
      split at missing
      · cases missing
      · rw [Option.map_eq_none_iff, AList.lookup_eq_none] at missing
        exact missing member
  · intro target found
    cases Nat.lt_or_ge schedule executor.scheduling.created with
    | inl old =>
        exact sound.coherent.answers_task sound.numbered phase taken found old
          (ids schedule old ▸ notRoot)
    | inr new =>
        have targetBelow :=
          (sound.coherent.target (by rw [phase]; rfl) found).1
        constructor
        · rintro rfl
          exact absurd senderBelow (Nat.not_lt.mpr new)
        · rintro rfl
          exact absurd targetBelow (Nat.not_lt.mpr new)

theorem Admission.live_stepped (admission : executor.Admission)
    (sound : executor.Sound) {change : ScheduleStep} {scheduling : Scheduling}
    (stepped : executor.scheduling.step change = some scheduling)
    (old : created? change = none) (unclosed : executor.closed = false)
    {schedule : Nat} (below : schedule < scheduling.created)
    (notRoot : (scheduling.schedules schedule).id ≠ rootTaskId)
    (incomplete : scheduling.state schedule ≠ .complete) :
    (∃ task ∈ executor.pendingSpawns, task.schedule = schedule) ∨
      (scheduling.schedules schedule).id ∈ executor.tasks := by
  obtain ⟨created, ids⟩ := step_ids old stepped
  rw [ids] at notRoot ⊢
  apply admission.live unclosed schedule (created ▸ below) notRoot
  intro complete
  have transition :=
    step_transition sound.coherent.addressed.fresh stepped schedule
  rw [complete] at transition
  exact incomplete transition.complete

theorem Admission.live_created (admission : executor.Admission)
    (sound : executor.Sound) {id : Id} {scheduling : Scheduling}
    (stepped : executor.scheduling.step (.create id) = some scheduling)
    (unclosed : executor.closed = false) {schedule : Nat}
    (old : schedule < executor.scheduling.created)
    (notRoot : (scheduling.schedules schedule).id ≠ rootTaskId)
    (incomplete : scheduling.state schedule ≠ .complete) :
    (∃ task ∈ executor.pendingSpawns, task.schedule = schedule) ∨
      (scheduling.schedules schedule).id ∈ executor.tasks := by
  obtain ⟨_, _, _, ids⟩ := sound.coherent.created stepped
  have state : scheduling.state schedule = executor.scheduling.state schedule := by
    rw [step_create stepped]
    exact (state_setSchedule _ _ _ _).trans (if_neg (Nat.ne_of_lt old))
  rw [ids schedule old] at notRoot ⊢
  exact admission.live unclosed schedule old notRoot (state ▸ incomplete)

theorem Admission.live_step (admission : executor.Admission)
    (sound : executor.Sound) {move : Move} (moved : Moved executor move next)
    (unclosed : next.closed = false) (schedule : Nat)
    (below : schedule < next.scheduling.created)
    (notRoot : (next.scheduling.schedules schedule).id ≠ rootTaskId)
    (incomplete : next.scheduling.state schedule ≠ .complete) :
    (∃ task ∈ next.pendingSpawns, task.schedule = schedule) ∨
      (next.scheduling.schedules schedule).id ∈ next.tasks := by
  have shut : executor.phase.closing = true → executor.closed = true :=
    fun closing => sound.closing.trans closing
  cases moved with
  | remoteWake change =>
      exact admission.live_stepped sound change rfl unclosed below notRoot incomplete
  | remoteSend change =>
      exact admission.live_stepped sound change rfl unclosed below notRoot incomplete
  | wake runs change =>
      exact admission.live_stepped sound change rfl unclosed below notRoot incomplete
  | send change =>
      exact admission.live_stepped sound change rfl unclosed below notRoot incomplete
  | refused runs closed =>
      exact admission.live unclosed schedule below notRoot incomplete
  | @submitted scheduling runs unclosedBefore change =>
      obtain ⟨_, grown, _, _⟩ := sound.coherent.created change
      have range : schedule < executor.scheduling.created ∨
          schedule = executor.scheduling.created := by
        have bound : schedule < scheduling.created := below
        omega
      rcases range with old | rfl
      · refine (admission.live_created sound change unclosed old notRoot
          incomplete).imp_left ?_
        rintro ⟨task, member, isTask⟩
        exact ⟨task, List.mem_append_left _ member, isTask⟩
      · left
        exact ⟨_, List.mem_append_right _ (List.mem_singleton.mpr rfl), rfl⟩
  | @blockOn scheduling outside change =>
      obtain ⟨_, grown, newId, _⟩ := sound.coherent.created change
      have range : schedule < executor.scheduling.created ∨
          schedule = executor.scheduling.created := by
        have bound : schedule < scheduling.created := below
        omega
      rcases range with old | rfl
      · exact admission.live_created sound change unclosed old notRoot incomplete
      · exact absurd newId notRoot
  | drain phase free =>
      right
      apply mem_drainPendingSpawns.mpr
      rcases admission.live unclosed schedule below notRoot incomplete with
        ⟨task, member, rfl⟩ | member
      · exact Or.inr ⟨task, member,
          (sound.coherent.pending task member).id.symm⟩
      · exact Or.inl member
  | settle phase free =>
      exact admission.live unclosed schedule below notRoot incomplete
  | foundEmpty phase free empty =>
      exact admission.live unclosed schedule below notRoot incomplete
  | tryReceived phase change =>
      exact admission.live_stepped sound change rfl unclosed below notRoot incomplete
  | received phase change =>
      exact admission.live_stepped sound change rfl unclosed below notRoot incomplete
  | retry phase =>
      exact admission.live unclosed schedule below notRoot incomplete
  | notAdmitted phase taken missing change =>
      exact admission.live_stepped sound change rfl unclosed below notRoot incomplete
  | notBegun phase taken found fails change =>
      exact admission.live_stepped sound change rfl unclosed below notRoot incomplete
  | began phase taken found begun change =>
      exact admission.live_stepped sound change rfl unclosed below notRoot incomplete
  | notFinished phase fails change =>
      exact admission.live_stepped sound change rfl unclosed below notRoot incomplete
  | suspended phase finishes change =>
      exact admission.live_stepped sound change rfl unclosed below notRoot incomplete
  | rootReady phase finishes change =>
      exact admission.live_stepped sound change rfl unclosed below notRoot incomplete
  | @taskReady root target id _ _ phase isTask finishes change =>
      refine (admission.live_stepped sound change rfl unclosed below notRoot
        incomplete).imp_right fun member => ?_
      apply AList.mem_erase.mpr
      refine ⟨?_, member⟩
      intro same
      obtain ⟨created, ids⟩ := step_ids rfl change
      obtain ⟨targetBelow, targetId, _⟩ :=
        sound.coherent.polled root id target phase
      obtain ⟨_, complete⟩ := sound.polling.finished_state phase change
      have equal := sound.numbered.once schedule target
        (created ▸ below) targetBelow
        ((ids schedule).symm.trans (same.trans targetId.symm))
        ((ids schedule).symm.trans_ne notRoot)
      subst equal
      exact incomplete complete
  | pollPanicked phase change =>
      exact admission.live_stepped sound change rfl unclosed below notRoot incomplete
  | wakerPanicked phase free =>
      exact admission.live unclosed schedule below notRoot incomplete
  | waitPanicked phase free =>
      exact admission.live unclosed schedule below notRoot incomplete
  | leavingPanicked phase free =>
      exact admission.live unclosed schedule below notRoot incomplete
  | clearingPanicked phase free unfailing | tearingPanicked phase free unfailing
  | droppedPanicked phase free =>
      exact admission.live unclosed schedule below notRoot incomplete
  | unwound phase free =>
      exact admission.live unclosed schedule below notRoot incomplete
  | left phase free =>
      exact admission.live unclosed schedule below notRoot incomplete
  | closed phase free => cases unclosed
  | cleared phase free pending =>
      have closed := shut (by rw [phase]; rfl)
      exact absurd (closed.symm.trans unclosed) (by simp)
  | torn phase free pending =>
      exact admission.live unclosed schedule below notRoot incomplete
  | destroyed phase free member =>
      have closed := shut (by rw [phase]; rfl)
      exact absurd (closed.symm.trans unclosed) (by simp)
  | released phase empty change | leaked phase change =>
      exact admission.live_stepped sound change rfl unclosed below notRoot incomplete

theorem open_of_phase (sound : executor.Sound)
    (still : executor.phase.closing = false) : executor.closed = false :=
  sound.closing.trans still

theorem Admission.ready (admission : executor.Admission) (sound : executor.Sound)
    (unclosed : executor.closed = false) {entry : ReadyEntry}
    (member : entry ∈ executor.scheduling.ready) :
    executor.Admitted entry ∨
      ∃ task ∈ executor.pendingSpawns, task.schedule = entry.sender := by
  obtain ⟨below, address⟩ := sound.coherent.addressed.ready entry member
  by_cases isRoot : entry.id = rootTaskId
  · exact Or.inl (Or.inl isRoot)
  · have inFlight : entry.sender ∈ executor.scheduling.inFlight :=
      List.mem_append_left _ (List.mem_map_of_mem member)
    rcases admission.live_of_inFlight sound unclosed inFlight below
      (address ▸ isRoot) with pending | present
    · exact Or.inr pending
    · exact Or.inl (Or.inr (address ▸ present))

theorem Admission.sending_admitted (admission : executor.Admission)
    (sound : executor.Sound) {root : Nat}
    (phase : executor.phase = .expiring root ∨ executor.phase = .receiving root)
    {schedule : Nat} (member : schedule ∈ executor.scheduling.sending) :
    executor.Admitted ⟨(executor.scheduling.schedules schedule).id, schedule⟩ := by
  have below := sound.coherent.addressed.sending schedule member
  have unclosed : executor.closed = false := by
    apply open_of_phase sound
    rcases phase with phase | phase <;> rw [phase] <;> rfl
  have alive : executor.phase ≠ .dropped := by
    rcases phase with phase | phase <;> rw [phase] <;> simp
  by_cases isRoot :
      (executor.scheduling.schedules schedule).id = rootTaskId
  · exact Or.inl isRoot
  · have inFlight : schedule ∈ executor.scheduling.inFlight := by
      simp [inFlight, member]
    rcases admission.live_of_inFlight sound unclosed inFlight below isRoot with
      ⟨task, pending, rfl⟩ | present
    · exfalso
      have count := (admission.balanced alive _ below isRoot).count
      rw [count_inFlight] at count
      have sending := List.count_pos_iff.mpr member
      rcases sound.entered.entered root phase task pending with own | sent
      · simp only [own, Option.toList_some, List.count_singleton_self] at count
        split at count <;> omega
      · have ready := List.count_pos_iff.mpr sent
        split at count <;> omega
    · exact Or.inr present

theorem Admission.head_stepped (admission : executor.Admission)
    (sound : executor.Sound) {root : Nat}
    (phase : executor.phase = .expiring root ∨ executor.phase = .receiving root)
    {change : ScheduleStep} {scheduling : Scheduling}
    (stepped : executor.scheduling.step change = some scheduling)
    (unreceived : change ≠ .receive) (attached : change ≠ .disconnect)
    (own : ∀ schedule, change = .send →
      executor.scheduling.own = some schedule → executor.scheduling.ready = [] →
      executor.Admitted
        ⟨(executor.scheduling.schedules schedule).id, schedule⟩)
    {entry : ReadyEntry} (first : scheduling.ready.head? = some entry) :
    executor.Admitted entry := by
  rcases step_ready stepped unreceived attached with
    same | ⟨schedule, grown, origin⟩
  · exact admission.head root phase entry (same ▸ first)
  · rw [grown] at first
    cases before : executor.scheduling.ready with
    | cons head rest =>
        rw [before] at first
        exact admission.head root phase entry (by rw [before]; exact first)
    | nil =>
        rw [before] at first
        cases first
        rcases origin with ⟨_, member⟩ | ⟨isSend, holds⟩
        · exact admission.sending_admitted sound phase member
        · exact own schedule isSend holds before

theorem Admits.send (admits : executor.Admits .send) {root : Nat}
    (phase : executor.phase = .expiring root) {schedule : Nat}
    (own : executor.scheduling.own = some schedule)
    (empty : executor.scheduling.ready = []) :
    ∀ task ∈ executor.pendingSpawns, task.schedule ≠ schedule := by
  simpa [Admits, Executor.admits, phase, own, empty] using admits

theorem Admission.head_step (admission : executor.Admission)
    (sound : executor.Sound) {move : Move} (moved : Moved executor move next)
    (admits : executor.Admits move) {root : Nat}
    (phase : next.phase = .expiring root ∨ next.phase = .receiving root)
    {entry : ReadyEntry}
    (first : next.scheduling.ready.head? = some entry) :
    next.Admitted entry := by
  cases moved with
  | remoteWake change =>
      exact admission.head_stepped sound phase change (by simp) (by simp)
        (by simp) first
  | remoteSend change =>
      exact admission.head_stepped sound phase change (by simp) (by simp)
        (by simp) first
  | wake runs change =>
      exact admission.head_stepped sound phase change (by simp) (by simp)
        (by simp) first
  | send change =>
      apply admission.head_stepped sound phase change (by simp) (by simp) _ first
      intro schedule _ own empty
      by_cases isRoot :
          (executor.scheduling.schedules schedule).id = rootTaskId
      · exact Or.inl isRoot
      · have unclosed : executor.closed = false := by
          apply open_of_phase sound
          rcases phase with phase | phase <;> rw [phase] <;> rfl
        have inFlight : schedule ∈ executor.scheduling.inFlight := by
          simp [inFlight, own]
        rcases admission.live_of_inFlight sound unclosed inFlight
          (sound.coherent.addressed.own schedule own) isRoot with
          ⟨task, pending, isTask⟩ | present
        · rcases phase with expiring | receiving
          · exact absurd isTask (admits.send expiring own empty task pending)
          · rw [sound.entered.receiving root receiving] at own
            cases own
        · exact Or.inr present
  | refused runs closed => exact admission.head root phase entry first
  | submitted runs unclosed change =>
      exact admission.head_stepped sound phase change (by simp) (by simp)
        (by simp) first
  | @drain current before free =>
      have unclosed := open_of_phase sound (by rw [before]; rfl)
      have member : entry ∈ executor.scheduling.ready :=
        List.mem_of_mem_head? first
      rcases admission.ready sound unclosed member with
        (isRoot | present) | ⟨task, pending, isTask⟩
      · exact Or.inl isRoot
      · exact Or.inr (mem_drainPendingSpawns.mpr (Or.inl present))
      · right
        apply mem_drainPendingSpawns.mpr
        refine Or.inr ⟨task, pending, ?_⟩
        rw [(sound.coherent.addressed.ready entry member).2, ← isTask]
        exact (sound.coherent.pending task pending).id.symm
  | settle before free => exact admission.head _ (Or.inl before) entry first
  | cleared before free pending =>
      rcases phase with phase | phase
      · exact absurd (before.symm.trans phase) (by simp)
      · exact absurd (before.symm.trans phase) (by simp)
  | destroyed before free member =>
      rcases phase with phase | phase
      · exact absurd (before.symm.trans phase) (by simp)
      · exact absurd (before.symm.trans phase) (by simp)
  | _ => rcases phase with phase | phase <;> cases phase

theorem Admission.taken_step (admission : executor.Admission)
    (sound : executor.Sound) {move : Move} (moved : Moved executor move next)
    {root : Nat} {entry : ReadyEntry} (phase : next.phase = .dispatching root)
    (taken : next.scheduling.taken = some entry) : next.Admitted entry := by
  have kept : ∀ {change : ScheduleStep} {scheduling : Scheduling},
      executor.scheduling.step change = some scheduling → change ≠ .receive →
      executor.phase = .dispatching root → scheduling.taken = some entry →
      executor.Admitted entry := by
    intro change scheduling stepped unreceived before holds
    rcases step_taken unreceived stepped with same | none
    · exact admission.taken root entry before (same ▸ holds)
    · rw [none] at holds
      cases holds
  cases moved with
  | remoteWake change => exact kept change (by simp) phase taken
  | remoteSend change => exact kept change (by simp) phase taken
  | wake runs change => exact kept change (by simp) phase taken
  | send change => exact kept change (by simp) phase taken
  | refused runs closed => exact admission.taken root entry phase taken
  | submitted runs unclosed change => exact kept change (by simp) phase taken
  | @tryReceived current _ before change =>
      obtain ⟨head, rest, ready, _, _, rfl⟩ := step_receive change
      cases taken
      exact admission.head current (Or.inr before) entry (by rw [ready]; rfl)
  | @received current _ before change =>
      obtain ⟨head, rest, ready, _, _, rfl⟩ := step_receive change
      cases taken
      have unclosed := open_of_phase sound (by rw [before]; rfl)
      rcases admission.ready sound unclosed
        (by rw [ready]; exact List.mem_cons_self) with
        admitted | ⟨task, pending, _⟩
      · exact admitted
      · rw [(sound.entered.waiting current before).2] at pending
        cases pending
  | cleared before free pending =>
      exact absurd (before.symm.trans phase) (by simp)
  | destroyed before free member =>
      exact absurd (before.symm.trans phase) (by simp)
  | _ => cases phase

theorem Admission.step (admission : executor.Admission) (sound : executor.Sound)
    {move : Move} (admits : executor.Admits move)
    (moved : Moved executor move next) : next.Admission where
  balanced := admission.balanced_step sound moved
  live := admission.live_step sound moved
  head := fun _ phase _ first => admission.head_step sound moved admits phase first
  taken := fun _ _ phase taken => admission.taken_step sound moved phase taken

theorem run_admission (reach : machine.Reach Admits initial executor)
    (few : executor.spawned < 2 ^ 64 - 1) :
    executor.Sound ∧ executor.Admission := by
  apply run_invariant reach few sound_initial admission_initial
  intro executor move next sound admission admits moved _
  exact admission.step sound admits moved

theorem Admission.target (admission : executor.Admission) {root : Nat}
    {entry : ReadyEntry} (phase : executor.phase = .dispatching root)
    (taken : executor.scheduling.taken = some entry) :
    ∃ schedule, executor.target? root entry.id = some schedule := by
  by_cases isRoot : entry.id = rootTaskId
  · exact ⟨root, if_pos isRoot⟩
  · have member : entry.id ∈ executor.tasks :=
      (admission.taken root entry phase taken).resolve_left isRoot
    obtain ⟨task, present⟩ :=
      Option.isSome_iff_exists.mp (AList.lookup_isSome.mpr member)
    exact ⟨task.schedule, by simp [target?, isRoot, present]⟩

/-- Whatever id `next_ready_id` returns, `poll_task` finds its task, unless a
waker that `process_expired` called has spawned into an empty channel. -/
theorem ready_ids_admitted (reach : machine.Reach Admits initial executor)
    (few : executor.spawned < 2 ^ 64 - 1) {root : Nat} {entry : ReadyEntry}
    (phase : executor.phase = .dispatching root)
    (taken : executor.scheduling.taken = some entry)
    (notRoot : entry.id ≠ rootTaskId) :
    entry.id ∈ executor.tasks ∧
      ∃ schedule, executor.target? root entry.id = some schedule := by
  obtain ⟨_, admission⟩ := run_admission reach few
  exact ⟨(admission.taken root entry phase taken).resolve_left notRoot,
    admission.target phase taken⟩

/-- A task spawned before `block_on`, and one by the root's poll. -/
def admittedTaskMoves : List Move :=
  [.spawn, .send, .blockOn, .send, .drain, .settle, .tryRecv, .dispatch,
    .endPoll .pending, .drain, .settle, .tryRecv, .dispatch, .spawn, .send,
    .endPoll .pending, .drain, .settle, .tryRecv]

def admittedTask : Executor :=
  (machine.run Admits initial admittedTaskMoves).getD initial

theorem ready_ids_admitted_spawned : (⟨2⟩ : Id) ∈ admittedTask.tasks := by
  have ran : machine.run Admits initial admittedTaskMoves = some admittedTask := rfl
  have taken : admittedTask.scheduling.taken = some ⟨⟨2⟩, 2⟩ := rfl
  have phase : admittedTask.phase = .dispatching 1 := rfl
  exact (ready_ids_admitted (Machine.reach_of_run ran) (by decide) phase taken
    (by decide)).1

/-- No future and no waker panics. -/
def Calm (_ : Executor) (move : Move) : Prop :=
  move ≠ .panic

instance (executor : Executor) (move : Move) : Decidable (executor.Calm move) :=
  inferInstanceAs (Decidable (_ ≠ _))

/-- The root sleeps; the waker of its timer spawns a task. -/
def spawningWakerMoves : List Move :=
  [.blockOn, .send, .drain, .settle, .tryRecv, .dispatch, .endPoll .pending,
    .drain, .settle, .tryRecv, .retry, .drain, .spawn, .send, .settle, .tryRecv]

def spawningWaker : Executor :=
  (machine.run Calm initial spawningWakerMoves).getD initial

/-- The id of a task that has not been admitted is returned by `next_ready_id`,
and `expect` panics. -/
theorem ready_id_not_admitted :
    machine.Reach Calm initial spawningWaker ∧
      spawningWaker.spawned < 2 ^ 64 - 1 ∧
      spawningWaker.phase = .dispatching 0 ∧
      spawningWaker.scheduling.taken = some ⟨⟨1⟩, 1⟩ ∧
      (⟨1⟩ : Id) ≠ rootTaskId ∧
      (⟨1⟩ : Id) ∉ spawningWaker.tasks ∧
      (machine.step spawningWaker .dispatch).map Executor.phase =
        some .unwinding := by
  have ran : machine.run Calm initial spawningWakerMoves = some spawningWaker := rfl
  exact ⟨Machine.reach_of_run ran, by decide, rfl, rfl, by decide, by decide, rfl⟩

end Executor

end Asyncr
