import Asyncr.Executor.Runs

namespace Asyncr

namespace Executor

open Library
open Scheduling

variable {executor next : Executor}

/-! Who holds a task: it waits to be admitted, or is admitted. -/

def Owned (executor : Executor) (schedule : Nat) : Prop :=
  (∃ task ∈ executor.pendingSpawns, task.schedule = schedule) ∨
    ∃ id task, executor.tasks.lookup id = some task ∧ task.schedule = schedule

theorem task_unique (sound : executor.Sound) {first second : LocalTask}
    (firstSends : Sends executor.scheduling first)
    (secondSends : Sends executor.scheduling second)
    (same : first.id = second.id) : first = second := by
  have schedules : first.schedule = second.schedule := by
    apply sound.numbered.once _ _ firstSends.created secondSends.created
    · rw [firstSends.id, secondSends.id, same]
    · rw [firstSends.id]
      exact firstSends.notRoot
  cases first with
  | mk id schedule =>
      cases second with
      | mk other otherSchedule =>
          cases same
          cases schedules
          rfl

theorem lookup_drained (sound : executor.Sound) {id : Id} {task : LocalTask}
    (sends : Sends executor.scheduling task) (isId : task.id = id)
    (origin : executor.tasks.lookup id = some task ∨
      task ∈ executor.pendingSpawns) :
    executor.drainPendingSpawns.tasks.lookup id = some task := by
  have present : id ∈ executor.drainPendingSpawns.tasks := by
    apply mem_drainPendingSpawns.mpr
    rcases origin with before | pending
    · exact Or.inl (AList.lookup_isSome.mp (by rw [before]; rfl))
    · exact Or.inr ⟨task, pending, isId⟩
  obtain ⟨other, found⟩ :=
    Option.isSome_iff_exists.mp (AList.lookup_isSome.mpr present)
  have otherSends : other.id = id ∧ Sends executor.scheduling other := by
    rcases lookup_drainPendingSpawns found with before | ⟨same, pending⟩
    · exact sound.coherent.tasks id other before
    · exact ⟨same, sound.coherent.pending other pending⟩
  rw [found, task_unique sound otherSends.2 sends (otherSends.1.trans isId.symm)]

theorem Moved.owned {move : Move} (moved : Moved executor move next)
    (sound : executor.Sound) {schedule : Nat} (owned : executor.Owned schedule) :
    next.Owned schedule ∨
      (∃ task rest, move = .clear ∧ executor.pendingSpawns = task :: rest ∧
        task.schedule = schedule) ∨
      (∃ id task, move = .destroy id ∧ executor.tasks.lookup id = some task ∧
        task.schedule = schedule) ∨
      ∃ root id, move = .endPoll (.ready ()) ∧ id ≠ rootTaskId ∧
        executor.phase = .polling root id schedule := by
  cases moved with
  | submitted runs unclosed change =>
      left
      rcases owned with ⟨task, pending, isTask⟩ | admitted
      · exact Or.inl ⟨task, List.mem_append_left _ pending, isTask⟩
      · exact Or.inr admitted
  | drain phase free =>
      left
      right
      rcases owned with ⟨task, pending, isTask⟩ | ⟨id, task, found, isTask⟩
      · exact ⟨task.id, task, lookup_drained sound
          (sound.coherent.pending task pending) rfl (Or.inr pending), isTask⟩
      · obtain ⟨isId, sends⟩ := sound.coherent.tasks id task found
        exact ⟨id, task, lookup_drained sound sends isId (Or.inl found), isTask⟩
  | @taskReady root target id _ _ phase notRoot finishes change =>
      rcases owned with pending | ⟨key, task, found, isTask⟩
      · exact Or.inl (Or.inl pending)
      · cases decEq key id with
        | isFalse different =>
            left
            right
            refine ⟨key, task, ?_, isTask⟩
            exact (AList.lookup_erase_ne different).trans found
        | isTrue same =>
            subst same
            obtain ⟨isId, sends⟩ := sound.coherent.tasks key task found
            obtain ⟨below, targetId, _⟩ :=
              sound.coherent.polled root key target phase
            have answered : task.schedule = target := by
              apply sound.numbered.once _ _ sends.created below
              · rw [sends.id, targetId, isId]
              · rw [sends.id]
                exact sends.notRoot
            refine Or.inr (Or.inr (Or.inr ⟨root, key, rfl, notRoot, ?_⟩))
            rw [phase, ← isTask, answered]
  | cleared phase free waiting =>
      rcases owned with ⟨task, pending, isTask⟩ | admitted
      · rw [waiting] at pending
        rcases List.mem_cons.mp pending with rfl | later
        · exact Or.inr (Or.inl ⟨_, _, rfl, waiting, isTask⟩)
        · exact Or.inl (Or.inl ⟨task, later, isTask⟩)
      · exact Or.inl (Or.inr admitted)
  | @destroyed id phase free member =>
      rcases owned with pending | ⟨key, task, found, isTask⟩
      · exact Or.inl (Or.inl pending)
      · cases decEq key id with
        | isFalse different =>
            left
            right
            refine ⟨key, task, ?_, isTask⟩
            exact (AList.lookup_erase_ne different).trans found
        | isTrue same =>
            subst same
            exact Or.inr (Or.inr (Or.inl ⟨key, task, rfl, found, isTask⟩))
  | _ => exact Or.inl owned

/-- The schedule is being polled, or will never be polled again. -/
def Busy (executor : Executor) (schedule : Nat) : Prop :=
  executor.scheduling.state schedule = .complete ∨
    ∃ notified, executor.scheduling.state schedule = .running notified

theorem Moved.busy {move : Move} (moved : Moved executor move next)
    (sound : executor.Sound) {schedule : Nat} (busy : executor.Busy schedule)
    (unsuspended : move = .endPoll .pending →
      ∀ root id, executor.phase ≠ .polling root id schedule) :
    next.Busy schedule := by
  have fresh := sound.coherent.addressed.fresh
  have finished : ∀ {root target : Nat} {id : Id} {result : Poll Unit}
      {scheduling : Scheduling}, executor.phase = .polling root id target →
      executor.scheduling.step (.finishPoll target result) = some scheduling →
      (result = .pending → schedule ≠ target) →
      scheduling.state schedule = .complete ∨
        ∃ notified, scheduling.state schedule = .running notified := by
    intro root target id result scheduling phase change other
    cases decEq schedule target with
    | isFalse different =>
        apply step_ended fresh change _ busy
        intro outcome same
        cases same
        exact different rfl
    | isTrue same =>
        subst same
        cases result with
        | pending => exact absurd rfl (other rfl)
        | ready =>
            obtain ⟨notified, after⟩ := sound.polling.finished_state phase change
            exact Or.inl after
  cases moved with
  | notFinished phase fails change =>
      obtain ⟨action, finishes⟩ := sound.polling.finishes phase _
      rw [fails] at finishes
      cases finishes
  | suspended phase finishes change =>
      apply finished phase change
      rintro _ rfl
      exact unsuspended rfl _ _ phase
  | rootReady phase finishes change => exact finished phase change nofun
  | taskReady phase notRoot finishes change => exact finished phase change nofun
  | remoteWake change | remoteSend change | wake runs change | send change
  | submitted runs unclosed change | blockOn phase change
  | tryReceived phase change | received phase change
  | notAdmitted phase taken missing change | notBegun phase taken found fails change
  | began phase taken found begins change | pollPanicked phase change
  | released phase empty change | leaked phase change =>
      exact step_ended fresh change nofun busy
  | _ => exact busy

theorem Moved.polled (moved : Moved executor .dispatch next)
    (coherent : executor.Coherent) {root schedule : Nat} {id : Id}
    (polled : next.phase = .polling root id schedule) :
    executor.phase = .dispatching root ∧
      executor.scheduling.state schedule = .queued ∧
      schedule < executor.scheduling.created ∧
      (executor.scheduling.schedules schedule).id = id := by
  cases moved with
  | began phase taken found begins change =>
      cases polled
      have active : executor.phase.root? = some root := by
        rw [phase]
        rfl
      obtain ⟨below, isId, _⟩ := coherent.target active found
      exact ⟨phase, (beginPoll_begun begins).2, below, isId⟩
  | notAdmitted phase taken missing change => cases polled
  | notBegun phase taken found fails change => cases polled

theorem Moved.polls {move : Move} (moved : Moved executor move next)
    {root schedule : Nat} {id : Id}
    (polled : next.phase = .polling root id schedule) :
    executor.phase = .polling root id schedule ∨ move = .dispatch := by
  cases moved with
  | began phase taken found begins change => exact Or.inr rfl
  | remoteWake change | remoteSend change | wake runs change | send change
  | refused runs closed | submitted runs unclosed change
  | cleared phase free pending | destroyed phase free member => exact Or.inl polled
  | _ => cases polled

theorem owned_of_spawn (step : executor.step .spawn = some next)
    (unclosed : executor.closed = false) :
    next.Owned executor.scheduling.created := by
  cases moved_of_step step with
  | refused runs closed =>
      rw [unclosed] at closed
      cases closed
  | submitted runs _ change =>
      exact Or.inl ⟨_, List.mem_append_right _ (List.mem_singleton.mpr rfl), rfl⟩

theorem Moved.polls_on {move : Move} (moved : Moved executor move next)
    {root schedule : Nat} {id : Id}
    (polled : executor.phase = .polling root id schedule) :
    next.phase = executor.phase ∨ move = .panic ∨
      ∃ result, move = .endPoll result := by
  cases moved with
  | pollPanicked phase change => exact Or.inr (Or.inl rfl)
  | notFinished phase fails change | suspended phase finishes change
  | rootReady phase finishes change | taskReady phase notRoot finishes change =>
      exact Or.inr (Or.inr ⟨_, rfl⟩)
  | remoteWake change | remoteSend change | wake runs change | send change
  | refused runs closed | submitted runs unclosed change
  | cleared phase free pending | destroyed phase free member => exact Or.inl rfl
  | blockOn phase _ | drain phase _ | settle phase _ | foundEmpty phase _ _
  | tryReceived phase _ | received phase _ | retry phase
  | notAdmitted phase _ _ _ | notBegun phase _ _ _ _ | began phase _ _ _ _
  | wakerPanicked phase _ | waitPanicked phase _ | leavingPanicked phase _
  | clearingPanicked phase _ _ | tearingPanicked phase _ _ | droppedPanicked phase _
  | unwound phase _ | left phase _ | closed phase _ | torn phase _ _
  | released phase _ _ | leaked phase _ => cases polled.symm.trans phase

theorem Moved.closes {move : Move} (moved : Moved executor move next)
    (closing : next.phase.closing = true) :
    executor.phase.closing = true ∨ move = .close := by
  cases moved with
  | closed phase free => exact Or.inr rfl
  | remoteWake change | remoteSend change | wake runs change | send change
  | refused runs closed | submitted runs unclosed change
  | cleared phase free pending | destroyed phase free member =>
      exact Or.inl closing
  | clearingPanicked phase _ _ | tearingPanicked phase _ _ | droppedPanicked phase _
  | torn phase _ _ | released phase _ _ | leaked phase _ =>
      left
      rw [phase]
      rfl
  | _ => cases closing

theorem Moved.closed_stays {move : Move} (moved : Moved executor move next)
    (closed : executor.closed = true) : next.closed = true := by
  cases moved with
  | closed phase free => rfl
  | _ => exact closed

theorem Moved.created {move : Move} (moved : Moved executor move next)
    (coherent : executor.Coherent) {schedule : Nat}
    (below : schedule < next.scheduling.created) :
    schedule < executor.scheduling.created ∨
      (move = .spawn ∧ schedule = executor.scheduling.created ∧
        (next.scheduling.schedules schedule).id ≠ rootTaskId) ∨
      move = .blockOn ∧ schedule = executor.scheduling.created ∧
        (next.scheduling.schedules schedule).id = rootTaskId := by
  have kept : ∀ {change : ScheduleStep} {scheduling : Scheduling},
      executor.scheduling.step change = some scheduling →
      created? change = none → schedule < scheduling.created →
      schedule < executor.scheduling.created := by
    intro change scheduling step old below
    rw [(step_ids old step).1] at below
    exact below
  cases moved with
  | @submitted scheduling runs unclosed change =>
      obtain ⟨_, grown, isId, _⟩ := coherent.created change
      change schedule < scheduling.created at below
      rcases Nat.lt_or_ge schedule executor.scheduling.created with old | new
      · exact Or.inl old
      · have same : schedule = executor.scheduling.created := by omega
        refine Or.inr (Or.inl ⟨rfl, same, ?_⟩)
        rw [same, isId]
        exact takeNextId_ne_root _
  | @blockOn scheduling phase change =>
      obtain ⟨_, grown, isId, _⟩ := coherent.created change
      change schedule < scheduling.created at below
      rcases Nat.lt_or_ge schedule executor.scheduling.created with old | new
      · exact Or.inl old
      · have same : schedule = executor.scheduling.created := by omega
        exact Or.inr (Or.inr ⟨rfl, same, same ▸ isId⟩)
  | remoteWake change | remoteSend change | wake runs change | send change
  | tryReceived phase change | received phase change
  | notAdmitted phase taken missing change | notBegun phase taken found fails change
  | began phase taken found begins change | notFinished phase fails change
  | suspended phase finishes change | rootReady phase finishes change
  | taskReady phase notRoot finishes change | pollPanicked phase change
  | released phase empty change | leaked phase change =>
      exact Or.inl (kept change rfl below)
  | _ => exact Or.inl below

/-- No task waits to be admitted that has been admitted, and one that is polled
has been. -/
structure Apart (executor : Executor) : Prop where
  waiting : ∀ task ∈ executor.pendingSpawns, task.id ∉ executor.tasks
  polled : ∀ root id schedule, executor.phase = .polling root id schedule →
    id ≠ rootTaskId →
    ∃ task, executor.tasks.lookup id = some task ∧ task.schedule = schedule

theorem apart_initial : initial.Apart where
  waiting := by
    intro task member
    cases member
  polled := by
    intro root id schedule phase
    cases phase

theorem lookup_erased {tasks : Tasks} {key id : Id} {task : LocalTask}
    (found : (tasks.erase key).lookup id = some task) :
    id ≠ key ∧ tasks.lookup id = some task := by
  cases decEq id key with
  | isTrue same =>
      subst same
      rw [AList.lookup_erase] at found
      cases found
  | isFalse different =>
      rw [AList.lookup_erase_ne different] at found
      exact ⟨different, found⟩

/-- The id of a spawn is no key of `tasks`. -/
theorem fresh_id (sound : executor.Sound) (after : next.Sound)
    {scheduling : Scheduling}
    (change : executor.scheduling.step
      (.create (takeNextId executor.nextId).1) = some scheduling)
    (same : next.scheduling = scheduling) (tasks : next.tasks = executor.tasks) :
    (takeNextId executor.nextId).1 ∉ executor.tasks := by
  obtain ⟨_, grown, isId, _⟩ := sound.coherent.created change
  intro present
  obtain ⟨other, found⟩ :=
    Option.isSome_iff_exists.mp (AList.lookup_isSome.mpr present)
  have below := (sound.coherent.tasks _ other found).2.created
  obtain ⟨sameId, sends⟩ := after.coherent.tasks _ other (tasks ▸ found)
  have equal : other.schedule = executor.scheduling.created := by
    apply after.numbered.once _ _ sends.created
    · rw [same, grown]
      exact Nat.lt_succ_self _
    · rw [sends.id, sameId, same, isId]
    · rw [sends.id]
      exact sends.notRoot
  omega

theorem Moved.apart {move : Move} (moved : Moved executor move next)
    (sound : executor.Sound) (after : next.Sound) (apart : executor.Apart) :
    next.Apart := by
  have unpolled : ∀ {tasks : Tasks} {phase : Phase},
      (∀ root id schedule, phase ≠ .polling root id schedule) →
      ∀ root id schedule, phase = .polling root id schedule → id ≠ rootTaskId →
        ∃ task, tasks.lookup id = some task ∧ task.schedule = schedule :=
    fun other root id schedule phase => absurd phase (other root id schedule)
  cases moved with
  | submitted runs unclosed change =>
      refine ⟨?_, apart.polled⟩
      intro task member
      rcases List.mem_append.mp member with old | new
      · exact apart.waiting task old
      · cases List.mem_singleton.mp new
        exact fresh_id sound after change rfl rfl
  | drain phase free => exact ⟨nofun, unpolled nofun⟩
  | began phase taken found begins change =>
      refine ⟨apart.waiting, ?_⟩
      intro root id schedule polled notRoot
      cases polled
      simpa [target?, notRoot] using found
  | taskReady phase notRoot finishes change =>
      refine ⟨?_, unpolled nofun⟩
      intro task member present
      exact apart.waiting task member (AList.mem_erase.mp present).2
  | cleared phase free pending =>
      refine ⟨?_, unpolled (by simp [phase])⟩
      intro task member
      exact apart.waiting task (pending ▸ List.mem_cons_of_mem _ member)
  | destroyed phase free member =>
      refine ⟨?_, unpolled (by simp [phase])⟩
      intro task waiting present
      exact apart.waiting task waiting (AList.mem_erase.mp present).2
  | remoteWake change => exact ⟨apart.waiting, apart.polled⟩
  | remoteSend change => exact ⟨apart.waiting, apart.polled⟩
  | wake runs change => exact ⟨apart.waiting, apart.polled⟩
  | send change => exact ⟨apart.waiting, apart.polled⟩
  | refused runs closed => exact apart
  | _ => exact ⟨apart.waiting, unpolled nofun⟩

theorem Moved.owned_back {move : Move} (moved : Moved executor move next)
    {schedule : Nat} (owned : next.Owned schedule) :
    executor.Owned schedule ∨ schedule = executor.scheduling.created := by
  cases moved with
  | submitted runs unclosed change =>
      rcases owned with ⟨task, member, isTask⟩ | admitted
      · rcases List.mem_append.mp member with old | new
        · exact Or.inl (Or.inl ⟨task, old, isTask⟩)
        · cases List.mem_singleton.mp new
          exact Or.inr isTask.symm
      · exact Or.inl (Or.inr admitted)
  | drain phase free =>
      left
      rcases owned with ⟨task, member, _⟩ | ⟨id, task, found, isTask⟩
      · cases member
      · rcases lookup_drainPendingSpawns found with before | ⟨_, pending⟩
        · exact Or.inr ⟨id, task, before, isTask⟩
        · exact Or.inl ⟨task, pending, isTask⟩
  | taskReady phase notRoot finishes change =>
      left
      rcases owned with pending | ⟨id, task, found, isTask⟩
      · exact Or.inl pending
      · exact Or.inr ⟨id, task, (lookup_erased found).2, isTask⟩
  | cleared phase free pending =>
      left
      rcases owned with ⟨task, member, isTask⟩ | admitted
      · exact Or.inl ⟨task, pending ▸ List.mem_cons_of_mem _ member, isTask⟩
      · exact Or.inr admitted
  | destroyed phase free member =>
      left
      rcases owned with pending | ⟨id, task, found, isTask⟩
      · exact Or.inl pending
      · exact Or.inr ⟨id, task, (lookup_erased found).2, isTask⟩
  | _ => exact Or.inl owned

theorem Moved.complete {move : Move} (moved : Moved executor move next)
    (coherent : executor.Coherent) {schedule : Nat}
    (complete : executor.scheduling.state schedule = .complete) :
    next.scheduling.state schedule = .complete := by
  rcases moved.change with same | ⟨change, _, step⟩
  · rw [same]
    exact complete
  · have transition := step_transition coherent.addressed.fresh step schedule
    rw [complete] at transition
    exact transition.complete

theorem unowned_of_finished (sound : executor.Sound) (apart : executor.Apart)
    (step : executor.step (.endPoll (.ready ())) = some next)
    {root schedule : Nat} {id : Id}
    (polled : executor.phase = .polling root id schedule)
    (notRoot : id ≠ rootTaskId) :
    ¬ next.Owned schedule ∧ next.scheduling.state schedule = .complete := by
  obtain ⟨_, isId, _⟩ := sound.coherent.polled root id schedule polled
  cases moved_of_step step with
  | notFinished phase fails change =>
      obtain ⟨action, finishes⟩ := sound.polling.finishes phase _
      rw [fails] at finishes
      cases finishes
  | rootReady phase finishes change =>
      cases phase.symm.trans polled
      exact absurd rfl notRoot
  | taskReady phase _ finishes change =>
      cases phase.symm.trans polled
      obtain ⟨notified, complete⟩ := sound.polling.finished_state phase change
      refine ⟨?_, complete⟩
      rintro (⟨task, member, rfl⟩ | ⟨key, task, found, rfl⟩)
      · obtain ⟨other, admitted, _⟩ := apart.polled root id _ polled notRoot
        apply apart.waiting task member
        rw [← (sound.coherent.pending task member).id, isId]
        exact AList.lookup_isSome.mp (by rw [admitted]; rfl)
      · obtain ⟨different, before⟩ := lookup_erased found
        obtain ⟨isKey, sends⟩ := sound.coherent.tasks key task before
        exact different (by rw [← isKey, ← sends.id, isId])

end Executor

end Asyncr
