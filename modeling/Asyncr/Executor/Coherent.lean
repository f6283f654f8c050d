import Mathlib.Algebra.Order.Ring.Nat
import Asyncr.Executor.Moves
import Asyncr.Scheduling.Transitions

namespace Asyncr

namespace Executor

variable {executor next : Executor}

def change? (executor : Executor) : Move → Option ScheduleStep
  | .remoteWake schedule => some (.remoteWake schedule)
  | .remoteSend schedule => some (.remoteSend schedule)
  | .wake schedule => some (.wake schedule)
  | .send => some .send
  | .spawn => some (.create (takeNextId executor.nextId).1)
  | .blockOn => some (.create rootTaskId)
  | .tryRecv | .recv => some .receive
  | .dispatch =>
      match executor.phase, executor.scheduling.taken with
      | .dispatching root, some entry =>
          match executor.target? root entry.id with
          | none => some .reject
          | some target => some (.beginPoll target)
      | _, _ => none
  | .endPoll result =>
      match executor.phase with
      | .polling _ _ target => some (.finishPoll target result)
      | _ => none
  | .panic =>
      match executor.phase with
      | .polling _ _ target => some (.unwind target)
      | _ => none
  | .release => some .disconnect
  | .drain | .settle | .retry | .unwound | .leave | .close | .clear | .tear
  | .destroy _ => none

theorem Moved.change {move : Move} (moved : Moved executor move next) :
    next.scheduling = executor.scheduling ∨
      ∃ change, executor.change? move = some change ∧
        executor.scheduling.step change = some next.scheduling := by
  cases moved with
  | remoteWake change => exact Or.inr ⟨_, rfl, change⟩
  | remoteSend change => exact Or.inr ⟨_, rfl, change⟩
  | wake runs change => exact Or.inr ⟨_, rfl, change⟩
  | send change => exact Or.inr ⟨_, rfl, change⟩
  | refused runs closed => exact Or.inl rfl
  | submitted runs closed change => exact Or.inr ⟨_, rfl, change⟩
  | blockOn phase change => exact Or.inr ⟨_, rfl, change⟩
  | drain phase idle => exact Or.inl rfl
  | settle phase idle => exact Or.inl rfl
  | foundEmpty phase idle empty => exact Or.inl rfl
  | tryReceived phase change => exact Or.inr ⟨_, rfl, change⟩
  | received phase change => exact Or.inr ⟨_, rfl, change⟩
  | retry phase => exact Or.inl rfl
  | notAdmitted phase taken missing change =>
      exact Or.inr ⟨_, by simp [change?, phase, taken, missing], change⟩
  | notBegun phase taken found fails change =>
      exact Or.inr ⟨_, by simp [change?, phase, taken, found], change⟩
  | began phase taken found begins change =>
      exact Or.inr ⟨_, by simp [change?, phase, taken, found], change⟩
  | notFinished phase fails change =>
      exact Or.inr ⟨_, by simp [change?, phase], change⟩
  | suspended phase finishes change =>
      exact Or.inr ⟨_, by simp [change?, phase], change⟩
  | rootReady phase finishes change =>
      exact Or.inr ⟨_, by simp [change?, phase], change⟩
  | taskReady phase notRoot finishes change =>
      exact Or.inr ⟨_, by simp [change?, phase], change⟩
  | pollPanicked phase change =>
      exact Or.inr ⟨_, by simp [change?, phase], change⟩
  | wakerPanicked phase idle => exact Or.inl rfl
  | waitPanicked phase idle => exact Or.inl rfl
  | leavingPanicked phase idle => exact Or.inl rfl
  | clearingPanicked phase idle unfailing => exact Or.inl rfl
  | tearingPanicked phase idle unfailing => exact Or.inl rfl
  | droppedPanicked phase idle => exact Or.inl rfl
  | unwound phase idle => exact Or.inl rfl
  | left phase idle => exact Or.inl rfl
  | closed phase idle => exact Or.inl rfl
  | cleared phase idle pending => exact Or.inl rfl
  | torn phase idle pending => exact Or.inl rfl
  | destroyed phase idle member => exact Or.inl rfl
  | released phase empty change => exact Or.inr ⟨_, rfl, change⟩
  | leaked phase change => exact Or.inr ⟨_, rfl, change⟩

theorem Moved.ids {move : Move} (moved : Moved executor move next) :
    executor.scheduling.created ≤ next.scheduling.created ∧
      ∀ schedule, schedule < executor.scheduling.created →
        (next.scheduling.schedules schedule).id =
          (executor.scheduling.schedules schedule).id := by
  rcases moved.change with same | ⟨change, _, stepped⟩
  · rw [same]
    exact ⟨Nat.le_refl _, fun _ _ => rfl⟩
  · exact Scheduling.step_ids_below stepped

/-! Every live task has a schedule that sends its id. -/

/-- The task's schedule exists and sends the task's id. -/
structure Sends (scheduling : Scheduling) (task : LocalTask) : Prop where
  created : task.schedule < scheduling.created
  id : (scheduling.schedules task.schedule).id = task.id
  notRoot : task.id ≠ rootTaskId

structure Coherent (executor : Executor) : Prop where
  addressed : executor.scheduling.Addressed
  tasks : ∀ id task, executor.tasks.lookup id = some task →
    task.id = id ∧ Sends executor.scheduling task
  pending : ∀ task ∈ executor.pendingSpawns, Sends executor.scheduling task
  root : ∀ root, executor.phase.root? = some root →
    root < executor.scheduling.created ∧
      (executor.scheduling.schedules root).id = rootTaskId
  polled : ∀ root id target, executor.phase = .polling root id target →
    target < executor.scheduling.created ∧
      (executor.scheduling.schedules target).id = id ∧
      (id = rootTaskId → target = root)
  taken : (∃ root, executor.phase = .dispatching root) ∨
    executor.scheduling.taken = none

theorem coherent_initial : initial.Coherent where
  addressed := Scheduling.addressed_initial
  tasks := by
    intro id task found
    cases found
  pending := by
    intro task member
    cases member
  root := by
    intro root present
    cases present
  polled := by
    intro root id target phase
    cases phase
  taken := Or.inr rfl

section

variable {before after : Scheduling}

theorem Sends.transfer {task : LocalTask} (sends : Sends before task)
    (grown : before.created ≤ after.created)
    (same : ∀ schedule, schedule < before.created →
      (after.schedules schedule).id = (before.schedules schedule).id) :
    Sends after task where
  created := Nat.lt_of_lt_of_le sends.created grown
  id := (same _ sends.created).trans sends.id
  notRoot := sends.notRoot

end

theorem Coherent.transfer (coherent : executor.Coherent)
    (addressed : next.scheduling.Addressed)
    (created : next.scheduling.created = executor.scheduling.created)
    (ids : ∀ schedule, (next.scheduling.schedules schedule).id =
      (executor.scheduling.schedules schedule).id)
    (tasks : ∀ id task, next.tasks.lookup id = some task →
      executor.tasks.lookup id = some task ∨
        task.id = id ∧ task ∈ executor.pendingSpawns)
    (pending : ∀ task ∈ next.pendingSpawns, task ∈ executor.pendingSpawns)
    (root : ∀ root, next.phase.root? = some root →
      executor.phase.root? = some root)
    (polled : ∀ root id target, next.phase = .polling root id target →
      executor.phase = .polling root id target ∨
        target < executor.scheduling.created ∧
          (executor.scheduling.schedules target).id = id ∧
          (id = rootTaskId → target = root))
    (taken : (∃ root, next.phase = .dispatching root) ∨
      next.scheduling.taken = none) : next.Coherent where
  addressed := addressed
  tasks := by
    intro id task found
    have sends : task.id = id ∧ Sends executor.scheduling task := by
      rcases tasks id task found with before | ⟨isId, member⟩
      · exact coherent.tasks id task before
      · exact ⟨isId, coherent.pending task member⟩
    exact ⟨sends.1, sends.2.transfer (Nat.le_of_eq created.symm)
      fun schedule _ => ids schedule⟩
  pending := fun task member =>
    (coherent.pending task (pending task member)).transfer
      (Nat.le_of_eq created.symm) fun schedule _ => ids schedule
  root := by
    intro current present
    rw [created, ids]
    exact coherent.root current (root current present)
  polled := by
    intro current id target phase
    rw [created, ids]
    rcases polled current id target phase with before | found
    · exact coherent.polled current id target before
    · exact found
  taken := taken

theorem Coherent.target (coherent : executor.Coherent) {root : Nat}
    (active : executor.phase.root? = some root) {id : Id} {target : Nat}
    (found : executor.target? root id = some target) :
    target < executor.scheduling.created ∧
      (executor.scheduling.schedules target).id = id ∧
      (id = rootTaskId → target = root) := by
  unfold target? at found
  split at found
  · rename_i isRoot
    cases found
    obtain ⟨below, idRoot⟩ := coherent.root root active
    exact ⟨below, idRoot.trans isRoot.symm, fun _ => rfl⟩
  · rename_i notRoot
    obtain ⟨task, present, rfl⟩ := Option.map_eq_some_iff.mp found
    obtain ⟨isId, sends⟩ := coherent.tasks id task present
    exact ⟨sends.created, sends.id.trans isId, fun isRoot => absurd isRoot notRoot⟩

theorem lookup_drainPendingSpawns {tasks : Tasks} {pending : List LocalTask}
    {id : Id} {task : LocalTask}
    (found : (pending.foldl (fun tasks task => tasks.insert task.id task)
      tasks).lookup id = some task) :
    tasks.lookup id = some task ∨ task.id = id ∧ task ∈ pending := by
  induction pending generalizing tasks with
  | nil => exact Or.inl found
  | cons first rest ih =>
      rcases ih found with before | ⟨isId, member⟩
      · cases decEq id first.id with
        | isTrue same =>
            subst same
            rw [AList.lookup_insert, Option.some.injEq] at before
            subst before
            exact Or.inr ⟨rfl, List.mem_cons_self⟩
        | isFalse different =>
            rw [AList.lookup_insert_ne different] at before
            exact Or.inl before
      · exact Or.inr ⟨isId, List.mem_cons_of_mem _ member⟩

theorem mem_drainPendingSpawns {tasks : Tasks} {pending : List LocalTask}
    {id : Id} :
    id ∈ pending.foldl (fun tasks task => tasks.insert task.id task) tasks ↔
      id ∈ tasks ∨ ∃ task ∈ pending, task.id = id := by
  induction pending generalizing tasks with
  | nil => simp
  | cons first rest ih =>
      simp only [List.foldl_cons]
      rw [ih, AList.mem_insert]
      constructor
      · rintro ((rfl | before) | ⟨task, member, isId⟩)
        · exact Or.inr ⟨first, List.mem_cons_self, rfl⟩
        · exact Or.inl before
        · exact Or.inr ⟨task, List.mem_cons_of_mem _ member, isId⟩
      · rintro (before | ⟨task, member, isId⟩)
        · exact Or.inl (Or.inr before)
        · rcases List.mem_cons.mp member with rfl | later
          · exact Or.inl (Or.inl isId.symm)
          · exact Or.inr ⟨task, later, isId⟩

theorem Coherent.moved (coherent : executor.Coherent)
    {change : ScheduleStep} {scheduling : Scheduling}
    (stepped : executor.scheduling.step change = some scheduling)
    (polls : executor.scheduling.Polls change)
    (old : Scheduling.created? change = none)
    {tasks : Tasks} {phase : Phase}
    (kept : ∀ id task, tasks.lookup id = some task →
      executor.tasks.lookup id = some task)
    (root : ∀ root, phase.root? = some root → executor.phase.root? = some root)
    (polled : ∀ root id target, phase = .polling root id target →
      executor.phase = .polling root id target ∨
        target < executor.scheduling.created ∧
          (executor.scheduling.schedules target).id = id ∧
          (id = rootTaskId → target = root))
    (taken : (∃ root, phase = .dispatching root) ∨ scheduling.taken = none) :
    Coherent { executor with
      scheduling := scheduling, tasks := tasks, phase := phase } := by
  obtain ⟨created, ids⟩ := Scheduling.step_ids old stepped
  have addressed :=
    Scheduling.step_addressed coherent.addressed polls stepped
  exact coherent.transfer addressed created ids
    (fun id task found => Or.inl (kept id task found))
    (fun task member => member) root polled taken

theorem Coherent.rephased (coherent : executor.Coherent) {phase : Phase}
    (root : ∀ root, phase.root? = some root → executor.phase.root? = some root)
    (unpolled : ∀ root id target, phase ≠ .polling root id target)
    (taken : executor.scheduling.taken = none) :
    Coherent { executor with phase := phase } :=
  coherent.transfer coherent.addressed rfl (fun _ => rfl)
    (fun _ _ found => Or.inl found) (fun _ member => member) root
    (fun root id target polling => absurd polling (unpolled root id target))
    (Or.inr taken)

theorem takeNextId_ne_root (nextId : UInt64) :
    (takeNextId nextId).1 ≠ rootTaskId := by
  unfold takeNextId
  split
  · rename_i zero
    subst zero
    decide
  · rename_i nonzero
    intro same
    exact nonzero (congrArg Id.val same)

theorem Coherent.created (coherent : executor.Coherent) {id : Id}
    {scheduling : Scheduling}
    (stepped : executor.scheduling.step (.create id) = some scheduling) :
    scheduling.Addressed ∧
      scheduling.created = executor.scheduling.created + 1 ∧
      (scheduling.schedules executor.scheduling.created).id = id ∧
      ∀ schedule, schedule < executor.scheduling.created →
        (scheduling.schedules schedule).id =
          (executor.scheduling.schedules schedule).id := by
  have polls : executor.scheduling.Polls (.create id) := trivial
  have addressed := Scheduling.step_addressed coherent.addressed polls stepped
  have result := Scheduling.step_create stepped
  refine ⟨addressed, by rw [result], ?_, ?_⟩
  · rw [result]
    simp [Scheduling.setSchedule, TaskSchedule.new]
  · intro schedule below
    rw [result]
    exact congrArg TaskSchedule.id
      (Scheduling.schedules_setSchedule_of_ne (Nat.ne_of_lt below) _)

theorem Coherent.submitted (coherent : executor.Coherent)
    {scheduling : Scheduling}
    (stepped : executor.scheduling.step
      (.create (takeNextId executor.nextId).1) = some scheduling) :
    Coherent { executor with
      scheduling := scheduling
      pendingSpawns := executor.pendingSpawns ++
        [⟨(takeNextId executor.nextId).1, executor.scheduling.created⟩]
      nextId := (takeNextId executor.nextId).2
      spawned := executor.spawned + 1 } := by
  obtain ⟨addressed, grown, newId, ids⟩ := coherent.created stepped
  have later : executor.scheduling.created ≤ scheduling.created := by omega
  refine ⟨addressed, ?_, ?_, ?_, ?_, ?_⟩
  · intro id task found
    obtain ⟨isId, sends⟩ := coherent.tasks id task found
    exact ⟨isId, sends.transfer later ids⟩
  · intro task member
    rcases List.mem_append.mp member with before | last
    · exact (coherent.pending task before).transfer later ids
    · obtain rfl := List.mem_singleton.mp last
      have below : executor.scheduling.created < scheduling.created := by omega
      exact ⟨below, newId, takeNextId_ne_root executor.nextId⟩
  · intro root active
    obtain ⟨below, isRoot⟩ := coherent.root root active
    exact ⟨Nat.lt_of_lt_of_le below later, (ids root below).trans isRoot⟩
  · intro root id target phase
    obtain ⟨below, isId, same⟩ := coherent.polled root id target phase
    exact ⟨Nat.lt_of_lt_of_le below later, (ids target below).trans isId, same⟩
  · rcases coherent.taken with dispatching | none
    · exact Or.inl dispatching
    · right
      change scheduling.taken = _
      rw [Scheduling.step_create stepped]
      exact none

theorem Coherent.blockOn (coherent : executor.Coherent) {scheduling : Scheduling}
    (outside : executor.phase = .outside)
    (stepped : executor.scheduling.step (.create rootTaskId) = some scheduling) :
    Coherent { executor with
      scheduling := scheduling
      phase := .iterating executor.scheduling.created } := by
  obtain ⟨addressed, grown, newId, ids⟩ := coherent.created stepped
  have later : executor.scheduling.created ≤ scheduling.created := by omega
  refine ⟨addressed, ?_, ?_, ?_, ?_, ?_⟩
  · intro id task found
    obtain ⟨isId, sends⟩ := coherent.tasks id task found
    exact ⟨isId, sends.transfer later ids⟩
  · intro task member
    exact (coherent.pending task member).transfer later ids
  · intro root active
    cases active
    have below : executor.scheduling.created < scheduling.created := by omega
    exact ⟨below, newId⟩
  · intro root id target phase
    cases phase
  · right
    change scheduling.taken = _
    rw [Scheduling.step_create stepped]
    rcases coherent.taken with ⟨root, dispatching⟩ | none
    · rw [outside] at dispatching
      cases dispatching
    · exact none

theorem Moved.coherent {move : Move} (moved : Moved executor move next)
    (coherent : executor.Coherent) : next.Coherent := by
  have steady : ∀ {change : ScheduleStep} {scheduling : Scheduling},
      change ≠ .receive → executor.scheduling.step change = some scheduling →
      (∃ root, executor.phase = .dispatching root) ∨ scheduling.taken = none := by
    intro change scheduling different stepped
    rcases Scheduling.step_taken different stepped with same | none
    · rw [same]
      exact coherent.taken
    · exact Or.inr none
  have idle : (∀ root, executor.phase ≠ .dispatching root) →
      executor.scheduling.taken = none := by
    intro elsewhere
    rcases coherent.taken with ⟨root, dispatching⟩ | none
    · exact absurd dispatching (elsewhere root)
    · exact none
  have ended : ∀ {change : ScheduleStep} {scheduling : Scheduling},
      (∀ root, executor.phase ≠ .dispatching root) → change ≠ .receive →
      executor.scheduling.step change = some scheduling →
      scheduling.taken = none := by
    intro change scheduling elsewhere different stepped
    rcases Scheduling.step_taken different stepped with same | none
    · exact same.trans (idle elsewhere)
    · exact none
  have untaken : ∀ {target : Nat} {scheduling : Scheduling},
      executor.scheduling.step (.beginPoll target) = some scheduling →
      scheduling.taken = none := by
    intro target scheduling stepped
    obtain ⟨entry, _, _, rfl⟩ := Scheduling.step_beginPoll stepped
    exact Scheduling.beginPoll_taken _ _ _
  have kept : ∀ id task, executor.tasks.lookup id = some task →
      executor.tasks.lookup id = some task := fun _ _ found => found
  have erased : ∀ {removed : Id} id task,
      (executor.tasks.erase removed).lookup id = some task →
      executor.tasks.lookup id = some task := by
    intro removed id task found
    cases decEq id removed with
    | isTrue same =>
        rw [same, AList.lookup_erase] at found
        cases found
    | isFalse different =>
        rw [AList.lookup_erase_ne different] at found
        exact found
  cases moved with
  | remoteWake change =>
      exact coherent.moved change trivial rfl kept (fun _ active => active)
        (fun _ _ _ phase => Or.inl phase) (steady (by simp) change)
  | remoteSend change =>
      exact coherent.moved change trivial rfl kept (fun _ active => active)
        (fun _ _ _ phase => Or.inl phase) (steady (by simp) change)
  | wake runs change =>
      exact coherent.moved change trivial rfl kept (fun _ active => active)
        (fun _ _ _ phase => Or.inl phase) (steady (by simp) change)
  | send change =>
      exact coherent.moved change trivial rfl kept (fun _ active => active)
        (fun _ _ _ phase => Or.inl phase) (steady (by simp) change)
  | refused runs closed => exact coherent
  | submitted runs unclosed change => exact coherent.submitted change
  | blockOn outside change => exact coherent.blockOn outside change
  | @drain root phase free =>
      refine coherent.transfer coherent.addressed rfl (fun _ => rfl)
        ?_ ?_ ?_ ?_ ?_
      · intro id task found
        exact lookup_drainPendingSpawns found
      · intro task member
        cases member
      · intro current active
        rw [phase]
        exact active
      · intro current id target polling
        cases polling
      · exact Or.inr (idle (by simp [phase]))
  | settle phase free =>
      exact coherent.rephased (by simp [phase, Phase.root?]) (by simp)
        (idle (by simp [phase]))
  | foundEmpty phase free empty =>
      exact coherent.rephased (by simp [phase, Phase.root?]) (by simp)
        (idle (by simp [phase]))
  | tryReceived phase change =>
      exact coherent.moved change trivial rfl kept
        (by simp [phase, Phase.root?]) (by simp) (Or.inl ⟨_, rfl⟩)
  | received phase change =>
      exact coherent.moved change trivial rfl kept
        (by simp [phase, Phase.root?]) (by simp) (Or.inl ⟨_, rfl⟩)
  | retry phase =>
      exact coherent.rephased (by simp [phase, Phase.root?]) (by simp)
        (idle (by simp [phase]))
  | notAdmitted phase taken missing change =>
      have none := congrArg Scheduling.taken (Scheduling.step_reject change)
      exact coherent.moved change trivial rfl kept (by simp [Phase.root?])
        (by simp) (Or.inr none)
  | notBegun phase taken found fails change =>
      have target := coherent.target (by rw [phase]; rfl) found
      exact coherent.moved change target.1 rfl kept (by simp [Phase.root?])
        (by simp) (Or.inr (untaken change))
  | @began root target entry _ phase taken found begins change =>
      have polled := coherent.target (by rw [phase]; rfl) found
      refine coherent.moved change polled.1 rfl kept ?_ ?_
        (Or.inr (untaken change))
      · simp [phase, Phase.root?]
      · intro current id schedule polling
        cases polling
        exact Or.inr polled
  | notFinished phase fails change =>
      have polled := coherent.polled _ _ _ phase
      exact coherent.moved change polled.1 rfl kept (by simp [Phase.root?])
        (by simp) (Or.inr (ended (by simp [phase]) (by simp) change))
  | suspended phase finishes change =>
      have polled := coherent.polled _ _ _ phase
      exact coherent.moved change polled.1 rfl kept
        (by simp [phase, Phase.root?]) (by simp)
        (Or.inr (ended (by simp [phase]) (by simp) change))
  | rootReady phase finishes change =>
      have polled := coherent.polled _ _ _ phase
      exact coherent.moved change polled.1 rfl kept
        (by simp [phase, Phase.root?]) (by simp)
        (Or.inr (ended (by simp [phase]) (by simp) change))
  | taskReady phase notRoot finishes change =>
      have polled := coherent.polled _ _ _ phase
      exact coherent.moved change polled.1 rfl erased
        (by simp [phase, Phase.root?]) (by simp)
        (Or.inr (ended (by simp [phase]) (by simp) change))
  | pollPanicked phase change =>
      exact coherent.moved change trivial rfl kept (by simp [Phase.root?])
        (by simp) (Or.inr (ended (by simp [phase]) (by simp) change))
  | wakerPanicked phase free =>
      exact coherent.rephased (by simp [Phase.root?]) (by simp)
        (idle (by simp [phase]))
  | waitPanicked phase free =>
      exact coherent.rephased (by simp [Phase.root?]) (by simp)
        (idle (by simp [phase]))
  | leavingPanicked phase free =>
      exact coherent.rephased (by simp [Phase.root?]) (by simp)
        (idle (by simp [phase]))
  | clearingPanicked phase free unfailing =>
      have same : Coherent { executor with phase := .clearing } :=
        coherent.rephased (by simp [Phase.root?]) (by simp)
          (idle (by simp [phase]))
      exact ⟨same.addressed, same.tasks, same.pending, same.root, same.polled,
        same.taken⟩
  | tearingPanicked phase free unfailing =>
      have same : Coherent { executor with phase := .leaking } :=
        coherent.rephased (by simp [Phase.root?]) (by simp)
          (idle (by simp [phase]))
      exact ⟨same.addressed, same.tasks, same.pending, same.root, same.polled,
        same.taken⟩
  | droppedPanicked phase free =>
      exact coherent.rephased (by simp [Phase.root?]) (by simp)
        (idle (by simp [phase]))
  | unwound phase free =>
      exact coherent.rephased (by simp [Phase.root?]) (by simp)
        (idle (by simp [phase]))
  | left phase free =>
      exact coherent.rephased (by simp [Phase.root?]) (by simp)
        (idle (by simp [phase]))
  | closed phase free =>
      have same : Coherent { executor with phase := .clearing } :=
        coherent.rephased (by simp [Phase.root?]) (by simp)
          (idle (by simp [phase]))
      exact ⟨same.addressed, same.tasks, same.pending, same.root, same.polled,
        same.taken⟩
  | cleared phase free pending =>
      exact coherent.transfer coherent.addressed rfl (fun _ => rfl)
        (fun _ _ found => Or.inl found)
        (fun task member => pending ▸ List.mem_cons_of_mem _ member)
        (fun _ active => active) (fun _ _ _ polling => Or.inl polling)
        (Or.inr (idle (by simp [phase])))
  | torn phase free pending =>
      exact coherent.rephased (by simp [Phase.root?]) (by simp)
        (idle (by simp [phase]))
  | destroyed phase free member =>
      exact coherent.transfer coherent.addressed rfl (fun _ => rfl)
        (fun id task found => Or.inl (erased id task found))
        (fun task member => member)
        (fun _ active => active) (fun _ _ _ polling => Or.inl polling)
        (Or.inr (idle (by simp [phase])))
  | released phase empty change | leaked phase change =>
      exact coherent.moved change trivial rfl kept (by simp [Phase.root?])
        (by simp) (Or.inr (ended (by simp [phase]) (by simp) change))

end Executor

end Asyncr
