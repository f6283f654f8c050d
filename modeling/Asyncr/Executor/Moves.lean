import Asyncr.Executor.State

namespace Asyncr

namespace Executor

/-! Everything one move can do. -/

inductive Moved (executor : Executor) : Move → Executor → Prop
  | remoteWake {schedule : Nat} {scheduling : Scheduling} :
      executor.scheduling.step (.remoteWake schedule) = some scheduling →
      Moved executor (.remoteWake schedule)
        { executor with scheduling := scheduling }
  | remoteSend {schedule : Nat} {scheduling : Scheduling} :
      executor.scheduling.step (.remoteSend schedule) = some scheduling →
      Moved executor (.remoteSend schedule)
        { executor with scheduling := scheduling }
  | wake {schedule : Nat} {scheduling : Scheduling} :
      executor.phase.runsCode = true →
      executor.scheduling.step (.wake schedule) = some scheduling →
      Moved executor (.wake schedule) { executor with scheduling := scheduling }
  | send {scheduling : Scheduling} :
      executor.scheduling.step .send = some scheduling →
      Moved executor .send { executor with scheduling := scheduling }
  | refused :
      executor.phase.runsCode = true → executor.closed = true →
      Moved executor .spawn executor
  | submitted {scheduling : Scheduling} :
      executor.phase.runsCode = true → executor.closed = false →
      executor.scheduling.step (.create (takeNextId executor.nextId).1) =
        some scheduling →
      Moved executor .spawn
        { executor with
          scheduling := scheduling
          pendingSpawns := executor.pendingSpawns ++
            [⟨(takeNextId executor.nextId).1, executor.scheduling.created⟩]
          nextId := (takeNextId executor.nextId).2
          spawned := executor.spawned + 1 }
  | blockOn {scheduling : Scheduling} :
      executor.phase = .outside →
      executor.scheduling.step (.create rootTaskId) = some scheduling →
      Moved executor .blockOn
        { executor with
          scheduling := scheduling
          phase := .iterating executor.scheduling.created }
  | drain {root : Nat} :
      executor.phase = .iterating root → executor.scheduling.own = none →
      Moved executor .drain
        { executor.drainPendingSpawns with phase := .expiring root }
  | settle {root : Nat} :
      executor.phase = .expiring root → executor.scheduling.own = none →
      Moved executor .settle { executor with phase := .receiving root }
  | foundEmpty {root : Nat} :
      executor.phase = .receiving root → executor.scheduling.own = none →
      executor.scheduling.ready = [] →
      Moved executor .tryRecv { executor with phase := .waiting root }
  | tryReceived {root : Nat} {scheduling : Scheduling} :
      executor.phase = .receiving root →
      executor.scheduling.step .receive = some scheduling →
      Moved executor .tryRecv
        { executor with scheduling := scheduling, phase := .dispatching root }
  | received {root : Nat} {scheduling : Scheduling} :
      executor.phase = .waiting root →
      executor.scheduling.step .receive = some scheduling →
      Moved executor .recv
        { executor with scheduling := scheduling, phase := .dispatching root }
  | retry {root : Nat} :
      executor.phase = .waiting root →
      Moved executor .retry { executor with phase := .iterating root }
  | notAdmitted {root : Nat} {entry : ReadyEntry} {scheduling : Scheduling} :
      executor.phase = .dispatching root →
      executor.scheduling.taken = some entry →
      executor.target? root entry.id = none →
      executor.scheduling.step .reject = some scheduling →
      Moved executor .dispatch
        { executor with scheduling := scheduling, phase := .unwinding }
  | notBegun {root target : Nat} {entry : ReadyEntry} {panic : Panic}
      {scheduling : Scheduling} :
      executor.phase = .dispatching root →
      executor.scheduling.taken = some entry →
      executor.target? root entry.id = some target →
      ((executor.scheduling.schedules target).beginPoll).2 = .error panic →
      executor.scheduling.step (.beginPoll target) = some scheduling →
      Moved executor .dispatch
        { executor with scheduling := scheduling, phase := .unwinding }
  | began {root target : Nat} {entry : ReadyEntry} {scheduling : Scheduling} :
      executor.phase = .dispatching root →
      executor.scheduling.taken = some entry →
      executor.target? root entry.id = some target →
      ((executor.scheduling.schedules target).beginPoll).2 = .ok () →
      executor.scheduling.step (.beginPoll target) = some scheduling →
      Moved executor .dispatch
        { executor with
          scheduling := scheduling
          phase := .polling root entry.id target }
  | notFinished {root target : Nat} {id : Id} {result : Poll Unit} {panic : Panic}
      {scheduling : Scheduling} :
      executor.phase = .polling root id target →
      ((executor.scheduling.schedules target).finishPoll result).2 =
        .error panic →
      executor.scheduling.step (.finishPoll target result) = some scheduling →
      Moved executor (.endPoll result)
        { executor with scheduling := scheduling, phase := .unwinding }
  | suspended {root target : Nat} {id : Id} {action : ScheduleAction}
      {scheduling : Scheduling} :
      executor.phase = .polling root id target →
      ((executor.scheduling.schedules target).finishPoll .pending).2 =
        .ok action →
      executor.scheduling.step (.finishPoll target .pending) = some scheduling →
      Moved executor (.endPoll .pending)
        { executor with scheduling := scheduling, phase := .iterating root }
  | rootReady {root target : Nat} {action : ScheduleAction}
      {scheduling : Scheduling} :
      executor.phase = .polling root rootTaskId target →
      ((executor.scheduling.schedules target).finishPoll (.ready ())).2 =
        .ok action →
      executor.scheduling.step (.finishPoll target (.ready ())) =
        some scheduling →
      Moved executor (.endPoll (.ready ()))
        { executor with scheduling := scheduling, phase := .leaving root }
  | taskReady {root target : Nat} {id : Id} {action : ScheduleAction}
      {scheduling : Scheduling} :
      executor.phase = .polling root id target → id ≠ rootTaskId →
      ((executor.scheduling.schedules target).finishPoll (.ready ())).2 =
        .ok action →
      executor.scheduling.step (.finishPoll target (.ready ())) =
        some scheduling →
      Moved executor (.endPoll (.ready ()))
        { executor with
          scheduling := scheduling
          tasks := executor.tasks.erase id
          phase := .iterating root }
  | pollPanicked {root target : Nat} {id : Id} {scheduling : Scheduling} :
      executor.phase = .polling root id target →
      executor.scheduling.step (.unwind target) = some scheduling →
      Moved executor .panic
        { executor with scheduling := scheduling, phase := .unwinding }
  | wakerPanicked {root : Nat} :
      executor.phase = .expiring root → executor.scheduling.own = none →
      Moved executor .panic { executor with phase := .unwinding }
  | waitPanicked {root : Nat} :
      executor.phase = .waiting root → executor.scheduling.own = none →
      Moved executor .panic { executor with phase := .unwinding }
  | leavingPanicked {root : Nat} :
      executor.phase = .leaving root → executor.scheduling.own = none →
      Moved executor .panic { executor with phase := .unwinding }
  | clearingPanicked :
      executor.phase = .clearing → executor.scheduling.own = none →
      executor.failing = false →
      Moved executor .panic { executor with phase := .clearing, failing := true }
  | tearingPanicked :
      executor.phase = .tearing → executor.scheduling.own = none →
      executor.failing = false →
      Moved executor .panic { executor with phase := .leaking, failing := true }
  | droppedPanicked :
      executor.phase = .dropped → executor.scheduling.own = none →
      Moved executor .panic { executor with phase := .dropped }
  | unwound :
      executor.phase = .unwinding → executor.scheduling.own = none →
      Moved executor .unwound { executor with phase := .outside }
  | left {root : Nat} :
      executor.phase = .leaving root → executor.scheduling.own = none →
      Moved executor .leave { executor with phase := .outside }
  | closed :
      executor.phase = .outside → executor.scheduling.own = none →
      Moved executor .close { executor with closed := true, phase := .clearing }
  | cleared {task : LocalTask} {rest : List LocalTask} :
      executor.phase = .clearing → executor.scheduling.own = none →
      executor.pendingSpawns = task :: rest →
      Moved executor .clear { executor with pendingSpawns := rest }
  | torn :
      executor.phase = .clearing → executor.scheduling.own = none →
      executor.pendingSpawns = [] →
      Moved executor .tear { executor with phase := .tearing }
  | destroyed {id : Id} :
      executor.phase = .tearing → executor.scheduling.own = none →
      id ∈ executor.tasks →
      Moved executor (.destroy id)
        { executor with tasks := executor.tasks.erase id }
  | released {scheduling : Scheduling} :
      executor.phase = .tearing → executor.tasks = ∅ →
      executor.scheduling.step .disconnect = some scheduling →
      Moved executor .release
        { executor with scheduling := scheduling, phase := .dropped }
  | leaked {scheduling : Scheduling} :
      executor.phase = .leaking →
      executor.scheduling.step .disconnect = some scheduling →
      Moved executor .release
        { executor with scheduling := scheduling, phase := .dropped }

variable {executor next : Executor}

theorem andThen_eq_some {change : ScheduleStep} {update : Executor → Executor} :
    executor.andThen change update = some next ↔
      ∃ scheduling, executor.scheduling.step change = some scheduling ∧
        update { executor with scheduling := scheduling } = next := by
  simp [andThen]

theorem free_iff : executor.free = true ↔ executor.scheduling.own = none := by
  simp [free]

theorem moved_dispatch {root : Nat} {entry : ReadyEntry}
    (phase : executor.phase = .dispatching root)
    (taken : executor.scheduling.taken = some entry)
    (stepped : executor.dispatch root entry = some next) :
    Moved executor .dispatch next := by
  unfold dispatch at stepped
  split at stepped
  · rename_i missing
    obtain ⟨scheduling, change, rfl⟩ := andThen_eq_some.mp stepped
    exact .notAdmitted phase taken missing change
  · rename_i target found
    split at stepped
    · rename_i begins
      obtain ⟨scheduling, change, rfl⟩ := andThen_eq_some.mp stepped
      exact .began phase taken found begins change
    · rename_i panic fails
      obtain ⟨scheduling, change, rfl⟩ := andThen_eq_some.mp stepped
      exact .notBegun phase taken found fails change

theorem moved_endPoll {root target : Nat} {id : Id} {result : Poll Unit}
    (phase : executor.phase = .polling root id target)
    (stepped : executor.endPoll root id target result = some next) :
    Moved executor (.endPoll result) next := by
  unfold endPoll at stepped
  split at stepped
  · rename_i panic fails
    obtain ⟨scheduling, change, rfl⟩ := andThen_eq_some.mp stepped
    exact .notFinished phase fails change
  · rename_i action finishes
    obtain ⟨scheduling, change, rfl⟩ := andThen_eq_some.mp stepped
    exact .suspended phase finishes change
  · rename_i action _ finishes
    obtain ⟨scheduling, change, rfl⟩ := andThen_eq_some.mp stepped
    split
    · rename_i isRoot
      subst isRoot
      exact .rootReady phase finishes change
    · rename_i notRoot
      exact .taskReady phase notRoot finishes change

theorem moved_failDrop (idle : executor.scheduling.own = none)
    (stepped : executor.failDrop = some next) : Moved executor .panic next := by
  unfold failDrop at stepped
  split at stepped
  · rename_i phase unfailing
    cases stepped
    have moved := Moved.clearingPanicked phase idle unfailing
    rwa [← phase] at moved
  · rename_i phase unfailing
    cases stepped
    exact .tearingPanicked phase idle unfailing
  · rename_i phase
    cases stepped
    have moved := Moved.droppedPanicked phase idle
    rwa [← phase] at moved
  · cases stepped

theorem moved_of_step {move : Move} (stepped : executor.step move = some next) :
    Moved executor move next := by
  cases move with
  | remoteWake schedule =>
      obtain ⟨scheduling, change, rfl⟩ := andThen_eq_some.mp stepped
      exact .remoteWake change
  | remoteSend schedule =>
      obtain ⟨scheduling, change, rfl⟩ := andThen_eq_some.mp stepped
      exact .remoteSend change
  | wake schedule =>
      simp only [step, Option.ite_none_right_eq_some] at stepped
      obtain ⟨scheduling, change, rfl⟩ := andThen_eq_some.mp stepped.2
      exact .wake stepped.1 change
  | send =>
      obtain ⟨scheduling, change, rfl⟩ := andThen_eq_some.mp stepped
      exact .send change
  | spawn =>
      simp only [step, Option.ite_none_right_eq_some] at stepped
      obtain ⟨⟨runs, _⟩, submitted⟩ := stepped
      unfold submit at submitted
      split at submitted
      · rename_i closed
        cases submitted
        exact .refused runs closed
      · rename_i unclosed
        obtain ⟨scheduling, change, rfl⟩ := andThen_eq_some.mp submitted
        exact .submitted runs (Bool.eq_false_iff.mpr unclosed) change
  | blockOn =>
      simp only [step, Option.ite_none_right_eq_some] at stepped
      obtain ⟨scheduling, change, rfl⟩ := andThen_eq_some.mp stepped.2
      exact .blockOn stepped.1 change
  | drain =>
      simp only [step] at stepped
      split at stepped
      · rename_i root phase isFree
        cases stepped
        exact .drain phase (free_iff.mp isFree)
      · cases stepped
  | settle =>
      simp only [step] at stepped
      split at stepped
      · rename_i root phase isFree
        cases stepped
        exact .settle phase (free_iff.mp isFree)
      · cases stepped
  | tryRecv =>
      simp only [step] at stepped
      split at stepped
      · rename_i root phase isFree
        split at stepped
        · rename_i empty
          cases stepped
          exact .foundEmpty phase (free_iff.mp isFree) empty
        · obtain ⟨scheduling, change, rfl⟩ := andThen_eq_some.mp stepped
          exact .tryReceived phase change
      · cases stepped
  | recv =>
      simp only [step] at stepped
      split at stepped
      · rename_i root phase
        obtain ⟨scheduling, change, rfl⟩ := andThen_eq_some.mp stepped
        exact .received phase change
      · cases stepped
  | retry =>
      simp only [step] at stepped
      split at stepped
      · rename_i root phase
        cases stepped
        exact .retry phase
      · cases stepped
  | dispatch =>
      simp only [step] at stepped
      split at stepped
      · rename_i root entry phase taken
        exact moved_dispatch phase taken stepped
      · cases stepped
  | endPoll result =>
      simp only [step] at stepped
      split at stepped
      · rename_i root id target phase
        exact moved_endPoll phase stepped
      · cases stepped
  | panic =>
      simp only [step] at stepped
      split at stepped
      · rename_i root id target _ phase
        obtain ⟨scheduling, change, rfl⟩ := andThen_eq_some.mp stepped
        exact .pollPanicked phase change
      · rename_i root phase isFree
        cases stepped
        exact .wakerPanicked phase (free_iff.mp isFree)
      · rename_i root phase isFree
        cases stepped
        exact .waitPanicked phase (free_iff.mp isFree)
      · rename_i root phase isFree
        cases stepped
        exact .leavingPanicked phase (free_iff.mp isFree)
      · rename_i phase isFree
        exact moved_failDrop (free_iff.mp isFree) stepped
      · rename_i phase isFree
        exact moved_failDrop (free_iff.mp isFree) stepped
      · rename_i phase isFree
        exact moved_failDrop (free_iff.mp isFree) stepped
      · cases stepped
  | unwound =>
      simp only [step, Option.ite_none_right_eq_some, Option.some.injEq] at stepped
      obtain ⟨⟨phase, isFree⟩, rfl⟩ := stepped
      exact .unwound phase (free_iff.mp isFree)
  | leave =>
      simp only [step] at stepped
      split at stepped
      · rename_i root phase isFree
        cases stepped
        exact .left phase (free_iff.mp isFree)
      · cases stepped
  | close =>
      simp only [step, Option.ite_none_right_eq_some, Option.some.injEq] at stepped
      obtain ⟨⟨phase, isFree⟩, rfl⟩ := stepped
      exact .closed phase (free_iff.mp isFree)
  | clear =>
      simp only [step] at stepped
      split at stepped
      · rename_i task rest phase isFree pending
        cases stepped
        exact .cleared phase (free_iff.mp isFree) pending
      · cases stepped
  | tear =>
      simp only [step] at stepped
      split at stepped
      · rename_i phase isFree pending
        cases stepped
        exact .torn phase (free_iff.mp isFree) pending
      · cases stepped
  | destroy id =>
      simp only [step, Option.ite_none_right_eq_some, Option.some.injEq] at stepped
      obtain ⟨⟨phase, isFree, member⟩, rfl⟩ := stepped
      exact .destroyed phase (free_iff.mp isFree) member
  | release =>
      simp only [step, Option.ite_none_right_eq_some] at stepped
      obtain ⟨⟨phase, empty⟩ | phase, stepped⟩ := stepped
      · obtain ⟨scheduling, change, rfl⟩ := andThen_eq_some.mp stepped
        exact .released phase empty change
      · obtain ⟨scheduling, change, rfl⟩ := andThen_eq_some.mp stepped
        exact .leaked phase change

end Executor

end Asyncr
