import Asyncr.Program.Teardown

namespace Asyncr

namespace World

open Library
open Time

variable {Output : Type} {world next before start : World Output}
  {label : Label Output} {clock : Clock} {os : Instant}

/-! Dropping an executor. -/

/-- The cells that are borrowed while code of the program runs; every other borrow
ends within the step that takes it. -/
def held (world : World Output) : List SharedCell :=
  if world.executor.phase = .clearing then [.pendingSpawns] else []

def borrows (world : World Output) : Label Output → List SharedCell
  | .spawn => if world.executor.closed then [] else [.pendingSpawns]
  | .executor .close => [.pendingSpawns]
  | .drain => [.pendingSpawns, .timers]
  | .plan | .timer _ => [.timers]
  | .pollJoin join _ | .dropJoin join => [.join join]
  | .proceed =>
      match world.stack with
      | .publish join _ :: _ => [.join join]
      | _ => []
  | _ => []

/-- What a run has made of an executor that was dropped in the state `before`. -/
structure ShutDown (before start : World Output) (labels : List (Label Output))
    (recent : List (ProgramEvent Output)) (world : World Output) : Prop where
  logged : world.log = recent ++ before.log
  closed : world.executor.closed = true
  emptied : world.executor.phase ≠ .clearing → world.executor.pendingSpawns = []
  /-- Results stay until they are taken. -/
  kept : ∀ join old, before.joins join = some old → old.state.isPending = false →
    ∃ cell, world.joins join = some cell ∧ Kept join recent old.state cell.state
  cancelled : ∀ join cell, world.joins join = some cell → ¬ before.Resolved join →
    world.Pending join ∨ Kept join recent (.ready (.error .cancelled)) cell.state
  calm : .panic ∉ labels → world.executor.failing = false
  resolved : world.executor.phase = .dropped → world.stack = [] →
    world.executor.failing = false → ∀ join, ¬ world.Pending join
  /-- What completes a join takes the waker that its handle has stored. -/
  taken : ∀ label next join cell waker, machine.step world label = some next →
    world.joins join = some cell → cell.state = .pending waker →
    next.Pending join ∨
      next.log = .published join (.error .cancelled) waker :: world.log
  woken : ∀ join, wakingWakers join world.stack ++ wokenWakers join recent =
    takenWakers join recent
  once : ∀ join, (takenWakers join recent).length ≤ 1
  unpolled : ∀ schedule, .polled schedule ∉ recent
  unborrowed : ∀ label next cell, machine.step world label = some next →
    cell ∈ world.borrows label → cell ∉ world.held
  unpanicked : ∀ schedule,
    ∃ action, ((world.executor.scheduling.schedules schedule).wake).2 = .ok action
  unheard : world.executor.phase = .dropped → world.executor.scheduling.ready = []
  works : world.Gone ∨ world.Works
  bounded : labels.countP Label.works ≤
    start.remaining + 9 * labels.countP Label.calls

theorem Closes.cancels (closes : Closes world label next)
    (cancelling : world.Cancelling) (closing : world.executor.phase.closing = true)
    {join : JoinRef} {cell : JoinCell Output} {waker : Option Waker}
    (found : world.joins join = some cell) (pending : cell.state = .pending waker) :
    next.Pending join ∨
      next.log = .published join (.error .cancelled) waker :: world.log := by
  have isPending : cell.state.isPending = true := by
    rw [pending]
    rfl
  have updated : ∀ {other : JoinRef} {changed : JoinCell Output},
      next.joins = Function.update world.joins other (some changed) →
      (join = other → changed.state.isPending = true) → next.Pending join := by
    intro other changed joins still
    rcases kept_updated joins found with ⟨same, now⟩ | ⟨_, now⟩
    · exact ⟨changed, now, still same⟩
    · exact ⟨cell, now, isPending⟩
  cases closes with
  | refused runs => exact Or.inl (updated rfl fun _ => rfl)
  | awaited runs present waits => exact Or.inl (updated rfl fun _ => rfl)
  | yielded runs present ready =>
      refine Or.inl (updated rfl ?_)
      rintro rfl
      cases found.symm.trans present
      cases pending.symm.trans ready
  | dropped runs present =>
      refine Or.inl (updated rfl ?_)
      rintro rfl
      cases found.symm.trans present
      rw [pending]
      rfl
  | @published other result rest changed stored stack present waits =>
      cases decEq join other with
      | isFalse different =>
          exact Or.inl (updated rfl fun same => absurd same different)
      | isTrue same =>
          subst same
          cases found.symm.trans present
          cases pending.symm.trans waits
          right
          rw [cancelling closing join result (stack ▸ List.mem_cons_self)]
  | released stack present front =>
      refine Or.inl (updated rfl ?_)
      rintro rfl
      cases found.symm.trans present
      exact isPending
  | granted stack present =>
      refine Or.inl (updated rfl ?_)
      rintro rfl
      cases found.symm.trans present
      exact isPending
  | _ => exact Or.inl ⟨cell, found, isPending⟩

/-- Once the executor is gone nobody is left that has yet to complete a join. -/
theorem Closed.resolved (shut : world.Closed) (orderly : world.Orderly)
    (dropped : world.executor.phase = .dropped) (empty : world.stack = [])
    (unfailing : world.executor.failing = false) (join : JoinRef) :
    ¬ world.Pending join := by
  intro pending
  cases join with
  | refused number =>
      have member := orderly.harnessed.refusing number pending
      rw [empty] at member
      cases member
  | task schedule =>
      rcases orderly.harnessed.owner schedule pending with member | owned
      · rw [empty] at member
        cases member
      · rcases owned with ⟨task, member, _⟩ | ⟨id, task, found, _⟩
        · rw [shut.emptied.pending (by rw [dropped]; rfl) (by rw [dropped]; exact nofun)]
          at member
          cases member
        · rw [shut.emptied.tasks dropped unfailing] at found
          cases found

theorem Closes.calm (closes : Closes world label next) (cells : world.Cells)
    (unpoisoned : ∀ schedule,
      (world.executor.scheduling.schedules schedule).poisoned = false) :
    next.executor.failing = world.executor.failing ∨ label = .panic := by
  cases closes with
  | moved permitted step =>
      left
      refine (Executor.moved_of_step step).failing.resolve_right ?_
      rintro rfl
      cases permitted
  | unwound fails step =>
      cases fails with
      | code stack outermost => exact Or.inr rfl
      | @poisoned schedule _ _ wakes poisoned =>
          rw [unpoisoned schedule] at poisoned
          cases poisoned
      | published stack found twice =>
          obtain ⟨completed, completes⟩ := cells.completes stack found
          rw [twice] at completes
          cases completes
  | wokeTask _ step | cleared _ step | destroyed _ step =>
      exact Or.inl ((Executor.moved_of_step step).failing.resolve_right nofun)
  | _ => exact Or.inl rfl

theorem run_calm {labels : List (Label Output)} (orderly : start.Orderly)
    (shut : start.Closed) (few : start.executor.spawned < 2 ^ 64 - 1)
    (calm : start.executor.failing = false)
    (ran : machine.run Machine.Any start labels = some world)
    (unpanicked : .panic ∉ labels) : world.executor.failing = false := by
  induction labels generalizing start with
  | nil =>
      cases ran
      exact calm
  | cons label rest ih =>
      obtain ⟨_, next, step, later⟩ := Machine.run_cons.mp ran
      have stepped := stepped_of_step step
      have spawned := (run_spawned (Machine.Reach.single label trivial step)
        shut.closed).2
      have fewer : next.executor.spawned < 2 ^ 64 - 1 := by
        rw [spawned]
        exact few
      have closes := stepped.closing orderly shut.closed
      have same := (closes.calm orderly.cells shut.unpoisoned).resolve_right fun panics =>
        unpanicked (panics ▸ List.mem_cons_self)
      exact ih (stepped.orderly orderly fewer) (shut.step stepped orderly) fewer
        (same.trans calm) later fun member => unpanicked (List.mem_cons_of_mem _ member)

theorem Closes.unborrowed (closes : Closes world label next)
    (closed : world.executor.closed = true)
    (clearing : world.executor.phase = .clearing) :
    .pendingSpawns ∉ world.borrows label := by
  cases closes with
  | moved permitted step =>
      cases Executor.moved_of_step step with
      | closed phase free => cases clearing.symm.trans phase
      | _ => simp [borrows]
  | timed origin =>
      rcases origin with ⟨reading, rfl⟩ | ⟨_, call, rfl⟩
      · simp [borrows]
      · simp [borrows]
  | refused runs => simp [borrows, closed]
  | called stack | published stack found pending | released stack found front
  | granted stack found => simp [borrows, stack]
  | unwound fails step =>
      cases fails with
      | code stack outermost => simp [borrows]
      | poisoned wakes poisoned =>
          generalize same : world.stack = stack at wakes
          cases wakes <;> simp [borrows, same]
      | published stack found twice => simp [borrows, stack]
  | wokeCode wakes =>
      cases stack : world.stack with
      | nil => simp [borrows, stack]
      | cons frame rest =>
          rw [stack] at wakes
          cases wakes <;> simp [borrows, stack]
  | wokeTask wakes step =>
      cases stack : world.stack with
      | nil => simp [borrows, stack]
      | cons frame rest =>
          rw [stack] at wakes
          cases wakes <;> simp [borrows, stack]
  | _ => simp [borrows]

theorem Closed.unborrowed (shut : world.Closed) (orderly : world.Orderly)
    (step : machine.step world label = some next) {cell : SharedCell}
    (borrowed : cell ∈ world.borrows label) : cell ∉ world.held := by
  have closes := (stepped_of_step step).closing orderly shut.closed
  intro member
  unfold held at member
  split at member
  · rename_i clearing
    cases List.mem_singleton.mp member
    exact closes.unborrowed shut.closed clearing borrowed
  · cases member

theorem Shutting.shutDown {recent : List (ProgramEvent Output)}
    {labels : List (Label Output)} (shutting : Shutting before recent world)
    (shut : world.Closed) (orderly : world.Orderly)
    (calm : .panic ∉ labels → world.executor.failing = false)
    (bounded : labels.countP Label.works + world.remaining ≤
      start.remaining + 9 * labels.countP Label.calls) :
    ShutDown before start labels recent world where
  logged := shutting.logged
  closed := shut.closed
  emptied := by
    intro uncleared
    exact shut.emptied.pending (shut.phase orderly) uncleared
  kept := shutting.kept
  cancelled := by
    intro join cell found unresolved
    cases isPending : cell.state.isPending with
    | true => exact Or.inl ⟨cell, found, isPending⟩
    | false =>
        exact Or.inr (shutting.cancelled join cell found isPending unresolved)
  calm := calm
  resolved := shut.resolved orderly
  taken := by
    intro label next join cell waker step found pending
    have closes := (stepped_of_step step).closing orderly shut.closed
    exact closes.cancels shut.cancelling (shut.phase orderly) found pending
  woken := shutting.delivered
  once := by
    intro join
    rcases shutting.once join with none | ⟨⟨waker, one⟩, _⟩
    · rw [none]
      exact Nat.zero_le 1
    · rw [one]
      exact Nat.le_refl 1
  unpolled := shutting.unpolled
  unborrowed := fun label next cell step borrowed =>
    shut.unborrowed orderly step borrowed
  unpanicked := by
    intro schedule
    simp [TaskSchedule.wake, shut.unpoisoned schedule]
  unheard := fun dropped => (shut.emptied.unheard dropped).2
  works := shut.works orderly
  bounded := by omega

/-- Dropping an executor does what it should, and nothing after goes wrong, if and
only if no mutex of a schedule is poisoned when it is dropped. -/
theorem shutdown_cancels
    (reach : machine.Reach Machine.Any (initial clock os) before)
    (few : before.executor.spawned < 2 ^ 64 - 1)
    (closes : machine.step before (.executor .close) = some start) :
    (∀ labels world, machine.run Machine.Any start labels = some world →
      ∃ recent, ShutDown before start labels recent world) ↔
    ∀ schedule,
      (before.executor.scheduling.schedules schedule).poisoned = false := by
  obtain ⟨_, outside, _, closed⟩ := close_spec closes
  constructor
  · intro shutDown schedule
    obtain ⟨recent, now⟩ := shutDown [] start rfl
    obtain ⟨action, wakes⟩ := now.unpanicked schedule
    rw [closed] at wakes
    by_contra poisoned
    simp [TaskSchedule.wake, Bool.of_not_eq_false poisoned] at wakes
  · intro unpoisoned labels world ran
    obtain ⟨orderly, droppable⟩ := run_droppable reach few
    obtain ⟨after, shut, recent, shutting⟩ := run_shutting orderly droppable few
      unpoisoned closes (Machine.reach_of_run ran)
    have begun : start.Orderly := by
      apply (stepped_of_step closes).orderly orderly
      rw [closed]
      exact few
    have fewer : start.executor.spawned < 2 ^ 64 - 1 := by
      rw [closed]
      exact few
    have bounded := run_spends begun (by rw [closed]) fewer ran
    have calm : start.executor.failing = false := by
      rw [closed]
      exact droppable.emptied.calm (by rw [outside]; rfl)
    obtain ⟨shutBegun, _⟩ := droppable.close unpoisoned closes
    have unfailing := run_calm begun shutBegun fewer calm ran
    exact ⟨recent, shutting.shutDown shut after unfailing bounded⟩

/-- `block_on` returns at once, with a spawned task that it has not admitted and whose
handle has been polled. -/
def unadmittedLabels : List (Label Nat) :=
  [.executor .blockOn, .executor .send, .drain, .executor .settle,
    .executor .tryRecv, .dispatch, .spawn, .executor .send,
    .pollJoin (.task 1) (.custom 5), .rootYield (.ready ()), .proceed,
    .codeReturns, .executor .leave]

def unadmitted : World Nat :=
  (machine.run Machine.Any (initial (Clock.new 0) 0) unadmittedLabels).getD
    (initial (Clock.new 0) 0)

def unadmittedClosed : World Nat :=
  (machine.step unadmitted (.executor .close)).getD unadmitted

/-- The destructor of the task spawns another one. -/
def clearedLabels : List (Label Nat) :=
  [.clear, .proceed, .spawn, .proceed, .codeReturns, .proceed, .proceed, .proceed,
    .codeReturns, .proceed, .proceed, .codeReturns, .proceed, .executor .tear]

def unadmittedCleared : World Nat :=
  (machine.run Machine.Any unadmittedClosed clearedLabels).getD unadmitted

theorem shutdown_cancels_unadmitted :
    ∃ recent, ShutDown unadmitted unadmittedClosed
      (clearedLabels ++ [.executor .release]) recent unadmittedCleared.disconnect := by
  have ran : machine.run Machine.Any (initial (Clock.new 0) 0) unadmittedLabels =
    some unadmitted := rfl
  have closes : machine.step unadmitted (.executor .close) = some unadmittedClosed :=
    rfl
  have cleared : machine.run Machine.Any unadmittedClosed clearedLabels =
    some unadmittedCleared := rfl
  have dropped : machine.run Machine.Any unadmittedClosed
      (clearedLabels ++ [.executor .release]) = some unadmittedCleared.disconnect := by
    rw [Machine.run_append, cleared]
    exact Machine.run_cons.mpr ⟨trivial, _, step_release (Or.inl ⟨rfl, rfl⟩) rfl rfl, rfl⟩
  have unpoisoned : ∀ schedule,
      (unadmitted.executor.scheduling.schedules schedule).poisoned = false := by
    intro schedule
    match schedule with
    | 0 => rfl
    | 1 => rfl
    | _ + 2 => rfl
  exact (shutdown_cancels (Machine.reach_of_run ran) (by decide) closes).mpr
    unpoisoned _ _ dropped

/-- A later root is polled for the id of an abandoned one, and then for its own. -/
def poisonedLabels : List (Label Nat) :=
  [.executor .blockOn, .executor .send, .drain, .executor .settle,
    .executor .tryRecv, .dispatch, .spawn, .executor .send, .rootYield .pending,
    .drain, .executor .settle, .executor .tryRecv, .dispatch, .yield (.ready 7),
    .proceed, .panic, .proceed, .proceed, .proceed, .codeReturns, .executor .unwound,
    .executor (.remoteWake 0), .executor (.remoteSend 0), .executor .blockOn,
    .executor .send, .drain, .executor .settle, .executor .tryRecv, .dispatch,
    .rootYield .pending, .drain, .executor .settle, .executor .tryRecv, .dispatch,
    .proceed, .codeReturns, .executor .unwound]

def poisoned : World Nat :=
  (machine.run Machine.Any (initial (Clock.new 0) 0) poisonedLabels).getD
    (initial (Clock.new 0) 0)

def poisonedClosed : World Nat :=
  (machine.step poisoned (.executor .close)).getD poisoned

def poisonedTorn : World Nat :=
  (machine.run Machine.Any poisonedClosed [.executor .tear, .destroy ⟨1⟩]).getD poisoned

/-- The waker of the later root panics when it is woken after the drop. -/
theorem stale_wake_panics :
    machine.Reach Machine.Any (initial (Clock.new 0) 0) poisoned ∧
      machine.step poisoned (.executor .close) = some poisonedClosed ∧
      machine.Reach Machine.Any poisonedClosed poisonedTorn.disconnect ∧
      poisonedTorn.disconnect.Gone ∧
      2 < poisonedTorn.disconnect.executor.scheduling.created ∧
      ((poisonedTorn.disconnect.executor.scheduling.schedules 2).wake).2 =
        .error .mutexPoisoned := by
  have ran : machine.run Machine.Any (initial (Clock.new 0) 0) poisonedLabels =
    some poisoned := rfl
  have torn : machine.run Machine.Any poisonedClosed
    [.executor .tear, .destroy ⟨1⟩] = some poisonedTorn := rfl
  refine ⟨Machine.reach_of_run ran, rfl, ?_, ⟨rfl, rfl, rfl⟩, by decide, rfl⟩
  exact .step _ (Machine.reach_of_run torn) trivial
    (step_release (Or.inl ⟨rfl, rfl⟩) rfl rfl)

end World

end Asyncr
