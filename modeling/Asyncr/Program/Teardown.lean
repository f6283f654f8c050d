import Asyncr.Program.Shutdown

namespace Asyncr

/-! How long the drop of an executor takes: what is left of it shrinks with each of
its steps, and grows only when code of the program calls the runtime. -/

/-- How many steps a frame takes, with those of the frames that it leaves. -/
def Frame.cost {Output : Type} : Frame Output → Nat
  | .running _ | .grant _ => 1
  | .call _ | .fire _ | .wake _ _ => 2
  | .release _ => 3
  | .publish _ _ => 6

def Phase.cost : Phase → Nat
  | .clearing => 2
  | .tearing | .leaking => 1
  | .outside | .iterating _ | .expiring _ | .receiving _ | .waiting _
  | .dispatching _ | .polling _ _ _ | .leaving _ | .unwinding | .dropped => 0

theorem Phase.runsCode_of_closing {phase : Phase} (closing : phase.closing = true) :
    phase.runsCode = true := by
  cases phase with
  | clearing | tearing | leaking | dropped => rfl
  | _ => cases closing

def Label.calls {Output : Type} : Label Output → Bool
  | .executor (.wake _) | .clock _ | .timer _ | .spawn | .pollJoin _ _
  | .dropJoin _ => true
  | _ => false

/-- Another thread takes a step, or the clock of the operating system goes on. -/
def Label.foreign {Output : Type} : Label Output → Bool
  | .executor (.remoteWake _) | .executor (.remoteSend _) | .tick _ => true
  | _ => false

/-- The executor's thread goes on with what it has begun. -/
def Label.works {Output : Type} (label : Label Output) : Bool :=
  !label.calls && !label.foreign

namespace Executor

variable {executor next : Executor} {move : Move}

/-- How many steps are left of the drop. -/
def remaining (executor : Executor) : Nat :=
  9 * (executor.pendingSpawns.length + executor.tasks.keys.length) +
    executor.phase.cost + executor.scheduling.own.toList.length

theorem length_thenSend_own (outcome : Scheduling × Bool) (schedule : Nat) :
    (Scheduling.thenSend outcome schedule).own.toList.length ≤ 1 := by
  unfold Scheduling.thenSend
  cases outcome.2 <;> simp

theorem Moved.remaining_remote {schedule : Nat} (moved : Moved executor move next)
    (remote : move = .remoteWake schedule ∨ move = .remoteSend schedule) :
    next.remaining = executor.remaining := by
  rcases remote with rfl | rfl
  · cases moved with
    | remoteWake change =>
        simp only [remaining, Scheduling.step_remote_own (Or.inl rfl) change]
  · cases moved with
    | remoteSend change =>
        simp only [remaining, Scheduling.step_remote_own (Or.inr rfl) change]

theorem Moved.remaining_wake {schedule : Nat}
    (moved : Moved executor (.wake schedule) next) :
    next.remaining ≤ executor.remaining + 1 := by
  cases moved with
  | wake runs change =>
      simp only [Scheduling.step, Option.ite_none_right_eq_some,
        Option.some.injEq] at change
      obtain ⟨_, rfl⟩ := change
      have short :=
        length_thenSend_own (executor.scheduling.wakeSection schedule) schedule
      simp only [remaining]
      omega

theorem Moved.remaining_send (moved : Moved executor .send next) :
    next.remaining + 1 = executor.remaining := by
  cases moved with
  | send change =>
      simp only [Scheduling.step] at change
      split at change
      · rename_i schedule holds
        cases change
        simp [remaining, holds]
      · cases change

theorem Moved.remaining_clear (moved : Moved executor .clear next) :
    next.remaining + 9 = executor.remaining := by
  cases moved with
  | cleared phase free pending =>
      simp only [remaining, pending, List.length_cons]
      omega

theorem Moved.remaining_destroy {id : Id} (moved : Moved executor (.destroy id) next) :
    next.remaining + 9 = executor.remaining := by
  cases moved with
  | destroyed phase free member =>
      have length := List.length_erase_of_mem (AList.mem_keys.mp member)
      have some := List.length_pos_of_mem (AList.mem_keys.mp member)
      simp only [remaining, AList.keys_erase, length]
      omega

theorem Moved.remaining_tear (moved : Moved executor .tear next) :
    next.remaining + 1 = executor.remaining := by
  cases moved with
  | torn phase free pending =>
      simp only [remaining, phase, Phase.cost]
      omega

theorem Moved.remaining_release (moved : Moved executor .release next) :
    next.remaining + 1 = executor.remaining := by
  cases moved with
  | released phase empty change =>
      simp only [Scheduling.step, Option.ite_none_right_eq_some,
        Option.some.injEq] at change
      obtain ⟨_, rfl⟩ := change
      simp only [remaining, phase, Phase.cost]
      omega
  | leaked phase change =>
      simp only [Scheduling.step, Option.ite_none_right_eq_some,
        Option.some.injEq] at change
      obtain ⟨_, rfl⟩ := change
      simp only [remaining, phase, Phase.cost]
      omega

theorem Moved.remaining_panic (moved : Moved executor .panic next)
    (closing : executor.phase.closing = true) : next.remaining = executor.remaining := by
  cases moved with
  | clearingPanicked phase _ _ | tearingPanicked phase _ _ | droppedPanicked phase _ =>
      simp only [remaining, phase, Phase.cost]
  | pollPanicked phase _ | wakerPanicked phase _ | waitPanicked phase _
  | leavingPanicked phase _ =>
      rw [phase] at closing
      cases closing

end Executor

namespace World

open Library
open Time

variable {Output : Type} {world next : World Output} {label : Label Output}
  {clock : Clock} {os : Instant}

def cost (stack : List (Frame Output)) : Nat :=
  (stack.map Frame.cost).sum

@[simp] theorem cost_nil : cost ([] : List (Frame Output)) = 0 := rfl

@[simp] theorem cost_cons (frame : Frame Output) (rest : List (Frame Output)) :
    cost (frame :: rest) = frame.cost + cost rest :=
  List.sum_cons

@[simp] theorem cost_append (front rest : List (Frame Output)) :
    cost (front ++ rest) = cost front + cost rest := by
  simp [cost]

theorem cost_dropTask (world : World Output) (task : LocalTask) :
    cost (world.dropTask task) ≤ 8 := by
  unfold dropTask
  split
  · split
    · exact Nat.le_refl _
    · exact Nat.zero_le _
  · exact Nat.zero_le _

theorem cost_cleanup (rest : List (Frame Output)) : cost (cleanup rest) ≤ cost rest := by
  induction rest with
  | nil => exact Nat.le_refl _
  | cons frame rest ih =>
      cases frame with
      | call code =>
          cases code <;> simp only [cleanup, cost_cons, Frame.cost] <;> omega
      | _ =>
          simp only [cleanup, cost_cons, Frame.cost]
          omega

theorem Fails.cost {rest : List (Frame Output)} {log : List (ProgramEvent Output)}
    (fails : Fails world label rest log) :
    World.cost (cleanup rest) < World.cost world.stack := by
  have kept := cost_cleanup rest
  cases fails with
  | code stack outermost =>
      rw [stack, cost_cons, Frame.cost]
      omega
  | poisoned wakes poisoned =>
      generalize world.stack = stack at wakes
      cases wakes with
      | fire | wake =>
          rw [cost_cons, Frame.cost]
          omega
  | published stack found twice =>
      rw [stack, cost_cons, Frame.cost]
      rw [cost_cons, Frame.cost] at kept
      omega

/-- How many steps are left of the drop, if no code of the program calls the
runtime any more. -/
def remaining (world : World Output) : Nat :=
  cost world.stack + world.executor.remaining

/-- What one step makes of what is left. -/
structure Spends (world : World Output) (label : Label Output)
    (next : World Output) : Prop where
  called : label.calls = true → next.remaining ≤ world.remaining + 9
  foreign : label.foreign = true → next.remaining = world.remaining
  worked : label.works = true → next.remaining < world.remaining

theorem Spends.of_call (calls : label.calls = true) (here : label.foreign = false)
    (called : next.remaining ≤ world.remaining + 9) : Spends world label next where
  called := fun _ => called
  foreign := by
    intro foreign
    rw [here] at foreign
    cases foreign
  worked := by
    intro works
    simp [Label.works, calls] at works

theorem Spends.of_work (uncalled : label.calls = false)
    (here : label.foreign = false) (worked : next.remaining < world.remaining) :
    Spends world label next where
  called := by
    intro calls
    rw [uncalled] at calls
    cases calls
  foreign := by
    intro foreign
    rw [here] at foreign
    cases foreign
  worked := fun _ => worked

theorem Spends.of_foreign (foreign : label.foreign = true)
    (same : next.remaining = world.remaining) : Spends world label next where
  called := fun _ => by omega
  foreign := fun _ => same
  worked := by
    intro works
    simp [Label.works, foreign] at works

theorem spends_moved {move : Move} {executor : Executor}
    (closing : world.executor.phase.closing = true)
    (permitted : world.permits move = true)
    (step : world.executor.step move = some executor) :
    Spends world (.executor move) { world with executor := executor } := by
  have moved := Executor.moved_of_step step
  have added : ∀ amount, executor.remaining ≤ world.executor.remaining + amount →
      ({ world with executor := executor } : World Output).remaining ≤
        world.remaining + amount := by
    intro amount bounded
    simp only [remaining]
    omega
  have lowered : executor.remaining + 1 = world.executor.remaining →
      ({ world with executor := executor } : World Output).remaining <
        world.remaining := by
    intro less
    simp only [remaining]
    omega
  have impossible : ∀ {phase : Phase}, world.executor.phase = phase →
      phase.closing = false → False := by
    rintro phase rfl unclosed
    rw [closing] at unclosed
    cases unclosed
  cases move with
  | remoteWake schedule =>
      apply Spends.of_foreign rfl
      simp only [remaining, moved.remaining_remote (Or.inl rfl)]
  | remoteSend schedule =>
      apply Spends.of_foreign rfl
      simp only [remaining, moved.remaining_remote (Or.inr rfl)]
  | wake schedule =>
      exact .of_call rfl rfl (added 9 (Nat.le_trans moved.remaining_wake (by omega)))
  | send => exact .of_work rfl rfl (lowered moved.remaining_send)
  | tear => exact .of_work rfl rfl (lowered moved.remaining_tear)
  | release => exact .of_work rfl rfl (lowered moved.remaining_release)
  | blockOn | settle | tryRecv | unwound | leave | close =>
      cases moved <;> exact (impossible ‹_› rfl).elim
  | _ => cases permitted

theorem Closes.spends (closes : Closes world label next)
    (closing : world.executor.phase.closing = true) : Spends world label next := by
  have lowered : ∀ {after : World Output},
      after.executor = world.executor → cost after.stack < cost world.stack →
      after.remaining < world.remaining := by
    intro after same less
    simp only [remaining, same]
    omega
  cases closes with
  | moved permitted step => exact spends_moved closing permitted step
  | timed origin =>
      rcases origin with ⟨reading, rfl⟩ | ⟨_, call, rfl⟩
      · exact .of_foreign rfl rfl
      · exact .of_call rfl rfl (Nat.le_add_right _ 9)
  | timer runs => exact .of_call rfl rfl (Nat.le_add_right _ 9)
  | refused runs =>
      apply Spends.of_call rfl rfl
      simp only [remaining, cost_cons, Frame.cost, setJoin]
      omega
  | rejected | awaited _ _ _ | yielded _ _ _ | dropped _ _ =>
      exact .of_call rfl rfl (Nat.le_add_right _ 9)
  | codeReturned stack | called stack | granted stack found =>
      refine .of_work rfl rfl (lowered rfl ?_)
      rw [stack]
      simp [Frame.cost]
  | unwound fails step =>
      have same := (Executor.moved_of_step step).remaining_panic closing
      have less := fails.cost
      have unwinds : label.calls = false ∧ label.foreign = false := by
        cases fails <;> exact ⟨rfl, rfl⟩
      apply Spends.of_work unwinds.1 unwinds.2
      simp only [remaining, same]
      omega
  | wokeCode wakes =>
      refine .of_work rfl rfl (lowered rfl ?_)
      cases stack : world.stack with
      | nil =>
          rw [stack] at wakes
          cases wakes
      | cons frame rest =>
          rw [stack] at wakes
          cases wakes <;> simp [Frame.cost]
  | wokeTask wakes step =>
      apply Spends.of_work rfl rfl
      have bounded := (Executor.moved_of_step step).remaining_wake
      simp only [remaining]
      cases stack : world.stack with
      | nil =>
          rw [stack] at wakes
          cases wakes
      | cons frame rest =>
          rw [stack] at wakes
          cases wakes <;> simp only [cost_cons, Frame.cost] <;> omega
  | @published join result rest cell waker stack found pending =>
      refine .of_work rfl rfl (lowered rfl ?_)
      rw [stack]
      cases waker with
      | none => simp [Frame.cost]
      | some waker =>
          simp only [Option.map_some, Option.toList_some, List.singleton_append,
            cost_cons, Frame.cost]
          omega
  | @released join rest front cell stack found origin =>
      refine .of_work rfl rfl (lowered rfl ?_)
      rw [stack]
      rcases origin with rfl | rfl <;> simp [Frame.cost]
  | @cleared task executor empty step =>
      apply Spends.of_work rfl rfl
      have left := (Executor.moved_of_step step).remaining_clear
      have dropped := cost_dropTask world task
      simp only [remaining, empty, cost_nil]
      omega
  | @destroyed id task executor empty step =>
      apply Spends.of_work rfl rfl
      have left := (Executor.moved_of_step step).remaining_destroy
      have dropped := cost_dropTask world task
      simp only [remaining, empty, cost_nil]
      omega

/-- In a whole run each step of the executor's own uses up what was left, or what a
call has added. -/
theorem run_spends {start : World Output} {labels : List (Label Output)}
    (orderly : start.Orderly) (closed : start.executor.closed = true)
    (few : start.executor.spawned < 2 ^ 64 - 1)
    (ran : machine.run Machine.Any start labels = some world) :
    labels.countP Label.works + world.remaining ≤
      start.remaining + 9 * labels.countP Label.calls := by
  induction labels generalizing start with
  | nil =>
      cases ran
      exact Nat.le_of_eq (Nat.zero_add _)
  | cons label rest ih =>
      obtain ⟨_, next, step, later⟩ := Machine.run_cons.mp ran
      have stepped := stepped_of_step step
      have single : machine.Reach Machine.Any start next :=
        Machine.Reach.single label trivial step
      obtain ⟨still, spawned⟩ := run_spawned single closed
      have fewer : next.executor.spawned < 2 ^ 64 - 1 := by
        rw [spawned]
        exact few
      have onward := ih (stepped.orderly orderly fewer) still fewer later
      have closing := orderly.sound.closing.symm.trans closed
      have spends := (stepped.closing orderly closed).spends closing
      simp only [List.countP_cons]
      cases calls : label.calls with
      | true =>
          have bounded := spends.called calls
          simp only [Label.works, calls, Bool.not_true, Bool.false_and,
            Bool.false_eq_true, if_false, if_true] at onward ⊢
          omega
      | false =>
          cases works : label.works with
          | true =>
              have less := spends.worked works
              simp only [Bool.false_eq_true, if_false, if_true] at onward ⊢
              omega
          | false =>
              have foreign : label.foreign = true := by
                simpa [Label.works, calls] using works
              have same := spends.foreign foreign
              simp only [Bool.false_eq_true, if_false] at onward ⊢
              omega

def Gone (world : World Output) : Prop :=
  world.executor.phase = .dropped ∧ world.stack = [] ∧
    world.executor.scheduling.own = none

def Works (world : World Output) : Prop :=
  ∃ label next, label.works = true ∧ machine.step world label = some next

theorem works_of_move (move : Move)
    (works : (Label.executor move : Label Output).works = true)
    (permitted : world.permits move = true)
    (moves : world.executor.step move ≠ none) : world.Works := by
  obtain ⟨executor, step⟩ := Option.ne_none_iff_exists'.mp moves
  refine ⟨.executor move, { world with executor := executor }, works, ?_⟩
  change (if world.permits move then _ else _) = _
  rw [if_pos permitted, step]
  rfl

theorem works_of_proceed (free : world.executor.scheduling.own = none)
    (proceeds : world.proceed ≠ none) : world.Works := by
  obtain ⟨next, step⟩ := Option.ne_none_iff_exists'.mp proceeds
  refine ⟨.proceed, next, rfl, ?_⟩
  exact (if_pos (free_iff.mpr free)).trans step

theorem Closed.invokes (shut : world.Closed) (orderly : world.Orderly)
    (free : world.executor.scheduling.own = none) {waker : Waker}
    (known : waker.known world.executor.scheduling.created = true)
    (log : List (ProgramEvent Output)) (rest : List (Frame Output)) :
    { world with log := log }.invoke waker rest ≠ none := by
  cases waker with
  | custom code => simp [invoke]
  | task schedule =>
      have below : schedule < world.executor.scheduling.created := by
        simpa [Waker.known] using known
      have runs := Phase.runsCode_of_closing (shut.phase orderly)
      simp [invoke, shut.unpoisoned schedule, Executor.step, runs, Executor.andThen,
        Scheduling.step, free, below]

def disconnect (world : World Output) : World Output :=
  { world with
    executor := { world.executor with
      scheduling := { world.executor.scheduling with ready := [], connected := false }
      phase := .dropped } }

theorem step_release
    (done : world.executor.phase = .tearing ∧ world.executor.tasks = ∅ ∨
      world.executor.phase = .leaking)
    (empty : world.stack = []) (free : world.executor.scheduling.own = none) :
    machine.step world (.executor .release) = some world.disconnect := by
  change (if world.permits .release then _ else _) = _
  rw [if_pos (by simp [permits, empty])]
  simp [Executor.step, done, Executor.andThen, Scheduling.step, free, disconnect,
    Executor.setPhase]

theorem Closed.proceeds (shut : world.Closed) (orderly : world.Orderly)
    (free : world.executor.scheduling.own = none) {frame : Frame Output}
    {rest : List (Frame Output)} (stack : world.stack = frame :: rest) :
    world.Works := by
  have closing := shut.phase orderly
  have member : frame ∈ world.stack := stack ▸ List.mem_cons_self
  cases frame with
  | running code =>
      refine ⟨.codeReturns, { world with stack := rest }, rfl, ?_⟩
      change (if world.executor.free then world.codeReturns else none) = _
      rw [if_pos (free_iff.mpr free)]
      cases code with
      | root =>
          obtain ⟨_, _, _, phase⟩ := orderly.shaped.root member
          rw [phase] at closing
          cases closing
      | inner join =>
          obtain ⟨_, _, _, _, _, _, phase⟩ := orderly.shaped.inner join member
          rw [phase] at closing
          cases closing
      | _ => simp [codeReturns, stack]
  | call code =>
      apply works_of_proceed free
      simp [proceed, stack]
  | fire waker => exact absurd member (shut.unfired waker)
  | wake join waker =>
      apply works_of_proceed free
      have known := shut.acquainted.waking join waker member
      simpa [proceed, stack] using shut.invokes orderly free known _ rest
  | publish join result =>
      apply works_of_proceed free
      obtain ⟨cell, found, pending⟩ :=
        orderly.cells.publishing join (mem_publishing.mpr ⟨result, member⟩)
      cases state : cell.state with
      | pending waker => simp [proceed, stack, publish, found, state, JoinState.complete]
      | ready other =>
          rw [state] at pending
          cases pending
      | consumed =>
          rw [state] at pending
          cases pending
  | release join =>
      apply works_of_proceed free
      have releasing : join ∈ releasing world.stack := by
        rw [stack]
        exact List.mem_cons_self
      obtain ⟨cell, found, _⟩ := orderly.cells.releasing join releasing
      simp only [proceed, stack, release, found]
      split <;> simp
  | grant join =>
      apply works_of_proceed free
      obtain ⟨cell, found⟩ := Option.ne_none_iff_exists'.mp (shut.granted join member)
      simp [proceed, stack, found]

theorem Closed.continues (shut : world.Closed) (orderly : world.Orderly)
    (free : world.executor.scheduling.own = none) (empty : world.stack = []) :
    world.Gone ∨ world.Works := by
  have closing := shut.phase orderly
  have isFree := free_iff.mpr free
  cases phase : world.executor.phase with
  | dropped => exact Or.inl ⟨phase, empty, free⟩
  | clearing =>
      right
      cases pending : world.executor.pendingSpawns with
      | nil =>
          apply works_of_move .tear rfl (by simp [permits, empty])
          simp [Executor.step, phase, isFree, pending]
      | cons task rest =>
          have clears : world.clear ≠ none := by
            simp [clear, empty, pending, Executor.step, phase, isFree]
          obtain ⟨next, step⟩ := Option.ne_none_iff_exists'.mp clears
          exact ⟨.clear, next, rfl, step⟩
  | tearing =>
      right
      cases keys : world.executor.tasks.keys with
      | nil =>
          have untasked : world.executor.tasks = ∅ := by
            apply AList.ext
            exact List.map_eq_nil_iff.mp keys
          exact ⟨.executor .release, world.disconnect, rfl,
            step_release (Or.inl ⟨phase, untasked⟩) empty free⟩
      | cons id rest =>
          have member : id ∈ world.executor.tasks :=
            AList.mem_keys.mpr (keys ▸ List.mem_cons_self)
          obtain ⟨task, found⟩ :=
            Option.isSome_iff_exists.mp (AList.lookup_isSome.mpr member)
          have destroys : world.destroy id ≠ none := by
            simp [destroy, empty, found, Executor.step, phase, isFree, member]
          obtain ⟨next, step⟩ := Option.ne_none_iff_exists'.mp destroys
          exact ⟨.destroy id, next, rfl, step⟩
  | leaking =>
      right
      exact ⟨.executor .release, world.disconnect, rfl,
        step_release (Or.inr phase) empty free⟩
  | _ =>
      rw [phase] at closing
      cases closing

theorem Closed.works (shut : world.Closed) (orderly : world.Orderly) :
    world.Gone ∨ world.Works := by
  cases own : world.executor.scheduling.own with
  | some schedule =>
      right
      apply works_of_move .send rfl rfl
      simp [Executor.step, Executor.andThen, Scheduling.step, own]
  | none =>
      cases stack : world.stack with
      | nil => exact shut.continues orderly own stack
      | cons frame rest => exact Or.inr (shut.proceeds orderly own stack)

end World

end Asyncr
