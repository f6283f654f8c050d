import Asyncr.Program.Joiners

namespace Asyncr

def JoinCell.detach {Output : Type} (cell : JoinCell Output) : JoinCell Output :=
  { cell with state := cell.state.abandon, handle := false }

def Label.uses {Output : Type} (join : JoinRef) : Label Output → Prop
  | .pollJoin used _ | .dropJoin used => used = join
  | _ => False

/-- The event is a poll of the task, or the end of its future. -/
def ProgramEvent.concerns {Output : Type} (target : Nat) :
    ProgramEvent Output → Bool
  | .polled schedule => schedule == target
  | .returned join _ | .panicked join => decide (join = .task target)
  | .fired _ | .published _ _ _ | .woke _ _ | .awaited _ _ | .yielded _ _ => false

namespace World

open Library
open Time

variable {Output : Type} {world next : World Output} {label : Label Output}
  {join other : JoinRef} {clock : Clock} {os : Instant}

/-! Two programs that differ in whether a handle has been dropped go in lockstep
until its future is over. -/

/-- The program in which the handle of the join has been dropped. -/
def detach (join : JoinRef) (world : World Output) : World Output :=
  { world with
    joins := Function.update world.joins join
      ((world.joins join).map JoinCell.detach) }

@[simp] theorem detach_executor : (world.detach join).executor = world.executor :=
  rfl

@[simp] theorem detach_time : (world.detach join).time = world.time := rfl

@[simp] theorem detach_clock : (world.detach join).clock = world.clock := rfl

@[simp] theorem detach_os : (world.detach join).os = world.os := rfl

@[simp] theorem detach_stack : (world.detach join).stack = world.stack := rfl

@[simp] theorem detach_wait : (world.detach join).wait = world.wait := rfl

@[simp] theorem detach_refused : (world.detach join).refused = world.refused := rfl

@[simp] theorem detach_now : (world.detach join).now = world.now := rfl

@[simp] theorem detach_codeRuns :
    (world.detach join).codeRuns = world.codeRuns := rfl

@[simp] theorem detach_permits (move : Move) :
    (world.detach join).permits move = world.permits move := by
  cases move <;> rfl

@[simp] theorem detach_sleepCall (call : SleepCall Waker) :
    (world.detach join).sleepCall call = world.sleepCall call := by
  cases call <;> rfl

theorem detach_joins (different : other ≠ join) :
    (world.detach join).joins other = world.joins other :=
  Function.update_of_ne different ..

theorem detach_self :
    (world.detach join).joins join = (world.joins join).map JoinCell.detach :=
  Function.update_self ..

theorem detach_found {cell : JoinCell Output}
    (found : world.joins join = some cell) :
    (world.detach join).joins join = some cell.detach := by
  rw [detach_self, found]
  rfl

theorem detach_dropJoin {cell : JoinCell Output}
    (found : world.joins join = some cell) :
    world.dropJoin join cell = world.detach join := by
  unfold dropJoin setJoin detach
  rw [found]
  rfl

theorem detach_setJoin (different : other ≠ join) (cell : JoinCell Output) :
    (world.detach join).setJoin other cell =
      (world.setJoin other cell).detach join := by
  unfold detach setJoin
  congr 1
  funext current
  dsimp only
  rw [Function.update_comm different.symm, Function.update_of_ne different.symm]

theorem detach_dropTask (task : LocalTask) :
    (world.detach join).dropTask task = world.dropTask task := by
  unfold dropTask
  cases decEq (JoinRef.task task.schedule) join with
  | isTrue same =>
      rw [same, detach_self]
      cases world.joins join <;> rfl
  | isFalse different => rw [detach_joins different]

theorem detach_unwind (rest : List (Frame Output)) :
    (world.detach join).unwind rest = (world.unwind rest).map (detach join) := by
  unfold unwind
  rw [detach_executor]
  split
  case h_7 => rfl
  all_goals
    rw [Option.map_map]
    rfl

theorem detach_invoke (join : JoinRef) (world : World Output) (waker : Waker)
    (rest : List (Frame Output)) :
    (world.detach join).invoke waker rest =
      (world.invoke waker rest).map (detach join) := by
  cases waker with
  | custom code => rfl
  | task schedule =>
      cases poisoned : (world.executor.scheduling.schedules schedule).poisoned with
      | true =>
          simp only [invoke, detach_executor, poisoned, if_true]
          exact detach_unwind rest
      | false =>
          simp only [invoke, detach_executor, poisoned, Bool.false_eq_true, if_false]
          rw [Option.map_map]
          rfl

theorem detach_publish (different : other ≠ join)
    (result : Except JoinError Output) (rest : List (Frame Output)) :
    (world.detach join).publish other result rest =
      (world.publish other result rest).map (detach join) := by
  unfold publish
  rw [detach_joins different]
  split
  · rfl
  · rename_i cell found
    split
    · exact detach_unwind _
    · rw [detach_setJoin different]
      rfl

theorem detach_release (different : other ≠ join) (rest : List (Frame Output)) :
    (world.detach join).release other rest =
      (world.release other rest).map (detach join) := by
  unfold release
  rw [detach_joins different]
  split
  · rfl
  · rename_i cell found
    dsimp only
    rw [detach_setJoin different]
    split <;> rfl

theorem detach_proceed (unpublished : join ∉ publishing world.stack)
    (unreleased : join ∉ releasing world.stack)
    (ungranted : .grant join ∉ world.stack) :
    (world.detach join).proceed = world.proceed.map (detach join) := by
  unfold proceed
  rw [detach_stack]
  split
  · rfl
  · rename_i waker rest stack
    exact detach_invoke join { world with log := .fired waker :: world.log } waker rest
  · rename_i current waker rest stack
    exact detach_invoke join { world with log := .woke current waker :: world.log }
      waker rest
  · rename_i current result rest stack
    apply detach_publish
    rintro rfl
    exact unpublished (stack ▸ List.mem_cons_self)
  · rename_i current rest stack
    apply detach_release
    rintro rfl
    exact unreleased (stack ▸ List.mem_cons_self)
  · rename_i current rest stack
    have different : current ≠ join := by
      rintro rfl
      exact ungranted (stack ▸ List.mem_cons_self)
    rw [detach_joins different, Option.map_map]
    congr 1
    funext cell
    dsimp only [Function.comp_apply]
    rw [detach_setJoin different]
    rfl
  · rfl
  · rfl

theorem detach_panic :
    (world.detach join).panic = world.panic.map (detach join) := by
  unfold panic
  rw [detach_stack]
  split
  · rfl
  · exact detach_unwind _
  · rfl

theorem detach_yield (result : Poll Output) :
    (world.detach join).yield result = (world.yield result).map (detach join) := by
  unfold yield
  rw [detach_stack]
  split
  · rw [Option.map_map]
    rfl
  · rfl
  · rfl

theorem detach_rootYield (result : Poll Unit) :
    (world.detach join).rootYield result =
      (world.rootYield result).map (detach join) := by
  unfold rootYield
  rw [detach_stack]
  split
  · rw [Option.map_map]
    rfl
  · rfl

theorem detach_codeReturns :
    (world.detach join).codeReturns = world.codeReturns.map (detach join) := by
  unfold codeReturns
  rw [detach_stack]
  split
  · split <;> rfl
  · rfl

theorem detach_drain :
    (world.detach join).drain = world.drain.map (detach join) := by
  unfold drain
  rw [detach_executor, detach_time, detach_now]
  split <;> rfl

theorem detach_plan : (world.detach join).plan = world.plan.map (detach join) := by
  unfold plan
  rw [detach_executor, detach_time, detach_wait, detach_clock]
  split
  · split
    · split
      · rw [Option.map_map]
        rfl
      · rw [Option.map_map]
        rfl
    · rfl
  · rfl

theorem detach_recv : (world.detach join).recv = world.recv.map (detach join) := by
  unfold recv
  rw [detach_wait]
  split
  · rw [Option.map_map]
    rfl
  · rfl

theorem detach_timeout :
    (world.detach join).timeout = world.timeout.map (detach join) := by
  unfold timeout
  rw [detach_wait]
  split
  · rw [Option.map_map]
    rfl
  · rfl

theorem detach_dispatch :
    (world.detach join).dispatch = world.dispatch.map (detach join) := by
  unfold dispatch
  rw [detach_executor, Option.map_map]
  congr 1
  funext executor
  dsimp only [Function.comp_apply]
  split <;> rfl

theorem detach_finish :
    (world.detach join).finish = world.finish.map (detach join) := by
  unfold finish
  rw [detach_executor, detach_stack]
  split
  · split
    · rw [Option.map_map]
      rfl
    · rfl
  · rfl

theorem detach_clear :
    (world.detach join).clear = world.clear.map (detach join) := by
  unfold clear
  rw [detach_executor, detach_stack]
  split
  · rw [Option.map_map, detach_dropTask]
    rfl
  · rfl

theorem detach_destroy (id : Id) :
    (world.detach join).destroy id = (world.destroy id).map (detach join) := by
  unfold destroy
  rw [detach_executor, detach_stack]
  split
  · rw [Option.map_map, detach_dropTask]
    rfl
  · rfl

theorem detach_spawn (fresh : join ≠ .task world.executor.scheduling.created ∧
      join ≠ .refused world.refused) (executor : Executor) :
    (world.detach join).spawn executor = (world.spawn executor).detach join := by
  unfold spawn
  rw [detach_executor, detach_refused, detach_stack]
  split
  · dsimp only
    rw [detach_setJoin fresh.2.symm]
    rfl
  · rw [detach_setJoin fresh.1.symm]
    rfl

theorem detach_pollJoin (different : other ≠ join) (waker : Waker)
    (cell : JoinCell Output) :
    (world.detach join).pollJoin other waker cell =
      (world.pollJoin other waker cell).detach join := by
  unfold pollJoin
  split
  · rw [detach_setJoin different]
    rfl
  · rw [detach_setJoin different]
    rfl
  · rfl

/-- Nothing but its handle is left to decide on the join. -/
structure Detachable (world : World Output) (join : JoinRef) : Prop where
  fresh : join ≠ .task world.executor.scheduling.created ∧
    join ≠ .refused world.refused
  unpublished : join ∉ publishing world.stack
  unreleased : join ∉ releasing world.stack
  ungranted : .grant join ∉ world.stack

theorem detach_step (detachable : world.Detachable join) (unused : ¬ label.uses join) :
    machine.step (world.detach join) label =
      (machine.step world label).map (detach join) := by
  change (world.detach join).step label = (world.step label).map (detach join)
  have guarded : ∀ {condition : Prop} [Decidable condition]
      {left right : Option (World Output)}, left = right.map (detach join) →
      (if condition then left else none) =
        (if condition then right else none).map (detach join) := by
    intro condition decidable left right same
    rw [apply_ite (Option.map (detach join)), same]
    rfl
  cases label with
  | executor move =>
      simp only [step, detach_permits, detach_executor]
      apply guarded
      rw [Option.map_map]
      rfl
  | tick reading =>
      simp only [step, detach_os]
      exact guarded rfl
  | clock call =>
      simp only [step, detach_codeRuns, detach_clock, detach_os]
      apply guarded
      split <;> rfl
  | timer call =>
      simp only [step, detach_codeRuns, detach_sleepCall, detach_time]
      apply guarded
      rw [Option.map_map]
      rfl
  | spawn =>
      simp only [step, detach_codeRuns, detach_executor]
      apply guarded
      rw [Option.map_map]
      congr 1
      funext executor
      exact detach_spawn detachable.fresh executor
  | pollJoin current waker =>
      have different : current ≠ join := unused
      simp only [step, detach_codeRuns, detach_executor, detach_joins different]
      split
      · apply guarded
        exact congrArg some (detach_pollJoin different waker _)
      · rfl
  | dropJoin current =>
      have different : current ≠ join := unused
      simp only [step, detach_codeRuns, detach_joins different]
      split
      · apply guarded
        exact congrArg some (detach_setJoin different _)
      · rfl
  | yield result => exact guarded (detach_yield result)
  | rootYield result => exact guarded (detach_rootYield result)
  | codeReturns => exact guarded detach_codeReturns
  | panic => exact guarded detach_panic
  | proceed =>
      exact guarded (detach_proceed detachable.unpublished detachable.unreleased
        detachable.ungranted)
  | drain => exact detach_drain
  | plan => exact detach_plan
  | recv => exact detach_recv
  | timeout => exact detach_timeout
  | dispatch => exact detach_dispatch
  | finish => exact guarded detach_finish
  | clear => exact detach_clear
  | destroy id => exact detach_destroy id

theorem detach_unused (present : world.joins join ≠ none)
    (step : machine.step (world.detach join) label = some next) :
    ¬ label.uses join := by
  obtain ⟨cell, found⟩ := Option.ne_none_iff_exists'.mp present
  intro uses
  change (world.detach join).step label = some next at step
  cases label with
  | pollJoin used waker =>
      cases uses
      simp [World.step, detach_found found, JoinCell.detach] at step
  | dropJoin used =>
      cases uses
      simp [World.step, detach_found found, JoinCell.detach] at step
  | _ => cases uses

theorem detach_over : (world.detach join).Over join ↔ world.Over join := by
  have abandoned : ∀ state : JoinState Output,
      state.abandon.isPending = state.isPending := by
    intro state
    cases state <;> rfl
  unfold Over
  rw [detach_stack, detach_self]
  apply or_congr Iff.rfl
  constructor
  · rintro ⟨cell, found, settled⟩
    obtain ⟨before, present, rfl⟩ := Option.map_eq_some_iff.mp found
    exact ⟨before, present, (abandoned before.state).symm.trans settled⟩
  · rintro ⟨cell, found, settled⟩
    exact ⟨cell.detach, by rw [found]; rfl, (abandoned cell.state).trans settled⟩

theorem Orderly.detachable (orderly : world.Orderly) (stacked : world.Stacked)
    {target : Nat} (present : world.joins (.task target) ≠ none)
    (ongoing : ¬ world.Over (.task target)) : world.Detachable (.task target) where
  fresh := by
    refine ⟨?_, nofun⟩
    intro same
    rw [same] at present
    exact present orderly.cells.fresh_task
  unpublished := fun member => ongoing (Or.inl member)
  unreleased := fun member => ongoing (Or.inr (orderly.cells.releasing _ member))
  ungranted := by
    intro member
    obtain ⟨number, isRefused⟩ := stacked.granting _ member
    cases isRefused

/-! The polls of a task and the end of its future. -/

/-- The part of the history that the future has made itself. -/
def fate (target : Nat) (log : List (ProgramEvent Output)) :
    List (ProgramEvent Output) :=
  log.filter (ProgramEvent.concerns target)

variable {target : Nat} {allowed : World Output → Label Output → Prop}

theorem Orderly.fate_step (orderly : world.Orderly)
    (concluded : world.Over (.task target)) (stepped : Stepped world label next) :
    fate target next.log = fate target world.log := by
  rcases stepped.logged with same | ⟨event, log, logged⟩
  · rw [same]
  · rw [log]
    apply List.filter_cons_of_neg
    intro concerns
    cases logged with
    | @polled root schedule id step phase =>
        obtain rfl := beq_iff_eq.mp concerns
        exact orderly.begins step phase concluded
    | returned stack same joins after =>
        obtain rfl := of_decide_eq_true concerns
        exact orderly.running stack concluded
    | panicked stack same joins after =>
        obtain rfl := of_decide_eq_true concerns
        exact orderly.running stack concluded
    | woke wakes joins =>
        rcases wakes.event with rfl | ⟨_, rfl⟩ <;> cases concerns
    | published | awaited | yielded => cases concerns

theorem run_spawned_le {start finish : World Output}
    (reach : machine.Reach allowed start finish) :
    start.executor.spawned ≤ finish.executor.spawned := by
  induction reach with
  | refl => exact Nat.le_refl _
  | step label _ _ step ih =>
      exact Nat.le_trans ih (stepped_of_step step).spawned_le

theorem Orderly.fate_run (orderly : world.Orderly)
    (concluded : world.Over (.task target))
    (reach : machine.Reach allowed world next)
    (few : next.executor.spawned < 2 ^ 64 - 1) :
    fate target next.log = fate target world.log := by
  have both : next.Orderly ∧ next.Over (.task target) ∧
      fate target next.log = fate target world.log := by
    apply run_invariant reach few orderly ⟨concluded, rfl⟩
    rintro middle label later ordered ⟨concluded, same⟩ _ stepped _
    exact ⟨(ordered.effect stepped).concluded ordered.cells concluded,
      (ordered.fate_step concluded stepped).trans same⟩
  exact both.2.2

/-- The program can take the same steps until the future is over, and the future
then has the history that it has in the other program. -/
def Follows (allowed : World Output → Label Output → Prop)
    [∀ world label, Decidable (allowed world label)] (target : Nat)
    (world : World Output) (labels : List (Label Output))
    (log : List (ProgramEvent Output)) : Prop :=
  ∃ before after other, labels = before ++ after ∧
    machine.run allowed world before = some other ∧
    fate target other.log = fate target log ∧
    (after = [] ∨ ∀ rest final, machine.run allowed other rest = some final →
      final.executor.spawned < 2 ^ 64 - 1 →
      fate target final.log = fate target other.log)

section Lockstep

variable [∀ (world : World Output) label, Decidable (allowed world label)]
  {labels : List (Label Output)} {later : World Output}

theorem Follows.now (orderly : world.Orderly)
    (concluded : world.Over (.task target)) {log : List (ProgramEvent Output)}
    (same : fate target log = fate target world.log) :
    Follows allowed target world labels log := by
  refine ⟨[], labels, world, rfl, rfl, same.symm, Or.inr ?_⟩
  intro rest final ran few
  exact orderly.fate_run concluded (Machine.reach_of_run ran) few

theorem Follows.cons {log : List (ProgramEvent Output)}
    (accepted : allowed world label) (step : machine.step world label = some next)
    (follows : Follows allowed target next labels log) :
    Follows allowed target world (label :: labels) log := by
  obtain ⟨before, after, other, rfl, ran, same, complete⟩ := follows
  refine ⟨label :: before, after, other, rfl, ?_, same, complete⟩
  exact Machine.run_cons.mpr ⟨accepted, next, step, ran⟩

/-- Without its handle the future does what it does with it. -/
theorem follows_of_detached
    (blind : ∀ world label,
      allowed (world.detach (.task target)) label ↔ allowed world label)
    (orderly : world.Orderly) (detached : (world.detach (.task target)).Orderly)
    (stacked : world.Stacked) (present : world.joins (.task target) ≠ none)
    (ran : machine.run allowed (world.detach (.task target)) labels = some later)
    (few : later.executor.spawned < 2 ^ 64 - 1) :
    Follows allowed target world labels later.log := by
  induction labels generalizing world with
  | nil =>
      cases ran
      exact ⟨[], [], world, rfl, rfl, rfl, Or.inl rfl⟩
  | cons label rest ih =>
      by_cases concluded : world.Over (.task target)
      · exact .now orderly concluded (detached.fate_run (detach_over.mpr concluded)
          (Machine.reach_of_run ran) few)
      · obtain ⟨accepted, next, step, ranRest⟩ := Machine.run_cons.mp ran
        have lockstep := step
        rw [detach_step (orderly.detachable stacked present concluded)
          (detach_unused present step)] at lockstep
        obtain ⟨follow, followed, rfl⟩ := Option.map_eq_some_iff.mp lockstep
        have stepped := stepped_of_step followed
        have fewer : (follow.detach (.task target)).executor.spawned <
            2 ^ 64 - 1 := Nat.lt_of_le_of_lt
          (run_spawned_le (Machine.reach_of_run ranRest)) few
        exact (ih (stepped.orderly orderly fewer)
          ((stepped_of_step step).orderly detached fewer)
          (stepped.stacked stacked) ((orderly.effect stepped).present present)
          ranRest).cons ((blind world label).mp accepted) followed

/-- A program that leaves the handle alone does without it what it does with it. -/
theorem detached_follows
    (blind : ∀ world label,
      allowed (world.detach (.task target)) label ↔ allowed world label)
    (orderly : world.Orderly) (detached : (world.detach (.task target)).Orderly)
    (stacked : world.Stacked) (present : world.joins (.task target) ≠ none)
    (unused : ∀ label ∈ labels, ¬ label.uses (.task target))
    (ran : machine.run allowed world labels = some later)
    (few : later.executor.spawned < 2 ^ 64 - 1) :
    Follows allowed target (world.detach (.task target)) labels later.log := by
  induction labels generalizing world with
  | nil =>
      cases ran
      exact ⟨[], [], _, rfl, rfl, rfl, Or.inl rfl⟩
  | cons label rest ih =>
      by_cases concluded : world.Over (.task target)
      · exact .now detached (detach_over.mpr concluded)
          (orderly.fate_run concluded (Machine.reach_of_run ran) few)
      · obtain ⟨accepted, next, step, ranRest⟩ := Machine.run_cons.mp ran
        have lockstep : machine.step (world.detach (.task target)) label =
            some (next.detach (.task target)) := by
          rw [detach_step (orderly.detachable stacked present concluded)
            (unused label List.mem_cons_self), step]
          rfl
        have stepped := stepped_of_step step
        have fewer : next.executor.spawned < 2 ^ 64 - 1 := Nat.lt_of_le_of_lt
          (run_spawned_le (Machine.reach_of_run ranRest)) few
        have unusedRest : ∀ label ∈ rest, ¬ label.uses (.task target) :=
          fun label member => unused label (List.mem_cons_of_mem _ member)
        exact (ih (stepped.orderly orderly fewer)
          ((stepped_of_step lockstep).orderly detached fewer)
          (stepped.stacked stacked) ((orderly.effect stepped).present present)
          unusedRest ranRest).cons ((blind world label).mpr accepted) lockstep

end Lockstep

end World

end Asyncr
