import Asyncr.Program.DestructorRuns

namespace Asyncr

open Library
open Time

namespace World

variable {Output : Type} {world next : World Output} {label : Label Output}
  {clock : Clock} {os : Instant}

/-! Where the output of a future is, from its return on: no output is lost, and none is
in two places. -/

theorem Effect.sender_on (effect : Effect world next) (cells : world.Cells)
    {join : JoinRef} (pending : world.Pending join) :
    ∃ cell, next.joins join = some cell ∧ cell.sender = true := by
  obtain ⟨cell, found, isPending⟩ := pending
  have sender := cells.held join cell found isPending
  have updated : ∀ {other : JoinRef} {changed : JoinCell Output},
      next.joins = Function.update world.joins other (some changed) →
      (join = other → changed.sender = true) →
      ∃ cell, next.joins join = some cell ∧ cell.sender = true := by
    intro other changed joins still
    rcases kept_updated joins found with ⟨same, now⟩ | ⟨_, now⟩
    · exact ⟨changed, now, still same⟩
    · exact ⟨cell, now, sender⟩
  cases effect with
  | same joins _ _ | ended _ joins _ _ _ | discarded _ joins _ _ _ =>
      exact ⟨cell, joins ▸ found, sender⟩
  | kept before joins same handled published released =>
      refine updated joins ?_
      rintro rfl
      cases found.symm.trans before
      exact same.trans sender
  | spawned unclosed step joins stack => exact updated joins fun _ => rfl
  | refused closed same counted joins published released =>
      exact updated joins fun _ => rfl
  | published before state joins same stack published released =>
      refine updated joins ?_
      rintro rfl
      cases found.symm.trans before
      exact sender
  | @released other before still joins same published released =>
      refine updated joins ?_
      rintro rfl
      have member : join ∈ releasing world.stack := released ▸ List.mem_cons_self
      obtain ⟨_, present, settled⟩ := cells.releasing join member
      cases found.symm.trans present
      cases settled.symm.trans isPending

/-- An output that waits to be published goes on waiting, is published, or is leaked
with the destructor of its future. -/
theorem Stepped.output_on (stepped : Stepped world label next) (orderly : world.Orderly)
    (cancelling : world.Cancelling) (ending : Ending world.stack) {join : JoinRef}
    {value : Output} (member : .publish join (.ok value) ∈ world.stack) :
    .publish join (.ok value) ∈ next.stack ∨ .dropFuture join ∈ world.fails label ∨
      next.Held join value := by
  rcases stepped.publish_kept orderly cancelling member with
    kept | ⟨_, rest, log, fails, _⟩ | ⟨cell, now, ready⟩
  · exact Or.inl kept
  · right
    left
    obtain ⟨front, stack, destroyer⟩ := ending.output join value member
    cases fails with
    | @code code rest top outermost =>
        rw [top] at stack
        rcases destroyer with rfl | rfl | rfl
        · cases stack
        · cases stack
        · cases stack
          exact mem_executing.mpr ⟨rfl, by simp [top]⟩
    | poisoned wakes poisoned =>
        rw [stack] at wakes
        rcases destroyer with rfl | rfl | rfl
        · cases wakes
        · cases wakes
        · cases wakes
    | published top found twice =>
        obtain ⟨completed, completes⟩ := orderly.cells.completes top found
        rw [twice] at completes
        cases completes
  · right
    right
    have pending := orderly.cells.publishing join (mem_publishing.mpr ⟨_, member⟩)
    obtain ⟨_, again, sender⟩ :=
      (orderly.effect stepped).sender_on orderly.cells pending
    cases now.symm.trans again
    exact ⟨cell, now, ready, Or.inr sender⟩

namespace DropRun

variable {run after : DropRun Output}

/-- Where the output of a spawned future can be. -/
inductive Place where
  | unpublished
  /-- In the state of the join, which somebody holds. -/
  | shared
  | taken
  /-- Given to its destructor. -/
  | discarded
  /-- Lost when the destructor of the future panicked. -/
  | leaked

def At (run : DropRun Output) (join : JoinRef) (value : Output) : Place → Prop
  | .unpublished => .publish join (.ok value) ∈ run.world.stack
  | .shared => run.world.Held join value
  | .taken => .yielded join (.ok value) ∈ run.world.log
  | .discarded => .dropOutput join ∈ run.owed
  | .leaked => .dropFuture join ∈ run.failed

def Accounted (run : DropRun Output) : Prop :=
  ∀ join value, .returned join value ∈ run.world.log → ∃ place, run.At join value place

theorem accounted_start : (start clock os : DropRun Output).Accounted := by
  intro join value member
  cases member

theorem Accounted.step {added lost : List Code} (accounted : run.Accounted)
    (disposed : run.Disposed) (goes : Goes run after label added lost)
    (step : World.machine.step run.world label = some after.world) :
    after.Accounted := by
  have moved : ∀ join value, .returned join value ∈ run.world.log →
      ∃ place, after.At join value place := by
    intro join value returned
    obtain ⟨place, here⟩ := accounted join value returned
    cases place with
    | unpublished =>
        rcases goes.stepped.output_on goes.orderly goes.cancelling disposed.ending
          here with
          still | fails | held
        · exact ⟨.unpublished, still⟩
        · refine ⟨.leaked, ?_⟩
          rw [At, goes.failed]
          exact List.mem_append_left _ fails
        · exact ⟨.shared, held⟩
    | shared =>
        rcases held_on goes.orderly step here with still | log | gone
        · exact ⟨.shared, still⟩
        · exact ⟨.taken, by rw [At, log]; exact List.mem_cons_self⟩
        · refine ⟨.discarded, ?_⟩
          rw [At, owed, goes.called, List.mem_append, List.mem_append]
          rcases List.mem_append.mp gone with called | waits
          · exact Or.inr (Or.inl called)
          · exact Or.inl waits
    | taken => exact ⟨.taken, goes.stepped.log_stays here⟩
    | discarded =>
        refine ⟨.discarded, (goes.owed_on (Or.inr here)).resolve_left fun lost => ?_⟩
        obtain ⟨_, isPayload, _⟩ := goes.losing lost
        cases isPayload
    | leaked => exact ⟨.leaked, goes.failed_on here⟩
  intro join value returned
  rcases goes.stepped.logged with same | ⟨event, log, logged⟩
  · exact moved join value (same ▸ returned)
  · rw [log] at returned
    rcases List.mem_cons.mp returned with rfl | old
    · cases logged with
      | returned stack same joins harnessed =>
          refine ⟨.unpublished, ?_⟩
          rw [At, harnessed]
          exact List.mem_cons_of_mem _ List.mem_cons_self
      | woke wakes joins =>
          rcases wakes.event with isFired | ⟨_, isWoke⟩
          · cases isFired
          · cases isWoke
    · exact moved join value old

structure Kept (run : DropRun Output) : Prop where
  orderly : run.world.Orderly
  droppable : run.world.Droppable
  cancelling : run.world.Cancelling
  finished : run.world.Finished
  traced : run.world.Traced
  disposed : run.Disposed
  accounted : run.Accounted

theorem kept_start : (start clock os : DropRun Output).Kept where
  orderly := orderly_initial
  droppable := ⟨stacked_initial, acquainted_initial, Executor.emptied_initial⟩
  cancelling := cancelling_initial
  finished := finished_initial
  traced := traced_initial
  disposed := disposed_start
  accounted := accounted_start

theorem Kept.goes (kept : run.Kept) (step : machine.step run label = some after)
    (later : after.world.Orderly) : ∃ added lost, Goes run after label added lost := by
  obtain ⟨moved, called, failed⟩ := step_iff.mp step
  have stepped := stepped_of_step moved
  obtain ⟨added, lost, owes⟩ := destroys kept.orderly kept.disposed.ending moved
  exact ⟨added, lost, stepped, owes, called, failed, kept.orderly, kept.droppable.stacked,
    kept.cancelling, kept.traced, kept.finished, later,
    kept.traced.step stepped kept.orderly kept.cancelling⟩

theorem run_kept {allowed : DropRun Output → Label Output → Prop}
    (reach : machine.Reach allowed (start clock os) run)
    (few : run.world.executor.spawned < 2 ^ 64 - 1) :
    World.machine.Reach Machine.Any (initial clock os) run.world ∧ run.Kept := by
  induction reach with
  | refl => exact ⟨.refl, kept_start⟩
  | step label reach _ step ih =>
      obtain ⟨moved, _, _⟩ := step_iff.mp step
      have stepped := stepped_of_step moved
      obtain ⟨before, kept⟩ := ih (Nat.lt_of_le_of_lt stepped.spawned_le few)
      have now : World.machine.Reach Machine.Any (initial clock os) _ :=
        .step label before trivial moved
      obtain ⟨later, droppable⟩ := run_droppable now few
      obtain ⟨added, lost, goes⟩ := kept.goes step later
      exact ⟨now, later, droppable, kept.cancelling.step stepped kept.orderly,
        kept.finished.step kept.orderly stepped, goes.kept, kept.disposed.step goes,
        kept.accounted.step kept.disposed goes moved⟩

theorem Kept.apart (kept : run.Kept) {join : JoinRef} {value : Output} :
    (run.At join value .unpublished → ¬ run.At join value .shared ∧
      ¬ run.At join value .taken ∧ ¬ run.At join value .discarded ∧
      ¬ run.At join value .leaked) ∧
    (run.At join value .shared → ¬ run.At join value .taken ∧
      ¬ run.At join value .discarded ∧ ¬ run.At join value .leaked) ∧
    (run.At join value .taken → ¬ run.At join value .discarded ∧
      ¬ run.At join value .leaked) ∧
    (run.At join value .discarded → ¬ run.At join value .leaked) := by
  have spent : run.At join value .discarded → run.world.Spent join :=
    fun owed => (kept.disposed.outputs join owed).1
  have forfeited : run.At join value .leaked → run.world.Forfeited join :=
    kept.disposed.forfeited join
  refine ⟨?_, ?_, ?_, fun owed => (kept.disposed.outputs join owed).2⟩
  · intro waits
    obtain ⟨cell, found, pending⟩ :=
      kept.orderly.cells.publishing join (mem_publishing.mpr ⟨_, waits⟩)
    refine ⟨?_, ?_, fun owed => (spent owed).unpublished value waits, ?_⟩
    · rintro ⟨other, present, ready, _⟩
      cases found.symm.trans present
      rw [ready] at pending
      cases pending
    · intro yielded
      obtain ⟨other, present, consumed⟩ := kept.traced.yielded join _ yielded
      cases found.symm.trans present
      rw [consumed] at pending
      cases pending
    · intro failed
      cases (forfeited failed).frames _ waits
  · rintro ⟨cell, found, ready, holder⟩
    refine ⟨?_, ?_, fun failed => (forfeited failed).unready cell value found ready⟩
    · intro yielded
      obtain ⟨other, present, consumed⟩ := kept.traced.yielded join _ yielded
      cases found.symm.trans present
      cases ready.symm.trans consumed
    · intro owed
      obtain ⟨handle, sender⟩ := (spent owed).unclaimed cell value found ready
      rcases holder with held | held
      · cases handle.symm.trans held
      · cases sender.symm.trans held
  · intro yielded
    exact ⟨fun owed => (spent owed).untaken value yielded,
      fun failed => (forfeited failed).untaken value yielded⟩

/-- Every output that a spawned future has returned is in exactly one place: on its way
to the handle, in the state that the handle shares, taken from it, given to its
destructor, or leaked with the destructor of its future. -/
theorem output_in_one_place
    (reach : machine.Reach Machine.Any (start clock os) run)
    (few : run.world.executor.spawned < 2 ^ 64 - 1) {join : JoinRef} {value : Output}
    (returned : .returned join value ∈ run.world.log) :
    ∃! place, run.At join value place := by
  obtain ⟨_, kept⟩ := run_kept reach few
  obtain ⟨place, here⟩ := kept.accounted join value returned
  obtain ⟨unpublished, shared, taken, discarded⟩ := @kept.apart _ _ join value
  refine ⟨place, here, ?_⟩
  intro other there
  cases place with
  | unpublished =>
      obtain ⟨unshared, untaken, undiscarded, unleaked⟩ := unpublished here
      cases other with
      | unpublished => rfl
      | shared => exact absurd there unshared
      | taken => exact absurd there untaken
      | discarded => exact absurd there undiscarded
      | leaked => exact absurd there unleaked
  | shared =>
      obtain ⟨untaken, undiscarded, unleaked⟩ := shared here
      cases other with
      | unpublished => exact absurd here (unpublished there).1
      | shared => rfl
      | taken => exact absurd there untaken
      | discarded => exact absurd there undiscarded
      | leaked => exact absurd there unleaked
  | taken =>
      obtain ⟨undiscarded, unleaked⟩ := taken here
      cases other with
      | unpublished => exact absurd here (unpublished there).2.1
      | shared => exact absurd here (shared there).1
      | taken => rfl
      | discarded => exact absurd there undiscarded
      | leaked => exact absurd there unleaked
  | discarded =>
      cases other with
      | unpublished => exact absurd here (unpublished there).2.2.1
      | shared => exact absurd here (shared there).2.1
      | taken => exact absurd here (taken there).1
      | discarded => rfl
      | leaked => exact absurd there (discarded here)
  | leaked =>
      cases other with
      | unpublished => exact absurd here (unpublished there).2.2.2
      | shared => exact absurd here (shared there).2.2
      | taken => exact absurd here (taken there).2
      | discarded => exact absurd here (discarded there)
      | leaked => rfl

def outputRun : DropRun Nat :=
  (machine.run Machine.Any (start (Clock.new 0) 0)
    (firstPollLabels ++ [.yield (.ready 7), .proceed, .codeReturns, .proceed])).getD
      (start (Clock.new 0) 0)

theorem output_in_one_place_shared :
    ∃! place, outputRun.At (.task 0) 7 place := by
  have ran : machine.run Machine.Any (start (Clock.new 0) 0) (firstPollLabels ++
    [.yield (.ready 7), .proceed, .codeReturns, .proceed]) = some outputRun := rfl
  exact output_in_one_place (Machine.reach_of_run ran) (by decide)
    (List.mem_cons_of_mem _ List.mem_cons_self)

/-- A join that is pending when the executor is gone has its task among those that a
panic has leaked. -/
theorem Kept.leaked (kept : run.Kept) (dropped : run.world.executor.phase = .dropped)
    (empty : run.world.stack = []) {join : JoinRef} (pending : run.world.Pending join) :
    run.world.executor.failing = true ∧ ∃ id task,
      run.world.executor.tasks.lookup id = some task ∧ join = .task task.schedule := by
  have emptied := kept.droppable.emptied
  have unpublished : join ∉ publishing run.world.stack := by
    rw [empty]
    exact List.not_mem_nil
  cases join with
  | refused number =>
      exact absurd (kept.orderly.harnessed.refusing number pending) unpublished
  | task schedule =>
      rcases kept.orderly.harnessed.owner schedule pending with member | waits | owned
      · exact absurd member unpublished
      · obtain ⟨task, member, _⟩ := waits
        rw [emptied.pending (by rw [dropped]; rfl) (by rw [dropped]; exact nofun)]
          at member
        cases member
      · obtain ⟨id, task, found, same⟩ := owned
        refine ⟨?_, id, task, found, by rw [same]⟩
        by_contra unfailing
        rw [emptied.tasks dropped (Bool.eq_false_iff.mpr unfailing)] at found
        cases found

/-- The destructors that a run calls: each once, and none too early or too late. -/
theorem destroyed_once
    (reach : machine.Reach Machine.Any (start clock os) run)
    (few : run.world.executor.spawned < 2 ^ 64 - 1) :
    run.called.Nodup ∧
      (executing run.world.stack ++ run.failed).Subperm run.called ∧
      (∀ join, .dropFuture join ∈ run.called →
        .running (.inner join) ∉ run.world.stack) ∧
      (∀ join result waker, .published join result waker ∈ run.world.log →
        .dropFuture join ∈ run.called ∧
          (result = .error .panic → .dropPayload join ∈ run.called)) ∧
      (∀ join, .dropPayload join ∈ run.called →
        .panicked join ∈ run.world.log ∧ .dropFuture join ∉ run.failed) ∧
      (∀ join, .dropOutput join ∈ run.called →
        (∃ value, .returned join value ∈ run.world.log) ∧
          (∀ value, .yielded join (.ok value) ∉ run.world.log) ∧
          .dropFuture join ∉ run.failed) ∧
      (run.world.executor.phase = .dropped → run.world.stack = [] →
        ∀ join, run.world.joins join ≠ none →
          (.dropFuture join ∈ run.called ∧
            (.panicked join ∈ run.world.log →
              .dropPayload join ∈ run.called ∨ .dropFuture join ∈ run.failed)) ∨
          run.world.executor.failing = true ∧ ∃ id task,
            run.world.executor.tasks.lookup id = some task ∧
              join = .task task.schedule) := by
  obtain ⟨_, kept⟩ := run_kept reach few
  have disposed := kept.disposed
  have owes : ∀ {code}, code ∈ run.called → code ∈ run.owed :=
    fun member => List.mem_append_right _ member
  refine ⟨(List.nodup_append'.mp disposed.once).2.1, disposed.ran, ?_, ?_, ?_, ?_, ?_⟩
  · intro join called running
    have isOver := (disposed.futures join).mp (owes called)
    exact kept.orderly.running (kept.orderly.shaped.inner join running).1 isOver
  · intro join result waker published
    obtain ⟨⟨cell, found, settled⟩, panicked⟩ :=
      kept.traced.published join result waker published
    obtain ⟨future, payload⟩ := disposed.settled join cell found settled
    refine ⟨future, ?_⟩
    rintro rfl
    refine (payload (panicked rfl)).resolve_right fun failed => ?_
    cases (disposed.forfeited join failed).published _ waker published
  · intro join called
    have panicked := disposed.caught join (owes called)
    exact ⟨panicked, (disposed.payloads join panicked).mp (owes called)⟩
  · intro join called
    obtain ⟨spent, unfailed⟩ := disposed.outputs join (owes called)
    exact ⟨spent.returned, spent.untaken, unfailed⟩
  · intro dropped empty join present
    rcases resolved_or_pending present with ⟨cell, found, settled⟩ | pending
    · exact Or.inl (disposed.settled join cell found settled)
    · exact Or.inr (kept.leaked dropped empty pending)

def caughtRun : DropRun Nat :=
  (machine.run Machine.Any (start (Clock.new 0) 0) caughtLabels).getD
    (start (Clock.new 0) 0)

theorem destroyed_once_caught :
    caughtRun.called.Nodup ∧ .dropFuture (.task 0) ∈ caughtRun.called ∧
      .dropPayload (.task 0) ∈ caughtRun.called := by
  have ran : machine.run Machine.Any (start (Clock.new 0) 0) caughtLabels =
    some caughtRun := rfl
  obtain ⟨once, _, _, published, _⟩ :=
    destroyed_once (Machine.reach_of_run ran) (by decide)
  obtain ⟨future, payload⟩ :=
    published (.task 0) (.error .panic) none List.mem_cons_self
  exact ⟨once, future, payload rfl⟩

end DropRun

end World

end Asyncr
