import Asyncr.Program.Detach
import Asyncr.Program.SpawnJoin

namespace Asyncr

namespace World

open Library
open Time

variable {Output : Type} {world : World Output} {clock : Clock} {os : Instant}

/-! From a spawn to its handle, in programs of tasks that join one another. -/

/-- The result of a handle is that of its future, which is cancelled only by a
closed executor; a future is not polled after its end; without its handle it lives
as it does with it; and between two polls nobody sleeps on a future that has
ended. -/
theorem spawn_join (reach : machine.Reach JoinsOnly (initial clock os) world)
    (few : world.executor.spawned < 2 ^ 64 - 1) :
    (∀ join value, .yielded join (.ok value) ∈ world.log →
      .returned join value ∈ world.log) ∧
    (∀ join, .yielded join (.error .panic) ∈ world.log →
      .panicked join ∈ world.log) ∧
    (∀ join, .yielded join (.error .cancelled) ∈ world.log →
      world.executor.closed = true ∧ ∀ event ∈ world.log, ¬ event.ends join) ∧
    (world.log.Pairwise fun later earlier => ∀ schedule,
      later = .polled schedule ∨ later.ends (.task schedule) →
      ¬ earlier.ends (.task schedule)) ∧
    (∀ target dropped,
      machine.step world (.dropJoin (.task target)) = some dropped →
      ∀ labels later, later.executor.spawned < 2 ^ 64 - 1 →
      (machine.run JoinsOnly dropped labels = some later →
        Follows JoinsOnly target world labels later.log) ∧
      ((∀ label ∈ labels, ¬ label.uses (.task target)) →
        machine.run JoinsOnly world labels = some later →
        Follows JoinsOnly target dropped labels later.log)) ∧
    ∀ target schedule cell event, world.joins (.task target) = some cell →
      cell.handle = true → event ∈ world.log → event.ends (.task target) →
      Awaits (.task target) schedule world.log →
      world.executor.Unfinished schedule →
      (∀ root id polled, world.executor.phase ≠ .polling root id polled) →
      world.executor.scheduling.state schedule = .queued := by
  obtain ⟨tidy, stacked, watched⟩ := run_watched (run_quiet reach).1 few
  have recorded := tidy.recorded
  refine ⟨?_, ?_, ?_, tidy.finished.once, ?_, ?_⟩
  · intro join value member
    exact (recorded.yielded join _ member).1
  · intro join member
    exact (recorded.yielded join _ member).1
  · intro join member
    exact (recorded.yielded join _ member).1
  · intro target dropped step labels later fewer
    have blind : ∀ (world : World Output) label,
        (world.detach (.task target)).JoinsOnly label ↔ world.JoinsOnly label :=
      fun _ _ => Iff.rfl
    have stepped := stepped_of_step step
    have detached := stepped.orderly tidy.orderly
    cases stepped with
    | timed origin _ =>
        rcases origin with ⟨_, isTick, _⟩ | ⟨_, _, isClock⟩
        · cases isTick
        · cases isClock
    | unwound _ fails _ _ => cases fails
    | dropped runs found handle =>
        have present : world.joins (.task target) ≠ none := by
          rw [found]
          exact nofun
        rw [detach_dropJoin found] at detached ⊢
        refine ⟨?_, ?_⟩
        · intro ran
          exact follows_of_detached blind tidy.orderly (detached few) stacked present
            ran fewer
        · intro unused ran
          exact detached_follows blind tidy.orderly (detached few) stacked present
            unused ran fewer
  · intro target schedule cell event found handle member ended awaits unfinished
      between
    exact watched.queued tidy few between found handle member ended awaits unfinished

/-- A task waits for itself to be polled again, and the root waits for the task,
which then returns `7`. -/
def joinedLabels : List (Label Nat) :=
  firstPollLabels ++ [.executor (.wake 0), .yield .pending, .executor .send,
    .drain, .executor .settle, .executor .tryRecv, .dispatch,
    .pollJoin (.task 0) (.task 1), .rootYield .pending,
    .drain, .executor .settle, .executor .tryRecv, .dispatch,
    .yield (.ready 7), .proceed, .codeReturns, .proceed, .proceed,
    .executor .send, .proceed, .finish]

def joinedWorld : World Nat :=
  (machine.run JoinsOnly (initial (Clock.new 0) 0) joinedLabels).getD
    (initial (Clock.new 0) 0)

theorem spawn_join_waiting : joinedWorld.executor.scheduling.state 1 = .queued := by
  have ran : machine.run JoinsOnly (initial (Clock.new 0) 0) joinedLabels =
    some joinedWorld := rfl
  obtain ⟨_, _, _, _, _, joiners⟩ :=
    spawn_join (Machine.reach_of_run ran) (by decide)
  have logged : joinedWorld.log =
      [.woke (.task 0) (.task 1), .published (.task 0) (.ok 7) (some (.task 1)),
        .returned (.task 0) 7, .polled 0, .awaited (.task 0) (.task 1), .polled 1,
        .polled 0] := rfl
  have phase : joinedWorld.executor.phase = .iterating 1 := rfl
  apply joiners 0 1 ⟨.ready (.ok 7), true, false⟩ (.returned (.task 0) 7) rfl rfl
  · rw [logged]
    simp
  · rfl
  · rw [logged]
    refine .later (.later (.later (.later .awaited ?_ ?_ ?_) ?_ ?_ ?_) ?_ ?_ ?_)
      ?_ ?_ ?_ <;> simp
  · exact Or.inr ⟨rfl, by rw [phase]; simp⟩
  · rw [phase]
    simp

end World

end Asyncr
