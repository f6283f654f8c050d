import Asyncr.Library.Chain
import Asyncr.Program.Effort
import Asyncr.Program.Structured

namespace Asyncr

namespace World

open Library
open Relation
open Time

variable {Output : Type} {world next : World Output} {label : Label Output}
  {clock : Clock} {os : Instant}

/-! Joins do not deadlock. -/

def Joins (world : World Output) (waiter target : Nat) : Prop :=
  world.joiner? (.task target) = some waiter

theorem Harnessed.joined_owned (harnessed : world.Harnessed) (empty : world.stack = [])
    {waiter target : Nat} (joins : world.Joins waiter target) :
    world.executor.Owned target := by
  obtain ⟨cell, found, waits⟩ := joiner?_eq_some.mp joins
  rcases harnessed.owner target ⟨cell, found, by rw [waits]; rfl⟩ with member | owned
  · rw [empty] at member
    cases member
  · exact owned

theorem Harnessed.chain_unfinished (harnessed : world.Harnessed)
    (empty : world.stack = []) {root schedule : Nat}
    (phase : world.executor.phase = .waiting root)
    (chain : ReflTransGen world.Joins root schedule) :
    world.executor.Unfinished schedule := by
  cases chain with
  | refl => exact Or.inr ⟨by rw [phase]; rfl, by rw [phase]; simp⟩
  | tail _ joins => exact Or.inl (harnessed.joined_owned empty joins)

/-- Nobody waits for the root, and each task is waited for by one, so that the joins
which the root waits for do not close into a cycle. -/
theorem Orderly.chain_ends (orderly : world.Orderly) (empty : world.stack = [])
    {root : Nat} (phase : world.executor.phase = .waiting root) :
    ∃ last, ReflTransGen world.Joins root last ∧ ∀ after, ¬ world.Joins last after := by
  have harnessed := orderly.harnessed
  have coherent := orderly.sound.coherent
  apply Library.chain_ends
  · apply (Set.finite_lt_nat world.executor.scheduling.created).subset
    intro schedule chain
    exact (harnessed.chain_unfinished empty phase chain).created coherent
  · intro waiter other target joins again
    exact Option.some.inj (joins.symm.trans again)
  · intro waiter joins
    apply ((harnessed.joined_owned empty joins).sends coherent).2
    exact (coherent.root root (by rw [phase]; rfl)).2

/-- The tasks that the root waits for are idle, and the last of them sleeps. -/
theorem blocked_chain (reach : machine.Reach Structured (initial clock os) world)
    (few : world.executor.spawned < 2 ^ 64 - 1) (timed : world.time.registered < 2 ^ 64)
    (blocks : world.Blocks) (unsent : world.executor.scheduling.sending = []) {root : Nat}
    (phase : world.executor.phase = .waiting root) :
    (∀ schedule, ReflTransGen world.Joins root schedule →
      world.executor.Unfinished schedule ∧
        world.executor.scheduling.state schedule = .idle) ∧
    ∃ last id, ReflTransGen world.Joins root last ∧
      world.sleeper? id = some last := by
  have contained := reach.weaken fun _ _ structured => structured.1
  have excuses := run_excuses reach few timed
  have tidy := run_tidy contained few
  have orderly := tidy.orderly
  have sound := orderly.sound
  obtain ⟨_, _, going⟩ :=
    Executor.run_going (tidy.ended.weaken fun _ _ tame => tame.1) few
  have empty : world.stack = [] := orderly.placed (by rw [phase]; rfl)
  have idle : ∀ schedule, world.executor.Unfinished schedule →
      world.executor.scheduling.state schedule = .idle := by
    intro schedule unfinished
    refine (going.waits sound unfinished (by simp [phase])).resolve_right ?_
    intro queued
    rcases (tidy.ended.kept few).1.asked (by simp [phase])
        (sound.entered.waiting root phase).1
        (sound.coherent.taken.resolve_left (by simp [phase])) queued with
      sending | ready
    · rw [unsent] at sending
      cases sending
    · rw [blocks.empty] at ready
      cases ready
  have chained := fun schedule (chain : ReflTransGen world.Joins root schedule) =>
    orderly.harnessed.chain_unfinished empty phase chain
  refine ⟨fun schedule chain => ⟨chained schedule chain, idle schedule (chained _ chain)⟩,
    ?_⟩
  obtain ⟨last, chain, ends⟩ := orderly.chain_ends empty phase
  cases excuses.excused last (chained last chain) (by simp [phase, Phase.polled?])
    (by rw [idle last (chained last chain)]; rfl) with
  | expects expects =>
      rcases expects with ⟨target, _, joins⟩ | ⟨id, _, sleeping⟩
      · exact absurd joins (ends target)
      · exact ⟨last, id, chain, sleeping⟩
  | waking member wakes =>
      rw [empty] at member
      cases member

/-- When the executor blocks and no other thread has anything left to send, the root
waits, through a chain of unfinished tasks that wait for one another, for a task whose
timer is registered. -/
theorem blocks_for_a_timer (reach : machine.Reach Structured (initial clock os) world)
    (few : world.executor.spawned < 2 ^ 64 - 1) (timed : world.time.registered < 2 ^ 64)
    (blocks : world.Blocks) (unsent : world.executor.scheduling.sending = []) :
    ∃ root duration, world.executor.phase = .waiting root ∧
      world.wait = some (some duration) ∧
      (∀ schedule, ReflTransGen world.Joins root schedule →
        world.executor.Unfinished schedule ∧
          world.executor.scheduling.state schedule = .idle) ∧
      ∃ last id, ReflTransGen world.Joins root last ∧
        world.sleeper? id = some last := by
  have contained := reach.weaken fun _ _ structured => structured.1
  obtain ⟨_, _, furnished⟩ := run_furnished contained few
  obtain ⟨root, timeout, phase, wait⟩ := blocks.receives
  obtain ⟨chained, last, id, chain, sleeping⟩ :=
    blocked_chain reach few timed blocks unsent phase
  cases timeout with
  | none =>
      obtain ⟨registration, found, _⟩ := sleeper?_eq_some.mp sleeping
      rw [(furnished.waits none wait).2 rfl id] at found
      cases found
  | some duration =>
      exact ⟨root, duration, phase, wait, chained, last, id, chain, sleeping⟩

def joiningLabels : List (Label Nat) :=
  [.executor .blockOn, .executor .send, .drain, .executor .settle, .executor .tryRecv,
    .dispatch, .spawn, .executor .send, .pollJoin (.task 1) (.task 0),
    .rootYield .pending, .drain, .executor .settle, .executor .tryRecv, .dispatch,
    .timer (.new 5), .timer (.poll 0 (.task 1) 0), .yield .pending, .drain,
    .executor .settle, .executor .tryRecv, .plan]

def joining : World Nat :=
  (machine.run Structured (initial (Clock.new 0) 0) joiningLabels).getD
    (initial (Clock.new 0) 0)

theorem blocks_for_a_timer_joining :
    joining.executor.Unfinished 1 ∧
      ∃ last id, ReflTransGen joining.Joins 0 last ∧ joining.sleeper? id = some last := by
  have ran : machine.run Structured (initial (Clock.new 0) 0) joiningLabels =
    some joining := rfl
  have phase : joining.executor.phase = .waiting 0 := rfl
  have blocks : joining.Blocks := ⟨⟨0, some 5, rfl, rfl⟩, rfl, rfl⟩
  obtain ⟨root, duration, waiting, _, chained, timer⟩ :=
    blocks_for_a_timer (Machine.reach_of_run ran) (by decide) (by decide) blocks rfl
  cases phase.symm.trans waiting
  have joins : joining.Joins 0 1 := rfl
  exact ⟨(chained 1 (.single joins)).1, timer⟩

end World

end Asyncr
