import Asyncr.Program.Outputs

namespace Asyncr

open Library
open Time

namespace World

variable {Output : Type} {world next : World Output} {label : Label Output}
  {clock : Clock} {os : Instant}

/-! Each destructor is put on the stack once. -/

theorem Effect.over_back (effect : Effect world next) {join : JoinRef}
    (isOver : next.Over join) : world.Over join ∨ join ∈ publishing next.stack := by
  rcases isOver with member | ⟨cell, found, settled⟩
  · exact Or.inr member
  · exact Or.inl (effect.settled found settled)

theorem Effect.completed (effect : Effect world next) {join : JoinRef}
    {cell : JoinCell Output} (found : next.joins join = some cell)
    (settled : cell.state.isPending = false) :
    (∃ cell, world.joins join = some cell ∧ cell.state.isPending = false) ∨
      ∃ result rest, world.stack = .publish join result :: rest := by
  cases effect with
  | same joins _ _ | ended _ joins _ _ _ | discarded _ joins _ _ _ =>
      exact Or.inl ⟨cell, joins ▸ found, settled⟩
  | kept before joins sender handled published released =>
      rcases found_updated joins found with ⟨rfl, rfl⟩ | ⟨_, old⟩
      · exact Or.inl ⟨_, before, handled.isPending ▸ settled⟩
      · exact Or.inl ⟨cell, old, settled⟩
  | spawned unclosed step joins stack =>
      rcases found_updated joins found with ⟨rfl, rfl⟩ | ⟨_, old⟩
      · cases settled
      · exact Or.inl ⟨cell, old, settled⟩
  | refused closed same counted joins published released =>
      rcases found_updated joins found with ⟨rfl, rfl⟩ | ⟨_, old⟩
      · cases settled
      · exact Or.inl ⟨cell, old, settled⟩
  | published before state joins same stack published released =>
      rcases found_updated joins found with ⟨rfl, rfl⟩ | ⟨_, old⟩
      · exact Or.inr ⟨_, _, stack⟩
      · exact Or.inl ⟨cell, old, settled⟩
  | released before joins same published released =>
      rcases found_updated joins found with ⟨rfl, rfl⟩ | ⟨_, old⟩
      · exact Or.inl ⟨_, before, settled⟩
      · exact Or.inl ⟨cell, old, settled⟩

theorem Adds.futures {added : List Code} (adds : Adds world next added)
    (effect : Effect world next) (join : JoinRef) :
    (next.Over join → world.Over join ∨ .dropFuture join ∈ added) ∧
      (.dropFuture join ∈ added → ¬ world.Over join ∧ next.Over join ∧
        added.count (.dropFuture join) = 1) := by
  have back : publishing next.stack ⊆ publishing world.stack → next.Over join →
      world.Over join := by
    intro less isOver
    rcases effect.over_back isOver with before | member
    · exact before
    · exact Or.inl (less member)
  cases adds with
  | nothing less => exact ⟨fun isOver => Or.inl (back less isOver), nofun⟩
  | @harnessed ended payload unended published origin =>
      have others : .dropFuture join ∉ payload := by
        rcases origin with rfl | ⟨rfl, _⟩
        · exact List.not_mem_nil
        · simp
      refine ⟨?_, ?_⟩
      · intro isOver
        rcases effect.over_back isOver with before | member
        · exact Or.inl before
        · rw [published] at member
          rcases List.mem_cons.mp member with rfl | old
          · exact Or.inr List.mem_cons_self
          · exact Or.inl (Or.inl old)
      · intro member
        rcases List.mem_cons.mp member with same | later
        · cases same
          refine ⟨unended, Or.inl (published ▸ List.mem_cons_self), ?_⟩
          rw [List.count_cons_self, List.count_eq_zero.mpr others]
        · exact absurd later others
  | unclaimed found state holder joins published =>
      exact ⟨fun isOver => Or.inl (back (published ▸ List.Subset.refl _) isOver),
        by simp⟩

theorem Adds.destroys {added : List Code} (adds : Adds world next added) {code : Code}
    (member : code ∈ added) : code.destroys = true := by
  cases adds with
  | nothing less => cases member
  | harnessed unended published origin =>
      rcases origin with rfl | ⟨rfl, _⟩
      · cases List.mem_singleton.mp member
        rfl
      · rcases List.mem_cons.mp member with rfl | payload
        · rfl
        · cases List.mem_singleton.mp payload
          rfl
  | unclaimed found state holder joins published =>
      cases List.mem_singleton.mp member
      rfl

theorem Adds.payloads {added : List Code} (adds : Adds world next added)
    {join : JoinRef} (member : .dropPayload join ∈ added) :
    ¬ world.Over join ∧ next.log = .panicked join :: world.log ∧
      added.count (.dropPayload join) = 1 := by
  cases adds with
  | nothing less => cases member
  | harnessed unended published origin =>
      rcases origin with rfl | ⟨rfl, log⟩
      · simp at member
      · simp only [List.mem_cons, reduceCtorEq, Code.dropPayload.injEq, List.not_mem_nil,
          or_false, false_or] at member
        subst member
        exact ⟨unended, log, by simp⟩
  | unclaimed found state holder joins published => simp at member

theorem Adds.outputs {added : List Code} (adds : Adds world next added)
    (stepped : Stepped world label next) (traced : world.Traced) (after : next.Orderly)
    (later : next.Traced) {join : JoinRef} (member : .dropOutput join ∈ added) :
    (∃ cell value, world.joins join = some cell ∧ cell.state = .ready (.ok value)) ∧
      ¬ world.Spent join ∧ next.Spent join ∧ added.count (.dropOutput join) = 1 := by
  cases adds with
  | nothing less => cases member
  | harnessed unended published origin =>
      rcases origin with rfl | ⟨rfl, _⟩
      · simp at member
      · simp at member
  | @unclaimed freed cell value found state holder joins published =>
      simp only [List.mem_singleton, Code.dropOutput.injEq] at member
      subst member
      have now : next.joins join =
          some { cell with handle := false, sender := false } := by
        rw [joins]
        exact Function.update_self ..
      refine ⟨⟨cell, value, found, state⟩, ?_, ⟨⟨value, ?_⟩, ?_, ?_, ?_, ?_⟩, by simp⟩
      · intro spent
        obtain ⟨handle, sender⟩ := spent.unclaimed cell value found state
        rcases holder with held | released
        · cases handle.symm.trans held
        · obtain ⟨other, present, still⟩ :=
            traced.releasing join (mem_releasing.mpr released)
          cases found.symm.trans present
          cases sender.symm.trans still
      · exact stepped.log_stays (traced.ready join cell value found state)
      · exact ⟨_, now, by rw [state]; rfl⟩
      · intro other frame
        obtain ⟨_, present, pending⟩ :=
          after.cells.publishing join (mem_publishing.mpr ⟨_, frame⟩)
        cases now.symm.trans present
        rw [state] at pending
        cases pending
      · intro other yielded
        obtain ⟨_, present, consumed⟩ := later.yielded join _ yielded
        cases now.symm.trans present
        rw [state] at consumed
        cases consumed
      · intro other _ present _
        cases now.symm.trans present
        exact ⟨rfl, rfl⟩

/-! Runs that keep the destructors they have called. -/

/-- A run of the program, and the destructors that it has called. -/
structure DropRun (Output : Type) where
  world : World Output
  called : List Code
  /-- Those that have ended in a panic. -/
  failed : List Code

namespace DropRun

variable {run after : DropRun Output}

def start (clock : Clock) (os : Instant) : DropRun Output :=
  ⟨initial clock os, [], []⟩

def step (run : DropRun Output) (label : Label Output) : Option (DropRun Output) :=
  (World.machine.step run.world label).map fun next =>
    ⟨next, run.world.calls label ++ run.called, run.world.fails label ++ run.failed⟩

def machine : Machine (DropRun Output) (Label Output) where
  step := step

theorem step_iff : machine.step run label = some after ↔
    World.machine.step run.world label = some after.world ∧
      after.called = run.world.calls label ++ run.called ∧
      after.failed = run.world.fails label ++ run.failed := by
  change (World.machine.step run.world label).map _ = some after ↔ _
  rw [Option.map_eq_some_iff]
  constructor
  · rintro ⟨next, stepped, rfl⟩
    exact ⟨stepped, rfl, rfl⟩
  · rintro ⟨stepped, called, failed⟩
    exact ⟨after.world, stepped, by rw [← called, ← failed]⟩

/-- The destructors called so far, and those about to be called. -/
def owed (run : DropRun Output) : List Code :=
  destructors run.world.stack ++ run.called

/-- The destructors are those of the futures that have ended, of the payloads of
their panics, and of the outputs that only the runtime has. -/
structure Disposed (run : DropRun Output) : Prop where
  ending : Ending run.world.stack
  once : run.owed.Nodup
  ran : (executing run.world.stack ++ run.failed).Subperm run.called
  futures : ∀ join, .dropFuture join ∈ run.owed ↔ run.world.Over join
  caught : ∀ join, .dropPayload join ∈ run.owed → .panicked join ∈ run.world.log
  payloads : ∀ join, .panicked join ∈ run.world.log →
    (.dropPayload join ∈ run.owed ↔ .dropFuture join ∉ run.failed)
  paid : ∀ join, .dropPayload join ∈ run.called → ¬ Destroying run.world.stack join
  outputs : ∀ join, .dropOutput join ∈ run.owed →
    run.world.Spent join ∧ .dropFuture join ∉ run.failed
  forfeited : ∀ join, .dropFuture join ∈ run.failed → run.world.Forfeited join
  settled : ∀ join cell, run.world.joins join = some cell →
    cell.state.isPending = false → .dropFuture join ∈ run.called ∧
      (.panicked join ∈ run.world.log → .dropPayload join ∈ run.called ∨
        .dropFuture join ∈ run.failed)

end DropRun

theorem Stepped.panicked_back (stepped : Stepped world label next)
    (orderly : world.Orderly) {join : JoinRef} (isOver : world.Over join)
    (member : .panicked join ∈ next.log) : .panicked join ∈ world.log := by
  rcases stepped.logged with same | ⟨event, log, logged⟩
  · exact same ▸ member
  · rw [log] at member
    rcases List.mem_cons.mp member with rfl | old
    · exact absurd isOver (orderly.running (logged.concluded rfl).1)
    · exact old

theorem Stepped.panicked (stepped : Stepped world label next) {join : JoinRef}
    (member : .panicked join ∈ next.log) :
    .panicked join ∈ world.log ∨ .dropPayload join ∈ destructors next.stack := by
  rcases stepped.logged with same | ⟨event, log, logged⟩
  · exact Or.inl (same ▸ member)
  · rw [log] at member
    rcases List.mem_cons.mp member with rfl | old
    · cases logged with
      | panicked stack same joins after =>
          right
          rw [after]
          exact mem_destructors.mpr ⟨rfl, by simp⟩
      | woke wakes joins =>
          rcases wakes.event with isFired | ⟨_, isWoke⟩
          · cases isFired
          · cases isWoke
    · exact Or.inl old

theorem Owes.destroying {added lost : List Code} (owes : Owes world next label added lost)
    (stepped : Stepped world label next) (effect : Effect world next) {join : JoinRef}
    (destroying : Destroying next.stack join) :
    Destroying world.stack join ∨ ¬ world.Over join := by
  rcases destroying with called | running
  · have owed : .dropFuture join ∈ added ++ destructors world.stack := by
      rw [← owes.moved.mem_iff]
      have waits := mem_destructors.mpr ⟨rfl, called⟩
      exact List.mem_append_left _ (List.mem_append_right _ waits)
    rcases List.mem_append.mp owed with isAdded | waits
    · exact Or.inr ((owes.adds.futures effect join).2 isAdded).1
    · exact Or.inl (Or.inl (mem_destructors.mp waits).2)
  · have executes := stepped.executes.subset
      (List.mem_append_left _ (mem_executing.mpr ⟨rfl, running⟩))
    rcases List.mem_append.mp executes with isCalled | already
    · exact Or.inl (Or.inl (mem_calls isCalled (by simp)))
    · exact Or.inl (Or.inr (mem_executing.mp already).2)

/-- A destructor that panics leaves the stack, with what is above it and below. -/
structure Breaks (world next : World Output) (code : Code) : Prop where
  top : ∃ rest, world.stack = .running code :: rest
  unended : Unended next.stack
  frames : ∀ join result, .publish join result ∈ next.stack → result = .error .cancelled
  joins : next.joins = world.joins
  log : next.log = world.log

theorem Stepped.breaks (stepped : Stepped world label next) {code : Code}
    (fails : code ∈ world.fails label) : label = .panic ∧ Breaks world next code := by
  cases label with
  | panic =>
      refine ⟨rfl, ?_⟩
      cases stepped with
      | timed origin later =>
          rcases origin with ⟨_, isTick, _⟩ | ⟨_, _, isClock⟩
          · cases isTick
          · cases isClock
      | caught free stack =>
          simp [World.fails, stack, executing, Frame.executing?, Code.destroys] at fails
      | @unwound _ rest left log executor free reason unwinds moved =>
          cases reason with
          | @code other _ stack outermost =>
              have same : code = other := by
                have top := (mem_executing.mp fails).2
                rw [stack] at top
                cases List.mem_singleton.mp top
                rfl
              subst same
              refine ⟨⟨rest, stack⟩, unwinds.unended, ?_, rfl, rfl⟩
              intro join result member
              rcases unwinds.mem member with inside | isRoot
              · exact publish_cleanup inside
              · cases isRoot
  | _ => cases fails

namespace DropRun

variable {run after : DropRun Output}

theorem disposed_start : (start clock os : DropRun Output).Disposed where
  ending := Ending.nil
  once := List.nodup_nil
  ran := List.Subperm.refl _
  futures := by
    intro join
    constructor
    · intro member
      cases member
    · rintro (member | ⟨cell, found, _⟩)
      · cases member
      · cases found
  caught := by
    intro join member
    cases member
  payloads := by
    intro join member
    cases member
  paid := by
    intro join member
    cases member
  outputs := by
    intro join member
    cases member
  forfeited := by
    intro join member
    cases member
  settled := by
    intro join cell found
    cases found

theorem Disposed.unpaid (disposed : run.Disposed) (finished : run.world.Finished)
    {join : JoinRef} (unended : ¬ run.world.Over join) : .dropPayload join ∉ run.owed :=
  fun owed => unended (finished.concluded join _ (disposed.caught join owed) rfl)

/-- One step, with what holds of the program before and after it. -/
structure Goes (run after : DropRun Output) (label : Label Output)
    (added lost : List Code) : Prop where
  stepped : Stepped run.world label after.world
  owes : Owes run.world after.world label added lost
  called : after.called = run.world.calls label ++ run.called
  failed : after.failed = run.world.fails label ++ run.failed
  orderly : run.world.Orderly
  stacked : run.world.Stacked
  cancelling : run.world.Cancelling
  traced : run.world.Traced
  finished : run.world.Finished
  later : after.world.Orderly
  kept : after.world.Traced

section

variable {added lost : List Code} (disposed : run.Disposed)
  (goes : Goes run after label added lost)

include goes

theorem Goes.effect : Effect run.world after.world :=
  goes.orderly.effect goes.stepped

theorem Goes.failed_back {code : Code} (failed : code ∈ after.failed) :
    code ∈ run.world.fails label ∨ code ∈ run.failed := by
  rw [goes.failed] at failed
  exact List.mem_append.mp failed

theorem Goes.failed_on {code : Code} (failed : code ∈ run.failed) :
    code ∈ after.failed := by
  rw [goes.failed]
  exact List.mem_append_right _ failed

theorem Goes.called_on {code : Code} (called : code ∈ run.called) :
    code ∈ after.called := by
  rw [goes.called]
  exact List.mem_append_right _ called

theorem Goes.owed : (lost ++ after.owed).Perm (added ++ run.owed) := by
  unfold DropRun.owed
  rw [goes.called, ← List.append_assoc added]
  refine List.Perm.trans ?_ (goes.owes.moved.append_right run.called)
  rw [← List.append_assoc (destructors _), ← List.append_assoc lost]
  apply List.Perm.append_right
  exact List.perm_append_comm.trans (List.perm_append_comm.append_right lost)

/-- Only a payload is lost, with its future's destructor. -/
theorem Goes.losing {code : Code} (member : code ∈ lost) :
    ∃ join, code = .dropPayload join ∧ .dropFuture join ∈ after.failed := by
  cases goes.owes.loses with
  | nothing => cases member
  | @payload join stack =>
      refine ⟨join, List.mem_singleton.mp member, ?_⟩
      rw [goes.failed]
      apply List.mem_append_left
      exact mem_executing.mpr ⟨rfl, by simp [stack]⟩

theorem Goes.owed_back {code : Code} (owed : code ∈ after.owed) :
    code ∈ added ∨ code ∈ run.owed :=
  List.mem_append.mp (goes.owed.subset (List.mem_append_right lost owed))

theorem Goes.owed_on {code : Code} (owed : code ∈ added ∨ code ∈ run.owed) :
    code ∈ lost ∨ code ∈ after.owed :=
  List.mem_append.mp (goes.owed.mem_iff.mpr (List.mem_append.mpr owed))

include disposed

theorem Disposed.breaking {join : JoinRef}
    (fails : .dropFuture join ∈ run.world.fails label) :
    Destroying run.world.stack join ∧ run.world.Pending join := by
  obtain ⟨rest, stack⟩ := (goes.stepped.breaks fails).2.top
  have destroying : Destroying run.world.stack join :=
    Or.inr (stack ▸ List.mem_cons_self)
  exact ⟨destroying, goes.orderly.cells.publishing join
    (disposed.ending.publishes join destroying)⟩

theorem Disposed.fresh : ∀ code ∈ added, added.count code = 1 ∧ code ∉ run.owed := by
  intro code member
  have adds := goes.owes.adds
  have destroys : code.destroys = true := adds.destroys member
  cases code with
  | root | inner | waker | dropRoot => cases destroys
  | dropFuture join =>
      obtain ⟨unended, _, once⟩ := (adds.futures goes.effect join).2 member
      exact ⟨once, fun owed => unended ((disposed.futures join).mp owed)⟩
  | dropPayload join =>
      obtain ⟨unended, _, once⟩ := adds.payloads member
      exact ⟨once, disposed.unpaid goes.finished unended⟩
  | dropOutput join =>
      obtain ⟨_, unspent, _, once⟩ :=
        adds.outputs goes.stepped goes.traced goes.later goes.kept member
      exact ⟨once, fun owed => unspent (disposed.outputs join owed).1⟩

theorem Disposed.once_step : after.owed.Nodup := by
  have fresh := disposed.fresh goes
  have all : (added ++ run.owed).Nodup := by
    refine List.nodup_append'.mpr
      ⟨List.nodup_iff_count_le_one.mpr ?_, disposed.once, ?_⟩
    · intro code
      by_cases isAdded : code ∈ added
      · exact Nat.le_of_eq (fresh code isAdded).1
      · rw [List.count_eq_zero.mpr isAdded]
        exact Nat.zero_le 1
    · intro code isAdded isOwed
      exact (fresh code isAdded).2 isOwed
  exact (List.nodup_append'.mp (goes.owed.nodup_iff.mpr all)).2.1

theorem Disposed.ran_step :
    (executing after.world.stack ++ after.failed).Subperm after.called := by
  rw [goes.called, goes.failed, ← List.append_assoc]
  have executes := (List.subperm_append_right run.failed).mpr goes.stepped.executes
  rw [List.append_assoc (run.world.calls label)] at executes
  exact executes.trans ((List.subperm_append_left _).mpr disposed.ran)

theorem Disposed.futures_step (join : JoinRef) :
    .dropFuture join ∈ after.owed ↔ after.world.Over join := by
  obtain ⟨ended, began⟩ := goes.owes.adds.futures goes.effect join
  constructor
  · intro owed
    rcases goes.owed_back owed with isAdded | isOwed
    · exact (began isAdded).2.1
    · exact goes.effect.concluded goes.orderly.cells ((disposed.futures join).mp isOwed)
  · intro isOver
    have owed := (ended isOver).symm.imp_right (disposed.futures join).mpr
    refine (goes.owed_on owed).resolve_left fun lost => ?_
    obtain ⟨_, isPayload, _⟩ := goes.losing lost
    cases isPayload

theorem Disposed.caught_step {join : JoinRef} (owed : .dropPayload join ∈ after.owed) :
    .panicked join ∈ after.world.log := by
  rcases goes.owed_back owed with isAdded | isOwed
  · rw [(goes.owes.adds.payloads isAdded).2.1]
    exact List.mem_cons_self
  · exact goes.stepped.log_stays (disposed.caught join isOwed)

theorem Disposed.paid_step {join : JoinRef} (called : .dropPayload join ∈ after.called) :
    ¬ Destroying after.world.stack join := by
  intro destroying
  have isOver : .dropPayload join ∈ run.owed → run.world.Over join := by
    intro owed
    exact goes.finished.concluded join _ (disposed.caught join owed) rfl
  rw [goes.called] at called
  rcases List.mem_append.mp called with now | already
  · have waits := mem_calls now nofun
    have owed : .dropPayload join ∈ run.owed :=
      List.mem_append_left _ (mem_destructors.mpr ⟨rfl, waits⟩)
    rcases goes.owes.destroying goes.stepped goes.effect destroying with before | unended
    · cases label with
      | proceed =>
          obtain ⟨front, stack, destroyer⟩ := disposed.ending.payload join waits
          have top := mem_destructors.mp now
          rcases destroyer with rfl | rfl | rfl
          · rw [stack] at before
            simp [Destroying] at before
          · rw [stack] at top
            simp at top
          · rw [stack] at top
            simp at top
      | dropJoin other =>
          simp only [World.calls] at now
          split at now
          · split at now <;> simp at now
          · cases now
      | _ => cases now
    · exact unended (isOver owed)
  · rcases goes.owes.destroying goes.stepped goes.effect destroying with before | unended
    · exact disposed.paid join already before
    · exact unended (isOver (List.mem_append_right _ already))

theorem Disposed.payloads_step {join : JoinRef}
    (panicked : .panicked join ∈ after.world.log) :
    .dropPayload join ∈ after.owed ↔ .dropFuture join ∉ after.failed := by
  constructor
  · intro owed failed
    rcases goes.failed_back failed with now | already
    · obtain ⟨isPanic, breaks⟩ := goes.stepped.breaks now
      rcases List.mem_append.mp owed with waits | called
      · exact breaks.unended.2 join (mem_destructors.mp waits).2
      · rw [goes.called, isPanic] at called
        exact disposed.paid join called (disposed.breaking goes now).1
    · have isOver := (disposed.forfeited join already).finished
      rcases goes.owed_back owed with isAdded | isOwed
      · exact (goes.owes.adds.payloads isAdded).1 isOver
      · exact (disposed.payloads join (disposed.caught join isOwed)).mp isOwed already
  · intro unfailed
    rcases goes.stepped.panicked panicked with old | now
    · have owed : .dropPayload join ∈ run.owed :=
        (disposed.payloads join old).mpr fun failed => unfailed (goes.failed_on failed)
      refine (goes.owed_on (Or.inr owed)).resolve_left fun lost => ?_
      obtain ⟨other, same, failed⟩ := goes.losing lost
      cases same
      exact unfailed failed
    · exact List.mem_append_left _ now

theorem Disposed.outputs_step {join : JoinRef} (owed : .dropOutput join ∈ after.owed) :
    after.world.Spent join ∧ .dropFuture join ∉ after.failed := by
  rcases goes.owed_back owed with isAdded | isOwed
  · obtain ⟨⟨cell, value, found, ready⟩, _, spent, _⟩ :=
      goes.owes.adds.outputs goes.stepped goes.traced goes.later goes.kept isAdded
    refine ⟨spent, fun failed => ?_⟩
    rcases goes.failed_back failed with now | already
    · obtain ⟨_, other, present, pending⟩ := disposed.breaking goes now
      cases found.symm.trans present
      rw [ready] at pending
      cases pending
    · exact (disposed.forfeited join already).unready cell value found ready
  · obtain ⟨spent, unfailed⟩ := disposed.outputs join isOwed
    refine ⟨spent.step goes.stepped goes.orderly goes.stacked goes.cancelling goes.traced
      goes.finished, fun failed => ?_⟩
    rcases goes.failed_back failed with now | already
    · exact spent.completed.unpending (disposed.breaking goes now).2
    · exact unfailed already

theorem Disposed.forfeited_step {join : JoinRef}
    (failed : .dropFuture join ∈ after.failed) : after.world.Forfeited join := by
  rcases goes.failed_back failed with now | already
  · obtain ⟨destroying, cell, found, pending⟩ := disposed.breaking goes now
    obtain ⟨_, breaks⟩ := goes.stepped.breaks now
    have publishes := disposed.ending.publishes join destroying
    have unsettled : ∀ other, run.world.joins join = some other →
        other.state.isPending = true := by
      intro other present
      cases found.symm.trans present
      exact pending
    refine ⟨goes.effect.concluded goes.orderly.cells (Or.inl publishes),
      breaks.frames join, ?_, ?_, ?_⟩
    · intro result waker published
      rw [breaks.log] at published
      obtain ⟨⟨other, present, settled⟩, _⟩ :=
        goes.traced.published join result waker published
      cases settled.symm.trans (unsettled other present)
    · intro other value present ready
      rw [breaks.joins] at present
      have waits := unsettled other present
      rw [ready] at waits
      cases waits
    · intro value yielded
      rw [breaks.log] at yielded
      obtain ⟨other, present, consumed⟩ := goes.traced.yielded join _ yielded
      have waits := unsettled other present
      rw [consumed] at waits
      cases waits
  · exact (disposed.forfeited join already).step goes.stepped goes.orderly goes.cancelling

theorem Disposed.settled_step {join : JoinRef} {cell : JoinCell Output}
    (found : after.world.joins join = some cell) (settled : cell.state.isPending = false) :
    .dropFuture join ∈ after.called ∧ (.panicked join ∈ after.world.log →
      .dropPayload join ∈ after.called ∨ .dropFuture join ∈ after.failed) := by
  rcases goes.effect.completed found settled with
    ⟨old, before, was⟩ | ⟨result, rest, stack⟩
  · obtain ⟨future, payload⟩ := disposed.settled join old before was
    refine ⟨goes.called_on future, fun panicked => ?_⟩
    have isOver : run.world.Over join := Or.inr ⟨old, before, was⟩
    exact (payload (goes.stepped.panicked_back goes.orderly isOver panicked)).imp
      goes.called_on goes.failed_on
  · have isOver : run.world.Over join :=
      Or.inl (by rw [stack]; exact List.mem_cons_self)
    obtain ⟨first, _⟩ := List.pairwise_cons.mp (stack ▸ disposed.ending.layered)
    have gone : ∀ {code}, code ∈ run.owed →
        code = .dropFuture join ∨ code = .dropPayload join → code ∈ run.called := by
      intro code isOwed origin
      refine (List.mem_append.mp isOwed).resolve_left fun waits => ?_
      obtain ⟨_, isCall⟩ := mem_destructors.mp waits
      rw [stack] at isCall
      rcases List.mem_cons.mp isCall with isPublish | below
      · cases isPublish
      · obtain ⟨future, payload⟩ := first _ below join result rfl
        rcases origin with rfl | rfl
        · exact future (Or.inl List.mem_cons_self)
        · exact payload rfl
    refine ⟨goes.called_on (gone ((disposed.futures join).mpr isOver) (Or.inl rfl)), ?_⟩
    intro panicked
    have old := goes.stepped.panicked_back goes.orderly isOver panicked
    by_cases failed : .dropFuture join ∈ run.failed
    · exact Or.inr (goes.failed_on failed)
    · exact Or.inl (goes.called_on
        (gone ((disposed.payloads join old).mpr failed) (Or.inr rfl)))

theorem Disposed.step : after.Disposed where
  ending := goes.stepped.ending goes.orderly goes.cancelling disposed.ending
  once := disposed.once_step goes
  ran := disposed.ran_step goes
  futures := disposed.futures_step goes
  caught := fun _ => disposed.caught_step goes
  payloads := fun _ => disposed.payloads_step goes
  paid := fun _ => disposed.paid_step goes
  outputs := fun _ => disposed.outputs_step goes
  forfeited := fun _ => disposed.forfeited_step goes
  settled := fun _ _ => disposed.settled_step goes

end

end DropRun

end World

end Asyncr
