import Asyncr.Executor.Admission
import Asyncr.Executor.WakeProtocol
import Asyncr.Program.History

namespace Asyncr

namespace Executor

/-- No poll of a task ends with a panic, and every task is admitted in time. -/
def Tame (executor : Executor) (move : Move) : Prop :=
  executor.RootEnds move ∧ executor.Admits move

variable {executor next : Executor}

theorem Tame.unwinding {move : Move} (tame : executor.Tame move)
    (moved : Moved executor move next) (sound : executor.Sound)
    (kept : executor.Kept) (phase : next.phase = .unwinding) :
    executor.phase = .unwinding ∨
      (∃ root target, executor.phase = .polling root rootTaskId target) ∨
      ∃ root, executor.phase = .leaving root := by
  cases moved with
  | pollPanicked before _ | wakerPanicked before _ | waitPanicked before _
  | leavingPanicked before _ => exact Or.inr (tame.1.panicked (by rw [before]; rfl))
  | notAdmitted before taken missing change =>
      exact absurd missing (tame.1.admitted before taken)
  | @notBegun root target entry panic scheduling before taken found fails change =>
      have all := kept.balanced (by simp [before])
      have answered := sound.coherent.answered sound.numbered before taken found
        (kept.settled.ownRoot sound.coherent all root entry before taken)
      subst answered
      rw [begins_of_balanced (all entry.sender) taken] at fails
      cases fails
  | notFinished before fails change =>
      obtain ⟨action, finishes⟩ := sound.polling.finishes before _
      rw [fails] at finishes
      cases finishes
  | remoteWake change | remoteSend change | wake runs change | send change
  | refused runs closed | submitted runs unclosed change
  | cleared before free pending | destroyed before free member =>
      exact Or.inl phase
  | _ => cases phase

end Executor

namespace World

open Library
open Time

variable {Output : Type} {world next : World Output} {label : Label Output}
  {clock : Clock} {os : Instant}

/-! Programs in which no destructor and no waker panics.  `catch_unwind` is around
the poll of a spawned future, and around nothing else of its harness. -/

/-- Only the polls of spawned futures and the root panic; no waker spawns into an
empty channel while `process_expired` calls it, and no paused clock has a deadline
in its past. -/
def contained (world : World Output) : Label Output → Bool
  | .panic =>
      match world.stack with
      | [.running (.inner _)] => true
      | _ => world.executor.rootEnds .panic
  | .executor .send => world.executor.admits .send
  | .plan =>
      match world.time.call .nextDeadline with
      | some (_, .deadline (some deadline)) =>
          !world.clock.isPaused || decide (world.now ≤ deadline)
      | _ => true
  | _ => true

def Contained (world : World Output) (label : Label Output) : Prop :=
  world.contained label = true

instance (world : World Output) (label : Label Output) :
    Decidable (world.Contained label) :=
  inferInstanceAs (Decidable (_ = true))

theorem Contained.panic (contained : world.Contained .panic)
    {code : Code} {rest : List (Frame Output)}
    (stack : world.stack = .running code :: rest)
    (outermost : ∀ join, code = .inner join → rest ≠ []) :
    world.executor.RootEnds .panic := by
  simp only [Contained, World.contained] at contained
  split at contained
  · rename_i join alone
    rw [stack] at alone
    cases alone
    exact absurd rfl (outermost join rfl)
  · exact contained

theorem Contained.plan (contained : world.Contained .plan) {time : Timers Waker}
    {deadline : Instant}
    (found : world.time.call .nextDeadline =
      some (time, .deadline (some deadline)))
    (paused : world.clock.isPaused = true) :
    ∃ clock, world.clock.advanceTo deadline = .ok clock := by
  simp only [Contained, World.contained, found, paused, Bool.not_true, Bool.false_or,
    decide_eq_true_eq] at contained
  exact Clock.advanceTo_forward paused contained

/-- What the executor has done so far is a run in which no poll of a task panics. -/
def Ended (world : World Output) : Prop :=
  Executor.machine.Reach Executor.Tame Executor.initial world.executor

theorem Ended.kept (ended : world.Ended)
    (few : world.executor.spawned < 2 ^ 64 - 1) :
    world.executor.Kept ∧ world.executor.Admission := by
  have wakes := ended.weaken fun _ _ tame => tame.1
  have admits := ended.weaken fun _ _ tame => tame.2
  exact ⟨(Executor.run_kept wakes few).2, (Executor.run_admission admits few).2⟩

theorem tame_of_takes (contained : world.Contained label) (cells : world.Cells)
    (ended : world.Ended) (few : world.executor.spawned < 2 ^ 64 - 1)
    {move : Move} (takes : Takes world label move) :
    world.executor.Tame move := by
  obtain ⟨kept, admission⟩ := ended.kept few
  cases takes with
  | @permitted move permitted =>
      cases move with
      | send => exact ⟨rfl, contained⟩
      | panic | dispatch => cases permitted
      | _ => exact ⟨rfl, rfl⟩
  | unwound fails =>
      refine ⟨?_, rfl⟩
      cases fails with
      | code stack outermost => exact contained.panic stack outermost
      | poisoned wakes poisoned =>
          rw [kept.unpoisoned] at poisoned
          cases poisoned
      | published stack found twice =>
          obtain ⟨completed, completes⟩ := cells.completes stack found
          rw [twice] at completes
          cases completes
  | stuck found paused failed =>
      obtain ⟨clock, advanced⟩ := contained.plan found paused
      rw [failed] at advanced
      cases advanced
  | dispatched =>
      refine ⟨?_, rfl⟩
      simp only [Executor.RootEnds, Executor.rootEnds]
      split
      · rename_i root entry phase taken
        obtain ⟨schedule, found⟩ := admission.target phase taken
        simp [found]
      · rfl
  | _ => exact ⟨rfl, rfl⟩

def Earned (world : World Output) (join : JoinRef) :
    Except JoinError Output → Prop
  | .ok value => .returned join value ∈ world.log
  | .error .panic => .panicked join ∈ world.log
  | .error .cancelled => world.executor.closed = true ∧
      ∀ event ∈ world.log, ¬ event.ends join

/-- The result of a future is on its way to the handle, or has arrived. -/
def Delivered (world : World Output) (join : JoinRef)
    (result : Except JoinError Output) : Prop :=
  .publish join result ∈ world.stack ∨
    ∃ cell, world.joins join = some cell ∧
      (cell.state = .ready result ∨
        cell.state = .consumed ∧ .yielded join result ∈ world.log)

structure Recorded (world : World Output) : Prop where
  calm : world.executor.phase = .unwinding → publishing world.stack = []
  frames : ∀ join result, .publish join result ∈ world.stack →
    world.Earned join result
  ready : ∀ join cell result, world.joins join = some cell →
    cell.state = .ready result → world.Earned join result
  yielded : ∀ join result, .yielded join result ∈ world.log →
    world.Earned join result ∧
      ∃ cell, world.joins join = some cell ∧ cell.state = .consumed
  delivered : ∀ join result event, event ∈ world.log →
    event.gives join result → world.Delivered join result

theorem recorded_initial : (initial clock os : World Output).Recorded where
  calm := by
    intro phase
    cases phase
  frames := by
    intro join result member
    cases member
  ready := by
    intro join cell result found
    cases found
  yielded := by
    intro join result member
    cases member
  delivered := by
    intro join result event member
    cases member

theorem Stepped.log_stays (stepped : Stepped world label next)
    {event : ProgramEvent Output} (member : event ∈ world.log) :
    event ∈ next.log := by
  rcases stepped.logged with same | ⟨newer, log, _⟩
  · exact same ▸ member
  · rw [log]
    exact List.mem_cons_of_mem _ member

theorem Earned.step {join : JoinRef} {result : Except JoinError Output}
    (earned : world.Earned join result) (concluded : world.Over join)
    (stepped : Stepped world label next) (orderly : world.Orderly) :
    next.Earned join result := by
  match result with
  | .ok value => exact stepped.log_stays earned
  | .error .panic => exact stepped.log_stays earned
  | .error .cancelled =>
      refine ⟨stepped.closed_stays earned.1, ?_⟩
      intro event member ends
      rcases stepped.logged with same | ⟨newer, log, logged⟩
      · exact earned.2 event (same ▸ member) ends
      · rw [log] at member
        rcases List.mem_cons.mp member with rfl | old
        · exact orderly.running (logged.concluded ends).1 concluded
        · exact earned.2 event old ends

theorem Delivered.step {join : JoinRef} {result : Except JoinError Output}
    (delivered : world.Delivered join result)
    (stepped : Stepped world label next) (orderly : world.Orderly)
    (cancelling : world.Cancelling) (calm : next.executor.phase = .unwinding →
      publishing world.stack = []) : next.Delivered join result := by
  rcases delivered with member | ⟨cell, found, arrived⟩
  · rcases stepped.publish_on orderly cancelling member with
      still | unwinding | ⟨cell, found, ready⟩
    · exact Or.inl still
    · have present : join ∈ publishing world.stack :=
        mem_publishing.mpr ⟨result, member⟩
      rw [calm unwinding] at present
      cases present
    · exact Or.inr ⟨cell, found, Or.inl ready⟩
  · right
    have settled : cell.state.isPending = false := by
      rcases arrived with ready | ⟨consumed, _⟩
      · rw [ready]
        rfl
      · rw [consumed]
        rfl
    obtain ⟨after, now, handled⟩ :=
      (orderly.effect stepped).handled orderly.cells found settled
    refine ⟨after, now, ?_⟩
    generalize cell.state = before at handled arrived settled
    generalize after.state = later at handled ⊢
    cases handled with
    | same => exact arrived.imp_right fun old => ⟨old.1, stepped.log_stays old.2⟩
    | waiting => cases settled
    | yielded log =>
        rcases arrived with ready | ⟨consumed, _⟩
        · cases ready
          exact Or.inr ⟨rfl, log ▸ List.mem_cons_self⟩
        · cases consumed

theorem Recorded.step (recorded : world.Recorded)
    (stepped : Stepped world label next) (orderly : world.Orderly)
    (after : next.Orderly) (homed : world.Homed) (finished : world.Finished)
    (cancelling : world.Cancelling) (ends : next.executor.phase = .unwinding →
      world.executor.phase = .unwinding ∨
        (∃ root target, world.executor.phase = .polling root rootTaskId target) ∨
        ∃ root, world.executor.phase = .leaving root) : next.Recorded := by
  have effect := orderly.effect stepped
  have unpublished : next.executor.phase = .unwinding →
      publishing world.stack = [] := by
    intro unwinding
    rcases ends unwinding with phase | phase
    · exact recorded.calm phase
    · apply List.eq_nil_iff_forall_not_mem.mpr
      intro join member
      rcases homed join member with other | closing | ⟨_, id, _, other, notRoot, _⟩
      · rcases phase with ⟨_, _, phase⟩ | ⟨_, phase⟩ <;> cases phase.symm.trans other
      · rcases phase with ⟨_, _, phase⟩ | ⟨_, phase⟩
        · rw [phase] at closing
          cases closing
        · rw [phase] at closing
          cases closing
      · rcases phase with ⟨_, _, phase⟩ | ⟨_, phase⟩
        · cases phase.symm.trans other
          exact notRoot rfl
        · cases phase.symm.trans other
  have calm : next.executor.phase = .unwinding →
      publishing next.stack = [] := by
    intro unwinding
    apply effect.publishing_nil orderly (unpublished unwinding)
    · rcases ends unwinding with phase | ⟨_, _, phase⟩ | ⟨_, phase⟩
      · rw [phase]
        rfl
      · rw [phase]
        rfl
      · rw [phase]
        rfl
    · intro join stack
      obtain ⟨_, root, id, target, _, notRoot, polled⟩ :=
        orderly.shaped.inner join (stack ▸ List.mem_singleton.mpr rfl)
      rcases ends unwinding with phase | ⟨_, _, phase⟩ | ⟨_, phase⟩
      · cases phase.symm.trans polled
      · cases phase.symm.trans polled
        exact notRoot rfl
      · cases phase.symm.trans polled
  refine ⟨calm, ?_, ?_, ?_, ?_⟩
  · intro join result member
    have present : join ∈ publishing next.stack :=
      mem_publishing.mpr ⟨result, member⟩
    rcases stepped.publish_back orderly.sound.closing orderly.cells cancelling
      member with old | ⟨value, rfl, _, log⟩ | ⟨rfl, _, log⟩ |
        ⟨rfl, unwinding | ⟨closing, log, new⟩⟩
    · exact (recorded.frames join result old).step
        (Or.inl (mem_publishing.mpr ⟨result, old⟩)) stepped orderly
    · change _ ∈ next.log
      rw [log]
      exact List.mem_cons_self
    · change _ ∈ next.log
      rw [log]
      exact List.mem_cons_self
    · rw [calm unwinding] at present
      cases present
    · refine ⟨stepped.closed_stays (orderly.sound.closing.trans closing), ?_⟩
      intro event known ended
      rw [log] at known
      rcases finished.concluded join event known ended with member | ⟨cell, found, settled⟩
      · exact new member
      · obtain ⟨later, now, isSettled⟩ :=
          effect.settled_stays orderly.cells found settled
        obtain ⟨other, again, pending⟩ := after.cells.publishing join present
        cases now.symm.trans again
        rw [isSettled] at pending
        cases pending
  · intro join cell result found ready
    rcases effect.ready_back found ready with ⟨old, was, wasReady⟩ | ⟨rest, stack⟩
    · refine (recorded.ready join old result was wasReady).step ?_ stepped orderly
      exact Or.inr ⟨old, was, by rw [wasReady]; rfl⟩
    · have member : .publish join result ∈ world.stack :=
        stack ▸ List.mem_cons_self
      exact (recorded.frames join result member).step
        (Or.inl (mem_publishing.mpr ⟨result, member⟩)) stepped orderly
  · intro join result member
    have kept : .yielded join result ∈ world.log →
        next.Earned join result ∧
          ∃ cell, next.joins join = some cell ∧ cell.state = .consumed := by
      intro old
      obtain ⟨earned, cell, found, consumed⟩ := recorded.yielded join result old
      have settled : cell.state.isPending = false := by
        rw [consumed]
        rfl
      obtain ⟨later, now, handled⟩ := effect.handled orderly.cells found settled
      refine ⟨earned.step (Or.inr ⟨cell, found, settled⟩) stepped orderly,
        later, now, ?_⟩
      generalize later.state = state at handled ⊢
      rw [consumed] at handled
      cases handled
      rfl
    rcases stepped.logged with same | ⟨event, log, logged⟩
    · exact kept (same ▸ member)
    · rw [log] at member
      rcases List.mem_cons.mp member with rfl | old
      · cases logged with
        | woke wakes joins =>
            rcases wakes.event with isFired | ⟨_, isWoke⟩
            · cases isFired
            · cases isWoke
        | @yielded _ cell _ found ready same joins stack =>
            refine ⟨?_, { cell with state := .consumed }, ?_, rfl⟩
            · refine (recorded.ready join _ result found ready).step ?_ stepped
                orderly
              exact Or.inr ⟨_, found, by rw [ready]; rfl⟩
            · rw [joins]
              exact Function.update_self ..
      · exact kept old
  · intro join result event member gives
    have kept : event ∈ world.log → next.Delivered join result := fun old =>
      (recorded.delivered join result event old gives).step stepped orderly cancelling
        unpublished
    rcases stepped.logged with same | ⟨newer, log, logged⟩
    · exact kept (same ▸ member)
    · rw [log] at member
      rcases List.mem_cons.mp member with rfl | old
      · left
        cases logged with
        | returned stack same joins later =>
            obtain ⟨rfl, rfl⟩ := gives
            rw [later]
            simp [harness]
        | panicked stack same joins later =>
            obtain ⟨rfl, rfl⟩ := gives
            rw [later]
            simp
        | woke wakes joins =>
            rcases wakes.event with rfl | ⟨_, rfl⟩ <;> cases gives
        | polled | published | awaited | yielded => cases gives
      · exact kept old

/-- A task whose future has ended is complete, and no task of the executor any
more, once its poll is over. -/
def Removed (world : World Output) : Prop :=
  ∀ schedule, ∀ event ∈ world.log, event.ends (.task schedule) →
    (∃ root id, world.executor.phase = .polling root id schedule) ∨
      ¬ world.executor.Owned schedule ∧
        world.executor.scheduling.state schedule = .complete

theorem removed_initial : (initial clock os : World Output).Removed := by
  intro schedule event member
  cases member

theorem Takes.polled {move : Move} (takes : Takes world label move)
    (step : world.executor.step move = some next.executor)
    (orderly : world.Orderly) (tame : world.executor.Tame move)
    {root schedule : Nat} {id : Id}
    (phase : world.executor.phase = .polling root id schedule)
    (concluded : world.Over (.task schedule)) :
    next.executor.phase = world.executor.phase ∨
      move = .endPoll (.ready ()) ∧ id ≠ rootTaskId := by
  obtain ⟨below, isId, _⟩ := orderly.sound.coherent.polled root id schedule phase
  have notRoot : id ≠ rootTaskId :=
    isId ▸ (orderly.harnessed.joined schedule below).mpr (concluded.present orderly.cells)
  rcases (Executor.moved_of_step step).polls_on phase with same | rfl | ⟨result, rfl⟩
  · exact Or.inl same
  · exact absurd (tame.1.isRoot phase) notRoot
  · cases takes with
    | permitted permitted => cases permitted
    | @suspended join stack =>
        obtain ⟨_, _, _, target, rfl, _, other⟩ :=
          orderly.shaped.inner join (stack ▸ List.mem_singleton.mpr rfl)
        cases phase.symm.trans other
        exact absurd concluded (orderly.running stack)
    | rootYielded stack =>
        obtain ⟨_, _, _, other⟩ :=
          orderly.shaped.root (stack ▸ List.mem_singleton.mpr rfl)
        cases phase.symm.trans other
        exact absurd rfl notRoot
    | finished empty => exact Or.inr ⟨rfl, notRoot⟩

theorem Removed.step (removed : world.Removed)
    (stepped : Stepped world label next) (orderly : world.Orderly)
    (apart : world.executor.Apart) (finished : world.Finished)
    (tame : ∀ move, Takes world label move → world.executor.Tame move) :
    next.Removed := by
  have old : ∀ schedule, ∀ event ∈ world.log, event.ends (.task schedule) →
      (∃ root id, next.executor.phase = .polling root id schedule) ∨
        ¬ next.executor.Owned schedule ∧
          next.executor.scheduling.state schedule = .complete := by
    intro schedule event member ends
    have concluded := finished.concluded _ event member ends
    have kept := removed schedule event member ends
    rcases stepped.takes with same | ⟨move, takes, step⟩
    · rw [same]
      exact kept
    · have moved := Executor.moved_of_step step
      rcases kept with ⟨root, id, phase⟩ | ⟨unowned, complete⟩
      · rcases takes.polled step orderly (tame move takes) phase concluded with
          same | ⟨rfl, notRoot⟩
        · exact Or.inl ⟨root, id, same.trans phase⟩
        · exact Or.inr (Executor.unowned_of_finished orderly.sound apart step
            phase notRoot)
      · refine Or.inr ⟨?_, moved.complete orderly.sound.coherent complete⟩
        intro owned
        rcases moved.owned_back owned with before | rfl
        · exact unowned before
        · exact concluded.present orderly.cells orderly.cells.fresh_task
  intro schedule event member ends
  rcases stepped.logged with same | ⟨newer, log, logged⟩
  · exact old schedule event (same ▸ member) ends
  · rw [log] at member
    rcases List.mem_cons.mp member with rfl | before
    · obtain ⟨stack, same, _⟩ := logged.concluded ends
      obtain ⟨_, root, id, target, isTask, _, phase⟩ :=
        orderly.shaped.inner _ (stack ▸ List.mem_singleton.mpr rfl)
      cases isTask
      rw [same]
      exact Or.inl ⟨root, id, phase⟩
    · exact old schedule event before ends

structure Tidy (world : World Output) : Prop where
  orderly : world.Orderly
  ended : world.Ended
  apart : world.executor.Apart
  homed : world.Homed
  finished : world.Finished
  cancelling : world.Cancelling
  recorded : world.Recorded
  removed : world.Removed

theorem tidy_initial : (initial clock os : World Output).Tidy :=
  ⟨orderly_initial, .refl, Executor.apart_initial, homed_initial, finished_initial,
    cancelling_initial, recorded_initial, removed_initial⟩

theorem Tidy.unwinding (tidy : world.Tidy)
    (few : world.executor.spawned < 2 ^ 64 - 1)
    (contained : world.Contained label) (stepped : Stepped world label next)
    (phase : next.executor.phase = .unwinding) :
    world.executor.phase = .unwinding ∨
      (∃ root target, world.executor.phase = .polling root rootTaskId target) ∨
      ∃ root, world.executor.phase = .leaving root := by
  rcases stepped.takes with same | ⟨move, takes, step⟩
  · exact Or.inl (same ▸ phase)
  · have tame := tame_of_takes contained tidy.orderly.cells tidy.ended few takes
    exact tame.unwinding (Executor.moved_of_step step) tidy.orderly.sound
      (tidy.ended.kept few).1 phase

theorem Tidy.step (tidy : world.Tidy) (contained : world.Contained label)
    (stepped : Stepped world label next)
    (few : next.executor.spawned < 2 ^ 64 - 1) : next.Tidy := by
  have fewer := Nat.lt_of_le_of_lt stepped.spawned_le few
  have tame : ∀ move, Takes world label move → world.executor.Tame move :=
    fun move takes =>
      tame_of_takes contained tidy.orderly.cells tidy.ended fewer takes
  have after := stepped.orderly tidy.orderly few
  refine ⟨after, ?_, ?_, stepped.homed tidy.orderly after tidy.homed,
    tidy.finished.step tidy.orderly stepped,
    tidy.cancelling.step stepped tidy.orderly,
    tidy.recorded.step stepped tidy.orderly after tidy.homed tidy.finished
      tidy.cancelling (tidy.unwinding fewer contained stepped),
    tidy.removed.step stepped tidy.orderly tidy.apart tidy.finished tame⟩
  · rcases stepped.takes with same | ⟨move, takes, step⟩
    · unfold Ended
      rw [same]
      exact tidy.ended
    · exact Machine.Reach.step move tidy.ended (tame move takes) step
  · rcases stepped.takes with same | ⟨move, takes, step⟩
    · rw [same]
      exact tidy.apart
    · exact (Executor.moved_of_step step).apart tidy.orderly.sound after.sound
        tidy.apart

theorem run_tidy (reach : machine.Reach Contained (initial clock os) world)
    (few : world.executor.spawned < 2 ^ 64 - 1) : world.Tidy := by
  induction reach with
  | refl => exact tidy_initial
  | step label _ contained step ih =>
      have stepped := stepped_of_step step
      exact (ih (Nat.lt_of_le_of_lt stepped.spawned_le few)).step contained stepped
        few

/-- A panic of the program leaves `block_on` unless `catch_unwind` is around it. -/
theorem unwinding_iff (shaped : world.Shaped)
    (step : machine.step world .panic = some next) :
    next.executor.phase = .unwinding ↔ world.executor.phase.closing = false ∧
      ∀ join, world.stack ≠ [.running (.inner join)] := by
  cases stepped_of_step step with
  | timed origin later =>
      rcases origin with ⟨_, isTick, _⟩ | ⟨_, _, isClock⟩
      · cases isTick
      · cases isClock
  | @caught join free stack =>
      obtain ⟨_, _, _, _, _, _, phase⟩ :=
        shaped.inner join (stack ▸ List.mem_singleton.mpr rfl)
      change world.executor.phase = _ ↔ _
      rw [phase]
      exact ⟨nofun, fun uncaught => absurd stack (uncaught.2 join)⟩
  | unwound free fails unwinds moved =>
      refine ⟨?_, fun uncaught => unwinding_of_panic moved uncaught.1⟩
      intro unwinding
      refine ⟨?_, ?_⟩
      · by_contra closing
        have shut := closing_of_panic moved (Bool.of_not_eq_false closing)
        rw [unwinding] at shut
        cases shut
      · intro join stack
        cases fails with
        | code top outermost =>
            rw [stack] at top
            cases top
            exact outermost join rfl rfl

/-- The result of a future whose poll panicked has arrived at its handle when the
poll is over. -/
theorem Tidy.panicked (tidy : world.Tidy) {schedule : Nat}
    (panicked : .panicked (.task schedule) ∈ world.log) :
    (∃ root id, world.executor.phase = .polling root id schedule) ∨
      ¬ world.executor.Owned schedule ∧
        world.executor.scheduling.state schedule = .complete ∧
        ∃ cell, world.joins (.task schedule) = some cell ∧
          (cell.state = .ready (.error .panic) ∨ cell.state = .consumed ∧
            .yielded (.task schedule) (.error .panic) ∈ world.log) := by
  rcases tidy.removed schedule _ panicked rfl with polled | ⟨unowned, complete⟩
  · exact Or.inl polled
  · rcases tidy.recorded.delivered (.task schedule) (.error .panic) _ panicked
      ⟨rfl, rfl⟩ with member | arrived
    · have present : .task schedule ∈ publishing world.stack :=
        mem_publishing.mpr ⟨_, member⟩
      rcases tidy.homed _ present with
        unwinding | closing | ⟨root, id, target, phase, _, isTask⟩
      · rw [tidy.recorded.calm unwinding] at present
        cases present
      · cases tidy.cancelling closing _ _ member
      · cases isTask
        exact Or.inl ⟨root, id, phase⟩
    · exact Or.inr ⟨unowned, complete, arrived⟩

/-- A panic is contained exactly if it is one of the inner poll.  Where all other
code of tasks and all wakers return, only the root's panics leave `block_on`: the
executor takes the steps it would take had each panicking task returned `Ready`,
every request is answered, and each such task is gone and its handle is ready when
its poll is over. -/
theorem panics_contained (clock : Clock) (os : Instant) :
    (∀ world next : World Output,
      machine.Reach Machine.Any (initial clock os) world →
      machine.step world .panic = some next →
      (next.executor.phase = .unwinding ↔ world.executor.phase.closing = false ∧
        ∀ join, world.stack ≠ [.running (.inner join)])) ∧
    ∀ world : World Output, machine.Reach Contained (initial clock os) world →
      world.executor.spawned < 2 ^ 64 - 1 →
      (∀ label next, world.Contained label →
        machine.step world label = some next →
        next.executor.phase = .unwinding →
        world.executor.phase = .unwinding ∨
          (∃ root target,
            world.executor.phase = .polling root rootTaskId target) ∨
          ∃ root, world.executor.phase = .leaving root) ∧
      Executor.machine.Reach Executor.Tame Executor.initial world.executor ∧
      (world.executor.phase ≠ .dropped → ∀ schedule,
        world.executor.scheduling.inFlight.count schedule =
          if world.executor.scheduling.state schedule = .queued then 1 else 0) ∧
      (∀ schedule, world.executor.scheduling.state schedule ≠ .complete →
        Scheduling.latestPollUnwound schedule world.executor.scheduling.log =
          false →
        (Scheduling.wokenSincePoll schedule world.executor.scheduling.log = true ↔
          world.executor.scheduling.state schedule = .queued ∨
            world.executor.scheduling.state schedule = .running true)) ∧
      ∀ schedule, .panicked (.task schedule) ∈ world.log →
        (∃ root id, world.executor.phase = .polling root id schedule) ∨
          ¬ world.executor.Owned schedule ∧
            world.executor.scheduling.state schedule = .complete ∧
            ∃ cell, world.joins (.task schedule) = some cell ∧
              (cell.state = .ready (.error .panic) ∨ cell.state = .consumed ∧
                .yielded (.task schedule) (.error .panic) ∈ world.log) := by
  refine ⟨fun world next reach => unwinding_iff (run_shaped reach), ?_⟩
  intro world reach few
  have tidy := run_tidy reach few
  have kept := (tidy.ended.kept few).1
  refine ⟨?_, tidy.ended, ?_, ?_, fun schedule => tidy.panicked⟩
  · intro label next contained step
    exact tidy.unwinding few contained (stepped_of_step step)
  · exact fun alive schedule => (kept.balanced alive schedule).count
  · intro schedule incomplete clean
    rw [tidy.orderly.sound.heard schedule incomplete clean]
    exact Executor.requested_iff _

def firstPollLabels : List (Label Nat) :=
  [.spawn, .executor .send, .executor .blockOn, .executor .send, .drain,
    .executor .settle, .executor .tryRecv, .dispatch]

/-- The poll panics; the future and the payload are dropped. -/
def caughtLabels : List (Label Nat) :=
  firstPollLabels ++ [.panic, .proceed, .codeReturns, .proceed, .codeReturns,
    .proceed, .proceed, .finish]

def caughtPanic : World Nat :=
  (machine.run Contained (initial (Clock.new 0) 0) caughtLabels).getD
    (initial (Clock.new 0) 0)

theorem panics_contained_caught :
    ¬ caughtPanic.executor.Owned 0 ∧
      ∃ cell, caughtPanic.joins (.task 0) = some cell ∧
        cell.state = .ready (.error .panic) := by
  have ran : machine.run Contained (initial (Clock.new 0) 0) caughtLabels =
    some caughtPanic := rfl
  obtain ⟨_, contained⟩ := panics_contained (Clock.new 0) 0
  obtain ⟨_, _, _, _, gone⟩ :=
    contained caughtPanic (Machine.reach_of_run ran) (by decide)
  rcases gone 0 (List.mem_cons_of_mem _ List.mem_cons_self) with
    ⟨_, _, phase⟩ | ⟨unowned, _, cell, found, _⟩
  · cases (show caughtPanic.executor.phase = .iterating 1 from rfl).symm.trans phase
  · refine ⟨unowned, cell, found, ?_⟩
    cases (show caughtPanic.joins (.task 0) = some _ from rfl).symm.trans found
    rfl

/-- The future returns `Ready(7)`, and is about to be dropped. -/
def uncaughtLabels : List (Label Nat) :=
  firstPollLabels ++ [.yield (.ready 7), .proceed]

def uncaughtPanic : World Nat :=
  (machine.run Machine.Any (initial (Clock.new 0) 0) uncaughtLabels).getD
    (initial (Clock.new 0) 0)

/-- The destructor of a spawned future panics: the panic leaves `block_on`, and the
task stays. -/
theorem destructor_panic_not_contained :
    machine.Reach Machine.Any (initial (Clock.new 0) 0) uncaughtPanic ∧
      .returned (.task 0) 7 ∈ uncaughtPanic.log ∧
      uncaughtPanic.stack = [.running (.dropFuture (.task 0)),
        .publish (.task 0) (.ok 7)] ∧
      ∃ next, machine.step uncaughtPanic .panic = some next ∧
        next.executor.phase = .unwinding ∧
        next.executor.tasks.lookup ⟨1⟩ = some ⟨⟨1⟩, 0⟩ := by
  have ran : machine.run Machine.Any (initial (Clock.new 0) 0) uncaughtLabels =
    some uncaughtPanic := rfl
  exact ⟨Machine.reach_of_run ran, List.mem_cons_self, rfl, _, rfl, rfl, rfl⟩

end World

end Asyncr
