import Asyncr.Executor.Unfinished
import Asyncr.Program.Containment

namespace Asyncr

/-- A poll has been asked for, or none is needed any more. -/
def ScheduleState.awake : ScheduleState → Bool
  | .queued | .running true | .complete => true
  | .idle | .running false => false

theorem ScheduleState.awake_wake (state : ScheduleState) :
    state.wake.1.awake = true := by
  cases state with
  | running notified => cases notified <;> rfl
  | idle | queued | complete => rfl

theorem Scheduling.Transition.awake {schedule : Nat} {change : ScheduleStep}
    {before after : ScheduleState}
    (transition : Scheduling.Transition schedule change before after)
    (awake : before.awake = true) :
    after.awake = true ∨ change = .beginPoll schedule := by
  cases transition with
  | same => exact Or.inl awake
  | woken => exact Or.inl (ScheduleState.awake_wake before)
  | created => cases awake
  | began => exact Or.inr rfl
  | @finished notified result =>
      left
      cases notified with
      | false => cases awake
      | true => cases result <;> rfl

/-- The frame neither wakes a waiter nor grants a handle. -/
def Frame.plain {Output : Type} : Frame Output → Bool
  | .wake _ _ | .grant _ => false
  | .running _ | .call _ | .fire _ | .publish _ _ | .release _ => true

namespace Executor

variable {executor next : Executor} {move : Move} {schedule : Nat}

theorem Moved.awake (moved : Moved executor move next)
    (coherent : executor.Coherent)
    (awake : (executor.scheduling.state schedule).awake = true) :
    (next.scheduling.state schedule).awake = true ∨
      move = .dispatch ∧ ∃ root id, next.phase = .polling root id schedule := by
  cases moved with
  | notBegun phase taken found fails change =>
      left
      rw [(Scheduling.step_notBegun fails change).2 schedule]
      exact awake
  | @began root target entry scheduling phase taken found begins change =>
      have transition := Scheduling.step_transition coherent.addressed.fresh change
        schedule
      rcases transition.awake awake with still | same
      · exact Or.inl still
      · cases same
        exact Or.inr ⟨rfl, root, entry.id, rfl⟩
  | remoteWake change | remoteSend change | wake _ change | send change
  | submitted _ _ change | blockOn _ change | tryReceived _ change
  | received _ change | notAdmitted _ _ _ change | notFinished _ _ change
  | suspended _ _ change | rootReady _ _ change | taskReady _ _ _ change
  | pollPanicked _ change | released _ _ change | leaked _ change =>
      have transition := Scheduling.step_transition coherent.addressed.fresh change
        schedule
      exact Or.inl ((transition.awake awake).resolve_right nofun)
  | _ => exact Or.inl awake

theorem awake_of_wake
    (unpoisoned : (executor.scheduling.schedules schedule).poisoned = false)
    (step : executor.step (.wake schedule) = some next) :
    (next.scheduling.state schedule).awake = true := by
  cases moved_of_step step with
  | wake runs change =>
      simp only [Scheduling.step, Option.ite_none_right_eq_some,
        Option.some.injEq] at change
      obtain ⟨_, rfl⟩ := change
      rw [Scheduling.wakeSection_unpoisoned unpoisoned]
      change ((executor.scheduling.setSchedule schedule _).state schedule).awake = _
      rw [Scheduling.state_setSchedule, if_pos rfl]
      exact ScheduleState.awake_wake _

end Executor

namespace World

open Library
open Time

variable {Output : Type} {world next : World Output} {label : Label Output}
  {clock : Clock} {os : Instant}

/-! Frames that wake a waiter are on top of the stack, and handles are granted to
refused spawns only. -/

structure Stacked (world : World Output) : Prop where
  waking : ∀ join waker, .wake join waker ∉ world.stack.tail
  granting : ∀ join, .grant join ∈ world.stack → ∃ number, join = .refused number

theorem stacked_initial : (initial clock os : World Output).Stacked where
  waking := by
    intro join waker member
    cases member
  granting := by
    intro join member
    cases member

theorem Stacked.top (stacked : world.Stacked) {join : JoinRef} {waker : Waker}
    (member : .wake join waker ∈ world.stack) :
    ∃ rest, world.stack = .wake join waker :: rest := by
  have unburied := stacked.waking join waker
  cases stack : world.stack with
  | nil =>
      rw [stack] at member
      cases member
  | cons frame rest =>
      rw [stack] at member unburied
      rcases List.mem_cons.mp member with rfl | later
      · exact ⟨rest, rfl⟩
      · exact absurd later unburied

theorem Stacked.replaces (stacked : world.Stacked) {frame : Frame Output}
    {rest : List (Frame Output)} (front : List (Frame Output))
    (stack : world.stack = frame :: rest) (later : next.stack = front ++ rest)
    (plain : ∀ frame ∈ front, frame.plain = true) : next.Stacked where
  waking := by
    intro join waker member
    have present : .wake join waker ∈ next.stack := List.mem_of_mem_tail member
    rw [later] at present
    rcases List.mem_append.mp present with inFront | inRest
    · cases plain _ inFront
    · apply stacked.waking join waker
      rw [stack]
      exact inRest
  granting := by
    intro join member
    rw [later] at member
    rcases List.mem_append.mp member with inFront | inRest
    · cases plain _ inFront
    · exact stacked.granting join (stack ▸ List.mem_cons_of_mem _ inRest)

theorem Stacked.of_plain (plain : ∀ frame ∈ world.stack, frame.plain = true) :
    world.Stacked where
  waking := by
    intro join waker member
    cases plain _ (List.mem_of_mem_tail member)
  granting := by
    intro join member
    cases plain _ member

theorem Stacked.same (stacked : world.Stacked) (stack : next.stack = world.stack) :
    next.Stacked where
  waking := by
    rw [stack]
    exact stacked.waking
  granting := by
    rw [stack]
    exact stacked.granting

theorem Stepped.stacked (stepped : Stepped world label next)
    (stacked : world.Stacked) : next.Stacked := by
  cases stepped with
  | refused runs closed =>
      have unwaking : ∀ join waker, .wake join waker ∉ world.stack := by
        intro join waker member
        obtain ⟨rest, stack⟩ := stacked.top member
        simp [codeRuns, stack] at runs
      refine ⟨?_, ?_⟩
      · intro join waker member
        simp [unwaking join waker] at member
      · intro join member
        simp only [List.mem_cons, reduceCtorEq, Frame.grant.injEq, false_or] at member
        rcases member with rfl | old
        · exact ⟨_, rfl⟩
        · exact stacked.granting join old
  | suspended free stack step =>
      apply Stacked.of_plain
      intro frame member
      rw [mem_unwound member]
      rfl
  | finished free phase notRoot stack step =>
      apply Stacked.of_plain
      intro frame member
      rw [mem_unwound member]
      rfl
  | returned free stack =>
      apply Stacked.of_plain
      simp [harness, Frame.plain]
  | rootYielded free stack step =>
      apply Stacked.of_plain
      dsimp only
      split <;> simp [Frame.plain]
  | caught free stack =>
      apply Stacked.of_plain
      simp [Frame.plain]
  | unwound free fails unwinds step =>
      have cleaned : ∀ {rest : List (Frame Output)}, ∀ frame ∈ cleanup rest,
          frame.plain = true := by
        intro rest frame member
        rcases mem_cleanup member with ⟨code, rfl, _⟩ | ⟨join, _, rfl, _⟩ | ⟨join, rfl⟩
        · rfl
        · rfl
        · rfl
      apply Stacked.of_plain
      intro frame member
      cases unwinds with
      | loop phase =>
          rcases List.mem_append.mp member with inRest | last
          · exact cleaned frame inRest
          · rw [List.mem_singleton.mp last]
            rfl
      | leaving phase | closing phase => exact cleaned frame member
  | codeReturned free stack notRoot notInner =>
      exact stacked.replaces [] stack rfl (by simp)
  | called free stack =>
      exact stacked.replaces [.running _] stack rfl (by simp [Frame.plain])
  | wokeCode free wakes =>
      obtain ⟨frame, stack⟩ := wakes.ne_nil
      exact stacked.replaces [.running (.waker _)] stack rfl (by simp [Frame.plain])
  | wokeTask free wakes unpoisoned step =>
      obtain ⟨frame, stack⟩ := wakes.ne_nil
      exact stacked.replaces [] stack rfl (by simp)
  | @published join result rest cell waker free stack found pending =>
      have unwaking := stacked.waking
      have granting := stacked.granting
      rw [stack] at unwaking granting
      cases waker with
      | none => exact stacked.replaces [.release join] stack rfl (by simp [Frame.plain])
      | some waker =>
          refine ⟨?_, ?_⟩
          · intro other woken member
            rcases List.mem_cons.mp member with same | inRest
            · cases same
            · exact unwaking other woken inRest
          · intro other member
            apply granting other
            simpa using member
  | released free stack found front =>
      rcases front with rfl | ⟨rfl, _⟩
      · exact stacked.replaces [] stack rfl (by simp)
      · exact stacked.replaces [.call (.dropOutput _)] stack rfl (by simp [Frame.plain])
  | granted free stack found => exact stacked.replaces [] stack rfl (by simp)
  | drained step called =>
      apply Stacked.of_plain
      intro frame member
      obtain ⟨waker, _, rfl⟩ := List.mem_map.mp member
      rfl
  | stuck phase wait found paused failed step =>
      apply Stacked.of_plain
      simp [Frame.plain]
  | began step phase =>
      apply Stacked.of_plain
      simp [Frame.plain]
  | notBegun step other =>
      apply Stacked.of_plain
      simp [Frame.plain]
  | cleared stack pending step =>
      apply Stacked.of_plain
      intro frame member
      rcases mem_dropTask member with rfl | rfl <;> rfl
  | destroyed stack found step =>
      apply Stacked.of_plain
      intro frame member
      rcases mem_dropTask member with rfl | rfl <;> rfl
  | moved _ _ | timed _ _ | timer _ _ _ | spawned _ _ _ | rejected
  | awaited _ _ _ _ _ | yielded _ _ _ _ | dropped _ _ _ | planned _ _ _ _
  | jumped _ _ _ _ _ _ | received _ _ | timedOut _ _ => exact stacked.same rfl

/-! What becomes of a waiter. -/

/-- Since its latest poll the schedule has waited for the join, whose handle nobody
has polled with another waker. -/
inductive Awaits (join : JoinRef) (schedule : Nat) :
    List (ProgramEvent Output) → Prop
  | awaited {earlier : List (ProgramEvent Output)} :
      Awaits join schedule (.awaited join (.task schedule) :: earlier)
  | later {event : ProgramEvent Output} {earlier : List (ProgramEvent Output)} :
      Awaits join schedule earlier → event ≠ .polled schedule →
      (∀ waker, event ≠ .awaited join waker) →
      (∀ result, event ≠ .yielded join result) →
      Awaits join schedule (event :: earlier)

theorem Awaits.inv {join : JoinRef} {schedule : Nat} {event : ProgramEvent Output}
    {earlier : List (ProgramEvent Output)}
    (awaits : Awaits join schedule (event :: earlier)) :
    event = .awaited join (.task schedule) ∨
      Awaits join schedule earlier ∧ event ≠ .polled schedule ∧
        (∀ waker, event ≠ .awaited join waker) ∧
        ∀ result, event ≠ .yielded join result := by
  cases awaits with
  | awaited => exact Or.inl rfl
  | later before unpolled unawaited unyielded =>
      exact Or.inr ⟨before, unpolled, unawaited, unyielded⟩

theorem Awaits.member {join : JoinRef} {schedule : Nat}
    {log : List (ProgramEvent Output)} (awaits : Awaits join schedule log) :
    .awaited join (.task schedule) ∈ log := by
  induction awaits with
  | awaited => exact List.mem_cons_self
  | later _ _ _ _ ih => exact List.mem_cons_of_mem _ ih

/-- A waiter is stored, is about to be woken, or has been. -/
inductive Attended (world : World Output) (join : JoinRef) (schedule : Nat) : Prop
  | stored {cell : JoinCell Output} : world.joins join = some cell →
      cell.state = .pending (some (.task schedule)) →
      Attended world join schedule
  | waking : .wake join (.task schedule) ∈ world.stack →
      Attended world join schedule
  | woken : (world.executor.scheduling.state schedule).awake = true →
      Attended world join schedule

structure Watched (world : World Output) : Prop where
  known : ∀ join waker, .awaited join waker ∈ world.log → world.joins join ≠ none
  prompt : ∀ join waker, .wake join waker ∈ world.stack →
    (∃ root id target, world.executor.phase = .polling root id target ∧
      id ≠ rootTaskId) ∨ ∀ event ∈ world.log, ¬ event.ends join
  attended : ∀ target schedule cell, world.joins (.task target) = some cell →
    cell.handle = true → Awaits (.task target) schedule world.log →
    world.Attended (.task target) schedule

theorem watched_initial : (initial clock os : World Output).Watched where
  known := by
    intro join waker member
    cases member
  prompt := by
    intro join waker member
    cases member
  attended := by
    intro target schedule cell found
    cases found

theorem Stepped.wake_on (stepped : Stepped world label next)
    (placed : world.Placed) (stacked : world.Stacked)
    (unpoisoned : ∀ schedule,
      (world.executor.scheduling.schedules schedule).poisoned = false)
    {join : JoinRef} {schedule : Nat}
    (member : .wake join (.task schedule) ∈ world.stack) :
    .wake join (.task schedule) ∈ next.stack ∨
      world.executor.step (.wake schedule) = some next.executor := by
  obtain ⟨below, top⟩ := stacked.top member
  have busy := placed.busy top
  have idle : world.executor.phase.idle = true → False := by
    intro isIdle
    rw [isIdle] at busy
    cases busy
  cases stepped with
  | refused runs closed => exact Or.inl (by simp [member])
  | unwound free fails unwinds step =>
      cases fails with
      | code stack outermost => cases top.symm.trans stack
      | poisoned wakes poisoned =>
          rw [unpoisoned] at poisoned
          cases poisoned
      | published stack found twice => cases top.symm.trans stack
  | wokeCode free wakes =>
      rw [top] at wakes
      cases wakes
  | wokeTask free wakes clean step =>
      rw [top] at wakes
      cases wakes
      exact Or.inr step
  | drained step called => exact (idle (Executor.idle_of_loop step rfl)).elim
  | stuck phase wait found paused failed step =>
      rw [phase] at busy
      cases busy
  | began step phase => exact (idle (Executor.idle_of_loop step rfl)).elim
  | notBegun step other => exact (idle (Executor.idle_of_loop step rfl)).elim
  | suspended _ stack _ | returned _ stack | rootYielded _ stack _
  | codeReturned _ stack _ _ | caught _ stack | called _ stack
  | published _ stack _ _ | released _ stack _ _ | granted _ stack _
  | finished _ _ _ stack _ | cleared stack _ _ | destroyed stack _ _ =>
      cases top.symm.trans stack
  | moved _ _ | timed _ _ | timer _ _ _ | spawned _ _ _ | rejected
  | awaited _ _ _ _ _ | yielded _ _ _ _ | dropped _ _ _ | planned _ _ _ _
  | jumped _ _ _ _ _ _ | received _ _ | timedOut _ _ => exact Or.inl member

theorem Stepped.wake_back (stepped : Stepped world label next) {join : JoinRef}
    {waker : Waker} (member : .wake join waker ∈ next.stack) :
    .wake join waker ∈ world.stack ∨
      ∃ cell result rest, world.joins join = some cell ∧
        cell.state = .pending (some waker) ∧
        world.stack = .publish join result :: rest ∧
        next.executor = world.executor ∧
        next.log = .published join result (some waker) :: world.log := by
  rcases stepped.pushed member with old | pushed
  · exact Or.inl old
  · cases pushed with
    | woken found waits stack executor log =>
        exact Or.inr ⟨_, _, _, found, waits, stack, executor, log⟩

theorem Stepped.handle_back (stepped : Stepped world label next)
    (stacked : world.Stacked) {target : Nat} {cell after : JoinCell Output}
    (found : world.joins (.task target) = some cell)
    (now : next.joins (.task target) = some after) (handle : after.handle = true)
    (absent : world.joins (.task world.executor.scheduling.created) = none) :
    cell.handle = true := by
  have kept : ∀ {join : JoinRef} {before changed : JoinCell Output},
      world.joins join = some before →
      next.joins = Function.update world.joins join (some changed) →
      (changed.handle = true → before.handle = true) → cell.handle = true := by
    intro join before changed present joins same
    rcases found_updated joins now with ⟨rfl, rfl⟩ | ⟨_, old⟩
    · cases found.symm.trans present
      exact same handle
    · cases found.symm.trans old
      exact handle
  cases stepped with
  | refused runs closed =>
      have old : world.joins (.task target) = some after := now
      cases found.symm.trans old
      exact handle
  | spawned runs unclosed step =>
      rcases found_updated rfl now with ⟨isNew, _⟩ | ⟨_, old⟩
      · cases isNew
        cases absent.symm.trans found
      · cases found.symm.trans old
        exact handle
  | awaited runs present alive known pending => exact kept present rfl id
  | yielded runs present alive ready => exact kept present rfl id
  | dropped runs present alive => exact kept present rfl nofun
  | published free stack present pending => exact kept present rfl id
  | released free stack present front => exact kept present rfl id
  | granted free stack present =>
      rcases found_updated rfl now with ⟨rfl, _⟩ | ⟨_, old⟩
      · obtain ⟨number, isRefused⟩ :=
          stacked.granting _ (stack ▸ List.mem_cons_self)
        cases isRefused
      · cases found.symm.trans old
        exact handle
  | _ =>
      cases found.symm.trans now
      exact handle

theorem Stepped.stored_on (stepped : Stepped world label next)
    {join : JoinRef} {cell after : JoinCell Output} {waker : Waker}
    (found : world.joins join = some cell)
    (stored : cell.state = .pending (some waker))
    (now : next.joins join = some after) (handle : after.handle = true)
    (fresh : world.joins (.task world.executor.scheduling.created) = none ∧
      world.joins (.refused world.refused) = none) :
    after.state = .pending (some waker) ∨ .wake join waker ∈ next.stack ∨
      ∃ other, next.log = .awaited join other :: world.log := by
  have kept : ∀ {other : JoinRef} {before changed : JoinCell Output},
      world.joins other = some before →
      next.joins = Function.update world.joins other (some changed) →
      (before.state = .pending (some waker) → other = join →
        changed.handle = true → changed.state = .pending (some waker) ∨
        .wake join waker ∈ next.stack ∨
        ∃ other, next.log = .awaited join other :: world.log) →
      after.state = .pending (some waker) ∨ .wake join waker ∈ next.stack ∨
        ∃ other, next.log = .awaited join other :: world.log := by
    intro other before changed present joins outcome
    rcases found_updated joins now with ⟨rfl, rfl⟩ | ⟨_, old⟩
    · cases found.symm.trans present
      exact outcome stored rfl handle
    · cases found.symm.trans old
      exact Or.inl stored
  cases stepped with
  | refused runs closed =>
      rcases found_updated rfl now with ⟨rfl, _⟩ | ⟨_, old⟩
      · cases fresh.2.symm.trans found
      · cases found.symm.trans old
        exact Or.inl stored
  | spawned runs unclosed step =>
      rcases found_updated rfl now with ⟨rfl, _⟩ | ⟨_, old⟩
      · cases fresh.1.symm.trans found
      · cases found.symm.trans old
        exact Or.inl stored
  | awaited runs present alive known pending =>
      apply kept present rfl
      rintro _ rfl _
      exact Or.inr (Or.inr ⟨_, rfl⟩)
  | yielded runs present alive ready =>
      apply kept present rfl
      intro before
      rw [ready] at before
      cases before
  | dropped runs present alive =>
      apply kept present rfl
      intro _ _ alive
      cases alive
  | published free stack present pending =>
      apply kept present rfl
      rintro before rfl _
      cases pending.symm.trans before
      exact Or.inr (Or.inl List.mem_cons_self)
  | released free stack present front =>
      exact kept present rfl fun before _ _ => Or.inl before
  | granted free stack present =>
      exact kept present rfl fun before _ _ => Or.inl before
  | _ =>
      cases found.symm.trans now
      exact Or.inl stored

theorem Stepped.polled_log (stepped : Stepped world label next)
    {root schedule : Nat} {id : Id}
    (step : world.executor.step .dispatch = some next.executor)
    (takes : Takes world label .dispatch)
    (phase : next.executor.phase = .polling root id schedule) :
    next.log = .polled schedule :: world.log := by
  cases takes with
  | permitted permitted => cases permitted
  | dispatched =>
      cases stepped with
      | timed origin later =>
          rcases origin with ⟨_, isTick, _⟩ | ⟨_, _, isClock⟩
          · cases isTick
          · cases isClock
      | unwound free fails unwinds moved => cases fails
      | began moved polled =>
          cases polled.symm.trans phase
          rfl
      | notBegun moved other => exact absurd phase (other _ _ _)

theorem Watched.attended_step (watched : world.Watched)
    (stepped : Stepped world label next) (orderly : world.Orderly)
    (stacked : world.Stacked)
    (unpoisoned : ∀ schedule,
      (world.executor.scheduling.schedules schedule).poisoned = false)
    {target schedule : Nat} {after : JoinCell Output}
    (now : next.joins (.task target) = some after) (handle : after.handle = true)
    (awaits : Awaits (.task target) schedule world.log)
    (unpolled : next.log ≠ .polled schedule :: world.log)
    (unawaited : ∀ waker, next.log ≠ .awaited (.task target) waker :: world.log) :
    next.Attended (.task target) schedule := by
  have cells := orderly.cells
  obtain ⟨cell, found⟩ := Option.ne_none_iff_exists'.mp
    (watched.known _ _ awaits.member)
  have alive := stepped.handle_back stacked found now handle cells.fresh_task
  cases watched.attended target schedule cell found alive awaits with
  | stored present waits =>
      cases found.symm.trans present
      rcases stepped.stored_on found waits now handle
        ⟨cells.fresh_task, cells.fresh_refused⟩ with still | wakes | ⟨_, polled⟩
      · exact .stored now still
      · exact .waking wakes
      · exact absurd polled (unawaited _)
  | waking member =>
      rcases stepped.wake_on orderly.placed stacked unpoisoned member with
        still | step
      · exact .waking still
      · exact .woken (Executor.awake_of_wake (unpoisoned schedule) step)
  | woken awake =>
      apply Attended.woken
      rcases stepped.takes with same | ⟨move, takes, step⟩
      · rw [same]
        exact awake
      · rcases (Executor.moved_of_step step).awake orderly.sound.coherent awake with
          still | ⟨rfl, root, id, phase⟩
        · exact still
        · exact absurd (stepped.polled_log step takes phase) unpolled

/-- A waiter is woken within the poll that completes the join, unless the join's
future never ends. -/
theorem Watched.prompt_step (watched : world.Watched)
    (stepped : Stepped world label next) (tidy : world.Tidy)
    (stacked : world.Stacked)
    (ends : next.executor.phase = .unwinding →
      world.executor.phase = .unwinding ∨
        (∃ root target, world.executor.phase = .polling root rootTaskId target) ∨
        ∃ root, world.executor.phase = .leaving root)
    {join : JoinRef} {waker : Waker} (member : .wake join waker ∈ next.stack) :
    (∃ root id target, next.executor.phase = .polling root id target ∧
      id ≠ rootTaskId) ∨ ∀ event ∈ next.log, ¬ event.ends join := by
  have orderly := tidy.orderly
  rcases stepped.wake_back member with
    old | ⟨_, result, rest, _, _, stack, same, log⟩
  · obtain ⟨below, top⟩ := stacked.top old
    rcases watched.prompt join waker old with
      ⟨root, id, target, phase, notRoot⟩ | unended
    · rcases stepped.phase_stays orderly.placed top nofun nofun with
        stays | unwinding | ⟨closing, _⟩
      · exact Or.inl ⟨root, id, target, stays.trans phase, notRoot⟩
      · rcases ends unwinding with other | ⟨_, _, other⟩ | ⟨_, other⟩
        · cases phase.symm.trans other
        · cases phase.symm.trans other
          exact absurd rfl notRoot
        · cases phase.symm.trans other
      · rw [phase] at closing
        cases closing
    · right
      intro event present ends
      rcases stepped.logged with unchanged | ⟨newer, longer, logged⟩
      · exact unended event (unchanged ▸ present) ends
      · rw [longer] at present
        rcases List.mem_cons.mp present with rfl | earlier
        · cases top.symm.trans (logged.concluded ends).1
        · exact unended event earlier ends
  · have publishes : join ∈ publishing world.stack := stack ▸ List.mem_cons_self
    rcases tidy.homed join publishes with
      unwinding | closing | ⟨root, id, target, phase, notRoot, _⟩
    · rw [tidy.recorded.calm unwinding] at publishes
      cases publishes
    · right
      cases tidy.cancelling closing join result (stack ▸ List.mem_cons_self)
      obtain ⟨_, unended⟩ :=
        tidy.recorded.frames join _ (stack ▸ List.mem_cons_self)
      intro event present ends
      rw [log] at present
      rcases List.mem_cons.mp present with rfl | earlier
      · cases ends
      · exact unended event earlier ends
    · exact Or.inl ⟨root, id, target, same ▸ phase, notRoot⟩

theorem Watched.known_step (watched : world.Watched)
    (stepped : Stepped world label next) (orderly : world.Orderly)
    {join : JoinRef} {waker : Waker} (member : .awaited join waker ∈ next.log) :
    next.joins join ≠ none := by
  have old : .awaited join waker ∈ world.log → next.joins join ≠ none :=
    fun before => (orderly.effect stepped).present (watched.known join waker before)
  rcases stepped.logged with same | ⟨event, log, logged⟩
  · exact old (same ▸ member)
  · rw [log] at member
    rcases List.mem_cons.mp member with rfl | before
    · cases logged with
      | woke wakes joins =>
          rcases wakes.event with isFired | ⟨_, isWoke⟩
          · cases isFired
          · cases isWoke
      | awaited found handle same joins stack =>
          rw [joins, Function.update_self]
          exact nofun
    · exact old before

theorem Watched.step (watched : world.Watched)
    (stepped : Stepped world label next) (tidy : world.Tidy)
    (stacked : world.Stacked) (few : world.executor.spawned < 2 ^ 64 - 1)
    (contained : world.Contained label) : next.Watched := by
  have unpoisoned := (tidy.ended.kept few).1.unpoisoned
  refine ⟨?_, ?_, ?_⟩
  · intro join waker member
    exact watched.known_step stepped tidy.orderly member
  · intro join waker member
    exact watched.prompt_step stepped tidy stacked
      (tidy.unwinding few contained stepped) member
  · intro target schedule after now handle awaits
    rcases stepped.logged with same | ⟨event, log, logged⟩
    · apply watched.attended_step stepped tidy.orderly stacked unpoisoned now handle
        (same ▸ awaits)
      · rw [same]
        exact fun longer => absurd longer (List.cons_ne_self _ _).symm
      · rw [same]
        exact fun _ longer => absurd longer (List.cons_ne_self _ _).symm
    · rw [log] at awaits
      rcases awaits.inv with rfl | ⟨before, unpolled, unawaited, _⟩
      · cases logged with
        | woke wakes joins =>
            rcases wakes.event with isFired | ⟨_, isWoke⟩
            · cases isFired
            · cases isWoke
        | awaited found alive same joins stack =>
            rw [joins, Function.update_self] at now
            cases now
            exact .stored ((congrFun joins _).trans (Function.update_self ..)) rfl
      · apply watched.attended_step stepped tidy.orderly stacked unpoisoned now
          handle before
        · rw [log]
          intro same
          exact unpolled (List.cons.inj same).1
        · rw [log]
          intro waker same
          exact unawaited waker (List.cons.inj same).1

theorem run_watched (reach : machine.Reach Contained (initial clock os) world)
    (few : world.executor.spawned < 2 ^ 64 - 1) :
    world.Tidy ∧ world.Stacked ∧ world.Watched := by
  induction reach with
  | refl => exact ⟨tidy_initial, stacked_initial, watched_initial⟩
  | step label _ contained step ih =>
      have stepped := stepped_of_step step
      have fewer := Nat.lt_of_le_of_lt stepped.spawned_le few
      obtain ⟨tidy, stacked, watched⟩ := ih fewer
      exact ⟨tidy.step contained stepped few, stepped.stacked stacked,
        watched.step stepped tidy stacked fewer contained⟩

theorem Tidy.arrived (tidy : world.Tidy) {target : Nat}
    {event : ProgramEvent Output} (member : event ∈ world.log)
    (ended : event.ends (.task target))
    (between : ∀ root id polled,
      world.executor.phase ≠ .polling root id polled) :
    ∃ cell, world.joins (.task target) = some cell ∧
      cell.state.isPending = false := by
  obtain ⟨result, gives⟩ : ∃ result, event.gives (.task target) result := by
    cases event with
    | returned join value => exact ⟨.ok value, ended, rfl⟩
    | panicked join => exact ⟨.error .panic, ended, rfl⟩
    | _ => cases ended
  rcases tidy.recorded.delivered _ _ event member gives with
    frame | ⟨cell, found, ready | ⟨consumed, _⟩⟩
  · have publishes : .task target ∈ publishing world.stack :=
      mem_publishing.mpr ⟨_, frame⟩
    rcases tidy.homed _ publishes with
      unwinding | closing | ⟨root, id, polled, phase, _, _⟩
    · rw [tidy.recorded.calm unwinding] at publishes
      cases publishes
    · cases tidy.cancelling closing _ _ frame
      cases event with
      | returned join value => cases gives.2
      | panicked join => cases gives.2
      | _ => cases ended
    · exact absurd phase (between root id polled)
  · exact ⟨cell, found, by rw [ready]; rfl⟩
  · exact ⟨cell, found, by rw [consumed]; rfl⟩

/-- Between two polls nobody sleeps on a future that has ended. -/
theorem Watched.queued (watched : world.Watched) (tidy : world.Tidy)
    (few : world.executor.spawned < 2 ^ 64 - 1)
    (between : ∀ root id polled, world.executor.phase ≠ .polling root id polled)
    {target schedule : Nat} {cell : JoinCell Output} {event : ProgramEvent Output}
    (found : world.joins (.task target) = some cell) (handle : cell.handle = true)
    (member : event ∈ world.log) (ended : event.ends (.task target))
    (awaits : Awaits (.task target) schedule world.log)
    (unfinished : world.executor.Unfinished schedule) :
    world.executor.scheduling.state schedule = .queued := by
  obtain ⟨sound, _, going⟩ :=
    Executor.run_going (tidy.ended.weaken fun _ _ tame => tame.1) few
  have awake : (world.executor.scheduling.state schedule).awake = true := by
    cases watched.attended target schedule cell found handle awaits with
    | stored present waits =>
        obtain ⟨other, again, settled⟩ := tidy.arrived member ended between
        cases present.symm.trans again
        rw [waits] at settled
        cases settled
    | waking wakes =>
        rcases watched.prompt _ _ wakes with ⟨root, id, polled, phase, _⟩ | unended
        · exact absurd phase (between root id polled)
        · exact absurd ended (unended event member)
    | woken awake => exact awake
  rcases going.waits sound unfinished fun root id => between root id schedule with
    idle | queued
  · rw [idle] at awake
    cases awake
  · exact queued

end World

end Asyncr
