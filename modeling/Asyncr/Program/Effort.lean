import Asyncr.Program.Furnished
import Asyncr.Program.Teardown

namespace Asyncr

theorem Scheduling.beginPoll_own (scheduling : Scheduling) (schedule : Nat)
    (entry : ReadyEntry) :
    (scheduling.beginPoll schedule entry).own = scheduling.own := by
  unfold Scheduling.beginPoll
  split <;> rfl

namespace World

open Library
open Time

variable {Output : Type} {world next : World Output} {label : Label Output}
  {allowed : World Output → Label Output → Prop} {clock : Clock} {os : Instant}

/-! The runtime gives control back to the program, or blocks. -/

def ahead (world : World Output) : Nat :=
  match world.executor.phase with
  | .iterating _ => if world.due then 4 else 9
  | .expiring _ => 8
  | .receiving _ => 7
  | .waiting _ => if world.wait.isSome then 5 else 6
  | .dispatching _ => 4
  | .polling _ _ _ =>
      match world.stack with
      | .running _ :: _ => 0
      | _ => 11
  | .leaving _ => 2
  | .unwinding | .leaking => 1
  | .clearing =>
      9 * (world.executor.pendingSpawns.length + world.executor.tasks.keys.length) + 2
  | .tearing => 9 * world.executor.tasks.keys.length + 1
  | .outside | .dropped => 0

/-- What each step of the runtime lowers: a registration that expires pays for the
iteration of the loop that wakes its waker. -/
def effort (world : World Output) : Nat :=
  8 * world.time.driver.registrations.keys.length +
    world.executor.scheduling.own.toList.length + cost world.stack + world.ahead

/-- The blocking receive has nothing to return, and no timer is due. -/
structure Blocks (world : World Output) : Prop where
  receives : ∃ root timeout, world.executor.phase = .waiting root ∧
    world.wait = some timeout
  empty : world.executor.scheduling.ready = []
  undue : world.due = false

/-- A waker panics for its poisoned mutex while another panic unwinds, through
`block_on` or out of the drop of the executor. -/
structure Aborts (world : World Output) : Prop where
  free : world.executor.scheduling.own = none
  poisoned : ∃ schedule rest event, Wakes world.stack (.task schedule) rest event ∧
    (world.executor.scheduling.schedules schedule).poisoned = true
  unwinds : world.executor.phase = .unwinding ∨ world.executor.phase = .leaking ∨
    (world.executor.phase = .clearing ∨ world.executor.phase = .tearing) ∧
      world.executor.failing = true

/-- The runtime waits for code of the program, for another thread or for the clock. -/
def Yields (world : World Output) : Prop :=
  world.codeRuns = true ∨ world.Blocks ∨ world.Aborts

def Punctual (world : World Output) (label : Label Output) : Prop :=
  label = .timeout → world.due = true

def Foreign (_ : World Output) (label : Label Output) : Prop :=
  label.foreign = true

theorem cost_fire (wakers : List Waker) :
    cost (wakers.map (Frame.fire : Waker → Frame Output)) = 2 * wakers.length := by
  induction wakers with
  | nil => rfl
  | cons waker rest ih =>
      simp only [List.map_cons, cost_cons, Frame.cost, ih, List.length_cons]
      omega

theorem cost_unwound (executor : Executor) :
    cost (unwound executor : List (Frame Output)) ≤ 2 := by
  unfold unwound
  split
  · exact Nat.le_refl 2
  · exact Nat.zero_le 2

theorem codeRuns_of_calls (calls : label.calls = true)
    (step : machine.step world label = some next) : world.codeRuns = true := by
  change world.step label = some next at step
  by_contra quiet
  cases label with
  | executor move =>
      cases move with
      | wake schedule => simp [World.step, permits, quiet] at step
      | _ => cases calls
  | pollJoin join waker | dropJoin join =>
      simp only [World.step] at step
      split at step
      · simp [quiet] at step
      · cases step
  | clock call | timer call | spawn => simp [World.step, quiet] at step
  | _ => cases calls

theorem codeRuns_of_running (free : world.executor.scheduling.own = none) {code : Code}
    {rest : List (Frame Output)} (stack : world.stack = .running code :: rest) :
    world.codeRuns = true := by
  simp [codeRuns, Executor.free, free, stack]

theorem codeRuns_of_outside (free : world.executor.scheduling.own = none)
    (empty : world.stack = [])
    (phase : world.executor.phase = .outside ∨ world.executor.phase = .dropped) :
    world.codeRuns = true := by
  rcases phase with phase | phase <;> simp [codeRuns, Executor.free, free, empty, phase]

theorem effort_foreign (foreign : label.foreign = true)
    (step : machine.step world label = some next) : next.effort ≤ world.effort := by
  cases label with
  | executor move =>
      change (if world.permits move then _ else _) = _ at step
      simp only [Option.ite_none_right_eq_some, Option.map_eq_some_iff] at step
      obtain ⟨_, executor, moved, rfl⟩ := step
      have same : ∀ {scheduling : Scheduling},
          scheduling.own = world.executor.scheduling.own →
          ({ world with executor := { world.executor with scheduling := scheduling } } :
            World Output).effort ≤ world.effort := by
        intro scheduling own
        simp only [effort, own]
        exact Nat.le_refl _
      cases move with
      | remoteWake schedule =>
          cases Executor.moved_of_step moved with
          | remoteWake change =>
              exact same (Scheduling.step_remote_own (Or.inl rfl) change)
      | remoteSend schedule =>
          cases Executor.moved_of_step moved with
          | remoteSend change =>
              exact same (Scheduling.step_remote_own (Or.inr rfl) change)
      | _ => cases foreign
  | tick reading =>
      change (if world.os ≤ reading then _ else _) = _ at step
      simp only [Option.ite_none_right_eq_some, Option.some.injEq] at step
      obtain ⟨later, rfl⟩ := step
      have ahead : ({ world with os := reading } : World Output).ahead ≤ world.ahead := by
        unfold ahead
        dsimp only
        split
        · split
          · split <;> omega
          · rename_i undue
            split
            · rename_i due
              obtain ⟨id, registration, found, expired⟩ := due_iff.mp due
              exact (undue (due_iff.mpr ⟨id, registration, found,
                Nat.le_trans expired (world.clock.now_mono later)⟩)).elim
            · exact Nat.le_refl _
        all_goals exact Nat.le_refl _
      simp only [effort]
      omega
  | _ => cases foreign

theorem ahead_congr (executor : next.executor.phase = world.executor.phase)
    (tasks : next.executor.tasks = world.executor.tasks)
    (pending : next.executor.pendingSpawns = world.executor.pendingSpawns)
    (due : next.due = world.due) (wait : next.wait = world.wait)
    (stack : next.stack = world.stack) : next.ahead = world.ahead := by
  unfold ahead
  rw [executor, tasks, pending, due, wait, stack]

theorem effort_lt
    (registrations : next.time.driver.registrations =
      world.time.driver.registrations)
    (less : next.executor.scheduling.own.toList.length + cost next.stack + next.ahead <
      world.executor.scheduling.own.toList.length + cost world.stack + world.ahead) :
    next.effort < world.effort := by
  unfold effort
  rw [registrations]
  omega

theorem effort_frames {scheduling : Scheduling} {left : List (Frame Output)}
    {joins : JoinRef → Option (JoinCell Output)} {log : List (ProgramEvent Output)}
    (less : scheduling.own.toList.length + cost left <
      world.executor.scheduling.own.toList.length + cost world.stack)
    (unrun : ∀ code rest, world.stack ≠ .running code :: rest) :
    ({ world with
      executor := { world.executor with scheduling := scheduling }
      stack := left
      joins := joins
      log := log } : World Output).effort < world.effort := by
  refine effort_lt rfl (Nat.add_lt_add_of_lt_of_le less ?_)
  unfold ahead
  dsimp only
  split
  case h_6 =>
    split
    · exact Nat.zero_le _
    · exact Nat.le_refl _
  all_goals exact Nat.le_refl _

theorem effort_unwound {rest left : List (Frame Output)}
    {log : List (ProgramEvent Output)} {executor : Executor} {frame : Frame Output}
    (stack : world.stack = frame :: rest) (weight : frame.cost = 2)
    (unwinds : Unwinds world rest left)
    (unrun : ∀ code, frame ≠ .running code)
    (step : world.executor.step .panic = some executor) :
    ({ world with executor := executor, stack := left, log := log } :
      World Output).effort < world.effort := by
  have lighter := cost_cleanup rest
  have polling : ∀ {root target : Nat} {id : Id},
      world.executor.phase = .polling root id target → world.ahead = 11 := by
    intro root target id phase
    unfold ahead
    rw [phase, stack]
    dsimp only
    split
    · rename_i code below same
      obtain ⟨rfl, _⟩ := List.cons.inj same
      exact absurd rfl (unrun code)
    · rfl
  have left_le : cost left ≤ cost rest + 2 := by
    cases unwinds with
    | loop phase =>
        simp only [cost_append, cost_cons, cost_nil, Frame.cost]
        omega
    | leaving phase | closing phase => omega
  refine effort_lt rfl ?_
  cases Executor.moved_of_step step with
  | pollPanicked phase change =>
      simp only [Scheduling.step, Option.ite_none_right_eq_some,
        Option.some.injEq] at change
      obtain ⟨_, rfl⟩ := change
      rw [polling phase, stack]
      simp only [ahead, cost_cons]
      omega
  | wakerPanicked phase _ =>
      rw [stack]
      simp only [ahead, cost_cons, phase]
      omega
  | waitPanicked phase _ =>
      rw [stack]
      simp only [ahead, cost_cons, phase]
      split <;> omega
  | leavingPanicked phase _ =>
      cases unwinds with
      | loop other =>
          rcases other with ⟨_, _, _, other⟩ | ⟨_, other⟩ <;>
            cases phase.symm.trans other
      | leaving _ | closing _ =>
          rw [stack]
          simp only [ahead, cost_cons, phase]
          omega
  | clearingPanicked phase _ _ | tearingPanicked phase _ _ | droppedPanicked phase _ =>
      have closed : cost left ≤ cost rest := by
        cases unwinds with
        | loop other =>
            rcases other with ⟨_, _, _, other⟩ | ⟨_, other⟩ <;>
              cases phase.symm.trans other
        | leaving other => cases phase.symm.trans other
        | closing _ => exact lighter
      rw [stack]
      simp only [ahead, cost_cons, phase]
      omega

theorem effort_moved {move : Move} {executor : Executor}
    (quiet : world.codeRuns = false)
    (uncalled : (Label.executor move : Label Output).calls = false)
    (home : (Label.executor move : Label Output).foreign = false)
    (permitted : world.permits move = true)
    (step : world.executor.step move = some executor) :
    ({ world with executor := executor } : World Output).effort < world.effort := by
  have outside : world.executor.scheduling.own = none → world.stack.isEmpty = true →
      world.executor.phase ≠ .outside := by
    intro free empty phase
    rw [codeRuns_of_outside free (List.isEmpty_iff.mp empty) (Or.inl phase)] at quiet
    cases quiet
  refine effort_lt rfl ?_
  cases Executor.moved_of_step step with
  | remoteWake change | remoteSend change => cases home
  | wake runs change => cases uncalled
  | send change =>
      simp only [Scheduling.step] at change
      split at change
      · rename_i schedule own
        cases change
        refine Nat.add_lt_add_of_lt_of_le ?_
          (Nat.le_of_eq (ahead_congr rfl rfl rfl rfl rfl rfl))
        simp [own]
      · cases change
  | blockOn phase change =>
      simp only [Scheduling.step, Option.ite_none_right_eq_some] at change
      exact absurd phase (outside change.1 permitted)
  | closed phase free => exact absurd phase (outside free permitted)
  | settle phase free | unwound phase free | left phase free =>
      simp [ahead, phase]
  | foundEmpty phase free empty =>
      simp only [ahead, phase]
      split <;> omega
  | tryReceived phase change =>
      obtain ⟨_, _, _, _, _, rfl⟩ := Scheduling.step_receive change
      simp [ahead, phase]
  | torn phase free pending =>
      simp only [ahead, phase, pending, List.length_nil]
      omega
  | released phase empty change =>
      simp only [Scheduling.step, Option.ite_none_right_eq_some,
        Option.some.injEq] at change
      obtain ⟨_, rfl⟩ := change
      simp only [ahead, phase]
      omega
  | leaked phase change =>
      simp only [Scheduling.step, Option.ite_none_right_eq_some,
        Option.some.injEq] at change
      obtain ⟨_, rfl⟩ := change
      simp only [ahead, phase]
      omega
  | _ => cases permitted

/-- An expired registration pays for the iteration that wakes its waker. -/
theorem effort_drained (covered : world.time.driver.Covered) {executor : Executor}
    {time : Timers Waker} {wakers : List Waker}
    (step : world.executor.step .drain = some executor)
    (called : world.time.call (.processExpired world.now) =
      some (time, .woken wakers)) (empty : world.stack = []) :
    ({ world with
      executor := executor
      time := time
      stack := wakers.map Frame.fire } : World Output).effort < world.effort := by
  cases Executor.moved_of_step step with
  | drain phase free =>
      have counted := processExpired_keys called
      have woken : world.due = true → 0 < wakers.length := fun due =>
        List.length_pos_of_ne_nil (fires_due covered called due)
      simp only [effort, cost_fire, ahead, Executor.drainPendingSpawns, phase, empty,
        cost_nil]
      split
      · rename_i due
        have fires := woken due
        omega
      · omega

theorem due_of_advance (covered : world.time.driver.Covered) {time : Timers Waker}
    {deadline : Instant} {clock : Clock} {executor : Executor}
    (called : world.time.call .nextDeadline = some (time, .deadline (some deadline)))
    (advanced : world.clock.advanceTo deadline = .ok clock) :
    ({ world with executor := executor, time := time, clock := clock } :
      World Output).due = true := by
  have soonest : world.time.driver.nextDeadline.2 = some deadline := by
    simp only [Timers.call, Option.some.injEq, Prod.mk.injEq,
      SleepReply.deadline.injEq] at called
    exact called.2
  obtain ⟨id, live⟩ := (TimerState.nextDeadline_eq_some covered soonest).1
  obtain ⟨registration, present, rfl⟩ := Option.map_eq_some_iff.mp live
  refine due_iff.mpr ⟨id, registration, ?_, ?_⟩
  · change time.driver.registrations.lookup id = _
    rw [Timers.registrations_of_nextDeadline called]
    exact present
  · exact Nat.le_of_eq (Clock.now_advanceTo advanced world.os).2.symm

/-- What the runtime does with the topmost frame leaves frames that count less, unless
it unwinds. -/
inductive Lighter (world : World Output) : World Output → Prop
  | frames {scheduling : Scheduling} {left : List (Frame Output)}
      {joins : JoinRef → Option (JoinCell Output)} {log : List (ProgramEvent Output)} :
      world.executor.scheduling.own = none →
      scheduling.own.toList.length + cost left <
        world.executor.scheduling.own.toList.length + cost world.stack →
      Lighter world
        { world with
          executor := { world.executor with scheduling := scheduling }
          stack := left
          joins := joins
          log := log }
  | unwound {rest left : List (Frame Output)} {log : List (ProgramEvent Output)}
      {executor : Executor} :
      world.executor.scheduling.own = none → Fails world .proceed rest log →
      Unwinds world rest left → world.executor.step .panic = some executor →
      Lighter world { world with executor := executor, stack := left, log := log }

theorem Stepped.lighter (stepped : Stepped world .proceed next) : Lighter world next := by
  cases stepped with
  | timed cause later => rcases cause with ⟨_, other, _⟩ | ⟨_, _, other⟩ <;> cases other
  | unwound free fails unwinds moved => exact .unwound free fails unwinds moved
  | called free stack =>
      refine .frames free ?_
      rw [stack]
      simp [Frame.cost]
  | wokeCode free wakes =>
      refine .frames free ?_
      generalize world.stack = stack at wakes
      cases wakes with
      | fire | wake => simp [Frame.cost]
  | @wokeTask schedule rest event executor free wakes unpoisoned moved =>
      cases Executor.moved_of_step moved with
      | wake runs change =>
          refine .frames free ?_
          simp only [Scheduling.step, Option.ite_none_right_eq_some,
            Option.some.injEq] at change
          obtain ⟨_, rfl⟩ := change
          have one := Executor.length_thenSend_own
            (world.executor.scheduling.wakeSection schedule) schedule
          generalize world.stack = stack at wakes
          cases wakes with
          | fire | wake =>
              simp only [cost_cons, Frame.cost, free]
              omega
  | @published join result rest cell waker free stack found pending =>
      refine .frames free ?_
      have woken :
          cost (waker.map (Frame.wake join : Waker → Frame Output)).toList ≤ 2 := by
        cases waker <;> simp [Frame.cost]
      have published : (Frame.publish join result).cost = 6 := rfl
      have released : (Frame.release join : Frame Output).cost = 3 := rfl
      change world.executor.scheduling.own.toList.length + _ < _
      rw [stack, cost_append, cost_cons, cost_cons]
      omega
  | released free stack found front =>
      refine .frames free ?_
      rw [stack]
      rcases front with rfl | ⟨rfl, _⟩ <;> simp [Frame.cost]
  | granted free stack found =>
      refine .frames free ?_
      rw [stack]
      simp [Frame.cost]

theorem effort_dispatch {executor : Executor} {log : List (ProgramEvent Output)}
    {frame : Frame Output} (light : frame.cost ≤ 2)
    (runs : (∃ root id target, executor.phase = .polling root id target) →
      ∃ code, frame = .running code)
    (step : world.executor.step .dispatch = some executor) :
    ({ world with executor := executor, stack := [frame], log := log } :
      World Output).effort < world.effort := by
  refine effort_lt rfl ?_
  simp only [cost_cons, cost_nil]
  cases Executor.moved_of_step step with
  | notAdmitted phase taken missing change =>
      rw [Scheduling.step_reject change]
      simp only [ahead, phase]
      omega
  | notBegun phase taken found fails change =>
      obtain ⟨_, _, _, rfl⟩ := Scheduling.step_beginPoll change
      simp only [ahead, phase, Scheduling.beginPoll_own]
      omega
  | began phase taken found begins change =>
      obtain ⟨_, _, _, rfl⟩ := Scheduling.step_beginPoll change
      obtain ⟨code, rfl⟩ := runs ⟨_, _, _, rfl⟩
      simp only [ahead, phase, Scheduling.beginPoll_own]
      omega

theorem effort_finished {root target : Nat} {id : Id} {executor : Executor}
    (phase : world.executor.phase = .polling root id target)
    (notRoot : id ≠ rootTaskId) (empty : world.stack = [])
    (step : world.executor.step (.endPoll (.ready ())) = some executor) :
    ({ world with executor := executor, stack := unwound executor } :
      World Output).effort < world.effort := by
  have before : world.ahead = 11 := by simp [ahead, phase, empty]
  have sent : ∀ {scheduling : Scheduling},
      world.executor.scheduling.step (.finishPoll target (.ready ())) =
        some scheduling → scheduling.own.toList.length ≤ 1 := by
    intro scheduling change
    simp only [Scheduling.step, Option.ite_none_right_eq_some,
      Option.some.injEq] at change
    obtain ⟨_, rfl⟩ := change
    exact Executor.length_thenSend_own _ _
  refine effort_lt rfl ?_
  rw [before, empty]
  cases Executor.moved_of_step step with
  | notFinished polled fails change =>
      obtain ⟨rfl, rfl, rfl⟩ := Phase.polling.inj (phase.symm.trans polled)
      have own := sent change
      simp [unwound, ahead, Frame.cost]
      omega
  | rootReady polled finishes change =>
      obtain ⟨rfl, rfl, rfl⟩ := Phase.polling.inj (phase.symm.trans polled)
      exact absurd rfl notRoot
  | taskReady polled other finishes change =>
      obtain ⟨rfl, rfl, rfl⟩ := Phase.polling.inj (phase.symm.trans polled)
      have own := sent change
      rw [unwound, if_neg (by simp)]
      simp only [ahead, cost_nil]
      split <;> omega

theorem effort_cleared {task : LocalTask} {executor : Executor}
    (empty : world.stack = [])
    (step : world.executor.step .clear = some executor) :
    ({ world with executor := executor, stack := world.dropTask task } :
      World Output).effort < world.effort := by
  have light : cost (world.dropTask task) ≤ 8 := cost_dropTask world task
  refine effort_lt rfl ?_
  cases Executor.moved_of_step step with
  | cleared phase free first =>
      simp only [ahead, phase, first, List.length_cons, empty, cost_nil]
      omega

theorem effort_destroyed {id : Id} {task : LocalTask} {executor : Executor}
    (empty : world.stack = [])
    (step : world.executor.step (.destroy id) = some executor) :
    ({ world with executor := executor, stack := world.dropTask task } :
      World Output).effort < world.effort := by
  have light : cost (world.dropTask task) ≤ 8 := cost_dropTask world task
  refine effort_lt rfl ?_
  cases Executor.moved_of_step step with
  | destroyed phase free member =>
      have length := List.length_erase_of_mem (AList.mem_keys.mp member)
      have some := List.length_pos_of_mem (AList.mem_keys.mp member)
      simp only [ahead, phase, AList.keys_erase, length, empty, cost_nil]
      omega

/-- Between two codes of the program each step of the runtime lowers the effort. -/
theorem effort_step (orderly : world.Orderly) (covered : world.time.driver.Covered)
    (quiet : world.codeRuns = false) (home : label.foreign = false)
    (punctual : world.Punctual label)
    (step : machine.step world label = some next) : next.effort < world.effort := by
  have uncalled : label.calls = false := by
    by_contra calls
    rw [codeRuns_of_calls (eq_true_of_ne_false calls) step] at quiet
    cases quiet
  have running : ∀ {code : Code} {rest : List (Frame Output)},
      world.executor.scheduling.own = none → world.stack ≠ .running code :: rest := by
    intro code rest free stack
    rw [codeRuns_of_running free stack] at quiet
    cases quiet
  have frames : Lighter world next → next.effort < world.effort := by
    intro lighter
    cases lighter with
    | frames free less => exact effort_frames less fun code rest => running free
    | unwound free fails unwinds moved =>
        cases fails with
        | poisoned wakes poisoned =>
            generalize current : world.stack = stack at wakes
            cases wakes with
            | fire | wake => exact effort_unwound current rfl unwinds nofun moved
        | @published join result rest cell panic stack found twice =>
            obtain ⟨other, present, pending⟩ := orderly.cells.publishing join
              (mem_publishing.mpr ⟨result, stack ▸ List.mem_cons_self⟩)
            obtain rfl := Option.some.inj (found.symm.trans present)
            cases state : cell.state with
            | pending waker =>
                rw [state] at twice
                cases twice
            | ready other | consumed =>
                rw [state] at pending
                cases pending
  cases stepped_of_step step with
  | moved permitted moved => exact effort_moved quiet uncalled home permitted moved
  | timed origin later =>
      rcases origin with ⟨_, rfl, _⟩ | ⟨_, _, rfl⟩
      · cases home
      · cases uncalled
  | timer runs _ _ | refused runs _ | spawned runs _ _ | rejected
  | awaited runs _ _ _ _ | yielded runs _ _ _ | dropped runs _ _ => cases uncalled
  | suspended free stack _ | returned free stack | rootYielded free stack _
  | codeReturned free stack _ _ | caught free stack => exact absurd stack (running free)
  | unwound free fails unwinds moved =>
      cases fails with
      | code stack outermost => exact absurd stack (running free)
      | poisoned | published => exact frames (stepped_of_step step).lighter
  | called | wokeCode | wokeTask | published | released | granted =>
      exact frames (stepped_of_step step).lighter
  | drained moved called =>
      exact effort_drained covered moved called (orderly.placed.empty moved rfl)
  | planned phase wait found paused =>
      refine effort_lt (Timers.registrations_of_nextDeadline found) ?_
      simp [ahead, phase, wait]
  | jumped phase wait found paused advanced moved =>
      refine effort_lt (Timers.registrations_of_nextDeadline found) ?_
      cases Executor.moved_of_step moved with
      | retry waits =>
          simp only [ahead, phase]
          rw [if_pos (due_of_advance covered found advanced)]
          simp [wait]
  | stuck phase wait found paused failed moved =>
      refine effort_lt (Timers.registrations_of_nextDeadline found) ?_
      rw [orderly.placed (by rw [phase]; rfl)]
      cases Executor.moved_of_step moved with
      | waitPanicked _ _ => simp [ahead, phase, wait, Frame.cost]
      | wakerPanicked other _ | leavingPanicked other _ | pollPanicked other _
      | clearingPanicked other _ _ | tearingPanicked other _ _ | droppedPanicked other _ =>
          cases phase.symm.trans other
  | received held moved =>
      refine effort_lt rfl ?_
      cases Executor.moved_of_step moved with
      | received phase change =>
          obtain ⟨_, _, _, _, _, rfl⟩ := Scheduling.step_receive change
          simp [ahead, phase, held]
  | timedOut held moved =>
      refine effort_lt rfl ?_
      cases Executor.moved_of_step moved with
      | retry phase =>
          simp only [ahead, phase]
          split
          · simp [held]
          · rename_i undue
            exact (undue (punctual rfl)).elim
  | @began root target id executor moved phase =>
      exact effort_dispatch (by simp [Frame.cost]) (fun _ => ⟨_, rfl⟩) moved
  | notBegun moved other =>
      refine effort_dispatch (by simp [Frame.cost]) ?_ moved
      rintro ⟨root, id, target, phase⟩
      exact absurd phase (other root id target)
  | finished free phase notRoot stack moved =>
      exact effort_finished phase notRoot stack moved
  | cleared stack pending moved => exact effort_cleared stack moved
  | destroyed stack found moved => exact effort_destroyed stack moved

end World

end Asyncr
