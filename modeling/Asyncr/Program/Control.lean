import Asyncr.Program.Effort

namespace Asyncr

namespace World

open Library
open Time

variable {Output : Type} {world next : World Output} {label : Label Output}
  {allowed : World Output → Label Output → Prop} {clock : Clock} {os : Instant}

/-! Until it does, the executor's thread can go on. -/

def Advances (world : World Output) : Prop :=
  ∃ label next, world.Punctual label ∧ ¬ world.Foreign label ∧
    machine.step world label = some next

theorem advances_of_step (home : label.foreign = false) (timely : world.Punctual label)
    (steps : machine.step world label ≠ none) : world.Advances := by
  obtain ⟨next, step⟩ := Option.ne_none_iff_exists'.mp steps
  refine ⟨label, next, timely, ?_, step⟩
  unfold Foreign
  rw [home]
  exact nofun

theorem advances_of_move {move : Move}
    (home : (Label.executor move : Label Output).foreign = false)
    (permitted : world.permits move = true)
    (moves : world.executor.step move ≠ none) : world.Advances := by
  refine advances_of_step home nofun ?_
  obtain ⟨executor, step⟩ := Option.ne_none_iff_exists'.mp moves
  change (if world.permits move then _ else _) ≠ _
  rw [if_pos permitted, step]
  exact nofun

theorem advances_of_proceed (free : world.executor.scheduling.own = none)
    (proceeds : world.proceed ≠ none) : world.Advances := by
  have home : (Label.proceed : Label Output).foreign = false := rfl
  refine advances_of_step home nofun ?_
  change (if world.executor.free then world.proceed else none) ≠ none
  rw [if_pos (free_iff.mpr free)]
  exact proceeds

theorem invokes (placed : world.Placed) (unaborted : ¬ world.Aborts)
    (free : world.executor.scheduling.own = none) {waker : Waker}
    {rest : List (Frame Output)} {event : ProgramEvent Output}
    (wakes : Wakes world.stack waker rest event)
    (known : waker.known world.executor.scheduling.created = true)
    (log : List (ProgramEvent Output)) :
    { world with log := log }.invoke waker rest ≠ none := by
  obtain ⟨frame, stack⟩ := wakes.ne_nil
  have busy := placed.busy stack
  cases waker with
  | custom code => simp [invoke]
  | task schedule =>
      have below : schedule < world.executor.scheduling.created := by
        simpa [Waker.known] using known
      cases poisoned : (world.executor.scheduling.schedules schedule).poisoned with
      | false =>
          simp [invoke, poisoned, Executor.step, Phase.runsCode_of_busy busy,
            Executor.andThen, Scheduling.step, free, below]
      | true =>
          have unwinds := fun phase => unaborted
            ⟨free, ⟨schedule, rest, event, wakes, poisoned⟩, phase⟩
          cases phase : world.executor.phase with
          | polling root id target | expiring root | leaving root =>
              simp [invoke, poisoned, unwind, phase, Executor.step, Executor.andThen,
                Scheduling.step, Executor.free, free]
          | unwinding => exact (unwinds (Or.inl phase)).elim
          | leaking => exact (unwinds (Or.inr (Or.inl phase))).elim
          | clearing =>
              have unfailing := Bool.eq_false_iff.mpr fun failing =>
                unwinds (Or.inr (Or.inr ⟨Or.inl phase, failing⟩))
              simp [invoke, poisoned, unwind, phase, Executor.step, Executor.failDrop,
                Executor.free, free, unfailing]
          | tearing =>
              have unfailing := Bool.eq_false_iff.mpr fun failing =>
                unwinds (Or.inr (Or.inr ⟨Or.inr phase, failing⟩))
              simp [invoke, poisoned, unwind, phase, Executor.step, Executor.failDrop,
                Executor.free, free, unfailing]
          | dropped =>
              simp [invoke, poisoned, unwind, phase, Executor.step, Executor.failDrop,
                Executor.free, free]
          | outside | iterating root | receiving root | waiting root
          | dispatching root =>
              rw [phase] at busy
              cases busy

theorem plan_goes_on (free : world.executor.scheduling.own = none) {root : Nat}
    (phase : world.executor.phase = .waiting root) (wait : world.wait = none) :
    world.Advances := by
  have home : (Label.plan : Label Output).foreign = false := rfl
  refine advances_of_step home nofun ?_
  cases soonest : world.time.driver.nextDeadline.2 with
  | none => simp [machine, World.step, plan, phase, wait, Timers.call, soonest]
  | some deadline =>
      cases paused : world.clock.isPaused with
      | false =>
          simp [machine, World.step, plan, phase, wait, Timers.call, soonest, paused]
      | true =>
          cases advanced : world.clock.advanceTo deadline with
          | ok clock | error panic =>
              simp [machine, World.step, plan, phase, wait, Timers.call, soonest,
                paused, advanced, Executor.step, Executor.free, free]

theorem dispatch_goes_on (free : world.executor.scheduling.own = none)
    (received : world.executor.Received) {root : Nat}
    (phase : world.executor.phase = .dispatching root) : world.Advances := by
  have home : (Label.dispatch : Label Output).foreign = false := rfl
  refine advances_of_step home nofun ?_
  obtain ⟨entry, taken⟩ := Option.ne_none_iff_exists'.mp (received root phase)
  have moves : world.executor.step .dispatch ≠ none := by
    simp only [Executor.step, phase, taken, Executor.dispatch]
    split
    · simp [Executor.andThen, Scheduling.step, free, taken]
    · split <;> simp [Executor.andThen, Scheduling.step, free, taken]
  obtain ⟨executor, step⟩ := Option.ne_none_iff_exists'.mp moves
  simp [machine, World.step, dispatch, step]

theorem finish_goes_on (free : world.executor.scheduling.own = none)
    (empty : world.stack = []) {root target : Nat} {id : Id} (notRoot : id ≠ rootTaskId)
    (phase : world.executor.phase = .polling root id target) : world.Advances := by
  have home : (Label.finish : Label Output).foreign = false := rfl
  refine advances_of_step home nofun ?_
  have moves : world.executor.step (.endPoll (.ready ())) ≠ none := by
    simp only [Executor.step, phase, Executor.endPoll]
    split <;> simp [Executor.andThen, Scheduling.step, free]
  obtain ⟨executor, step⟩ := Option.ne_none_iff_exists'.mp moves
  simp [machine, World.step, finish, Executor.free, free, phase, notRoot, empty, step]

section

variable (orderly : world.Orderly) (furnished : world.Furnished)
  (free : world.executor.scheduling.own = none)

include orderly furnished free

theorem receive_goes_on {root : Nat}
    (phase : world.executor.phase = .waiting root) {timeout : Option Duration}
    (wait : world.wait = some timeout) (unblocked : ¬ world.Blocks) :
    world.Advances := by
  have taken := orderly.sound.coherent.taken.resolve_left (by simp [phase])
  cases ready : world.executor.scheduling.ready with
  | cons entry rest =>
      have home : (Label.recv : Label Output).foreign = false := rfl
      refine advances_of_step home nofun ?_
      simp [machine, World.step, recv, wait, Executor.step, phase, Executor.andThen,
        Scheduling.step, free, taken, ready]
  | nil =>
      cases due : world.due with
      | false => exact absurd ⟨⟨root, timeout, phase, wait⟩, ready, due⟩ unblocked
      | true =>
          have home : (Label.timeout : Label Output).foreign = false := rfl
          refine advances_of_step home (fun _ => due) ?_
          cases timeout with
          | some duration =>
              simp [machine, World.step, World.timeout, wait, Executor.step, phase]
          | none =>
              obtain ⟨id, registration, found, _⟩ := due_iff.mp due
              rw [(furnished.waits none wait).2 rfl id] at found
              cases found

theorem frame_goes_on (acquainted : world.Acquainted) (unaborted : ¬ world.Aborts)
    {frame : Frame Output} {rest : List (Frame Output)}
    (stack : world.stack = frame :: rest) :
    world.codeRuns = true ∨ world.Advances := by
  have member : frame ∈ world.stack := stack ▸ List.mem_cons_self
  have invoked := @invokes Output world orderly.placed unaborted free
  cases frame with
  | running code => exact Or.inl (codeRuns_of_running free stack)
  | call code =>
      right
      apply advances_of_proceed free
      simp [proceed, stack]
  | fire waker =>
      right
      apply advances_of_proceed free
      have wakes : Wakes world.stack waker rest (.fired waker) := stack ▸ .fire
      simpa [proceed, stack] using invoked wakes (furnished.firing waker member) _
  | wake join waker =>
      right
      apply advances_of_proceed free
      have wakes : Wakes world.stack waker rest (.woke join waker) := stack ▸ .wake
      simpa [proceed, stack] using invoked wakes (acquainted.waking join waker member) _
  | publish join result =>
      right
      apply advances_of_proceed free
      obtain ⟨cell, found, pending⟩ :=
        orderly.cells.publishing join (mem_publishing.mpr ⟨result, member⟩)
      cases state : cell.state with
      | pending waker => simp [proceed, stack, publish, found, state, JoinState.complete]
      | ready other | consumed =>
          rw [state] at pending
          cases pending
  | release join =>
      right
      apply advances_of_proceed free
      have releasing : join ∈ releasing world.stack := by
        rw [stack]
        exact List.mem_cons_self
      obtain ⟨cell, found, _⟩ := orderly.cells.releasing join releasing
      simp only [proceed, stack, release, found]
      split <;> simp
  | grant join =>
      right
      apply advances_of_proceed free
      obtain ⟨cell, found⟩ :=
        Option.ne_none_iff_exists'.mp (furnished.granted join member)
      simp [proceed, stack, found]

theorem phase_goes_on (onTime : world.OnTime) (empty : world.stack = [])
    (unblocked : ¬ world.Blocks) : world.codeRuns = true ∨ world.Advances := by
  have isFree : world.executor.free = true := free_iff.mpr free
  cases phase : world.executor.phase with
  | outside => exact Or.inl (codeRuns_of_outside free empty (Or.inl phase))
  | dropped => exact Or.inl (codeRuns_of_outside free empty (Or.inr phase))
  | iterating root =>
      right
      have home : (Label.drain : Label Output).foreign = false := rfl
      refine advances_of_step home (by simp [Punctual]) ?_
      simp [machine, World.step, drain, Executor.step, phase, isFree,
        Timers.call, show world.time.clock ≤ world.now from onTime]
  | expiring root =>
      right
      have home : (Label.executor .settle : Label Output).foreign = false := rfl
      apply advances_of_move home (by simp [permits, empty])
      simp [Executor.step, phase, isFree]
  | receiving root =>
      right
      have home : (Label.executor .tryRecv : Label Output).foreign = false := rfl
      apply advances_of_move home (by simp [permits, empty])
      have taken := orderly.sound.coherent.taken.resolve_left (by simp [phase])
      cases ready : world.executor.scheduling.ready with
      | nil => simp [Executor.step, phase, isFree, ready]
      | cons entry rest =>
          simp [Executor.step, phase, isFree, ready, Executor.andThen, Scheduling.step,
            taken, free]
  | waiting root =>
      right
      cases wait : world.wait with
      | none => exact plan_goes_on free phase wait
      | some timeout =>
          exact receive_goes_on orderly furnished free phase wait unblocked
  | dispatching root =>
      exact Or.inr (dispatch_goes_on free furnished.received phase)
  | polling root id target =>
      right
      by_cases isRoot : id = rootTaskId
      · subst isRoot
        have polled := furnished.rootPolled root target phase
        rw [empty] at polled
        cases polled
      · exact finish_goes_on free empty isRoot phase
  | leaving root =>
      right
      have home : (Label.executor .leave : Label Output).foreign = false := rfl
      apply advances_of_move home (by simp [permits, empty])
      simp [Executor.step, phase, isFree]
  | unwinding =>
      right
      have home : (Label.executor .unwound : Label Output).foreign = false := rfl
      apply advances_of_move home (by simp [permits, empty])
      simp [Executor.step, phase, isFree]
  | clearing =>
      right
      cases pending : world.executor.pendingSpawns with
      | nil =>
          have home : (Label.executor .tear : Label Output).foreign = false := rfl
          apply advances_of_move home (by simp [permits, empty])
          simp [Executor.step, phase, isFree, pending]
      | cons task rest =>
          have home : (Label.clear : Label Output).foreign = false := rfl
          refine advances_of_step home (by simp [Punctual]) ?_
          simp [machine, World.step, clear, empty, pending, Executor.step, phase, isFree]
  | tearing =>
      right
      cases keys : world.executor.tasks.keys with
      | nil =>
          have untasked : world.executor.tasks = ∅ := by
            apply AList.ext
            exact List.map_eq_nil_iff.mp keys
          have home : (Label.executor .release : Label Output).foreign = false := rfl
          apply advances_of_move home (by simp [permits, empty])
          simp [Executor.step, phase, untasked, Executor.andThen, Scheduling.step, free]
      | cons id rest =>
          have member : id ∈ world.executor.tasks :=
            AList.mem_keys.mpr (keys ▸ List.mem_cons_self)
          obtain ⟨task, found⟩ :=
            Option.isSome_iff_exists.mp (AList.lookup_isSome.mpr member)
          have home : (Label.destroy id : Label Output).foreign = false := rfl
          refine advances_of_step home (by simp [Punctual]) ?_
          simp [machine, World.step, destroy, empty, found, Executor.step, phase, isFree,
            member]
  | leaking =>
      right
      have home : (Label.executor .release : Label Output).foreign = false := rfl
      apply advances_of_move home (by simp [permits, empty])
      simp [Executor.step, phase, Executor.andThen, Scheduling.step, free]

end

theorem goes_on_or_yields (orderly : world.Orderly) (acquainted : world.Acquainted)
    (furnished : world.Furnished) (onTime : world.OnTime) :
    world.Yields ∨ world.Advances := by
  by_cases yields : world.Yields
  · exact Or.inl yields
  · simp only [Yields, not_or] at yields
    obtain ⟨_, unblocked, unaborted⟩ := yields
    have code : world.codeRuns = true ∨ world.Advances →
        world.Yields ∨ world.Advances :=
      Or.imp_left Or.inl
    cases own : world.executor.scheduling.own with
    | some schedule =>
        right
        have home : (Label.executor .send : Label Output).foreign = false := rfl
        apply advances_of_move home rfl
        simp [Executor.step, Executor.andThen, Scheduling.step, own]
    | none =>
        cases stack : world.stack with
        | nil => exact code (phase_goes_on orderly furnished own onTime stack unblocked)
        | cons frame rest =>
            exact code
              (frame_goes_on orderly furnished own acquainted unaborted stack)

theorem spawned_of_other (other : label ≠ .spawn) (stepped : Stepped world label next) :
    next.executor.spawned = world.executor.spawned := by
  rcases stepped.takes with same | ⟨move, takes, moved⟩
  · rw [same]
  · generalize next.executor = executor at moved ⊢
    cases Executor.moved_of_step moved with
    | submitted runs unclosed change =>
        cases takes with
        | permitted permitted => cases permitted
        | spawn runs => exact absurd rfl other
    | _ => rfl

/-- However its thread goes on, the runtime gives control to code of the program, or
blocks with nothing received and no timer due, after a number of steps that is known
beforehand; other threads and the clock do not put it off. -/
theorem control_returns (reach : machine.Reach allowed (initial clock os) world)
    (few : world.executor.spawned < 2 ^ 64 - 1) :
    machine.Within Punctual Foreign Yields world.effort world ∧
      (world.Blocks → world.executor.pendingSpawns = [] ∧
        (∀ id registration,
          world.time.driver.registrations.lookup id = some registration →
          world.now < registration.deadline) ∧
        (world.wait = some none →
          ∀ id, world.time.driver.registrations.lookup id = none)) := by
  refine ⟨?_, ?_⟩
  · have reach : machine.Reach Machine.Any (initial clock os) world :=
      reach.weaken fun _ _ _ => trivial
    apply Machine.within_of_rank (fun world : World Output =>
      machine.Reach Machine.Any (initial clock os) world ∧
        world.executor.spawned < 2 ^ 64 - 1) effort
    · rintro before label after ⟨reach, few⟩ foreign step
      have other : label ≠ .spawn := by
        rintro rfl
        cases foreign
      exact ⟨⟨.step label reach trivial step,
        spawned_of_other other (stepped_of_step step) ▸ few⟩,
        effort_foreign foreign step⟩
    · rintro before ⟨reach, few⟩
      obtain ⟨orderly, droppable, furnished⟩ := run_furnished reach few
      rcases goes_on_or_yields orderly droppable.acquainted furnished (run_onTime reach)
        with yields | advances
      · exact Or.inl yields
      · by_cases yields : before.Yields
        · exact Or.inl yields
        · have quiet : before.codeRuns = false := by
            by_contra runs
            exact yields (Or.inl (eq_true_of_ne_false runs))
          refine Or.inr ⟨advances, ?_⟩
          intro label next punctual busy step
          have home : label.foreign = false := by
            by_contra foreign
            exact busy (eq_true_of_ne_false foreign)
          have other : label ≠ .spawn := by
            rintro rfl
            rw [codeRuns_of_calls rfl step] at quiet
            cases quiet
          exact ⟨⟨.step label reach trivial step,
            spawned_of_other other (stepped_of_step step) ▸ few⟩,
            effort_step orderly (run_covered reach) quiet home punctual step⟩
    · exact Nat.le_refl _
    · exact ⟨reach, few⟩
  · intro blocks
    obtain ⟨_, _, furnished⟩ := run_furnished reach few
    obtain ⟨root, timeout, phase, wait⟩ := blocks.receives
    refine ⟨((run_steady reach).entered.waiting root phase).2, ?_, ?_⟩
    · intro id registration found
      by_contra expired
      have due := due_iff.mpr ⟨id, registration, found, Nat.le_of_not_lt expired⟩
      rw [blocks.undue] at due
      cases due
    · exact fun unbounded => (furnished.waits none unbounded).2 rfl

def restingLabels : List (Label Nat) :=
  [.executor .blockOn, .executor .send, .drain, .executor .settle,
    .executor .tryRecv, .dispatch, .timer (.new 5), .timer (.poll 0 (.task 0) 0),
    .rootYield .pending, .tick 7]

def resting : World Nat :=
  (machine.run Machine.Any (initial (Clock.new 0) 0) restingLabels).getD
    (initial (Clock.new 0) 0)

theorem control_returns_resting :
    machine.Within Punctual Foreign Yields 12 resting := by
  have ran : machine.run Machine.Any (initial (Clock.new 0) 0) restingLabels =
    some resting := rfl
  exact (control_returns (Machine.reach_of_run ran) (by decide)).1

end World

end Asyncr
