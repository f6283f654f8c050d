import Asyncr.Program.Shutdown
import Asyncr.Program.VirtualCalls

namespace Asyncr

namespace Executor

variable {executor next : Executor} {move : Move}

/-- The id that `next_ready_id` has returned is there to be dispatched. -/
def Received (executor : Executor) : Prop :=
  ∀ root, executor.phase = .dispatching root → executor.scheduling.taken ≠ none

theorem Moved.received_step (moved : Moved executor move next)
    (received : executor.Received) : next.Received := by
  intro root phase
  cases moved with
  | remoteWake change =>
      simp only [Scheduling.step, Option.ite_none_right_eq_some,
        Option.some.injEq] at change
      obtain ⟨_, rfl⟩ := change
      simpa using received root phase
  | remoteSend change =>
      simp only [Scheduling.step, Option.ite_none_right_eq_some,
        Option.some.injEq] at change
      obtain ⟨_, rfl⟩ := change
      simpa using received root phase
  | send change =>
      simp only [Scheduling.step] at change
      split at change
      · cases change
        simpa using received root phase
      · cases change
  | tryReceived before change | received before change =>
      obtain ⟨entry, _, _, _, _, rfl⟩ := Scheduling.step_receive change
      exact Option.some_ne_none entry
  | wake runs change | submitted runs unclosed change =>
      change executor.phase = _ at phase
      rw [phase] at runs
      cases runs
  | refused runs closed => exact received root phase
  | cleared before free pending | destroyed before free member =>
      cases before.symm.trans phase
  | _ => cases phase

end Executor

namespace World

open Library
open Time

variable {Output : Type} {world next : World Output} {label : Label Output}
  {allowed : World Output → Label Output → Prop} {clock : Clock} {os : Instant}

/-! What lets the executor's thread go on from wherever it stands. -/

def RootPolled (world : World Output) : Prop :=
  ∀ root target, world.executor.phase = .polling root rootTaskId target →
    world.stack = [.running .root]

theorem Stepped.rootPolled (stepped : Stepped world label next)
    (closing : world.executor.Closing) (placed : world.Placed)
    (polled : world.RootPolled) : next.RootPolled := by
  intro root target phase
  rcases stepped.polled_back phase with before | began
  · have polls := polled root target before
    have busy := placed.busy polls
    cases stepped with
    | refused runs closed =>
        have shut := closing.symm.trans closed
        rw [before] at shut
        cases shut
    | rootYielded free stack step =>
        cases Executor.moved_of_step step <;> cases phase
    | suspended free stack step | returned free stack | caught free stack
    | called free stack | published free stack _ _ | released free stack _ _
    | granted free stack _ | finished _ _ _ stack _ | cleared stack _ _
    | destroyed stack _ _ =>
        rw [polls] at stack
        cases stack
    | codeReturned free stack notRoot notInner =>
        rw [polls] at stack
        cases stack
        exact absurd rfl notRoot
    | unwound free fails unwinds step =>
        rcases phase_of_panic step with unwinding | ⟨_, closed⟩
        · cases unwinding.symm.trans phase
        · rw [phase] at closed
          cases closed
    | wokeCode free wakes | wokeTask free wakes _ _ =>
        rw [polls] at wakes
        cases wakes
    | drained step _ | began step _ =>
        rw [Executor.idle_of_loop step rfl] at busy
        cases busy
    | notBegun step other => exact absurd phase (other _ _ _)
    | stuck waiting _ _ _ _ _ =>
        rw [waiting] at busy
        cases busy
    | moved _ _ | timed _ _ | timer _ _ _ | spawned _ _ _ | rejected
    | awaited _ _ _ _ _ | yielded _ _ _ _ | dropped _ _ _ | planned _ _ _ _
    | jumped _ _ _ _ _ _ | received _ _ | timedOut _ _ => exact polls
  · rw [began, if_pos rfl]

/-- The timeout is computed for the receive that blocks, which is unbounded only
without registrations. -/
def Waits (world : World Output) : Prop :=
  ∀ timeout, world.wait = some timeout →
    (∃ root, world.executor.phase = .waiting root) ∧
      (timeout = none → ∀ id, world.time.driver.registrations.lookup id = none)

theorem codeRuns_waiting (placed : world.Placed) {root : Nat}
    (phase : world.executor.phase = .waiting root) : world.codeRuns = false := by
  have empty : world.stack = [] := placed (by rw [phase]; rfl)
  simp [codeRuns, empty, phase]

theorem Executor.waiting_stays {executor after : Executor} {move : Move} {root : Nat}
    (moved : Executor.Moved executor move after)
    (phase : executor.phase = .waiting root) :
    after.phase = .waiting root ∨ move = .recv ∨ move = .retry ∨ move = .panic := by
  cases moved with
  | remoteWake change | remoteSend change | wake runs change | send change
  | refused runs closed | submitted runs unclosed change
  | cleared before free pending | destroyed before free member => exact Or.inl phase
  | received before change => exact Or.inr (Or.inl rfl)
  | retry before => exact Or.inr (Or.inr (Or.inl rfl))
  | waitPanicked before free | wakerPanicked before free | leavingPanicked before free
  | pollPanicked before change => exact Or.inr (Or.inr (Or.inr rfl))
  | _ => simp_all

theorem Stepped.waits (stepped : Stepped world label next) (placed : world.Placed)
    (covered : world.time.driver.Covered) (waits : world.Waits) : next.Waits := by
  intro timeout waiting
  have blocked : world.wait = some timeout → ∃ root,
      world.executor.phase = .waiting root ∧ world.stack = [] ∧
        world.codeRuns = false := by
    intro before
    obtain ⟨⟨root, phase⟩, _⟩ := waits timeout before
    exact ⟨root, phase, placed (by rw [phase]; rfl), codeRuns_waiting placed phase⟩
  cases stepped with
  | moved permitted step =>
      obtain ⟨root, phase, empty, quiet⟩ := blocked waiting
      refine ⟨⟨root, ?_⟩, (waits timeout waiting).2⟩
      rcases Executor.waiting_stays (Executor.moved_of_step step) phase with
        stays | rfl | rfl | rfl
      · exact stays
      all_goals cases permitted
  | timed origin later | rejected => exact waits timeout waiting
  | timer runs _ _ | refused runs _ | spawned runs _ _ | awaited runs _ _ _ _
  | yielded runs _ _ _ | dropped runs _ _ =>
      obtain ⟨_, _, _, quiet⟩ := blocked waiting
      rw [quiet] at runs
      cases runs
  | suspended _ stack _ | returned _ stack | rootYielded _ stack _
  | codeReturned _ stack _ _ | caught _ stack | called _ stack
  | published _ stack _ _ | released _ stack _ _ | granted _ stack _ =>
      obtain ⟨_, _, empty, _⟩ := blocked waiting
      rw [empty] at stack
      cases stack
  | wokeCode _ wakes | wokeTask _ wakes _ _ =>
      obtain ⟨_, _, empty, _⟩ := blocked waiting
      rw [empty] at wakes
      cases wakes
  | unwound free fails unwinds step =>
      obtain ⟨_, _, empty, _⟩ := blocked waiting
      cases fails with
      | code stack outermost | published stack found twice =>
          rw [empty] at stack
          cases stack
      | poisoned wakes poisoned =>
          rw [empty] at wakes
          cases wakes
  | drained step _ | began step _ | notBegun step _ | finished _ _ _ _ step
  | cleared _ _ step | destroyed _ _ step =>
      obtain ⟨root, phase, _, _⟩ := blocked waiting
      cases Executor.moved_of_step step <;> simp_all
  | @planned root time deadline phase wait found running =>
      cases waiting
      refine ⟨⟨root, phase⟩, ?_⟩
      intro unbounded id
      rw [Timers.registrations_of_nextDeadline found]
      exact (timeout_spec covered found world.now).1.mp unbounded id
  | jumped _ wait _ _ _ _ | stuck _ wait _ _ _ _ =>
      rw [wait] at waiting
      cases waiting
  | received held step | timedOut held step => cases waiting

/-! What holds in every run. -/

structure Furnished (world : World Output) : Prop where
  known : world.Known
  firing : ∀ waker, .fire waker ∈ world.stack →
    waker.known world.executor.scheduling.created = true
  granted : ∀ join, .grant join ∈ world.stack → world.joins join ≠ none
  received : world.executor.Received
  rootPolled : world.RootPolled
  waits : world.Waits

theorem furnished_initial : (initial clock os : World Output).Furnished where
  known := known_initial
  firing := by
    intro waker member
    cases member
  granted := by
    intro join member
    cases member
  received := by
    intro root phase
    cases phase
  rootPolled := by
    intro root target phase
    cases phase
  waits := by
    intro timeout waiting
    cases waiting

theorem Furnished.step (furnished : world.Furnished) (orderly : world.Orderly)
    (covered : world.time.driver.Covered) (stepped : Stepped world label next) :
    next.Furnished := by
  have firing : ∀ waker, .fire waker ∈ next.stack →
      waker.known next.executor.scheduling.created = true := by
    intro waker member
    apply Waker.known_mono stepped.created_le
    rcases stepped.pushed member with old | pushed
    · exact furnished.firing waker old
    · cases pushed with
      | fired step called isWaker =>
          obtain ⟨id, registration, found, rfl⟩ :=
            (Timers.processExpired_spec covered called).1 _ isWaker
          exact furnished.known.registered id registration found
  refine ⟨⟨fun _ _ => furnished.known.registered_step stepped, ?_⟩, firing, ?_, ?_,
    stepped.rootPolled orderly.sound.closing orderly.placed furnished.rootPolled,
    stepped.waits orderly.placed covered furnished.waits⟩
  · exact fun _ _ waker => firing waker
  · intro join member
    rcases stepped.pushed member with old | pushed
    · exact (orderly.effect stepped).present (furnished.granted join old)
    · cases pushed with
      | granted present => exact present
  · rcases stepped.takes with same | ⟨move, _, moved⟩
    · rw [same]
      exact furnished.received
    · exact (Executor.moved_of_step moved).received_step furnished.received

theorem run_furnished (reach : machine.Reach allowed (initial clock os) world)
    (few : world.executor.spawned < 2 ^ 64 - 1) :
    world.Orderly ∧ world.Droppable ∧ world.Furnished := by
  obtain ⟨orderly, droppable⟩ := run_droppable reach few
  refine ⟨orderly, droppable, ?_⟩
  have both : world.Orderly ∧ world.time.driver.Covered ∧ world.Furnished := by
    apply run_invariant reach few orderly_initial
      ⟨TimerState.covered_initial, furnished_initial⟩
    intro world label next orderly ⟨covered, furnished⟩ _ stepped _
    refine ⟨?_, furnished.step orderly covered stepped⟩
    rcases stepped.timers with same | ⟨call, reply, called⟩
    · exact same ▸ covered
    · exact Timers.covered_of_call covered called
  exact both.2.2

end World

end Asyncr
