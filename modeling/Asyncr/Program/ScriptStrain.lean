import Asyncr.Program.Control
import Asyncr.Program.ScriptCost

namespace Asyncr

open Library
open Time

/-! What the runtime has to do between the steps of the blocks. -/

namespace Time.Timers

variable {W : Type}

theorem keys_insert_le (registrations : Registrations W) (id : TimerId)
    (registration : TimerRegistration W) :
    (registrations.insert id registration).keys.length ≤ registrations.keys.length + 1 := by
  rw [AList.keys_insert, List.length_cons]
  exact Nat.succ_le_succ (List.length_erase_le ..)

theorem keys_release_le (sleep : Sleep) (driver : TimerState W) :
    (sleep.release driver).1.registrations.keys.length ≤
      driver.registrations.keys.length := by
  unfold Sleep.release
  split
  · simp only [TimerState.cancel, AList.keys_erase]
    exact List.length_erase_le ..
  · exact Nat.le_refl _

theorem keys_reset_le (sleep : Sleep) (driver : TimerState W) (deadline : Instant) :
    (sleep.reset driver deadline).1.registrations.keys.length ≤
      driver.registrations.keys.length + 1 := by
  unfold Sleep.reset
  cases held : sleep.registration with
  | none => simp
  | some id =>
      cases found : driver.registrations.lookup id with
      | none => simp [TimerState.reschedule, found]
      | some registration =>
          simp only [TimerState.reschedule, found]
          exact keys_insert_le ..

variable [WillWake W]

theorem keys_updateWaker_le {driver after : TimerState W} {id : TimerId} {waker : W}
    (updated : driver.updateWaker id waker = .ok after) :
    after.registrations.keys.length ≤ driver.registrations.keys.length + 1 := by
  unfold TimerState.updateWaker at updated
  split at updated
  · cases updated
  · split at updated
    · cases updated
      exact Nat.le_succ _
    · cases updated
      exact keys_insert_le ..

theorem PollOutcome.keys_le {sleep polled : Sleep} {driver after : TimerState W}
    {now : Instant} {waker : W} {result : Except Panic (Poll Unit)}
    (outcome : PollOutcome sleep driver now waker after polled result) :
    after.registrations.keys.length ≤ driver.registrations.keys.length + 1 := by
  cases outcome with
  | elapsed due => exact Nat.le_succ_of_le (keys_release_le sleep driver)
  | updated id after early held updated => exact keys_updateWaker_le updated
  | unregistered id panic early held failed => exact Nat.le_succ _
  | registered id after early held registered =>
      rw [(TimerState.register_ok registered).2.2.2]
      exact keys_insert_le ..
  | exhausted panic after early held failed =>
      rw [(TimerState.register_error failed).2.2]
      exact Nat.le_succ _

theorem keys_le_of_call {timers after : Timers W} {call : SleepCall W}
    {reply : SleepReply W} (called : timers.call call = some (after, reply)) :
    after.driver.registrations.keys.length ≤
        timers.driver.registrations.keys.length + 1 ∧
      after.registered ≤ timers.registered + 1 := by
  cases call with
  | new deadline =>
      cases called
      exact ⟨Nat.le_succ _, Nat.le_succ _⟩
  | poll sleep waker now =>
      simp only [Timers.call] at called
      split at called
      · cases called
      · split at called
        · cases called
          refine ⟨(poll_outcome _ _ now waker).keys_le, ?_⟩
          dsimp only
          split <;> omega
        · cases called
  | reset sleep deadline =>
      simp only [Timers.call] at called
      split at called
      · cases called
      · cases called
        exact ⟨keys_reset_le _ _ deadline, Nat.le_succ _⟩
  | drop sleep =>
      simp only [Timers.call] at called
      split at called
      · cases called
      · cases called
        exact ⟨Nat.le_succ_of_le (keys_release_le _ _), Nat.le_succ _⟩
  | processExpired now =>
      simp only [Timers.call] at called
      split at called
      · cases called
        refine ⟨?_, Nat.le_succ _⟩
        have counted := TimerState.expireLoop_length now
          timers.driver.deadlines.entries timers.driver.registrations
        dsimp only [TimerState.processExpired]
        omega
      · cases called
  | nextDeadline =>
      cases called
      exact ⟨Nat.le_succ _, Nat.le_succ _⟩

end Time.Timers

namespace Executor

variable {executor next : Executor} {move : Move}

theorem Moved.spawned_succ (moved : Moved executor move next) :
    next.spawned ≤ executor.spawned + 1 := by
  cases moved with
  | submitted => exact Nat.le_refl _
  | _ => exact Nat.le_succ _

end Executor

namespace World

variable {Output : Type} {world next : World Output} {label : Label Output}

theorem Stepped.spawned_succ (stepped : Stepped world label next) :
    next.executor.spawned ≤ world.executor.spawned + 1 := by
  rcases stepped.takes with same | ⟨move, takes, step⟩
  · rw [same]
    exact Nat.le_succ _
  · exact (Executor.moved_of_step step).spawned_succ

/-- A destructor or a waker runs inside the harness of a task. -/
def interlude (world : World Output) : Nat :=
  match world.executor.phase, world.stack with
  | .polling _ _ _, .running code :: _ =>
      match code with
      | .root | .inner _ => 0
      | .waker _ | .dropFuture _ | .dropPayload _ | .dropOutput _ | .dropRoot => 11
  | _, _ => 0

/-- The effort of the runtime, with what it goes on with after a destructor. -/
def strain (world : World Output) : Nat :=
  world.effort + world.interlude

theorem interlude_nil (empty : world.stack = []) : world.interlude = 0 := by
  unfold interlude
  rw [empty]
  split
  · rename_i other
    cases other
  · rfl

theorem interlude_unpolled
    (unpolled : ∀ root id target, world.executor.phase ≠ .polling root id target) :
    world.interlude = 0 := by
  unfold interlude
  split
  · rename_i phase _
    exact absurd phase (unpolled _ _ _)
  · rfl

theorem interlude_unrun (unrun : ∀ code rest, world.stack ≠ .running code :: rest) :
    world.interlude = 0 := by
  unfold interlude
  split
  · rename_i stack
    exact absurd stack (unrun _ _)
  · rfl

theorem interlude_congr (phase : next.executor.phase = world.executor.phase)
    (stack : next.stack = world.stack) : next.interlude = world.interlude := by
  unfold interlude
  rw [phase, stack]

theorem ahead_polling {root target : Nat} {id : Id}
    (phase : world.executor.phase = .polling root id target) :
    world.ahead + world.interlude ≤ 11 := by
  cases stack : world.stack with
  | nil => simp [ahead, interlude, phase, stack]
  | cons frame rest =>
      cases frame with
      | running code => cases code <;> simp [ahead, interlude, phase, stack]
      | _ => simp [ahead, interlude, phase, stack]

theorem ahead_halted {root target : Nat} {id : Id}
    (phase : world.executor.phase = .polling root id target)
    (unpolled : ∀ code rest, world.stack = .running code :: rest →
      code ≠ .root ∧ ∀ join, code ≠ .inner join) :
    world.ahead + world.interlude = 11 := by
  cases stack : world.stack with
  | nil => simp [ahead, interlude, phase, stack]
  | cons frame rest =>
      cases frame with
      | running code =>
          obtain ⟨notRoot, notInner⟩ := unpolled code rest stack
          cases code with
          | root => exact absurd rfl notRoot
          | inner join => exact absurd rfl (notInner join)
          | waker | dropFuture | dropPayload | dropOutput | dropRoot =>
              simp [ahead, interlude, phase, stack]
      | _ => simp [ahead, interlude, phase, stack]

theorem ahead_frames {scheduling : Scheduling} {left : List (Frame Output)}
    {joins : JoinRef → Option (JoinCell Output)} {log : List (ProgramEvent Output)}
    (unpolled : ∀ code rest, world.stack = .running code :: rest →
      code ≠ .root ∧ ∀ join, code ≠ .inner join) :
    ({ world with
        executor := { world.executor with scheduling := scheduling }
        stack := left
        joins := joins
        log := log } : World Output).ahead +
      ({ world with
        executor := { world.executor with scheduling := scheduling }
        stack := left
        joins := joins
        log := log } : World Output).interlude ≤ world.ahead + world.interlude := by
  cases phase : world.executor.phase with
  | polling root id target =>
      rw [ahead_halted phase unpolled]
      exact ahead_polling phase
  | _ =>
      rw [interlude_unpolled (by simp [phase]), interlude_unpolled (by simp [phase])]
      simp only [ahead, phase]
      exact Nat.le_refl _

theorem strain_frames {scheduling : Scheduling} {left : List (Frame Output)}
    {joins : JoinRef → Option (JoinCell Output)} {log : List (ProgramEvent Output)}
    (less : scheduling.own.toList.length + cost left <
      world.executor.scheduling.own.toList.length + cost world.stack)
    (unpolled : ∀ code rest, world.stack = .running code :: rest →
      code ≠ .root ∧ ∀ join, code ≠ .inner join) :
    ({ world with
      executor := { world.executor with scheduling := scheduling }
      stack := left
      joins := joins
      log := log } : World Output).strain < world.strain := by
  have halts := @ahead_frames _ world scheduling left joins log unpolled
  simp only [strain, effort]
  dsimp only at halts ⊢
  omega

theorem Stepped.returned_eases (stepped : Stepped world .codeReturns next) :
    next.strain < world.strain := by
  cases stepped with
  | timed cause later => rcases cause with ⟨_, other, _⟩ | ⟨_, _, other⟩ <;> cases other
  | unwound free fails unwinds step => cases fails
  | codeReturned free stack notRoot notInner =>
      refine strain_frames ?_ ?_
      · rw [stack]
        simp [Frame.cost]
      · intro other rest again
        cases stack.symm.trans again
        exact ⟨notRoot, notInner⟩

/-- Each step of the runtime eases it. -/
theorem strain_step (orderly : world.Orderly) (covered : world.time.driver.Covered)
    (quiet : world.codeRuns = false) (home : label.home = true)
    (works : label.foreign = false) (punctual : world.Punctual label)
    (step : machine.step world label = some next) : next.strain < world.strain := by
  have less := effort_step orderly covered quiet works punctual step
  have eased : next.interlude = 0 → next.strain < world.strain := by
    intro none
    simp only [strain, none]
    omega
  have running : world.executor.scheduling.own = none → ∀ code rest,
      world.stack ≠ .running code :: rest := by
    intro free code rest stack
    rw [codeRuns_of_running free stack] at quiet
    cases quiet
  have frames : Lighter world next → next.strain < world.strain := by
    intro lighter
    cases lighter with
    | frames free lighter =>
        refine strain_frames lighter ?_
        intro code rest stack
        exact absurd stack (running free code rest)
    | unwound free fails unwinds moved =>
        apply eased
        apply interlude_unpolled
        intro root id target phase
        cases Executor.moved_of_step moved <;> cases phase
  cases stepped_of_step step with
  | @moved move executor permitted moved =>
      cases move with
      | send =>
          have same : ({ world with executor := executor } : World Output).interlude =
              world.interlude := by
            cases Executor.moved_of_step moved with
            | send change => exact interlude_congr rfl rfl
          simp only [strain, same]
          omega
      | blockOn | settle | tryRecv | unwound | leave =>
          exact eased (interlude_nil (List.isEmpty_iff.mp permitted))
      | _ => cases home
  | timed origin later =>
      rcases origin with ⟨_, rfl, _⟩ | ⟨_, _, rfl⟩
      · cases works
      · cases home
  | unwound free fails unwinds moved =>
      cases fails with
      | code stack outermost => cases home
      | poisoned | published => exact frames (stepped_of_step step).lighter
  | called | wokeCode | wokeTask | published | released | granted =>
      exact frames (stepped_of_step step).lighter
  | @drained executor time wakers moved called =>
      apply eased
      apply interlude_unrun
      intro code rest stack
      have member : Frame.running code ∈ wakers.map Frame.fire := stack ▸ List.mem_cons_self
      obtain ⟨_, _, other⟩ := List.mem_map.mp member
      cases other
  | planned phase wait found paused =>
      exact eased (interlude_unpolled (by simp [phase]))
  | jumped phase wait found paused advanced moved =>
      apply eased
      apply interlude_unpolled
      intro root id target polling
      cases Executor.moved_of_step moved with
      | retry waits => cases polling
  | stuck phase wait found paused failed moved =>
      exact eased (interlude_unrun (by simp))
  | received held moved =>
      apply eased
      apply interlude_unpolled
      intro root id target polling
      cases Executor.moved_of_step moved with
      | received phase change => cases polling
  | timedOut held moved =>
      apply eased
      apply interlude_unpolled
      intro root id target polling
      cases Executor.moved_of_step moved with
      | retry phase => cases polling
  | @began root target id executor moved phase =>
      apply eased
      simp only [interlude, phase]
      by_cases isRoot : id = rootTaskId <;> simp [isRoot]
  | notBegun moved other => exact eased (interlude_unrun (by simp))
  | finished free phase notRoot stack moved =>
      apply eased
      apply interlude_unrun
      intro code rest frames
      have member : Frame.running code ∈ (World.unwound _ : List (Frame Output)) :=
        frames ▸ List.mem_cons_self
      unfold World.unwound at member
      split at member
      · cases List.mem_singleton.mp member
      · cases member
  | timer | refused | spawned | rejected | awaited | yielded | dropped | suspended
  | returned | rootYielded | codeReturned | caught | cleared | destroyed => cases home

theorem strain_tick {reading : Instant}
    (step : machine.step world (.tick reading) = some next) :
    next.strain ≤ world.strain ∧ next.executor = world.executor ∧
      next.time = world.time := by
  have bounded := effort_foreign rfl step
  cases stepped_of_step step with
  | timed cause later =>
      exact ⟨Nat.add_le_add bounded (Nat.le_of_eq (interlude_congr rfl rfl)), rfl, rfl⟩
  | unwound free fails unwinds step => cases fails

theorem ahead_unclosing (unclosing : world.executor.phase.closing = false) :
    world.ahead + world.interlude ≤ 11 := by
  cases phase : world.executor.phase with
  | polling root id target => exact ahead_polling phase
  | clearing | tearing | dropped =>
      rw [phase] at unclosing
      cases unclosing
  | _ =>
      rw [interlude_unpolled (by simp [phase])]
      simp only [ahead, phase]
      repeat' split
      all_goals omega

theorem Stepped.cost_turn {future : Future Output} {schedule : Nat} {root : Bool}
    {turn : Turn Output} (turned : future.Turned world schedule root turn)
    (stepped : Stepped world turn.label next) {code : Code}
    (stack : world.stack = [.running code])
    (unclosed : world.executor.closed = false) : cost next.stack ≤ 11 := by
  rcases turned.labels with asks | ⟨result, yields⟩ | ⟨result, yields⟩ | panics
  · rw [stepped.stack_on unclosed asks, stack]
    simp [Frame.cost]
  · rw [yields] at stepped
    cases stepped with
    | timed cause later => rcases cause with ⟨_, other, _⟩ | ⟨_, _, other⟩ <;> cases other
    | unwound free fails unwinds step => cases fails
    | suspended free other step => exact Nat.le_trans (cost_unwound _) (by omega)
    | returned free other => simp [harness, Frame.cost]
  · rw [yields] at stepped
    cases stepped with
    | timed cause later => rcases cause with ⟨_, other, _⟩ | ⟨_, _, other⟩ <;> cases other
    | unwound free fails unwinds step => cases fails
    | rootYielded free other step =>
        dsimp only
        split <;> simp [Frame.cost]
  · rw [panics] at stepped
    cases stepped with
    | timed cause later => rcases cause with ⟨_, other, _⟩ | ⟨_, _, other⟩ <;> cases other
    | caught free other => simp [Frame.cost]
    | unwound free fails unwinds step =>
        cases fails with
        | code other outermost =>
            cases stack.symm.trans other
            cases unwinds with
            | loop phase => simp [cleanup, Frame.cost]
            | leaving phase | closing phase => simp [cleanup]

theorem Stepped.strain_turn {future : Future Output} {schedule : Nat} {root : Bool}
    {turn : Turn Output} (turned : future.Turned world schedule root turn)
    (stepped : Stepped world turn.label next) {code : Code}
    (stack : world.stack = [.running code])
    (unclosed : world.executor.closed = false)
    (unclosing : next.executor.phase.closing = false) :
    next.strain ≤ world.strain + 31 := by
  have loaded := stepped.cost_turn turned stack unclosed
  have ahead := ahead_unclosing unclosing
  have own : next.executor.scheduling.own.toList.length ≤ 1 := by
    cases next.executor.scheduling.own <;> simp
  have registered : next.time.driver.registrations.keys.length ≤
      world.time.driver.registrations.keys.length + 1 := by
    rcases stepped.timers with same | ⟨call, reply, called⟩
    · rw [same]
      exact Nat.le_succ _
    · exact (Timers.keys_le_of_call called).1
  simp only [strain, effort]
  omega

theorem Stepped.registered_succ (stepped : Stepped world label next) :
    next.time.registered ≤ world.time.registered + 1 := by
  rcases stepped.timers with same | ⟨call, reply, called⟩
  · rw [same]
    exact Nat.le_succ _
  · exact (Timers.keys_le_of_call called).2

end World

end Asyncr
