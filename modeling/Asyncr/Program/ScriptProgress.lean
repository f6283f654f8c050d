import Asyncr.Program.ScriptCalls

namespace Asyncr

open Library
open Time

/-! A program of blocks can take another step. -/

namespace World

variable {Output : Type} {world next : World Output} {label : Label Output}

theorem endPoll_goes_on (free : world.executor.scheduling.own = none) {root target : Nat}
    {id : Id} (phase : world.executor.phase = .polling root id target)
    (result : Poll Unit) :
    ∃ executor, world.executor.step (.endPoll result) = some executor := by
  apply Option.ne_none_iff_exists'.mp
  simp only [Executor.step, phase, Executor.endPoll]
  split <;> simp [Executor.andThen, Scheduling.step, free]

theorem home_of_step (quiet : world.codeRuns = false) (works : label.foreign = false)
    (inside : world.executor.phase ≠ .outside)
    (unclosing : world.executor.phase.closing = false)
    (step : machine.step world label = some next) : label.home = true := by
  have uncalled : label.calls = false := by
    cases calls : label.calls with
    | false => rfl
    | true =>
        rw [codeRuns_of_calls calls step] at quiet
        cases quiet
  have unrun : world.executor.scheduling.own = none → ∀ {code : Code}
      {rest : List (Frame Output)}, world.stack ≠ .running code :: rest := by
    intro free code rest stack
    rw [codeRuns_of_running free stack] at quiet
    cases quiet
  cases stepped_of_step step with
  | @moved move executor permitted moved =>
      cases move with
      | send | blockOn | settle | tryRecv | unwound | leave => rfl
      | remoteWake | remoteSend => cases works
      | wake => cases uncalled
      | close =>
          cases Executor.moved_of_step moved with
          | closed phase => exact absurd phase inside
      | tear =>
          cases Executor.moved_of_step moved with
          | torn phase =>
              rw [phase] at unclosing
              cases unclosing
      | release =>
          cases Executor.moved_of_step moved with
          | released phase | leaked phase =>
              rw [phase] at unclosing
              cases unclosing
      | _ => cases permitted
  | timed cause later =>
      rcases cause with ⟨_, rfl, _⟩ | ⟨_, _, rfl⟩
      · cases works
      · cases uncalled
  | timer | refused | spawned | rejected | awaited | yielded | dropped => cases uncalled
  | suspended free stack | returned free stack | rootYielded free stack
  | codeReturned free stack | caught free stack => exact absurd stack (unrun free)
  | unwound free fails unwinds moved =>
      cases fails with
      | code stack outermost => exact absurd stack (unrun free)
      | poisoned | published => rfl
  | cleared stack pending moved =>
      cases Executor.moved_of_step moved with
      | cleared phase =>
          rw [phase] at unclosing
          cases unclosing
  | destroyed stack found moved =>
      cases Executor.moved_of_step moved with
      | destroyed phase =>
          rw [phase] at unclosing
          cases unclosing
  | _ => rfl

theorem Stepped.created_home (stepped : Stepped world label next)
    (home : label.home = true) (inside : world.executor.phase ≠ .outside) :
    next.executor.scheduling.created = world.executor.scheduling.created := by
  rcases stepped.takes with same | ⟨move, takes, step⟩
  · rw [same]
  · have moved := Executor.moved_of_step step
    apply moved.created_eq
    · rintro rfl
      cases takes with
      | permitted | spawn => cases home
    · rintro rfl
      generalize next.executor = executor at moved
      cases moved with
      | blockOn phase => exact inside phase

theorem running_of_codeRuns (runs : world.codeRuns = true)
    (inside : world.executor.phase ≠ .outside)
    (unclosing : world.executor.phase.closing = false) :
    world.executor.scheduling.own = none ∧
      ∃ code rest, world.stack = .running code :: rest := by
  simp only [codeRuns, Bool.and_eq_true] at runs
  refine ⟨free_iff.mp runs.1, ?_⟩
  cases stack : world.stack with
  | nil =>
      cases phase : world.executor.phase with
      | outside => exact absurd phase inside
      | dropped =>
          rw [phase] at unclosing
          cases unclosing
      | _ => simp [stack, phase] at runs
  | cons frame rest =>
      cases frame with
      | running code => exact ⟨code, rest, rfl⟩
      | _ => simp [stack] at runs

theorem unmoved_of_running (placed : world.Placed)
    (free : world.executor.scheduling.own = none) {code : Code} {rest : List (Frame Output)}
    (stack : world.stack = .running code :: rest) (home : label.home = true)
    (works : label.foreign = false) : machine.step world label = none := by
  cases step : machine.step world label with
  | none => rfl
  | some next =>
      exfalso
      have stepped := stepped_of_step step
      rcases stepped.home_running home stack placed with ⟨reading, rfl⟩ | rfl
      · cases works
      · cases stepped with
        | moved permitted moved =>
            cases Executor.moved_of_step moved with
            | send change => simp [Scheduling.step, free] at change
        | timed cause later =>
            rcases cause with ⟨_, other, _⟩ | ⟨_, _, other⟩ <;> cases other
        | unwound free fails unwinds moved => cases fails

end World

namespace Scripted

variable {Output : Type} {state next : Scripted Output} {schedule : Nat} {root : Bool}
  {future : Future Output} {turn : Turn Output}

/-- A block can always take its turn. -/
theorem Managed.turn_goes_on (managed : state.Managed) (onTime : state.world.OnTime)
    (polled : state.world.executor.phase.polled? = some schedule)
    (free : state.world.executor.scheduling.own = none) {code : Code}
    (stack : state.world.stack = [.running code]) (isPoll : polls root code)
    (going : state.blocks schedule = .going future)
    (turned : future.Turned state.world schedule root turn) :
    ∃ next, World.machine.step state.world turn.label = some next := by
  obtain ⟨caller, id, phase⟩ := Phase.polled?_eq_some.mp polled
  have below := (managed.orderly.sound.coherent.polled _ _ _ phase).1
  have active := World.codeRuns_of_running free stack
  have isFree : state.world.executor.free = true := World.free_iff.mpr free
  have later : state.world.time.clock ≤ state.world.now := onTime
  have handles : ∀ {handle : Nat}, Resource.handle handle ∈ future.owned →
      ∃ cell, state.world.joins (.task handle) = some cell ∧ cell.handle = true :=
    fun owned => managed.owning.handles schedule _ ⟨future, going, owned⟩
  have timers : ∀ {sleep : Nat}, Resource.timer sleep ∈ future.owned →
      ∃ entry, state.world.time.sleeps sleep = some entry := fun owned =>
    Option.ne_none_iff_exists'.mp
      (managed.owning.timers schedule _ ⟨future, going, owned⟩)
  have drops : ∀ {resource : Resource}, resource ∈ future.owned →
      ∃ next, World.machine.step state.world resource.drop = some next := by
    intro resource owned
    apply Option.ne_none_iff_exists'.mp
    cases resource with
    | handle target =>
        obtain ⟨cell, found, held⟩ := handles owned
        simp [World.machine, World.step, Resource.drop, found, active, held]
    | timer sleep =>
        obtain ⟨entry, present⟩ := timers owned
        simp [World.machine, World.step, Resource.drop, active, World.sleepCall,
          Timers.call, present]
  have polls_join : ∀ {index handle : Nat}, future.handles[index]? = some handle →
      ∃ next, World.machine.step state.world
        (.pollJoin (.task handle) (.task schedule)) = some next := by
    intro index handle found
    obtain ⟨cell, present, held⟩ := handles (Future.mem_owned.mpr
      (Or.inr (Or.inl ⟨handle, List.mem_of_getElem? found, rfl⟩)))
    apply Option.ne_none_iff_exists'.mp
    simp [World.machine, World.step, present, active, held, Waker.known, below]
  have polls_sleep : ∀ {sleep : Nat}, future.sleep = some sleep →
      ∃ next, World.machine.step state.world
        (.timer (.poll sleep (.task schedule) state.world.now)) = some next := by
    intro sleep sleeps
    obtain ⟨entry, present⟩ := timers (Future.mem_owned.mpr
      (Or.inr (Or.inr ⟨sleep, sleeps, rfl⟩)))
    apply Option.ne_none_iff_exists'.mp
    simp [World.machine, World.step, active, World.sleepCall, Waker.known, below,
      Timers.call, present, later]
  have yields : ∀ {result : Poll Unit} {given : Poll Output},
      (root = false → result = .pending ∧ given = .pending ∨
        ∃ value, given = .ready value) →
      ∃ next, World.machine.step state.world
        (if root then .rootYield result else .yield given) = some next := by
    intro result given fits
    apply Option.ne_none_iff_exists'.mp
    cases code with
    | root =>
        cases isPoll
        obtain ⟨executor, moved⟩ := World.endPoll_goes_on free phase result
        simp [World.machine, World.step, isFree, World.rootYield, stack, moved]
    | inner join =>
        cases isPoll
        rcases fits rfl with ⟨_, rfl⟩ | ⟨value, rfl⟩
        · obtain ⟨executor, moved⟩ := World.endPoll_goes_on free phase .pending
          simp [World.machine, World.step, isFree, World.yield, stack, moved]
        · simp [World.machine, World.step, isFree, World.yield, stack]
    | waker | dropFuture | dropPayload | dropOutput | dropRoot => cases isPoll
  cases turned with
  | freed spent => exact drops (Future.mem_owned.mpr (Or.inl spent))
  | suspended unspent pending => exact yields fun _ => Or.inl ⟨rfl, rfl⟩
  | spawned runs script =>
      have unclosed := managed.unclosed
      apply Option.ne_none_iff_exists'.mp
      simp [World.machine, World.step, active, Executor.step, phase, Phase.runsCode,
        unclosed, isFree, Executor.submit, Executor.andThen, Scheduling.step, free]
  | joined runs script found | awaited runs script found => exact polls_join found
  | timed runs script unslept =>
      apply Option.ne_none_iff_exists'.mp
      simp [World.machine, World.step, active, World.sleepCall, Timers.call]
  | slept runs script sleeps | dozed runs script sleeps => exact polls_sleep sleeps
  | dropped runs comes handles =>
      exact drops (Future.mem_owned.mpr
        (Or.inr (Or.inl ⟨_, handles ▸ List.mem_cons_self, rfl⟩)))
  | cancelled runs comes handles sleeps =>
      exact drops (Future.mem_owned.mpr (Or.inr (Or.inr ⟨_, sleeps, rfl⟩)))
  | @ended result runs comes handles unslept =>
      cases result with
      | ok value => exact yields fun _ => Or.inr ⟨value, rfl⟩
      | error error =>
          apply Option.ne_none_iff_exists'.mp
          cases code with
          | root =>
              simp [Future.last, World.machine, World.step, isFree, World.panic, stack,
                World.unwind, phase, Executor.step, Executor.andThen, Scheduling.step, free]
          | inner join =>
              simp [Future.last, World.machine, World.step, isFree, World.panic, stack]
          | waker | dropFuture | dropPayload | dropOutput | dropRoot => cases isPoll

theorem Managed.code_goes_on (managed : state.Managed) (prompt : state.Prompt)
    (onTime : state.world.OnTime) (free : state.world.executor.scheduling.own = none)
    {code : Code} {rest : List (Frame Output)}
    (stack : state.world.stack = .running code :: rest) :
    ∃ next, state.step .code = some next := by
  have isFree : state.world.executor.free = true := World.free_iff.mpr free
  have member : .running code ∈ state.world.stack := stack ▸ List.mem_cons_self
  have shaped := managed.orderly.shaped
  have polling : ∀ {root : Bool} {schedule : Nat}, polls root code →
      state.world.executor.phase.polled? = some schedule →
      ∃ next, state.codeStep schedule root = some next := by
    intro root schedule isPoll polled
    have alone := alone_of_polls shaped stack isPoll
    rcases (prompt.polled schedule polled).2 with done | ⟨future, runs⟩
    · exact absurd member (done.unpolled root code isPoll)
    · obtain ⟨next, step⟩ := managed.turn_goes_on onTime polled free alone isPoll
        runs.going (future.turned state.world schedule root)
      unfold codeStep
      rw [runs.going]
      dsimp only
      rw [show state.world.step _ = some next from step]
      exact ⟨_, rfl⟩
  cases code with
  | root =>
      obtain ⟨_, root, target, phase⟩ := shaped.root member
      have polled : state.world.executor.phase.polled? = some target := by rw [phase]; rfl
      obtain ⟨next, step⟩ := polling rfl polled
      refine ⟨next, ?_⟩
      simp only [Scripted.step, polled, stack]
      exact step
  | inner join =>
      obtain ⟨_, root, id, target, _, _, phase⟩ := shaped.inner join member
      have polled : state.world.executor.phase.polled? = some target := by rw [phase]; rfl
      obtain ⟨next, step⟩ := polling rfl polled
      refine ⟨next, ?_⟩
      simp only [Scripted.step, polled, stack]
      exact step
  | waker | dropFuture | dropPayload | dropOutput | dropRoot =>
      apply Option.ne_none_iff_exists'.mp
      cases polled : state.world.executor.phase.polled? <;>
        simp [Scripted.step, polled, stack, World.step, World.codeReturns, isFree]

end Scripted

end Asyncr
