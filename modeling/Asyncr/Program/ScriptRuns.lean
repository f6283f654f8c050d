import Asyncr.Program.ScriptOwnership

namespace Asyncr

open Library
open Time

/-! Every run of a program of blocks is structured. -/

theorem SameWake.task {stored : Waker} {schedule : Nat}
    (same : SameWake stored (.task schedule)) : stored = .task schedule :=
  same.elim id of_decide_eq_true

namespace World

variable {Output : Type} {world next : World Output} {label : Label Output}
  {schedule : Nat}

theorem Stepped.call_keeps (stepped : Stepped world label next)
    (calls : (∃ join waker, label = .pollJoin join waker) ∨ ∃ call, label = .timer call) :
    next.executor = world.executor ∧ next.stack = world.stack := by
  rcases calls with ⟨join, waker, rfl⟩ | ⟨call, rfl⟩
  · cases stepped with
    | timed cause later => exact ⟨rfl, rfl⟩
    | unwound free fails unwinds step => cases fails
    | rejected | awaited | yielded => exact ⟨rfl, rfl⟩
  · cases stepped with
    | timed cause later => exact ⟨rfl, rfl⟩
    | unwound free fails unwinds step => cases fails
    | timer => exact ⟨rfl, rfl⟩

theorem joins_of_awaited {join : JoinRef} {waker : Waker} {cell : JoinCell Output}
    {stored : Option Waker} (found : world.joins join = some cell)
    (pending : cell.state = .pending stored)
    (step : machine.step world (.pollJoin join waker) = some next) :
    next.joins join = some { cell with state := .pending (some waker) } := by
  simp only [machine, World.step, found] at step
  split at step
  · simp only [World.pollJoin, pending, JoinState.poll, Option.some.injEq] at step
    rw [← step]
    exact Function.update_self ..
  · cases step

theorem Stepped.home_running (stepped : Stepped world label next)
    (home : label.home = true) {code : Code} {rest : List (Frame Output)}
    (stack : world.stack = .running code :: rest) (placed : world.Placed) :
    (∃ reading, label = .tick reading) ∨ label = .executor .send := by
  have busy := placed.busy stack
  have idle : ∀ {move : Move} {executor : Executor},
      world.executor.step move = some executor → move.loops = true → False := by
    intro move executor step loops
    rw [Executor.idle_of_loop step loops] at busy
    cases busy
  have waits : ∀ {root : Nat}, world.executor.phase = .waiting root → False := by
    intro root phase
    rw [phase] at busy
    cases busy
  have wakes : ∀ {waker : Waker} {left : List (Frame Output)}
      {event : ProgramEvent Output}, Wakes world.stack waker left event → False := by
    intro waker left event wakes
    rw [stack] at wakes
    cases wakes
  cases stepped with
  | @moved move executor permitted step =>
      cases move with
      | send => exact Or.inr rfl
      | blockOn | settle | tryRecv | unwound | leave => simp [permits, stack] at permitted
      | _ => cases home
  | timed cause later =>
      rcases cause with ⟨reading, isTick, _⟩ | ⟨_, _, rfl⟩
      · exact Or.inl ⟨reading, isTick⟩
      · cases home
  | unwound free fails unwinds step =>
      cases fails with
      | code other outermost => cases home
      | poisoned woken poisoned => exact (wakes woken).elim
      | published other found twice => cases stack.symm.trans other
  | called free other | published free other found pending
  | released free other found front | granted free other found
  | finished free phase notRoot other step => cases stack.symm.trans other
  | wokeCode free woken | wokeTask free woken unpoisoned step => exact (wakes woken).elim
  | drained step called | began step phase | notBegun step other
  | received held step | timedOut held step => exact (idle step rfl).elim
  | planned phase wait called running | jumped phase wait called paused advanced step
  | stuck phase wait called paused failed step => exact (waits phase).elim
  | timer | refused | spawned | rejected | awaited | yielded | dropped | suspended
  | returned | rootYielded | codeReturned | caught | cleared | destroyed => cases home

theorem Stepped.home_polling (stepped : Stepped world label next)
    (home : label.home = true) {code : Code} (stack : world.stack = [.running code])
    (placed : world.Placed) :
    next.joins = world.joins ∧ next.time = world.time ∧ next.stack = world.stack ∧
      next.executor.phase = world.executor.phase := by
  rcases stepped.home_running home stack placed with ⟨reading, rfl⟩ | rfl
  · cases stepped with
    | timed cause later => exact ⟨rfl, rfl, rfl, rfl⟩
    | unwound free fails unwinds step => cases fails
  · cases stepped with
    | moved permitted step =>
        exact ⟨rfl, rfl, rfl, phase_of_permitted permitted step (by simp [stack])⟩
    | timed cause later => exact ⟨rfl, rfl, rfl, rfl⟩
    | unwound free fails unwinds step => cases fails

end World

namespace Future

variable {Output : Type} {world : World Output} {schedule : Nat} {root : Bool}
  {future : Future Output} {turn : Turn Output}

theorem Turned.pends (turned : future.Turned world schedule root turn)
    (unspent : future.stage = .pending → future.spent = none) {after : Future Output}
    (left : turn.left = .going after) (pending : after.stage = .pending) :
    after.spent = none ∧
      ((∃ handle ∈ future.handles,
        turn.label = .pollJoin (.task handle) (.task schedule) ∧
          ∀ cell result, world.joins (.task handle) = some cell →
            cell.state ≠ .ready result) ∨
        ∃ sleep, future.sleep = some sleep ∧
          turn.label = .timer (.poll sleep (.task schedule) world.now) ∧
          ∀ time, world.time.call (.poll sleep (.task schedule) world.now) ≠
            some (time, .polled (.ok (.ready ())))) := by
  cases turned with
  | freed spent =>
      cases left
      cases spent.symm.trans (unspent pending)
  | awaited runs script found unready =>
      cases left
      exact ⟨runs.1, Or.inl ⟨_, List.mem_of_getElem? found, rfl, unready⟩⟩
  | dozed runs script sleeps unready =>
      cases left
      exact ⟨runs.1, Or.inr ⟨_, sleeps, rfl, unready⟩⟩
  | suspended | spawned | joined | slept =>
      cases left
      cases pending
  | timed runs | dropped runs | cancelled runs =>
      cases left
      exact absurd pending runs.2
  | ended => cases left

end Future

namespace Scripted

variable {Output : Type} {state next : Scripted Output} {schedule : Nat}
  {label : Label Output} {root : Bool} {future : Future Output} {turn : Turn Output}
  {world : World Output} {choice : Choice Output}

/-- A poll that is about to return `Pending` expects something. -/
structure Pausing (state : Scripted Output) (schedule : Nat) (future : Future Output) :
    Prop where
  unspent : future.spent = none
  polled : state.world.executor.phase.polled? = some schedule
  stack : ∃ root code, polls root code ∧ state.world.stack = [.running code]
  expects : state.world.Expects schedule

def Pauses (state : Scripted Output) : Prop :=
  ∀ schedule future, state.blocks schedule = .going future →
    future.stage = .pending → state.Pausing schedule future

theorem expects_join (managed : state.Managed)
    (going : state.blocks schedule = .going future) {handle : Nat}
    (member : handle ∈ future.handles)
    (unready : ∀ cell result, state.world.joins (.task handle) = some cell →
      cell.state ≠ .ready result)
    (step : World.machine.step state.world
      (.pollJoin (.task handle) (.task schedule)) = some world) :
    world.Expects schedule := by
  have owned : Resource.handle handle ∈ future.owned :=
    Future.mem_owned.mpr (Or.inr (Or.inl ⟨handle, member, rfl⟩))
  obtain ⟨cell, found, _⟩ := managed.owning.handles schedule handle ⟨future, going, owned⟩
  have below := managed.orderly.cells.created handle (by simp [found])
  have stepped := World.stepped_of_step step
  refine Or.inl ⟨handle, Nat.lt_of_lt_of_le below stepped.created_le,
    World.joiner?_eq_some.mpr ?_⟩
  cases current : cell.state with
  | pending stored => exact ⟨_, World.joins_of_awaited found current step, rfl⟩
  | ready result => exact absurd current (unready cell result found)
  | consumed =>
      exact absurd current
        (managed.owning.unconsumed schedule future handle cell going member found)

theorem expects_sleep (coupled : state.world.time.Coupled) {sleep : Nat}
    (unready : ∀ time, state.world.time.call
        (.poll sleep (.task schedule) state.world.now) ≠
      some (time, .polled (.ok (.ready ()))))
    (step : World.machine.step state.world
      (.timer (.poll sleep (.task schedule) state.world.now)) = some world) :
    world.Expects schedule := by
  have stepped := World.stepped_of_step step
  obtain ⟨reply, called⟩ := stepped.timer_called
  have pending : reply ≠ .polled (.ok (.ready ())) := by
    rintro rfl
    exact unready _ called
  obtain ⟨stored, waits, same⟩ :=
    (coupled.outcome called).waker_of_pending rfl pending
  obtain ⟨id, registration, _, found, isWaker⟩ := Timers.waker?_eq_some.mp waits
  refine Or.inr ⟨id, ?_, World.sleeper?_eq_some.mpr ⟨registration, found, ?_⟩⟩
  · rw [← AList.mem_keys, ← AList.lookup_isSome, found]
    rfl
  · rw [isWaker, same.task]

theorem Pauses.silent (pauses : state.Pauses)
    (kept : ∀ schedule future, state.Pausing schedule future →
      next.world.joins = state.world.joins ∧ next.world.time = state.world.time ∧
        next.world.stack = state.world.stack ∧
        next.world.executor.phase = state.world.executor.phase)
    (created : state.world.executor.scheduling.created ≤
      next.world.executor.scheduling.created)
    (blocks : next.blocks = state.blocks) : next.Pauses := by
  intro schedule future going pending
  rw [blocks] at going
  have pausing := pauses schedule future going pending
  obtain ⟨joins, time, stack, phase⟩ := kept schedule future pausing
  refine ⟨pausing.unspent, phase ▸ pausing.polled, stack ▸ pausing.stack, ?_⟩
  rcases pausing.expects with ⟨target, below, joined⟩ | ⟨id, member, sleeping⟩
  · refine Or.inl ⟨target, Nat.lt_of_lt_of_le below created, ?_⟩
    rw [World.joiner?, joins]
    exact joined
  · refine Or.inr ⟨id, time ▸ member, ?_⟩
    rw [World.sleeper?, time]
    exact sleeping

theorem Pauses.polled (pauses : state.Pauses) (managed : state.Managed)
    (polled : state.world.executor.phase.polled? = some schedule) {code : Code}
    (stack : state.world.stack = [.running code]) (isPoll : polls root code)
    (going : state.blocks schedule = .going future)
    (turned : future.Turned state.world schedule root turn)
    (step : World.machine.step state.world turn.label = some world) :
    (state.take schedule turn world).Pauses := by
  intro other after left pending
  cases decEq other schedule with
  | isTrue same =>
      subst same
      rw [take_self] at left
      have unspent := fun paused => (pauses other future going paused).unspent
      obtain ⟨spent, origin⟩ := turned.pends unspent left pending
      have keeps : world.executor = state.world.executor ∧
          world.stack = state.world.stack := by
        have stepped := World.stepped_of_step step
        apply stepped.call_keeps
        rcases origin with ⟨handle, _, isLabel, _⟩ | ⟨sleep, _, isLabel, _⟩
        · exact Or.inl ⟨_, _, isLabel⟩
        · exact Or.inr ⟨_, isLabel⟩
      obtain ⟨executor, frames⟩ := keeps
      refine ⟨spent, ?_, ⟨root, code, isPoll, ?_⟩, ?_⟩
      · rw [take_world, executor]
        exact polled
      · rw [take_world, frames]
        exact stack
      · rw [take_world]
        rcases origin with ⟨handle, member, isLabel, unready⟩ | ⟨sleep, _, isLabel, unready⟩
        · exact expects_join managed going member unready (isLabel ▸ step)
        · exact expects_sleep managed.coupled unready (isLabel ▸ step)
  | isFalse different =>
      rcases take_other state turn world different with ⟨same, _⟩ | ⟨_, child, _, new, _⟩
      · rw [same] at left
        have pausing := pauses other after left pending
        exact absurd (Option.some.inj (pausing.polled.symm.trans polled)) different
      · cases new.symm.trans left
        cases pending

theorem alone_of_polls (shaped : state.world.Shaped) {code : Code}
    {rest : List (Frame Output)} (stack : state.world.stack = .running code :: rest)
    (isPoll : polls root code) : state.world.stack = [.running code] := by
  have member : .running code ∈ state.world.stack := stack ▸ List.mem_cons_self
  cases code with
  | root => exact (shaped.root member).1
  | inner join => exact (shaped.inner join member).1
  | waker | dropFuture | dropPayload | dropOutput | dropRoot => cases isPoll

theorem Owning.spares_join (owning : state.Owning)
    (polled : state.world.executor.phase.polled? = some schedule) {target : Nat}
    (owns : state.Owns schedule (.handle target)) :
    state.world.Spares (state.world.joiner? (.task target)) := by
  intro waiter joined _
  cases owning.once waiter schedule _ (owning.joiners waiter target joined) owns
  exact polled

theorem Owning.spares_sleep (owning : state.Owning)
    (polled : state.world.executor.phase.polled? = some schedule) {sleep : Nat}
    (owns : state.Owns schedule (.timer sleep)) :
    ∀ id ∈ (state.world.time.sleeps sleep).bind Sleep.registration,
      state.world.Spares (state.world.sleeper? id) := by
  intro id registered waiter sleeping _
  obtain ⟨entry, present, held⟩ := Option.bind_eq_some_iff.mp registered
  obtain ⟨registration, found, isWaker⟩ := World.sleeper?_eq_some.mp sleeping
  have waits := Timers.waker?_eq_some.mpr
    ⟨id, registration, ⟨entry, present, held⟩, found, isWaker⟩
  cases owning.once waiter schedule _ (owning.sleepers waiter sleep waits) owns
  exact polled

theorem Owning.spares_drop (owning : state.Owning)
    (polled : state.world.executor.phase.polled? = some schedule) {resource : Resource}
    (owns : state.Owns schedule resource) : state.world.Reasonable resource.drop := by
  cases resource with
  | handle target => exact owning.spares_join polled owns
  | timer sleep => exact owning.spares_sleep polled owns

structure Fits (world : World Output) (label : Label Output) : Prop where
  joins : world.JoinsOnly label
  reasonable : world.Reasonable label
  closes : label ≠ .executor .close

/-- What a block does, a program of joins may do, and it has a reason. -/
theorem Managed.turned (managed : state.Managed) (pauses : state.Pauses)
    (polled : state.world.executor.phase.polled? = some schedule) {code : Code}
    (stack : state.world.stack = [.running code]) (isPoll : polls root code)
    (going : state.blocks schedule = .going future)
    (turned : future.Turned state.world schedule root turn) :
    Fits state.world turn.label := by
  have owning := managed.owning
  have owns : ∀ {resource : Resource}, resource ∈ future.owned →
      state.Owns schedule resource := fun owned => ⟨future, going, owned⟩
  have drops : ∀ {resource : Resource}, resource ∈ future.owned →
      Fits state.world resource.drop := by
    intro resource owned
    have reasonable := owning.spares_drop polled (owns owned)
    cases resource with
    | handle target => exact ⟨rfl, reasonable, nofun⟩
    | timer sleep => exact ⟨rfl, reasonable, nofun⟩
  have handles : ∀ {index handle : Nat}, future.handles[index]? = some handle →
      Resource.handle handle ∈ future.owned := fun found =>
    Future.mem_owned.mpr (Or.inr (Or.inl ⟨_, List.mem_of_getElem? found, rfl⟩))
  cases turned with
  | freed spent => exact drops (Future.mem_owned.mpr (Or.inl spent))
  | suspended unspent pending =>
      have expects := (pauses schedule future going pending).expects
      have reason : ∀ waiter ∈ state.world.executor.phase.polled?,
          state.world.Expects waiter ∨
            state.world.executor.scheduling.state waiter = .running true := by
        intro waiter member
        cases polled.symm.trans member
        exact Or.inl expects
      cases root
      · exact ⟨rfl, reason, nofun⟩
      · exact ⟨rfl, reason, nofun⟩
  | spawned | timed => exact ⟨rfl, trivial, nofun⟩
  | joined runs script found present ready | awaited runs script found unready =>
      exact ⟨rfl, owning.spares_join polled (owns (handles found)), nofun⟩
  | slept runs script sleeps called | dozed runs script sleeps unready =>
      exact ⟨rfl, owning.spares_sleep polled
        (owns (Future.mem_owned.mpr (Or.inr (Or.inr ⟨_, sleeps, rfl⟩)))), nofun⟩
  | dropped runs comes isCons =>
      exact drops (Future.mem_owned.mpr
        (Or.inr (Or.inl ⟨_, isCons ▸ List.mem_cons_self, rfl⟩)))
  | cancelled runs comes isNil sleeps =>
      exact drops (Future.mem_owned.mpr (Or.inr (Or.inr ⟨_, sleeps, rfl⟩)))
  | @ended result runs comes isNil unslept =>
      cases result with
      | ok value => cases root <;> exact ⟨rfl, trivial, nofun⟩
      | error error =>
          refine ⟨?_, trivial, nofun⟩
          cases code with
          | root | inner join => simp [World.JoinsOnly, World.joinsOnly, Future.last, stack]
          | waker | dropFuture | dropPayload | dropOutput | dropRoot => cases isPoll

theorem fits_home (world : World Output) (home : label.home = true) : Fits world label := by
  cases label with
  | executor move =>
      refine ⟨rfl, trivial, ?_⟩
      rintro ⟨⟩
      cases home
  | tick | proceed | drain | plan | recv | timeout | dispatch | finish =>
      exact ⟨rfl, trivial, nofun⟩
  | _ => cases home

theorem Managed.fits (managed : state.Managed) (pauses : state.Pauses)
    (advanced : Advanced state choice next) :
    ∃ label, World.machine.step state.world label = some next.world ∧
      Fits state.world label := by
  cases advanced with
  | @runtime label world home step => exact ⟨label, step, fits_home state.world home⟩
  | returned step => exact ⟨.codeReturns, step, rfl, trivial, nofun⟩
  | @polled _ _ _ _ _ turn world polled stack isPoll going turned step =>
      refine ⟨turn.label, by rwa [take_world], ?_⟩
      have alone := alone_of_polls managed.orderly.shaped stack isPoll
      exact managed.turned pauses polled alone isPoll going turned

theorem Managed.owning_on (managed : state.Managed)
    (advanced : Advanced state choice next) : next.Owning := by
  cases advanced with
  | runtime home step =>
      exact managed.silent (World.stepped_of_step step) rfl (asks_home home)
  | returned step => exact managed.silent (World.stepped_of_step step) rfl rfl
  | @polled schedule _ _ _ _ _ _ polled stack isPoll going turned step =>
      obtain ⟨_, _, phase⟩ := Phase.polled?_eq_some.mp polled
      have below := (managed.orderly.sound.coherent.polled _ _ _ phase).1
      exact managed.polled going below turned (World.stepped_of_step step)

theorem Pauses.step (pauses : state.Pauses) (managed : state.Managed)
    (advanced : Advanced state choice next) : next.Pauses := by
  have placed := managed.orderly.placed
  cases advanced with
  | runtime home step =>
      have stepped := World.stepped_of_step step
      refine pauses.silent ?_ stepped.created_le rfl
      rintro schedule future pausing
      obtain ⟨root, code, _, stack⟩ := pausing.stack
      exact stepped.home_polling home stack placed
  | returned step =>
      have stepped := World.stepped_of_step step
      refine pauses.silent ?_ stepped.created_le rfl
      rintro schedule future pausing
      obtain ⟨root, code, isPoll, stack⟩ := pausing.stack
      simp only [World.machine, World.step, World.codeReturns, stack] at step
      cases code with
      | root | inner join => simp at step
      | waker | dropFuture | dropPayload | dropOutput | dropRoot => cases isPoll
  | polled polled stack isPoll going turned step =>
      have alone := alone_of_polls managed.orderly.shaped stack isPoll
      exact pauses.polled managed polled alone isPoll going turned step

end Scripted

namespace World

variable {Output : Type} {world next : World Output} {label : Label Output}

theorem Stepped.unclosed (stepped : Stepped world label next)
    (before : world.executor.Closing) (after : next.executor.Closing)
    (unclosed : world.executor.closed = false) (stays : label ≠ .executor .close) :
    next.executor.closed = false := by
  rw [after]
  apply Bool.eq_false_iff.mpr
  intro closing
  rw [before] at unclosed
  rcases stepped.takes with same | ⟨move, takes, step⟩
  · rw [same, unclosed] at closing
    cases closing
  · rcases (Executor.moved_of_step step).closes closing with already | rfl
    · cases unclosed.symm.trans already
    · cases takes with
      | permitted permitted => exact stays rfl

end World

namespace Scripted

variable {Output : Type} {state : Scripted Output} {main : Nat → Script Output}
  {clock : Clock} {os : Instant}
  {allowed : Scripted Output → Choice Output → Prop}

theorem managed_start : (start main clock os).Managed where
  orderly := World.orderly_initial
  coupled := Timers.coupled_initial _
  unclosed := rfl
  owning := {
    uncreated := fun schedule _ => ⟨main schedule, rfl⟩
    once := by
      rintro first second resource ⟨future, going, owned⟩
      cases going
      cases owned
    nodup := by
      intro schedule future going
      cases going
      exact List.nodup_nil
    handles := by
      rintro schedule target ⟨future, going, owned⟩
      cases going
      cases owned
    unconsumed := by
      intro schedule future target cell going member
      cases going
      cases member
    timers := by
      rintro schedule sleep ⟨future, going, owned⟩
      cases going
      cases owned
    joiners := by
      intro schedule target joined
      cases joined
    sleepers := by
      intro schedule sleep waits
      cases waits }

theorem pauses_start : (start main clock os).Pauses := by
  intro schedule future going pending
  cases going
  cases pending

theorem run_structured {world : World Output}
    (reach : World.machine.Reach Fits (World.initial clock os) world) :
    World.machine.Reach World.Structured (World.initial clock os) world := by
  induction reach with
  | refl => exact .refl
  | step label before fits step ih =>
      have joins := before.weaken fun _ _ fits => fits.joins
      have contained := (World.run_quiet joins).2.contained fits.joins
        (World.run_shaped joins) (World.run_covered joins) step
      exact .step label ih ⟨contained, fits.reasonable⟩ step

theorem run_managed (reach : machine.Reach allowed (start main clock os) state)
    (few : state.world.executor.spawned < 2 ^ 64 - 1)
    (timed : state.world.time.registered < 2 ^ 64) :
    World.machine.Reach Fits (World.initial clock os) state.world ∧
      state.Managed ∧ state.Pauses := by
  induction reach with
  | refl => exact ⟨.refl, managed_start, pauses_start⟩
  | @step state next choice before _ step ih =>
      have advanced := advanced_of_step step
      obtain ⟨_, stepped⟩ := advanced.stepped
      obtain ⟨reach, managed, pauses⟩ :=
        ih (Nat.lt_of_le_of_lt stepped.spawned_le few)
          (Nat.lt_of_le_of_lt stepped.registered_le timed)
      obtain ⟨label, moved, fits⟩ := managed.fits pauses advanced
      have onward := Machine.Reach.step label reach fits moved
      have orderly := stepped.orderly managed.orderly few
      refine ⟨onward, ⟨orderly, ?_, ?_, managed.owning_on advanced⟩,
        pauses.step managed advanced⟩
      · exact Timers.run_coupled (World.timers_reach onward) timed
          (Timers.coupled_initial _)
      · exact (World.stepped_of_step moved).unclosed managed.orderly.sound.closing
          orderly.sound.closing managed.unclosed fits.closes

theorem run_invariant (reach : machine.Reach allowed (start main clock os) state)
    (few : state.world.executor.spawned < 2 ^ 64 - 1)
    (timed : state.world.time.registered < 2 ^ 64) {holds : Scripted Output → Prop}
    (initially : holds (start main clock os))
    (preserved : ∀ state choice next, state.Managed → state.Pauses → state.world.Tidy →
      holds state → Advanced state choice next → next.world.Orderly → holds next) :
    holds state := by
  induction reach with
  | refl => exact initially
  | @step state next choice before _ step ih =>
      have advanced := advanced_of_step step
      obtain ⟨_, stepped⟩ := advanced.stepped
      have fewer := Nat.lt_of_le_of_lt stepped.spawned_le few
      have earlier := Nat.lt_of_le_of_lt stepped.registered_le timed
      obtain ⟨reach, managed, pauses⟩ := run_managed before fewer earlier
      have tidy := World.run_tidy
        ((run_structured reach).weaken fun _ _ structured => structured.1) fewer
      exact preserved state choice next managed pauses tidy (ih fewer earlier) advanced
        (stepped.orderly managed.orderly few)

end Scripted

end Asyncr
