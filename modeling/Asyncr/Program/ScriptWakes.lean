import Asyncr.Program.ScriptMeaning
import Asyncr.Program.ScriptWaits

namespace Asyncr

open Library
open Time

/-! A block is only woken for what it waits for. -/

namespace Scripted

variable {Output : Type} {state next : Scripted Output} {schedule : Nat}
  {resource : Resource} {label : Label Output}

/-- The block has polled what it waits for, and its waker is left there. -/
def Waits (state : Scripted Output) (schedule : Nat) (resource : Resource) : Prop :=
  ∃ future, state.blocks schedule = .going future ∧ future.stage ≠ .fresh ∧
    future.Awaits resource

def Arrives (state : Scripted Output) (schedule : Nat) : Prop :=
  ∃ future resource, state.blocks schedule = .going future ∧
    future.stage = .suspended ∧ future.Awaits resource ∧ state.world.Offers resource

/-- The block has not been polled since it last went on. -/
def Starts (state : Scripted Output) (schedule : Nat) : Prop :=
  ∃ future, state.blocks schedule = .going future ∧ future.stage = .fresh

structure Running (state : Scripted Output) (schedule : Nat) (future : Future Output) :
    Prop where
  going : state.blocks schedule = .going future
  stack : ∃ root code, polls root code ∧ state.world.stack = [.running code]
  arrived : future.stage = .suspended →
    ∃ resource, future.Awaits resource ∧ state.world.Offers resource

structure Done (state : Scripted Output) (schedule : Nat) : Prop where
  ended : ∃ result, state.blocks schedule = .ended result
  unpolled : ∀ root code, polls root code → .running code ∉ state.world.stack

structure Prompt (state : Scripted Output) : Prop where
  joining : ∀ schedule join, state.world.joiner? join = some schedule →
    ∃ target, join = .task target ∧ state.Waits schedule (.handle target)
  sleeping : ∀ schedule sleep,
    state.world.time.waker? sleep = some (.task schedule) →
    state.Waits schedule (.timer sleep)
  waking : ∀ schedule, ∀ frame ∈ state.world.stack, frame.wakes? = some schedule →
    state.Arrives schedule
  requested : ∀ schedule,
    (state.world.executor.scheduling.state schedule).requested = true →
    state.Arrives schedule ∨ state.Starts schedule
  polled : ∀ schedule, state.world.executor.phase.polled? = some schedule →
    state.world.executor.scheduling.state schedule = .running false ∧
      (state.Done schedule ∨ ∃ future, state.Running schedule future)

/-- A step of the runtime, or the return of a destructor. -/
def Silent (label : Label Output) : Prop :=
  label.home = true ∨ label = .codeReturns

theorem Silent.asks (silent : Silent label) : Scripted.asks label = false := by
  rcases silent with home | rfl
  · exact asks_home home
  · rfl

theorem Silent.untouched (silent : Silent label) :
    World.touches? label ≠ some resource := by
  have unasked := silent.asks
  cases label with
  | pollJoin join waker | dropJoin join | timer call => cases unasked
  | _ => nofun

theorem Silent.still (silent : Silent label)
    (stepped : World.Stepped state.world label next.world)
    (placed : state.world.Placed) {root : Bool} {code : Code} (isPoll : polls root code)
    (stack : state.world.stack = [.running code]) :
    next.world.joins = state.world.joins ∧ next.world.time = state.world.time ∧
      next.world.stack = state.world.stack ∧
      next.world.executor.phase = state.world.executor.phase := by
  rcases silent with home | rfl
  · exact stepped.home_polling home stack placed
  · generalize next.world = world at stepped ⊢
    cases stepped with
    | timed cause later =>
        rcases cause with ⟨_, other, _⟩ | ⟨_, _, other⟩ <;> cases other
    | unwound free fails unwinds step => cases fails
    | codeReturned free other notRoot notInner =>
        cases stack.symm.trans other
        cases code with
        | root => exact absurd rfl notRoot
        | inner join => exact absurd rfl (notInner join)
        | waker | dropFuture | dropPayload | dropOutput | dropRoot => cases isPoll

theorem Arrives.step (arrives : state.Arrives schedule) (managed : state.Managed)
    (stepped : World.Stepped state.world label next.world)
    (block : next.blocks schedule = state.blocks schedule)
    (untouched : ∀ resource, state.Owns schedule resource →
      World.touches? label ≠ some resource) : next.Arrives schedule := by
  obtain ⟨future, resource, going, suspended, awaits, offers⟩ := arrives
  refine ⟨future, resource, block.trans going, suspended, awaits, ?_⟩
  apply offers.step stepped managed.orderly.cells managed.coupled
  exact untouched resource ⟨future, going, awaits.owned⟩

theorem Starts.step (starts : state.Starts schedule)
    (block : next.blocks schedule = state.blocks schedule) : next.Starts schedule := by
  obtain ⟨future, going, fresh⟩ := starts
  exact ⟨future, block.trans going, fresh⟩

theorem Waits.arrives (waits : state.Waits schedule resource) (pauses : state.Pauses)
    (unpausing : ∀ future, ¬ state.Pausing schedule future)
    (offers : state.world.Offers resource) : state.Arrives schedule := by
  obtain ⟨future, going, polled, awaits⟩ := waits
  refine ⟨future, resource, going, ?_, awaits, offers⟩
  cases stage : future.stage with
  | fresh => exact absurd stage polled
  | pending => exact absurd (pauses schedule future going stage) (unpausing future)
  | suspended => rfl

theorem Prompt.waking_silent (prompt : state.Prompt) (managed : state.Managed)
    (pauses : state.Pauses) (silent : Silent label)
    (stepped : World.Stepped state.world label next.world)
    (blocks : next.blocks = state.blocks) {frame : Frame Output}
    (member : frame ∈ next.world.stack) (wakes : frame.wakes? = some schedule) :
    next.Arrives schedule := by
  have onward : state.Arrives schedule → next.Arrives schedule := fun arrives =>
    arrives.step managed stepped (by rw [blocks]) fun _ _ => silent.untouched
  have unpausing : ∀ future, ¬ state.Pausing schedule future := by
    rintro future pausing
    obtain ⟨root, code, isPoll, stack⟩ := pausing.stack
    obtain ⟨_, _, same, _⟩ := silent.still stepped managed.orderly.placed isPoll stack
    rw [same, stack] at member
    cases List.mem_singleton.mp member
    cases wakes
  rcases stepped.wakes_back managed.coupled.covered member wakes with
    old | ⟨rfl, id, registration, found, due, isWaker⟩ |
    ⟨rfl, join, cell, result, found, pending, now⟩
  · exact onward (prompt.waking schedule frame old wakes)
  · obtain ⟨owner, entry, present, held, deadline⟩ := managed.coupled.owned id _ found
    have waits := prompt.sleeping schedule owner (Timers.waker?_eq_some.mpr
      ⟨id, registration, ⟨entry, present, held⟩, found, isWaker⟩)
    exact onward (waits.arrives pauses unpausing (.due present (deadline ▸ due)))
  · obtain ⟨target, rfl, waits⟩ := prompt.joining schedule join
      (World.joiner?_eq_some.mpr ⟨cell, found, pending⟩)
    obtain ⟨future, going, polled, awaits⟩ := waits
    refine ⟨future, _, ?_, ?_, awaits, .ready now rfl⟩
    · rw [blocks]
      exact going
    · cases stage : future.stage with
      | fresh => exact absurd stage polled
      | pending => exact absurd (pauses schedule future going stage) (unpausing future)
      | suspended => rfl

theorem isPoll_iff {code : Code} :
    (∃ root, polls root code) ↔ code = .root ∨ ∃ join, code = .inner join := by
  constructor
  · rintro ⟨root, isPoll⟩
    cases code with
    | root => exact Or.inl rfl
    | inner join => exact Or.inr ⟨join, rfl⟩
    | waker | dropFuture | dropPayload | dropOutput | dropRoot => cases isPoll
  · rintro (rfl | ⟨join, rfl⟩)
    · exact ⟨true, rfl⟩
    · exact ⟨false, rfl⟩

theorem Prompt.unrequested (prompt : state.Prompt) (managed : state.Managed)
    (stepped : World.Stepped state.world label next.world) (after : next.world.Orderly)
    (unwoken : label ≠ .executor (.wake schedule) ∧
      label ≠ .executor (.remoteWake schedule))
    (before : state.world.executor.phase.polled? = some schedule)
    (polled : next.world.executor.phase.polled? = some schedule) :
    next.world.executor.scheduling.state schedule = .running false := by
  obtain ⟨running, block⟩ := prompt.polled schedule before
  obtain ⟨root, id, phase⟩ := Phase.polled?_eq_some.mp polled
  obtain ⟨notified, state⟩ := after.sound.polling.running root id schedule phase
  cases notified with
  | false => exact state
  | true =>
      exfalso
      rcases stepped.requested_back (by rw [state]; rfl) with
        asked | created | ⟨frame, member, wakes⟩ | wakes | wakes
      · rw [running] at asked
        cases asked
      · obtain ⟨_, _, was⟩ := Phase.polled?_eq_some.mp before
        have below := (managed.orderly.sound.coherent.polled _ _ _ was).1
        exact absurd created (Nat.ne_of_lt below)
      · obtain ⟨future, _, going, _⟩ := prompt.waking schedule frame member wakes
        rcases block with done | ⟨other, runs⟩
        · obtain ⟨result, ended⟩ := done.ended
          cases going.symm.trans ended
        · obtain ⟨_, code, _, stack⟩ := runs.stack
          rw [stack] at member
          cases List.mem_singleton.mp member
          cases wakes
      · exact unwoken.1 wakes
      · exact unwoken.2 wakes

theorem Prompt.polled_silent (prompt : state.Prompt) (managed : state.Managed)
    (silent : Silent label) (stepped : World.Stepped state.world label next.world)
    (blocks : next.blocks = state.blocks) (after : next.world.Orderly)
    (polled : next.world.executor.phase.polled? = some schedule) :
    next.world.executor.scheduling.state schedule = .running false ∧
      (next.Done schedule ∨ ∃ future, next.Running schedule future) := by
  rcases stepped.poll_begins polled with
    before | ⟨rfl, queued, running, code, stack, isPoll⟩
  · have unwoken : label ≠ .executor (.wake schedule) ∧
        label ≠ .executor (.remoteWake schedule) := by
      rcases silent with home | rfl
      · refine ⟨?_, ?_⟩
        · rintro rfl
          cases home
        · rintro rfl
          cases home
      · exact ⟨nofun, nofun⟩
    refine ⟨prompt.unrequested managed stepped after unwoken before polled, ?_⟩
    refine (prompt.polled schedule before).2.imp ?_ ?_
    · rintro ⟨ended, unpolled⟩
      refine ⟨blocks ▸ ended, fun root code isPoll member => ?_⟩
      exact unpolled root code isPoll
          (stepped.poll_back managed.orderly.shaped before (isPoll_iff.mp ⟨root, isPoll⟩)
            member)
    rintro ⟨future, going, ⟨root, code, isPoll, stack⟩, arrived⟩
    obtain ⟨_, _, same, _⟩ := silent.still stepped managed.orderly.placed isPoll stack
    refine ⟨future, blocks ▸ going, ⟨root, code, isPoll, same.trans stack⟩, ?_⟩
    intro suspended
    obtain ⟨resource, awaits, offers⟩ := arrived suspended
    exact ⟨resource, awaits, offers.step stepped managed.orderly.cells managed.coupled
      silent.untouched⟩
  · obtain ⟨root, isPoll⟩ := isPoll_iff.mpr (isPoll.imp_right fun isInner => ⟨_, isInner⟩)
    refine ⟨running, Or.inr ?_⟩
    rcases prompt.requested schedule (by rw [queued]; rfl) with arrives | starts
    · obtain ⟨future, resource, going, _, awaits, offers⟩ :=
        arrives.step managed stepped (by rw [blocks]) fun _ _ => silent.untouched
      exact ⟨future, going, ⟨root, code, isPoll, stack⟩,
        fun _ => ⟨resource, awaits, offers⟩⟩
    · obtain ⟨future, going, fresh⟩ := starts
      refine ⟨future, blocks ▸ going, ⟨root, code, isPoll, stack⟩, ?_⟩
      intro suspended
      cases fresh.symm.trans suspended

/-- The runtime wakes a block only for what it waits for. -/
theorem Prompt.silent (prompt : state.Prompt) (managed : state.Managed)
    (pauses : state.Pauses) (silent : Silent label)
    (stepped : World.Stepped state.world label next.world)
    (blocks : next.blocks = state.blocks) (after : next.world.Orderly) : next.Prompt where
  joining := by
    intro schedule join joined
    unfold Waits
    rw [blocks]
    rcases stepped.joiner_back joined with before | rfl
    · exact prompt.joining schedule join before
    · cases silent.asks
  sleeping := by
    intro schedule sleep waits
    unfold Waits
    rw [blocks]
    rcases stepped.sleep_waker_back managed.coupled waits with before | ⟨now, rfl⟩
    · exact prompt.sleeping schedule sleep before
    · cases silent.asks
  waking := fun schedule frame => prompt.waking_silent managed pauses silent stepped blocks
  requested := by
    intro schedule requested
    have same : next.blocks schedule = state.blocks schedule := by rw [blocks]
    have onward : state.Arrives schedule → next.Arrives schedule := fun arrives =>
      arrives.step managed stepped same fun _ _ => silent.untouched
    rcases stepped.requested_back requested with
      before | rfl | ⟨frame, member, wakes⟩ | rfl | rfl
    · exact (prompt.requested schedule before).imp onward fun starts => starts.step same
    · obtain ⟨script, fresh⟩ := managed.owning.uncreated _ (Nat.le_refl _)
      exact Or.inr ⟨_, same.trans fresh, rfl⟩
    · exact Or.inl (onward (prompt.waking schedule frame member wakes))
    · rcases silent with home | other
      · cases home
      · cases other
    · rcases silent with home | other
      · cases home
      · cases other
  polled := fun schedule =>
    prompt.polled_silent managed silent stepped blocks after

variable {root : Bool} {future : Future Output} {turn : Turn Output} {world : World Output}
  {choice : Choice Output}

theorem Waits.other (managed : state.Managed) {other : Nat}
    (waits : state.Waits other resource) (different : other ≠ schedule) :
    (state.take schedule turn world).Waits other resource := by
  obtain ⟨future, going, polled, awaits⟩ := waits
  rcases take_other state turn world different with ⟨same, _⟩ | ⟨rfl, _⟩
  · exact ⟨future, same.trans going, polled, awaits⟩
  · obtain ⟨script, fresh⟩ := managed.owning.uncreated _ (Nat.le_refl _)
    cases going.symm.trans fresh
    exact absurd rfl polled

/-- What the block that runs has left its waker with, it waits for. -/
theorem Running.waits (runs : state.Running schedule future)
    (turned : future.Turned state.world schedule root turn)
    (waits : state.Waits schedule resource ∨
      Future.Polls state.world schedule turn.label resource) :
    (state.take schedule turn world).Waits schedule resource ∨
      Future.Gets state.world schedule turn.label resource := by
  have waited : future.stage ≠ .fresh ∧ future.Awaits resource ∨
      Future.Polls state.world schedule turn.label resource := by
    refine waits.imp_left ?_
    rintro ⟨other, going, polled, awaits⟩
    cases runs.going.symm.trans going
    exact ⟨polled, awaits⟩
  refine (turned.waits waited).imp_left ?_
  rintro ⟨after, left, polled, awaits⟩
  exact ⟨after, (take_self ..).trans left, polled, awaits⟩

theorem Running.untouched (runs : state.Running schedule future) (managed : state.Managed)
    (turned : future.Turned state.world schedule root turn) {other : Nat}
    (different : other ≠ schedule) (owns : state.Owns other resource) :
    World.touches? turn.label ≠ some resource := by
  intro touches
  exact different (managed.owning.once other schedule resource owns
    ⟨future, runs.going, turned.touches touches⟩)

theorem Prompt.polling (prompt : state.Prompt) (managed : state.Managed)
    (polled : state.world.executor.phase.polled? = some schedule)
    (runs : state.Running schedule future)
    (turned : future.Turned state.world schedule root turn)
    (step : World.machine.step state.world turn.label = some world)
    (after : world.Orderly) : (state.take schedule turn world).Prompt := by
  have stepped := World.stepped_of_step step
  obtain ⟨abroad, unmoved⟩ := turned.abroad
  obtain ⟨other, code, isPoll, stack⟩ := runs.stack
  have unwaking : ∀ {waiter : Nat} {frame : Frame Output}, frame ∈ state.world.stack →
      frame.wakes? ≠ some waiter := by
    intro waiter frame member wakes
    rw [stack] at member
    cases List.mem_singleton.mp member
    cases wakes
  refine ⟨?_, ?_, ?_, ?_, ?_⟩
  · intro waiter join joined
    rw [take_world] at joined
    have waits : ∃ target, join = .task target ∧ (state.Waits waiter (.handle target) ∨
        waiter = schedule ∧
          Future.Polls state.world schedule turn.label (.handle target)) := by
      rcases stepped.joiner_back joined with before | polls
      · obtain ⟨target, isTask, waits⟩ := prompt.joining waiter join before
        exact ⟨target, isTask, Or.inl waits⟩
      · obtain ⟨handle, _, rfl, same⟩ := turned.polls_own.1 join _ polls
        cases same
        exact ⟨handle, rfl, Or.inr ⟨rfl, polls ▸ .handle⟩⟩
    obtain ⟨target, rfl, waits⟩ := waits
    refine ⟨target, rfl, ?_⟩
    cases decEq waiter schedule with
    | isFalse different =>
        exact (waits.resolve_right fun polls => different polls.1).other managed different
    | isTrue same =>
        subst same
        refine (runs.waits turned (waits.imp_right And.right)).resolve_right ?_
        intro gets
        cases (gets.unjoined step).symm.trans joined
  · intro waiter sleep sleeping
    rw [take_world] at sleeping
    have waits : state.Waits waiter (.timer sleep) ∨
        waiter = schedule ∧
          Future.Polls state.world schedule turn.label (.timer sleep) := by
      rcases stepped.sleep_waker_back managed.coupled sleeping with before | ⟨now, polls⟩
      · exact Or.inl (prompt.sleeping waiter sleep before)
      · obtain ⟨_, same, rfl⟩ := turned.polls_own.2 sleep _ now polls
        cases same
        exact Or.inr ⟨rfl, polls ▸ .timer⟩
    cases decEq waiter schedule with
    | isFalse different =>
        exact (waits.resolve_right fun polls => different polls.1).other managed different
    | isTrue same =>
        subst same
        refine (runs.waits turned (waits.imp_right And.right)).resolve_right ?_
        intro gets
        cases (gets.unregistered managed.coupled step).symm.trans sleeping
  · intro waiter frame member wakes
    rw [take_world] at member
    rcases stepped.wakes_back managed.coupled.covered member wakes with
      old | ⟨drains, _⟩ | ⟨proceeds, _⟩
    · exact absurd wakes (unwaking old)
    · rw [drains] at abroad
      cases abroad
    · rw [proceeds] at abroad
      cases abroad
  · intro waiter requested
    rw [take_world] at requested
    have fresh : ∀ {script : Script Output},
        (state.take schedule turn world).blocks waiter = .going (Future.new script) →
        (state.take schedule turn world).Starts waiter := fun going => ⟨_, going, rfl⟩
    have running := (prompt.polled schedule polled).1
    rcases stepped.requested_back requested with
      before | rfl | ⟨frame, member, wakes⟩ | wakes | wakes
    · have different : waiter ≠ schedule := by
        rintro rfl
        rw [running] at before
        cases before
      rcases take_other state turn world different with ⟨same, _⟩ | ⟨_, child, _, new, _⟩
      · refine (prompt.requested waiter before).imp ?_ fun starts => starts.step same
        intro arrives
        refine arrives.step managed (by rwa [take_world]) same ?_
        exact fun resource owns => runs.untouched managed turned different owns
      · exact Or.inr (fresh new)
    · obtain ⟨_, _, phase⟩ := Phase.polled?_eq_some.mp polled
      have below := (managed.orderly.sound.coherent.polled _ _ _ phase).1
      have different : state.world.executor.scheduling.created ≠ schedule :=
        Nat.ne_of_gt below
      obtain ⟨script, new⟩ := managed.owning.uncreated _ (Nat.le_refl _)
      rcases take_other state turn world different with ⟨same, _⟩ | ⟨_, child, _, new, _⟩
      · exact Or.inr (fresh (same.trans new))
      · exact Or.inr (fresh new)
    · exact absurd wakes (unwaking member)
    · exact absurd wakes (unmoved _)
    · exact absurd wakes (unmoved _)
  · intro waiter again
    rw [take_world] at again
    rcases stepped.poll_begins again with before | ⟨dispatches, _⟩
    · cases polled.symm.trans before
      refine ⟨?_, ?_⟩
      · exact prompt.unrequested managed (by rwa [take_world]) (by rwa [take_world])
          ⟨unmoved _, unmoved _⟩ polled (by rwa [take_world])
      · cases left : turn.left with
        | ended result =>
            refine Or.inl ⟨⟨result, (take_self ..).trans left⟩, fun root code _ => ?_⟩
            rw [take_world]
            exact stepped.unrun (turned.ends left) code
        | going later =>
            have asks : asks turn.label = true := by
              refine (turned.going_asks left).resolve_right ?_
              intro yields
              cases (stepped.unpolled yields).symm.trans again
            refine Or.inr ⟨later, (take_self ..).trans left, ⟨other, code, isPoll, ?_⟩, ?_⟩
            · rw [take_world, stepped.stack_on managed.unclosed asks, stack]
            · intro suspended
              refine absurd suspended (turned.unsuspended asks ?_ left)
              intro was
              obtain ⟨resource, awaits, _⟩ := runs.arrived was
              exact ⟨resource, awaits⟩
    · rw [dispatches] at abroad
      cases abroad

theorem Prompt.step (prompt : state.Prompt) (managed : state.Managed)
    (pauses : state.Pauses) (advanced : Advanced state choice next)
    (after : next.world.Orderly) : next.Prompt := by
  cases advanced with
  | runtime home step =>
      exact prompt.silent managed pauses (Or.inl home) (World.stepped_of_step step) rfl
        after
  | returned step =>
      exact prompt.silent managed pauses (Or.inr rfl) (World.stepped_of_step step) rfl after
  | polled polled stack isPoll going turned step =>
      rw [take_world] at after
      rcases (prompt.polled _ polled).2 with done | ⟨future, runs⟩
      · obtain ⟨result, ended⟩ := done.ended
        cases going.symm.trans ended
      · cases going.symm.trans runs.going
        exact prompt.polling managed polled runs turned step after

variable {main : Nat → Script Output} {clock : Clock} {os : Instant}
  {allowed : Scripted Output → Choice Output → Prop}

theorem prompt_start : (start main clock os).Prompt where
  joining := by
    intro schedule join joined
    cases joined
  sleeping := by
    intro schedule sleep waits
    cases waits
  waking := by
    intro schedule frame member
    cases member
  requested := by
    intro schedule requested
    cases requested
  polled := by
    intro schedule polled
    cases polled

theorem run_prompt (reach : machine.Reach allowed (start main clock os) state)
    (few : state.world.executor.spawned < 2 ^ 64 - 1)
    (timed : state.world.time.registered < 2 ^ 64) : state.Prompt := by
  apply run_invariant reach few timed prompt_start
  intro state choice next managed pauses _ prompt advanced after
  exact prompt.step managed pauses advanced after

/-- No wakeup is spurious: a block is woken and polled again only when what it waits for
is ready, so that its next poll goes on; and it is not woken while it is polled. -/
theorem woken_to_go_on (reach : machine.Reach allowed (start main clock os) state)
    (few : state.world.executor.spawned < 2 ^ 64 - 1)
    (timed : state.world.time.registered < 2 ^ 64) :
    (∀ schedule frame, frame ∈ state.world.stack → frame.wakes? = some schedule →
      state.Arrives schedule) ∧
    (∀ schedule, (state.world.executor.scheduling.state schedule).requested = true →
      state.Arrives schedule ∨ state.Starts schedule) ∧
    ∀ schedule, state.world.executor.phase.polled? = some schedule →
      state.world.executor.scheduling.state schedule = .running false ∧
        ∀ future next, state.blocks schedule = .going future →
          future.stage = .suspended → state.step .code = some next →
          ∃ after, next.blocks schedule = .going after ∧ after.stage = .fresh := by
  have prompt := run_prompt reach few timed
  refine ⟨?_, prompt.requested, ?_⟩
  · intro schedule frame member wakes
    exact prompt.waking schedule frame member wakes
  · intro schedule polled
    obtain ⟨running, block⟩ := prompt.polled schedule polled
    refine ⟨running, ?_⟩
    intro future next going suspended stepped
    rcases block with done | ⟨other, runs⟩
    · obtain ⟨result, ended⟩ := done.ended
      cases going.symm.trans ended
    · cases going.symm.trans runs.going
      obtain ⟨resource, awaits, offers⟩ := runs.arrived suspended
      obtain ⟨_, code, isPoll, stack⟩ := runs.stack
      cases advanced_of_step stepped with
      | returned step =>
          simp only [World.machine, World.step, World.codeReturns, stack] at step
          cases code with
          | root | inner join => simp at step
          | waker | dropFuture | dropPayload | dropOutput | dropRoot => cases isPoll
      | polled again _ _ same turned step =>
          cases polled.symm.trans again
          cases going.symm.trans same
          obtain ⟨after, left, fresh⟩ := turned.goes_on suspended awaits offers step
          exact ⟨after, (take_self ..).trans left, fresh⟩

def rejoining : Scripted Nat :=
  (machine.run Machine.Any (start (fun _ => adding) (Clock.new 0) 0)
    (addingChoices.take 43)).getD (start (fun _ => adding) (Clock.new 0) 0)

theorem woken_to_go_on_rejoining :
    rejoining.world.executor.scheduling.state 0 = .running false ∧
      ∃ next after, rejoining.step .code = some next ∧
        next.blocks 0 = .going after ∧ after.stage = .fresh := by
  have ran : machine.run Machine.Any (start (fun _ => adding) (Clock.new 0) 0)
    (addingChoices.take 43) = some rejoining := rfl
  obtain ⟨_, _, polled⟩ :=
    woken_to_go_on (Machine.reach_of_run ran) (by decide) (by decide)
  obtain ⟨running, goes⟩ := polled 0 rfl
  refine ⟨running, ?_⟩
  obtain ⟨next, step⟩ : ∃ next, rejoining.step .code = some next := ⟨_, rfl⟩
  obtain ⟨after, going, fresh⟩ := goes _ next rfl rfl step
  exact ⟨next, after, step, going, fresh⟩

end Scripted

end Asyncr
