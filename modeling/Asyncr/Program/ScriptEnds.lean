import Asyncr.Program.Deadlock
import Asyncr.Program.ScriptProgress
import Asyncr.Program.Virtual

namespace Asyncr

open Library
open Time

/-! Every program of blocks ends. -/

namespace Scripted

variable {Output : Type} {state next : Scripted Output} {schedule caller : Nat}
  {root : Bool} {future : Future Output} {turn : Turn Output}
  {main : Nat → Script Output} {choice : Choice Output} {clock : Clock} {os : Instant}
  {allowed : Scripted Output → Choice Output → Prop}

/-- What a program has left to do: the steps of its blocks, and those of the runtime. -/
def rank (state : Scripted Output) : Nat :=
  40 * state.weight + state.world.strain

def Timely (state : Scripted Output) (choice : Choice Output) : Prop :=
  choice = .runtime .timeout → state.world.due = true

def Ticks (_ : Scripted Output) (choice : Choice Output) : Prop :=
  ∃ reading, choice = .runtime (.tick reading)

/-- The call of `block_on` has come to what its root means. -/
def Returned (main : Nat → Script Output) (root : Nat) (state : Scripted Output) : Prop :=
  state.world.executor.phase = .outside ∧
    state.blocks root = .ended ((main root).eval [])

structure Sleeps (state : Scripted Output) : Prop where
  blocks : state.world.Blocks
  timer : ∃ id registration,
    state.world.time.driver.registrations.lookup id = some registration ∧
      state.world.now < registration.deadline

theorem ticks_time (reach : machine.Reach Ticks state next) :
    next.world.time = state.world.time := by
  induction reach with
  | refl => rfl
  | @step before after choice _ ticks taken ih =>
      obtain ⟨reading, rfl⟩ := ticks
      have advanced : Advanced before (.runtime (.tick reading)) after :=
        advanced_of_step taken
      cases advanced with
      | runtime home step => exact (World.strain_tick step).2.2.trans ih

theorem Sleeps.wakes (sleeps : state.Sleeps) :
    ∃ deadline, state.world.now < deadline ∧ ∀ later : Scripted Output,
      machine.Reach Ticks state later → deadline ≤ later.world.now → ¬ later.Sleeps := by
  obtain ⟨id, registration, found, ahead⟩ := sleeps.timer
  refine ⟨registration.deadline, ahead, ?_⟩
  intro later ticked expired still
  have due : later.world.due = true := by
    refine World.due_iff.mpr ⟨id, registration, ?_, expired⟩
    rw [ticks_time ticked]
    exact found
  cases still.blocks.undue.symm.trans due

structure Called (main : Nat → Script Output) (clock : Clock) (os : Instant) (root : Nat)
    (state : Scripted Output) : Prop where
  reach : machine.Reach Machine.Any (start main clock os) state
  calls : state.Calls main root
  few : state.world.executor.spawned + state.rank < 2 ^ 64 - 1
  timed : state.world.time.registered + state.rank < 2 ^ 64

theorem weight_of_silent (blocks : next.blocks = state.blocks)
    (scripts : next.scripts = state.scripts)
    (created : next.world.executor.scheduling.created =
      state.world.executor.scheduling.created) : next.weight = state.weight := by
  have meaning : next.meaning = state.meaning := by
    funext schedule
    rw [Scripted.meaning, scripts]
    rfl
  rw [weight, weight, created, blocks, meaning]

theorem Managed.unclosing (managed : state.Managed) :
    state.world.executor.phase.closing = false :=
  managed.orderly.sound.closing.symm.trans managed.unclosed

theorem works_of_home {label : Label Output} (home : label.home = true)
    (unticked : ¬ state.Ticks (.runtime label)) : label.foreign = false := by
  cases label with
  | executor move =>
      cases move with
      | remoteWake | remoteSend => cases home
      | _ => rfl
  | tick reading => exact absurd ⟨reading, rfl⟩ unticked
  | _ => rfl

/-- Each step but those of the clock lowers the rank. -/
theorem Advanced.rank_lt (advanced : Advanced state choice next)
    (managed : state.Managed) (prompt : state.Prompt)
    (faithful : state.Faithful main) (tidy : state.world.Tidy)
    (inside : state.world.executor.phase ≠ .outside) (timely : state.Timely choice)
    (unticked : ¬ state.Ticks choice) : next.rank < state.rank := by
  unfold rank
  cases advanced with
  | @runtime label world home step =>
      have works := works_of_home home unticked
      have stepped := World.stepped_of_step step
      have quiet : state.world.codeRuns = false := by
        apply Bool.eq_false_iff.mpr
        intro runs
        obtain ⟨free, code, rest, stack⟩ :=
          World.running_of_codeRuns runs inside managed.unclosing
        cases (World.unmoved_of_running managed.orderly.placed free stack home
          works).symm.trans step
      have punctual : state.world.Punctual label := by
        rintro rfl
        exact timely rfl
      have less := World.strain_step managed.orderly managed.coupled.covered quiet home
        works punctual step
      have same :
          ({ state with world := world } : Scripted Output).weight = state.weight :=
        weight_of_silent rfl rfl (stepped.created_home home inside)
      rw [same]
      exact Nat.add_lt_add_left less _
  | @returned world step =>
      have stepped := World.stepped_of_step step
      have same :
          ({ state with world := world } : Scripted Output).weight = state.weight :=
        weight_of_silent rfl rfl (stepped.created_eq (by simp) (by simp))
      rw [same]
      exact Nat.add_lt_add_left stepped.returned_eases _
  | @polled schedule _ _ _ _ turn world polled stack isPoll going turned step =>
      obtain ⟨_, _, phase⟩ := Phase.polled?_eq_some.mp polled
      have below := (managed.orderly.sound.coherent.polled _ _ _ phase).1
      have alone := alone_of_polls managed.orderly.shaped stack isPoll
      have stepped := World.stepped_of_step step
      have unclosing : world.executor.phase.closing = false := by
        rcases stepped.takes with same | ⟨move, _, moved⟩
        · rw [same]
          exact managed.unclosing
        · exact (Executor.moved_of_step moved).unclosing_on inside managed.unclosing
      have strained := stepped.strain_turn turned alone managed.unclosed unclosing
      rcases (prompt.polled schedule polled).2 with done | ⟨future, runs⟩
      · obtain ⟨result, ended⟩ := done.ended
        cases going.symm.trans ended
      · cases going.symm.trans runs.going
        have lighter := runs.lighter faithful managed tidy below turned step
        rw [take_world]
        omega

section

variable (called : state.Called main clock os caller)

include called

theorem Called.bounds : state.world.executor.spawned < 2 ^ 64 - 1 ∧
    state.world.time.registered < 2 ^ 64 :=
  ⟨Nat.lt_of_le_of_lt (Nat.le_add_right ..) called.few,
    Nat.lt_of_le_of_lt (Nat.le_add_right ..) called.timed⟩

theorem Called.structured :
    World.machine.Reach World.Structured (World.initial clock os) state.world :=
  run_structured (run_managed called.reach called.bounds.1 called.bounds.2).1

theorem Called.contained :
    World.machine.Reach World.Contained (World.initial clock os) state.world :=
  called.structured.weaken fun _ _ structured => structured.1

theorem Called.ticks (ticks : state.Ticks choice)
    (taken : machine.step state choice = some next) :
    next.Called main clock os caller ∧ next.rank ≤ state.rank := by
  obtain ⟨reading, rfl⟩ := ticks
  have reach := Machine.Reach.step _ called.reach trivial taken
  have advanced : Advanced state (.runtime (.tick reading)) next := advanced_of_step taken
  cases advanced with
  | @runtime _ world home step =>
      obtain ⟨eased, executor, time⟩ := World.strain_tick step
      have same :
          ({ state with world := world } : Scripted Output).weight = state.weight := by
        refine weight_of_silent rfl rfl ?_
        dsimp only
        rw [executor]
      have ranked :
          ({ state with world := world } : Scripted Output).rank ≤ state.rank := by
        rw [rank, rank, same]
        exact Nat.add_le_add_left eased _
      obtain ⟨created, script, ends, inside⟩ := called.calls
      refine ⟨⟨reach, ⟨?_, script, ?_, ?_⟩, ?_, ?_⟩, ranked⟩
      · dsimp only
        rw [executor]
        exact created
      · unfold Over
        dsimp only
        rw [executor]
        exact ends
      · dsimp only
        rw [executor]
        exact inside
      · dsimp only
        rw [executor]
        exact Nat.lt_of_le_of_lt (Nat.add_le_add_left ranked _) called.few
      · dsimp only
        rw [time]
        exact Nat.lt_of_le_of_lt (Nat.add_le_add_left ranked _) called.timed

theorem Called.steps (inside : state.world.executor.phase ≠ .outside)
    (timely : state.Timely choice) (unticked : ¬ state.Ticks choice)
    (step : machine.step state choice = some next) :
    next.Called main clock os caller ∧ next.rank < state.rank := by
  obtain ⟨few, timed⟩ := called.bounds
  have advanced := advanced_of_step step
  have reach := Machine.Reach.step _ called.reach trivial step
  obtain ⟨before, managed, pauses⟩ := run_managed called.reach few timed
  have tidy := World.run_tidy called.contained few
  have prompt := run_prompt called.reach few timed
  have faithful := run_faithful called.reach few timed
  obtain ⟨label, moved, fits⟩ := managed.fits pauses advanced
  have stepped := World.stepped_of_step moved
  -- the step itself stays within the bounds, and the rank pays for what it adds
  have spawned := stepped.spawned_succ
  have registered := stepped.registered_succ
  have joins := before.weaken fun _ _ fits => fits.joins
  have contained := (World.run_quiet joins).2.contained fits.joins
    (World.run_shaped joins) (World.run_covered joins) moved
  have calls := called.calls.step managed tidy few (run_over called.reach few timed).2
    advanced stepped contained inside
  have ranked := advanced.rank_lt managed prompt faithful tidy inside timely unticked
  have fewer := called.few
  have earlier := called.timed
  exact ⟨⟨reach, calls, by omega, by omega⟩, ranked⟩

/-- A call goes on, or waits for a timer, until it returns. -/
theorem Called.goes_on (inside : state.world.executor.phase ≠ .outside) :
    state.Sleeps ∨ ∃ choice next, state.Timely choice ∧ ¬ state.Ticks choice ∧
      machine.step state choice = some next := by
  obtain ⟨few, timed⟩ := called.bounds
  obtain ⟨before, managed, pauses⟩ := run_managed called.reach few timed
  have tidy := World.run_tidy called.contained few
  have prompt := run_prompt called.reach few timed
  have onTime := World.run_onTime before
  obtain ⟨orderly, droppable, furnished⟩ := World.run_furnished called.contained few
  cases runs : state.world.codeRuns with
  | true =>
      right
      obtain ⟨free, code, rest, stack⟩ :=
        World.running_of_codeRuns runs inside managed.unclosing
      obtain ⟨next, step⟩ := managed.code_goes_on prompt onTime free stack
      refine ⟨.code, next, ?_, ?_, step⟩
      · rintro ⟨⟩
      · rintro ⟨_, ⟨⟩⟩
  | false =>
      rcases World.goes_on_or_yields orderly droppable.acquainted furnished onTime with
        yields | ⟨label, next, punctual, unforeign, step⟩
      · rcases yields with active | blocks | aborts
        · cases runs.symm.trans active
        · obtain ⟨root, _, phase, _⟩ := blocks.receives
          obtain ⟨_, last, id, _, sleeping⟩ := World.blocked_chain called.structured few
            timed blocks (run_unsent called.reach) phase
          obtain ⟨registration, found, _⟩ := World.sleeper?_eq_some.mp sleeping
          refine Or.inl ⟨blocks, id, registration, found, ?_⟩
          apply Nat.lt_of_not_le
          intro expired
          cases blocks.undue.symm.trans
            (World.due_iff.mpr ⟨id, registration, found, expired⟩)
        · obtain ⟨_, ⟨schedule, _, _, _, poisoned⟩, _⟩ := aborts
          rw [(tidy.ended.kept few).1.unpoisoned] at poisoned
          cases poisoned
      · right
        have works : label.foreign = false := Bool.eq_false_iff.mpr unforeign
        have home := World.home_of_step runs works inside managed.unclosing step
        refine ⟨.runtime label, { state with world := next }, ?_, ?_, ?_⟩
        · rintro ⟨⟩
          exact punctual rfl
        · rintro ⟨reading, ⟨⟩⟩
          cases works
        · change state.step (.runtime label) = _
          simp only [Scripted.step, home, if_true]
          rw [show state.world.step label = some next from step]
          rfl

theorem Called.returned (outside : state.world.executor.phase = .outside) :
    state.Returned main caller := by
  obtain ⟨few, timed⟩ := called.bounds
  have faithful := run_faithful called.reach few timed
  refine ⟨outside, ?_⟩
  rcases called.calls.inside with inside | ⟨_, result, ended⟩
  · rw [outside] at inside
    cases inside
  · rw [ended, faithful.ended caller result ended, meaning, called.calls.script]

theorem Called.ends {rests : Scripted Output → Prop}
    (rested : ∀ later : Scripted Output, later.Called main clock os caller →
      later.Sleeps → rests later) :
    machine.Ends Timely Ticks (Returned main caller) rests state.rank state := by
  apply Machine.ends_of_rank (Called main clock os caller) rank
  · intro before choice after called ticks step
    exact called.ticks ticks step
  · intro before called
    by_cases outside : before.world.executor.phase = .outside
    · exact Or.inl (called.returned outside)
    · refine Or.inr ⟨(called.goes_on outside).imp_left (rested before called), ?_⟩
      intro choice after timely unticked step
      exact called.steps outside timely unticked step
  · exact Nat.le_refl _
  · exact called

end

theorem called_of_root (reach : machine.Reach allowed (start main clock os) state)
    (inside : state.world.executor.phase.root? = some caller)
    (few : state.world.executor.spawned + state.rank < 2 ^ 64 - 1)
    (timed : state.world.time.registered + state.rank < 2 ^ 64) :
    state.Called main clock os caller := by
  have reach : machine.Reach Machine.Any (start main clock os) state :=
    reach.weaken fun _ _ _ => trivial
  have fewer := Nat.lt_of_le_of_lt (Nat.le_add_right ..) few
  have earlier := Nat.lt_of_le_of_lt (Nat.le_add_right ..) timed
  obtain ⟨_, managed, _⟩ := run_managed reach fewer earlier
  have faithful := run_faithful reach fewer earlier
  obtain ⟨created, isRoot⟩ := managed.orderly.sound.coherent.root caller inside
  refine ⟨reach, ⟨created, ?_, (run_over reach fewer earlier).1, Or.inl inside⟩, few, timed⟩
  exact (faithful.mains caller).resolve_right fun spawned => spawned.2 isRoot

/-- Every program of blocks ends, however it is scheduled: after a number of steps that
is known beforehand the call of `block_on` has come to what its root means, unless the
runtime waits for a timer, which it does until the clock shows the timer's deadline. -/
theorem programs_end (reach : machine.Reach allowed (start main clock os) state)
    (inside : state.world.executor.phase.root? = some caller)
    (few : state.world.executor.spawned + state.rank < 2 ^ 64 - 1)
    (timed : state.world.time.registered + state.rank < 2 ^ 64) :
    machine.Ends Timely Ticks (Returned main caller) Sleeps state.rank state ∧
      (state.Sleeps → ∃ deadline, state.world.now < deadline ∧ ∀ later : Scripted Output,
        machine.Reach Ticks state later → deadline ≤ later.world.now →
        ¬ later.Sleeps) := by
  refine ⟨?_, Sleeps.wakes⟩
  apply (called_of_root reach inside few timed).ends
  intro later _ sleeps
  exact sleeps

def called : Scripted Nat :=
  (machine.run Machine.Any (start (fun _ => adding) (Clock.new 0) 0)
    (addingChoices.take 1)).getD (start (fun _ => adding) (Clock.new 0) 0)

theorem programs_end_called :
    adding.eval [] = .ok 4 ∧ machine.Ends Timely Ticks (Returned (fun _ => adding) 0) Sleeps
      called.rank called := by
  have ran : machine.run Machine.Any (start (fun _ => adding) (Clock.new 0) 0)
    (addingChoices.take 1) = some called := rfl
  refine ⟨rfl, (programs_end (Machine.reach_of_run ran) rfl ?_ ?_).1⟩
  · decide
  · decide

/-! With a paused clock. -/

theorem virtual_home (world : World Output) {label : Label Output}
    (home : label.home = true) : world.Virtual label := by
  cases label with
  | executor move =>
      cases move with
      | remoteWake | remoteSend => cases home
      | _ => rfl
  | tick | proceed | drain | plan | recv | timeout | dispatch | finish => rfl
  | _ => cases home

theorem virtual_turned (turned : future.Turned state.world schedule root turn) :
    state.world.Virtual turn.label := by
  have dropped : ∀ resource : Resource,
      state.world.Virtual (resource.drop : Label Output) := by
    intro resource
    cases resource <;> rfl
  cases turned with
  | freed spent => exact dropped _
  | suspended => cases root <;> rfl
  | @ended result => cases result <;> cases root <;> rfl
  | _ => rfl

theorem run_virtual (reach : machine.Reach allowed (start main clock os) state)
    (few : state.world.executor.spawned < 2 ^ 64 - 1)
    (timed : state.world.time.registered < 2 ^ 64) :
    World.machine.Reach World.Virtual (World.initial clock os) state.world := by
  apply run_invariant reach few timed .refl
  intro state choice next _ _ _ before advanced _
  cases advanced with
  | runtime home step => exact .step _ before (virtual_home _ home) step
  | returned step => exact .step .codeReturns before rfl step
  | polled polled stack isPoll going turned step =>
      rw [take_world]
      exact .step _ before (virtual_turned turned) step

/-- With a paused clock a program of blocks ends by itself: the executor moves the clock
from deadline to deadline, and never waits for anything. -/
theorem virtual_programs_end (paused : clock.isPaused = true)
    (reach : machine.Reach allowed (start main clock os) state)
    (inside : state.world.executor.phase.root? = some caller)
    (few : state.world.executor.spawned + state.rank < 2 ^ 64 - 1)
    (timed : state.world.time.registered + state.rank < 2 ^ 64) :
    machine.Within Timely Ticks (Returned main caller) state.rank state := by
  apply Machine.Ends.within
  apply (called_of_root reach inside few timed).ends
  intro later called sleeps
  obtain ⟨few, timed⟩ := called.bounds
  have exact := World.run_exact (run_virtual called.reach few timed) paused
  obtain ⟨_, timeout, _, wait⟩ := sleeps.blocks.receives
  obtain ⟨id, registration, found, _⟩ := sleeps.timer
  cases ((exact.blocks timeout wait).2.2 id).symm.trans found

def calledPaused : Scripted Nat :=
  (machine.run Machine.Any (start (fun _ => adding) (Clock.newPaused 0) 0)
    (addingChoices.take 1)).getD (start (fun _ => adding) (Clock.newPaused 0) 0)

theorem virtual_programs_end_called :
    machine.Within Timely Ticks (Returned (fun _ => adding) 0) calledPaused.rank
      calledPaused := by
  have ran : machine.run Machine.Any (start (fun _ => adding) (Clock.newPaused 0) 0)
    (addingChoices.take 1) = some calledPaused := rfl
  refine virtual_programs_end rfl (Machine.reach_of_run ran) rfl ?_ ?_
  · decide
  · decide

end Scripted

end Asyncr
