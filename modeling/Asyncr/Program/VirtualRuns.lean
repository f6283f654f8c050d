import Asyncr.Program.VirtualCalls

namespace Asyncr

open Library
open Time

/-- `process_expired` removes a registration for a deadline at a virtual time. -/
structure Firing where
  time : Instant
  deadline : Instant
  deriving DecidableEq, Repr

/-- A run with the registrations that have fired, the first one first. -/
structure VirtualRun (Output : Type) where
  world : World Output
  fired : List Firing

namespace VirtualRun

variable {Output : Type} {run next : VirtualRun Output} {clock : Clock}
  {os : Instant}

def start (clock : Clock) (os : Instant) : VirtualRun Output where
  world := World.initial clock os
  fired := []

def firings (world : World Output) : Label Output → List Firing
  | .drain =>
      (world.time.driver.expired world.now).map fun removed =>
        ⟨world.now, removed.2.deadline⟩
  | _ => []

def step (run : VirtualRun Output) (label : Label Output) :
    Option (VirtualRun Output) :=
  (World.machine.step run.world label).map fun next =>
    { world := next, fired := run.fired ++ firings run.world label }

def machine : Machine (VirtualRun Output) (Label Output) where
  step := step

def Virtual (run : VirtualRun Output) (label : Label Output) : Prop :=
  run.world.Virtual label

instance (run : VirtualRun Output) (label : Label Output) :
    Decidable (run.Virtual label) :=
  inferInstanceAs (Decidable (run.world.Virtual label))

theorem world_reach (reach : machine.Reach Virtual (start clock os) run) :
    World.machine.Reach World.Virtual (World.initial clock os) run.world := by
  apply reach.simulate VirtualRun.world
  intro run label next virtual step
  obtain ⟨after, stepped, rfl⟩ := Option.map_eq_some_iff.mp step
  exact Or.inr ⟨label, virtual, stepped⟩

/-- What has fired did so on time, and in order. -/
structure Punctual (run : VirtualRun Output) : Prop where
  exactly : ∀ firing ∈ run.fired, firing.time = firing.deadline
  ordered : (run.fired.map Firing.deadline).Pairwise (· ≤ ·)
  past : ∀ firing ∈ run.fired, firing.deadline ≤ run.world.now

theorem punctual_start : (start clock os : VirtualRun Output).Punctual where
  exactly := by
    intro firing member
    cases member
  ordered := List.Pairwise.nil
  past := by
    intro firing member
    cases member

theorem firings_now {world : World Output} (exact : world.Exact)
    (covered : world.time.driver.Covered) {label : Label Output} {firing : Firing}
    (member : firing ∈ firings world label) :
    firing.time = world.now ∧ firing.deadline = world.now := by
  cases label with
  | drain =>
      obtain ⟨⟨id, registration⟩, removed, rfl⟩ := List.mem_map.mp member
      obtain ⟨found, due⟩ :=
        (TimerState.mem_expired covered world.now id registration).mp removed
      exact ⟨rfl, Nat.le_antisymm due (exact.future id registration found)⟩
  | _ => cases member

theorem Punctual.step (punctual : run.Punctual) (exact : run.world.Exact)
    (covered : run.world.time.driver.Covered) {label : Label Output}
    (virtual : run.Virtual label) (step : machine.step run label = some next) :
    next.Punctual := by
  obtain ⟨after, stepped, rfl⟩ := Option.map_eq_some_iff.mp step
  have later : run.world.now ≤ after.now := by
    rcases (exact.time_step virtual covered (World.stepped_of_step stepped)).2 with
      same | ⟨_, _, forward, _⟩
    · exact Nat.le_of_eq same.symm
    · exact Nat.le_of_lt forward
  refine ⟨?_, ?_, ?_⟩
  · intro firing member
    rcases List.mem_append.mp member with old | new
    · exact punctual.exactly firing old
    · obtain ⟨time, deadline⟩ := firings_now exact covered new
      exact time.trans deadline.symm
  · rw [List.map_append, List.pairwise_append]
    refine ⟨punctual.ordered, ?_, ?_⟩
    · apply List.pairwise_of_forall_mem_list
      intro first firstMember second secondMember
      obtain ⟨firing, member, rfl⟩ := List.mem_map.mp firstMember
      obtain ⟨other, otherMember, rfl⟩ := List.mem_map.mp secondMember
      rw [(firings_now exact covered member).2,
        (firings_now exact covered otherMember).2]
    · intro first firstMember second secondMember
      obtain ⟨firing, member, rfl⟩ := List.mem_map.mp firstMember
      obtain ⟨other, otherMember, rfl⟩ := List.mem_map.mp secondMember
      rw [(firings_now exact covered otherMember).2]
      exact punctual.past firing member
  · intro firing member
    rcases List.mem_append.mp member with old | new
    · exact Nat.le_trans (punctual.past firing old) later
    · rw [(firings_now exact covered new).2]
      exact later

theorem run_punctual (reach : machine.Reach Virtual (start clock os) run)
    (paused : clock.isPaused = true) : run.Punctual := by
  induction reach with
  | refl => exact punctual_start
  | step label before virtual step ih =>
      have reach := world_reach before
      exact ih.step (World.run_exact reach paused) (World.run_covered reach)
        virtual step

/-- Virtual time is exact: only the executor moves it, when nothing is ready, to the
next deadline; each registration fires at its deadline, in order of deadlines; and
every call of `next_ready_id` returns an id or blocks with no timer left, if no waker
that it invokes panics. -/
theorem virtual_time_exact (paused : clock.isPaused = true)
    (reach : machine.Reach Virtual (start clock os) run) :
    (∀ label next, run.world.Virtual label →
      World.machine.step run.world label = some next →
      next.now = run.world.now ∨
        label = .plan ∧ run.world.executor.scheduling.ready = [] ∧
          run.world.now < next.now ∧
          IsLeast run.world.time.driver.liveDeadlines next.now) ∧
      (∀ next, World.machine.step run.world .plan = some next →
        next.executor.phase ≠ .unwinding ∧
          (next.now ≠ run.world.now → ∀ later,
            World.machine.step next .drain = some later →
            later.time.driver.registrations.keys.length <
              next.time.driver.registrations.keys.length)) ∧
      (∀ firing ∈ run.fired, firing.time = firing.deadline) ∧
      (run.fired.map Firing.deadline).Pairwise (· ≤ ·) ∧
      (run.world.executor.phase.searching = true →
        ∃ bound, World.machine.Within World.Virtual World.Ticks
          (fun later => later.Settled ∨ later.executor.phase = .unwinding)
          bound run.world) ∧
      (run.world.executor.phase.searching = true → run.world.WakersSchedule →
        ∃ bound, World.machine.Within World.Virtual World.Ticks World.Settled
          bound run.world) := by
  have ran := world_reach reach
  have exact := World.run_exact ran paused
  have covered := World.run_covered ran
  have punctual := run_punctual reach paused
  refine ⟨?_, ?_, punctual.exactly, punctual.ordered, ?_, ?_⟩
  · intro label next virtual step
    exact (exact.time_step virtual covered (World.stepped_of_step step)).2
  · intro next step
    refine ⟨exact.advances covered step, ?_⟩
    intro moved later drains
    exact World.jump_removes exact covered step moved drains
  · intro searching
    refine ⟨run.world.rank, ?_⟩
    have settles := World.settles paused ran searching False False.elim
    simpa using settles
  · intro searching schedules
    refine ⟨run.world.rank, ?_⟩
    have settles := World.settles paused ran searching True fun _ => schedules
    simpa using settles

def sleepsLabels : List (Label Nat) :=
  [.executor .blockOn, .executor .send, .drain, .executor .settle,
    .executor .tryRecv, .dispatch, .timer (.new 5), .timer (.poll 0 (.task 0) 0),
    .rootYield .pending, .drain, .executor .settle, .executor .tryRecv, .plan,
    .drain]

def sleeps : VirtualRun Nat :=
  (machine.run Virtual (start (Clock.newPaused 0) 0) sleepsLabels).getD
    (start (Clock.newPaused 0) 0)

theorem virtual_time_exact_sleeps :
    sleeps.fired = [⟨5, 5⟩] ∧
      (sleeps.fired.map Firing.deadline).Pairwise (· ≤ ·) ∧
      ∃ bound, World.machine.Within World.Virtual World.Ticks World.Settled bound
        sleeps.world := by
  have ran : machine.run Virtual (start (Clock.newPaused 0) 0) sleepsLabels =
    some sleeps := rfl
  have paused : (Clock.newPaused 0).isPaused = true := rfl
  obtain ⟨_, _, _, ordered, _, settles⟩ :=
    virtual_time_exact paused (Machine.reach_of_run ran)
  refine ⟨rfl, ordered, settles rfl ?_⟩
  intro schedule held
  rcases held with fires | ⟨id, registration, found, _⟩
  · cases List.mem_singleton.mp fires
    rfl
  · cases found

end VirtualRun

end Asyncr
