import Asyncr.Program.Search

namespace Asyncr

open Library
open Time

namespace World

variable {Output : Type} {world next : World Output} {label : Label Output}
  {allowed : World Output → Label Output → Prop} {clock : Clock} {os : Instant}

/-! Virtual time: the clock is paused, and only the executor moves it. -/

/-- No other thread runs, no code changes the clock, all wakers are those of
schedules, and no timer is moved to the past. -/
def virtual (world : World Output) : Label Output → Bool
  | .clock _ | .executor (.remoteWake _) | .executor (.remoteSend _) => false
  | .timer (.reset _ deadline) => decide (world.now ≤ deadline)
  | label => label.scheduled

def Virtual (world : World Output) (label : Label Output) : Prop :=
  world.virtual label = true

instance (world : World Output) (label : Label Output) :
    Decidable (world.Virtual label) :=
  inferInstanceAs (Decidable (_ = true))

theorem Virtual.scheduled (virtual : world.Virtual label) :
    label.scheduled = true := by
  cases label with
  | pollJoin join waker => exact virtual
  | timer call =>
      cases call with
      | poll sleep waker now => exact virtual
      | _ => rfl
  | _ => rfl

structure Exact (world : World Output) : Prop where
  paused : world.clock.isPaused = true
  quiet : world.Quiet
  /-- No live registration lies in the virtual past. -/
  future : ∀ id registration,
    world.time.driver.registrations.lookup id = some registration →
    world.now ≤ registration.deadline
  empty : ∀ root, world.executor.phase = .waiting root →
    world.executor.scheduling.ready = []
  /-- The receive has no timeout. -/
  blocks : ∀ timeout, world.wait = some timeout → timeout = none ∧
    (∃ root, world.executor.phase = .waiting root) ∧
    ∀ id, world.time.driver.registrations.lookup id = none

theorem exact_initial (paused : clock.isPaused = true) :
    (initial clock os : World Output).Exact where
  paused := paused
  quiet := quiet_initial
  future := by
    intro id registration found
    cases found
  empty := by
    intro root phase
    cases phase
  blocks := by
    intro timeout waits
    cases waits

theorem Exact.ahead_next (exact : world.Exact)
    (covered : world.time.driver.Covered) {root : Nat}
    (phase : world.executor.phase = .waiting root) {time : Timers Waker}
    {deadline : Instant}
    (called : world.time.call .nextDeadline =
      some (time, .deadline (some deadline))) :
    world.now < deadline ∧ IsLeast world.time.driver.liveDeadlines deadline := by
  simp only [Timers.call, Option.some.injEq, Prod.mk.injEq,
    SleepReply.deadline.injEq] at called
  have least := TimerState.nextDeadline_eq_some covered called.2
  obtain ⟨id, live⟩ := least.1
  obtain ⟨registration, present, rfl⟩ := Option.map_eq_some_iff.mp live
  exact ⟨exact.quiet.ahead (by rw [phase]; rfl) exact.paused id registration
    present, least⟩

theorem Exact.time_step (exact : world.Exact) (virtual : world.Virtual label)
    (covered : world.time.driver.Covered) (stepped : Stepped world label next) :
    next.clock.isPaused = true ∧ (next.now = world.now ∨
      label = .plan ∧ world.executor.scheduling.ready = [] ∧
        world.now < next.now ∧
        IsLeast world.time.driver.liveDeadlines next.now) := by
  cases stepped with
  | timed origin later =>
      rcases origin with ⟨reading, rfl, rfl⟩ | ⟨_, call, rfl⟩
      · exact ⟨exact.paused, Or.inl (Clock.now_paused exact.paused)⟩
      · cases virtual
  | @jumped root time deadline clock executor phase wait called paused advanced
      step =>
      obtain ⟨still, now⟩ := Clock.now_advanceTo advanced world.os
      refine ⟨still, Or.inr ⟨rfl, exact.empty root phase, ?_⟩⟩
      change world.now < clock.now world.os ∧
        IsLeast world.time.driver.liveDeadlines (clock.now world.os)
      rw [now]
      exact exact.ahead_next covered phase called
  | _ => exact ⟨exact.paused, Or.inl rfl⟩

theorem Exact.future_step (exact : world.Exact) (virtual : world.Virtual label)
    (covered : world.time.driver.Covered) (stepped : Stepped world label next)
    {id : TimerId} {registration : TimerRegistration Waker}
    (found : next.time.driver.registrations.lookup id = some registration) :
    next.now ≤ registration.deadline := by
  rcases (exact.time_step virtual covered stepped).2 with
    same | ⟨rfl, _, _, least⟩
  · rw [same]
    have called : ∀ {call : SleepCall Waker} {time : Timers Waker}
        {reply : SleepReply Waker}, world.time.call call = some (time, reply) →
        time.driver.registrations.lookup id = some registration →
        (∀ sleep waker now, call = .poll sleep waker now → now = world.now) →
        (∀ sleep deadline, call = .reset sleep deadline →
          world.now ≤ deadline) → world.now ≤ registration.deadline := by
      intro call time reply called found polls moves
      cases Timers.registered_of_call called found with
      | kept before => exact exact.future id registration before
      | updated before =>
          have due := exact.future id _ before
          exact due
      | moved before => exact moves _ _ rfl
      | added early =>
          rw [← polls _ _ _ rfl]
          exact Nat.le_of_lt early
    cases stepped with
    | timer runs asked step =>
        apply called step found
        · rintro sleep waker now rfl
          simp only [sleepCall, Bool.and_eq_true, decide_eq_true_eq] at asked
          exact asked.1
        · rintro sleep deadline rfl
          exact of_decide_eq_true virtual
    | drained step expired => exact called expired found (by simp) (by simp)
    | planned phase wait next running =>
        exact called next found (by simp) (by simp)
    | jumped phase wait next paused advanced step =>
        exact called next found (by simp) (by simp)
    | stuck phase wait next paused failed step =>
        exact called next found (by simp) (by simp)
    | _ => exact exact.future id registration found
  · have before : world.time.driver.registrations.lookup id =
        some registration := by
      cases stepped with
      | planned phase wait called running =>
          exact Timers.registrations_of_nextDeadline called ▸ found
      | jumped phase wait called paused advanced step =>
          exact Timers.registrations_of_nextDeadline called ▸ found
      | stuck phase wait called paused failed step =>
          exact Timers.registrations_of_nextDeadline called ▸ found
      | timed origin later => exact found
      | unwound free fails unwinds step => exact found
    exact least.2 ⟨id, by simp [TimerState.liveDeadline, before]⟩

theorem Exact.empty_step (exact : world.Exact) (virtual : world.Virtual label)
    (steady : world.executor.Steady) (placed : world.Placed)
    (stepped : Stepped world label next) {root : Nat}
    (phase : next.executor.phase = .waiting root) :
    next.executor.scheduling.ready = [] := by
  rcases stepped.takes with same | ⟨move, takes, moved⟩
  · rw [same] at phase ⊢
    exact exact.empty root phase
  · have still : world.executor.phase = .waiting root →
        world.codeRuns = false := fun before =>
      exact.quiet.still placed (by rw [before]; rfl)
    have empty : world.executor.phase = .waiting root → world.stack = [] :=
      fun before => placed (by rw [before]; rfl)
    have after := Executor.moved_of_step moved
    generalize next.executor = executor at after phase ⊢
    cases after with
    | remoteWake change =>
        cases takes with
        | permitted => cases virtual
    | remoteSend change =>
        cases takes with
        | permitted => cases virtual
    | wake runs change =>
        rw [show world.executor.phase = .waiting root from phase] at runs
        cases runs
    | send change =>
        have own := (steady.entered.waiting root phase).1
        simp [Scheduling.step, own] at change
    | refused runs closed => exact exact.empty root phase
    | submitted runs unclosed change =>
        rw [show world.executor.phase = .waiting root from phase] at runs
        cases runs
    | foundEmpty before free empty => exact empty
    | cleared before free pending => cases before.symm.trans phase
    | destroyed before free member => cases before.symm.trans phase
    | _ => cases phase

theorem phase_of_remote {executor after : Executor} {move : Move}
    (remote : ∃ schedule, move = .remoteWake schedule ∨
      move = .remoteSend schedule)
    (moved : executor.step move = some after) : after.phase = executor.phase := by
  obtain ⟨schedule, rfl | rfl⟩ := remote
  · cases Executor.moved_of_step moved
    rfl
  · cases Executor.moved_of_step moved
    rfl

theorem phase_of_send {executor after : Executor}
    (moved : executor.step .send = some after) : after.phase = executor.phase := by
  cases Executor.moved_of_step moved
  rfl

theorem Exact.blocks_step (exact : world.Exact) (placed : world.Placed)
    (covered : world.time.driver.Covered)
    (step : machine.step world label = some next)
    {timeout : Option Duration} (waits : next.wait = some timeout) :
    timeout = none ∧ (∃ root, next.executor.phase = .waiting root) ∧
      ∀ id, next.time.driver.registrations.lookup id = none := by
  rcases wait_of_stepped (stepped_of_step step) waits with
    held | ⟨rfl, _, root, _, _, phase, _, _⟩
  · obtain ⟨unbounded, ⟨root, phase⟩, nothing⟩ := exact.blocks timeout held
    have phased : ∀ {other : Phase}, world.executor.phase = other →
        other = .waiting root := fun isOther => isOther.symm.trans phase
    refine ⟨unbounded, ?_⟩
    cases exact.quiet.searched placed (by rw [phase]; rfl) step with
    | ticked => exact ⟨⟨root, phase⟩, nothing⟩
    | remote isRemote moved =>
        exact ⟨⟨root, (phase_of_remote isRemote moved).trans phase⟩, nothing⟩
    | sent moved => exact ⟨⟨root, (phase_of_send moved).trans phase⟩, nothing⟩
    | drained before moved called => cases phased before
    | fired before free stack unpoisoned moved => cases phased before
    | panicked before stack poisoned moved => cases phased before
    | settled before stack moved => cases phased before
    | tried before moved => cases phased before
    | planned before unplanned called running => cases unplanned.symm.trans held
    | jumped before unplanned called paused advanced moved =>
        cases unplanned.symm.trans held
    | stuck before unplanned called paused failed moved =>
        cases unplanned.symm.trans held
    | received planned moved => cases waits
    | timedOut planned moved => cases waits
  · cases exact.quiet.searched placed (by rw [phase]; rfl) step with
    | @planned root time deadline phase unplanned called running =>
        have nothing : deadline = none := by
          rcases running with running | nothing
          · rw [exact.paused] at running
            cases running
          · exact nothing
        subst nothing
        cases waits
        refine ⟨rfl, ⟨root, phase⟩, ?_⟩
        intro id
        rw [Timers.registrations_of_nextDeadline called]
        exact (timeout_spec covered called world.now).1.mp rfl id
    | jumped phase unplanned called paused advanced moved =>
        cases unplanned.symm.trans waits
    | stuck phase unplanned called paused failed moved =>
        cases unplanned.symm.trans waits

theorem Exact.step (exact : world.Exact) (virtual : world.Virtual label)
    (steady : world.executor.Steady) (placed : world.Placed)
    (covered : world.time.driver.Covered)
    (step : machine.step world label = some next) : next.Exact where
  paused := (exact.time_step virtual covered (stepped_of_step step)).1
  quiet := exact.quiet.step virtual.scheduled placed covered (stepped_of_step step)
  future := fun _ _ =>
    exact.future_step virtual covered (stepped_of_step step)
  empty := fun _ =>
    exact.empty_step virtual steady placed (stepped_of_step step)
  blocks := fun _ => exact.blocks_step placed covered step

theorem run_exact (reach : machine.Reach Virtual (initial clock os) world)
    (paused : clock.isPaused = true) : world.Exact := by
  induction reach with
  | refl => exact exact_initial paused
  | step label before virtual step ih =>
      exact ih.step virtual (run_steady before) (run_placed before)
        (run_covered before) step

/-- The assertion of `Clock::advance_to` never fails. -/
theorem Exact.advances (exact : world.Exact) (covered : world.time.driver.Covered)
    (step : machine.step world .plan = some next) :
    next.executor.phase ≠ .unwinding := by
  cases stepped_of_step step with
  | timed origin later =>
      rcases origin with ⟨_, other, _⟩ | ⟨_, _, other⟩ <;> cases other
  | unwound free fails unwinds moved => cases fails
  | planned phase wait called running =>
      intro unwinding
      cases phase.symm.trans unwinding
  | jumped phase wait called paused advanced moved =>
      cases Executor.moved_of_step moved with
      | retry waits => nofun
  | stuck phase wait called paused failed moved =>
      have forward := (exact.ahead_next covered phase called).1
      obtain ⟨clock, advanced⟩ :=
        Clock.advanceTo_forward paused (Nat.le_of_lt forward)
      cases advanced.symm.trans failed

end World

end Asyncr
