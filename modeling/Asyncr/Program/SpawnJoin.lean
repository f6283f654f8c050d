import Asyncr.Program.Containment
import Asyncr.Program.Quiet

namespace Asyncr

namespace World

open Library
open Time

variable {Output : Type} {world next : World Output} {label : Label Output}
  {clock : Clock} {os : Instant}

/-! Programs of tasks that spawn and join one another. -/

/-- No destructor panics, and all wakers are those of schedules. -/
def joinsOnly (world : World Output) : Label Output → Bool
  | .panic =>
      match world.stack with
      | [.running (.inner _)] | [.running .root] => true
      | _ => false
  | .pollJoin _ waker | .timer (.poll _ waker _) => waker.scheduled
  | _ => true

def JoinsOnly (world : World Output) (label : Label Output) : Prop :=
  world.joinsOnly label = true

instance (world : World Output) (label : Label Output) :
    Decidable (world.JoinsOnly label) :=
  inferInstanceAs (Decidable (_ = true))

theorem JoinsOnly.scheduled (joins : world.JoinsOnly label) :
    label.scheduled = true := by
  cases label with
  | pollJoin join waker => exact joins
  | timer call =>
      cases call with
      | poll sleep waker now => exact joins
      | _ => rfl
  | _ => rfl

theorem Quiet.plan_contained (quiet : world.Quiet)
    (covered : world.time.driver.Covered)
    (step : machine.step world .plan = some next) : world.Contained .plan := by
  have waiting : world.executor.phase.drained = true := by
    have phased : ∀ {root : Nat}, world.executor.phase = .waiting root →
        world.executor.phase.drained = true := by
      intro root phase
      rw [phase]
      rfl
    cases stepped_of_step step with
    | timed origin later =>
        rcases origin with ⟨_, other, _⟩ | ⟨_, _, other⟩ <;> cases other
    | unwound free fails unwinds moved => cases fails
    | planned phase wait found running => exact phased phase
    | jumped phase wait found paused advanced moved => exact phased phase
    | stuck phase wait found paused failed moved => exact phased phase
  simp only [Contained, World.contained]
  split
  · rename_i time deadline called
    cases paused : world.clock.isPaused with
    | false => rfl
    | true =>
        simp only [Timers.call, Option.some.injEq, Prod.mk.injEq,
          SleepReply.deadline.injEq] at called
        obtain ⟨_, found⟩ := called
        obtain ⟨⟨id, live⟩, _⟩ := TimerState.nextDeadline_eq_some covered found
        obtain ⟨registration, present, rfl⟩ := Option.map_eq_some_iff.mp live
        exact decide_eq_true
          (Nat.le_of_lt (quiet.ahead waiting paused id registration present))
  · rfl

theorem Quiet.contained (quiet : world.Quiet) (joins : world.JoinsOnly label)
    (shaped : world.Shaped) (covered : world.time.driver.Covered)
    (step : machine.step world label = some next) : world.Contained label := by
  cases label with
  | panic =>
      simp only [JoinsOnly, joinsOnly] at joins
      simp only [Contained, World.contained]
      split at joins
      · rename_i join stack
        rw [stack]
      · rename_i stack
        rw [stack]
        obtain ⟨_, root, target, phase⟩ :=
          shaped.root (stack ▸ List.mem_singleton.mpr rfl)
        simp [Executor.rootEnds, phase]
      · cases joins
  | executor move =>
      cases move with
      | send =>
          simp only [Contained, World.contained, Executor.admits]
          split
          · rename_i root schedule phase own
            simp [(quiet.expiring root phase).1]
          · rfl
      | _ => rfl
  | plan => exact quiet.plan_contained covered step
  | _ => rfl

theorem run_quiet (reach : machine.Reach JoinsOnly (initial clock os) world) :
    machine.Reach Contained (initial clock os) world ∧ world.Quiet := by
  induction reach with
  | refl => exact ⟨.refl, quiet_initial⟩
  | step label before joins step ih =>
      obtain ⟨reach, quiet⟩ := ih
      have covered := run_covered before
      have contained := quiet.contained joins (run_shaped before) covered step
      exact ⟨.step label reach contained step,
        quiet.step joins.scheduled (run_placed before) covered (stepped_of_step step)⟩

end World

end Asyncr
