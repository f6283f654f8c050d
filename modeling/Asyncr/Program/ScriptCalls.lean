import Asyncr.Program.ScriptStrain

namespace Asyncr

open Library
open Time

/-! The call of `block_on` that a program of blocks is in. -/

namespace Scheduling

variable {scheduling next : Scheduling}

theorem step_sending {change : ScheduleStep} (stepped : scheduling.step change = some next)
    (home : ∀ schedule, change ≠ .remoteWake schedule ∧ change ≠ .remoteSend schedule) :
    next.sending = scheduling.sending := by
  cases change with
  | remoteWake target => exact absurd rfl (home target).1
  | remoteSend target => exact absurd rfl (home target).2
  | wake target =>
      simp only [step, Option.ite_none_right_eq_some, Option.some.injEq] at stepped
      obtain ⟨_, rfl⟩ := stepped
      simp [thenSend]
  | send =>
      simp only [step] at stepped
      split at stepped
      · cases stepped
        simp
      · cases stepped
  | create id =>
      simp only [step, Option.ite_none_right_eq_some, Option.some.injEq] at stepped
      obtain ⟨_, rfl⟩ := stepped
      simp [thenSend, create, setSchedule]
  | receive =>
      obtain ⟨_, _, _, _, _, rfl⟩ := step_receive stepped
      rfl
  | reject =>
      rw [step_reject stepped]
  | beginPoll target =>
      obtain ⟨entry, _, _, rfl⟩ := step_beginPoll stepped
      unfold beginPoll
      split <;> rfl
  | finishPoll target result =>
      simp only [step, Option.ite_none_right_eq_some, Option.some.injEq] at stepped
      obtain ⟨_, rfl⟩ := stepped
      unfold thenSend finishPoll
      split <;> rfl
  | unwind target | disconnect =>
      simp only [step, Option.ite_none_right_eq_some, Option.some.injEq] at stepped
      obtain ⟨_, rfl⟩ := stepped
      rfl

end Scheduling

namespace Executor

variable {executor next : Executor} {move : Move}

theorem Moved.sending_eq (moved : Moved executor move next)
    (home : ∀ schedule, move ≠ .remoteWake schedule ∧ move ≠ .remoteSend schedule) :
    next.scheduling.sending = executor.scheduling.sending := by
  cases moved with
  | remoteWake change => exact absurd rfl (home _).1
  | remoteSend change => exact absurd rfl (home _).2
  | wake _ change | send change | submitted _ _ change | blockOn _ change
  | tryReceived _ change | received _ change | notAdmitted _ _ _ change
  | notBegun _ _ _ _ change | began _ _ _ _ change | notFinished _ _ change
  | suspended _ _ change | rootReady _ _ change | taskReady _ _ _ change
  | pollPanicked _ change | released _ _ change | leaked _ change =>
      exact Scheduling.step_sending change (by simp)
  | _ => rfl

theorem Moved.root_on (moved : Moved executor move next) {root : Nat}
    (active : executor.phase.root? = some root) :
    next.phase.root? = some root ∨ next.phase = .unwinding ∨ next.phase = .outside := by
  cases moved with
  | blockOn phase | closed phase | cleared phase | torn phase | destroyed phase
  | released phase | leaked phase | unwound phase | clearingPanicked phase
  | tearingPanicked phase | droppedPanicked phase =>
      rw [phase] at active
      cases active
  | remoteWake | remoteSend | wake | send | refused | submitted => exact Or.inl active
  | drain phase | settle phase | foundEmpty phase | tryReceived phase | received phase
  | retry phase | began phase | suspended phase | rootReady phase | taskReady phase =>
      rw [phase] at active
      exact Or.inl active
  | notAdmitted | notBegun | notFinished | pollPanicked | wakerPanicked | waitPanicked
  | leavingPanicked => exact Or.inr (Or.inl rfl)
  | left => exact Or.inr (Or.inr rfl)

theorem Moved.unwinding_on (moved : Moved executor move next)
    (unwinds : executor.phase = .unwinding) :
    next.phase = .unwinding ∨ next.phase = .outside := by
  cases moved with
  | remoteWake | remoteSend | wake | send | refused | submitted => exact Or.inl unwinds
  | unwound => exact Or.inr rfl
  | blockOn phase | closed phase | cleared phase | torn phase | destroyed phase
  | released phase | drain phase | settle phase | foundEmpty phase | tryReceived phase
  | received phase | retry phase | began phase | suspended phase | rootReady phase
  | taskReady phase | left phase | notAdmitted phase | notBegun phase | notFinished phase
  | pollPanicked phase | wakerPanicked phase | waitPanicked phase
  | leavingPanicked phase | clearingPanicked phase | tearingPanicked phase
  | droppedPanicked phase | leaked phase => cases unwinds.symm.trans phase

theorem Moved.unclosing_on (moved : Moved executor move next)
    (inside : executor.phase ≠ .outside) (unclosing : executor.phase.closing = false) :
    next.phase.closing = false := by
  cases moved with
  | closed phase => exact absurd phase inside
  | cleared phase | torn phase | destroyed phase | released phase | leaked phase
  | clearingPanicked phase | tearingPanicked phase | droppedPanicked phase =>
      rw [phase] at unclosing
      cases unclosing
  | remoteWake | remoteSend | wake | send | refused | submitted => exact unclosing
  | _ => rfl

theorem Moved.leaving_back (moved : Moved executor move next) {root : Nat}
    (leaves : next.phase = .leaving root) :
    executor.phase = .leaving root ∨ move = .endPoll (.ready ()) ∧
      ∃ target, executor.phase = .polling root rootTaskId target := by
  cases moved with
  | rootReady phase =>
      cases leaves
      exact Or.inr ⟨rfl, _, phase⟩
  | remoteWake | remoteSend | wake | send | refused | submitted | cleared | destroyed =>
      exact Or.inl leaves
  | _ => cases leaves

theorem Moved.outside_back (moved : Moved executor move next)
    (outside : next.phase = .outside) :
    executor.phase = .outside ∨ executor.phase = .unwinding ∨
      ∃ root, executor.phase = .leaving root := by
  cases moved with
  | unwound phase => exact Or.inr (Or.inl phase)
  | left phase => exact Or.inr (Or.inr ⟨_, phase⟩)
  | remoteWake | remoteSend | wake | send | refused | submitted | cleared | destroyed =>
      exact Or.inl outside
  | _ => cases outside

end Executor

namespace World

variable {Output : Type} {world next : World Output} {label : Label Output}

theorem Stepped.root_poll_ends (stepped : Stepped world label next)
    (polling : world.executor.Polling) (polled : world.RootPolled) {root target : Nat}
    (phase : world.executor.phase = .polling root rootTaskId target)
    (ends : next.executor.phase = .unwinding ∨
      ∃ other, next.executor.phase = .leaving other) :
    label = .panic ∨ label = .rootYield (.ready ()) := by
  have stack := polled root target phase
  have finishes := polling.finishes phase
  have moves : next.executor.phase = world.executor.phase →
      label = .panic ∨ label = .rootYield (.ready ()) := by
    intro same
    rw [same, phase] at ends
    rcases ends with other | ⟨_, other⟩ <;> cases other
  cases stepped with
  | unwound free fails unwinds step =>
      cases fails with
      | code other outermost => exact Or.inl rfl
      | poisoned woken poisoned =>
          rw [stack] at woken
          cases woken
      | published other found twice => cases stack.symm.trans other
  | @rootYielded result executor free other step =>
      cases Executor.moved_of_step step with
      | notFinished again fails change =>
          cases phase.symm.trans again
          obtain ⟨action, ok⟩ := finishes result
          cases fails.symm.trans ok
      | suspended again => rcases ends with other | ⟨_, other⟩ <;> cases other
      | rootReady again => exact Or.inr rfl
      | taskReady again => rcases ends with other | ⟨_, other⟩ <;> cases other
  | suspended free other step => cases stack.symm.trans other
  | finished free again notRoot other step => cases stack.symm.trans other
  | moved permitted step =>
      exact moves (phase_of_permitted permitted step (by simp [stack]))
  | wokeTask free woken =>
      rw [stack] at woken
      cases woken
  | spawned runs unclosed step =>
      cases Executor.moved_of_step step with
      | refused | submitted => exact moves rfl
  | drained step | began step | notBegun step other | received held step
  | timedOut held step =>
      cases Executor.moved_of_step step with
      | _ again => cases phase.symm.trans again
  | jumped waits | stuck waits => cases phase.symm.trans waits
  | cleared other | destroyed other => cases stack.symm.trans other
  | _ => exact moves rfl

end World

theorem Future.Turned.ends_back {Output : Type} {future : Future Output}
    {world : World Output} {schedule : Nat} {root : Bool} {turn : Turn Output}
    (turned : future.Turned world schedule root turn)
    (last : turn.label = .panic ∨ turn.label = .rootYield (.ready ())) :
    ∃ result, turn.left = .ended result := by
  cases left : turn.left with
  | ended result => exact ⟨result, rfl⟩
  | going after =>
      rcases turned.going_asks left with asks | yields | yields
      · rcases last with isLast | isLast <;> rw [isLast] at asks <;> cases asks
      · rcases last with isLast | isLast <;> cases isLast.symm.trans yields
      · rcases last with isLast | isLast <;> cases isLast.symm.trans yields

namespace Scripted

variable {Output : Type} {state next : Scripted Output} {schedule root : Nat}
  {main : Nat → Script Output} {choice : Choice Output} {clock : Clock} {os : Instant}
  {allowed : Scripted Output → Choice Output → Prop}

theorem Advanced.ended_on (advanced : Advanced state choice next) (managed : state.Managed)
    {result : Except JoinError Output} (ended : state.blocks schedule = .ended result) :
    next.blocks schedule = .ended result := by
  cases advanced with
  | runtime | returned => exact ended
  | @polled polled _ _ _ _ turn world _ _ _ going _ _ =>
      have different : schedule ≠ polled := by
        rintro rfl
        cases going.symm.trans ended
      rcases take_other state turn world different with ⟨same, _⟩ | ⟨rfl, _⟩
      · exact same.trans ended
      · obtain ⟨script, fresh⟩ := managed.owning.uncreated _ (Nat.le_refl _)
        cases fresh.symm.trans ended

theorem Advanced.root_ended (advanced : Advanced state choice next)
    (managed : state.Managed) (polled : state.world.RootPolled) {target : Nat}
    (phase : state.world.executor.phase = .polling root rootTaskId target)
    (ends : next.world.executor.phase = .unwinding ∨
      ∃ other, next.world.executor.phase = .leaving other) :
    ∃ result, next.blocks root = .ended result := by
  have final : ∀ {label : Label Output}, World.Stepped state.world label next.world →
      label = .panic ∨ label = .rootYield (.ready ()) := fun stepped =>
    stepped.root_poll_ends managed.orderly.sound.polling polled phase ends
  have same := (managed.orderly.sound.coherent.polled root _ target phase).2.2 rfl
  cases advanced with
  | runtime home step =>
      rcases final (World.stepped_of_step step) with rfl | rfl <;> cases home
  | returned step =>
      rcases final (World.stepped_of_step step) with other | other <;> cases other
  | @polled schedule _ _ _ _ turn world isPolled _ _ _ turned step =>
      rw [phase] at isPolled
      cases isPolled
      subst same
      obtain ⟨result, left⟩ : ∃ result, turn.left = .ended result := by
        apply turned.ends_back
        apply final
        rw [take_world]
        exact World.stepped_of_step step
      exact ⟨result, (take_self ..).trans left⟩

/-- A call that leaves has ended its root. -/
def Over (state : Scripted Output) : Prop :=
  ∀ root, state.world.executor.phase = .leaving root →
    ∃ result, state.blocks root = .ended result

theorem Over.step (ends : state.Over) (managed : state.Managed)
    (polled : state.world.RootPolled) (advanced : Advanced state choice next) :
    next.Over := by
  intro root leaves
  have before : state.world.executor.phase = .leaving root →
      ∃ result, next.blocks root = .ended result := by
    intro leaving
    obtain ⟨result, ended⟩ := ends root leaving
    exact ⟨result, advanced.ended_on managed ended⟩
  obtain ⟨label, stepped⟩ := advanced.stepped
  rcases stepped.takes with same | ⟨move, _, step⟩
  · exact before (same ▸ leaves)
  · rcases (Executor.moved_of_step step).leaving_back leaves with
      leaving | ⟨_, target, phase⟩
    · exact before leaving
    · exact advanced.root_ended managed polled phase (Or.inr ⟨root, leaves⟩)

structure Calls (main : Nat → Script Output) (root : Nat) (state : Scripted Output) :
    Prop where
  created : root < state.world.executor.scheduling.created
  script : state.scripts root = main root
  leaving : state.Over
  inside : state.world.executor.phase.root? = some root ∨
    (state.world.executor.phase = .unwinding ∨ state.world.executor.phase = .outside) ∧
      ∃ result, state.blocks root = .ended result

theorem Advanced.script_on (advanced : Advanced state choice next)
    (below : schedule < state.world.executor.scheduling.created) :
    next.scripts schedule = state.scripts schedule := by
  cases advanced with
  | runtime | returned => rfl
  | polled =>
      unfold take
      split
      · exact Function.update_of_ne (Nat.ne_of_lt below) ..
      · rfl

theorem Calls.step (calls : state.Calls main root) (managed : state.Managed)
    (tidy : state.world.Tidy) (few : state.world.executor.spawned < 2 ^ 64 - 1)
    (polled : state.world.RootPolled) (advanced : Advanced state choice next)
    {label : Label Output} (stepped : World.Stepped state.world label next.world)
    (contained : state.world.Contained label)
    (active : state.world.executor.phase ≠ .outside) : next.Calls main root := by
  have kept : (∃ result, state.blocks root = .ended result) →
      ∃ result, next.blocks root = .ended result := by
    rintro ⟨result, ended⟩
    exact ⟨result, advanced.ended_on managed ended⟩
  have left : ∀ {other : Nat}, state.world.executor.phase.root? = some root →
      state.world.executor.phase = .leaving other →
      ∃ result, next.blocks root = .ended result := by
    intro other inside leaving
    rw [leaving] at inside
    cases inside
    exact kept (calls.leaving root leaving)
  refine ⟨Nat.lt_of_lt_of_le calls.created stepped.created_le,
    (advanced.script_on calls.created).trans calls.script,
    calls.leaving.step managed polled advanced, ?_⟩
  rcases calls.inside with inside | ⟨phase, ended⟩
  · rcases stepped.takes with same | ⟨move, _, step⟩
    · exact Or.inl (same ▸ inside)
    · rcases (Executor.moved_of_step step).root_on inside with on | unwinds | outside
      · exact Or.inl on
      · refine Or.inr ⟨Or.inl unwinds, ?_⟩
        rcases tidy.unwinding few contained stepped unwinds with
          before | ⟨other, target, phase⟩ | ⟨other, leaving⟩
        · rw [before] at inside
          cases inside
        · rw [phase] at inside
          cases inside
          exact advanced.root_ended managed polled phase (Or.inl unwinds)
        · exact left inside leaving
      · refine Or.inr ⟨Or.inr outside, ?_⟩
        rcases (Executor.moved_of_step step).outside_back outside with
          before | before | ⟨other, leaving⟩
        · exact absurd before active
        · rw [before] at inside
          cases inside
        · exact left inside leaving
  · have unwinds := phase.resolve_right active
    refine Or.inr ⟨?_, kept ended⟩
    rcases stepped.takes with same | ⟨move, _, step⟩
    · exact Or.inl (same ▸ unwinds)
    · exact (Executor.moved_of_step step).unwinding_on unwinds

theorem unsent_on {label : Label Output}
    (stepped : World.Stepped state.world label next.world)
    (home : ∀ schedule, label ≠ .executor (.remoteWake schedule) ∧
      label ≠ .executor (.remoteSend schedule))
    (unsent : state.world.executor.scheduling.sending = []) :
    next.world.executor.scheduling.sending = [] := by
  rcases stepped.takes with same | ⟨move, takes, moved⟩
  · rw [same, unsent]
  · rw [← unsent]
    apply (Executor.moved_of_step moved).sending_eq
    intro schedule
    constructor
    · rintro rfl
      cases takes with
      | permitted => exact (home schedule).1 rfl
    · rintro rfl
      cases takes with
      | permitted => exact (home schedule).2 rfl

theorem run_unsent (reach : machine.Reach allowed (start main clock os) state) :
    state.world.executor.scheduling.sending = [] := by
  induction reach with
  | refl => rfl
  | @step state next choice _ _ taken ih =>
      cases advanced_of_step taken with
      | runtime isHome step =>
          refine unsent_on (World.stepped_of_step step) ?_ ih
          intro schedule
          constructor
          all_goals
            rintro rfl
            cases isHome
      | returned step => exact unsent_on (World.stepped_of_step step) (by simp) ih
      | @polled _ _ _ _ _ turn world _ _ _ _ turned step =>
          have stepped := World.stepped_of_step step
          rw [← take_world state _ turn world] at stepped
          exact unsent_on stepped (fun _ => ⟨turned.abroad.2 _, turned.abroad.2 _⟩) ih

theorem run_over (reach : machine.Reach allowed (start main clock os) state)
    (few : state.world.executor.spawned < 2 ^ 64 - 1)
    (timed : state.world.time.registered < 2 ^ 64) :
    state.Over ∧ state.world.RootPolled := by
  apply run_invariant reach few timed
  · refine ⟨?_, ?_⟩
    · intro root leaves
      cases leaves
    · intro root target phase
      cases phase
  · rintro state choice next managed _ _ ⟨ends, polled⟩ advanced _
    obtain ⟨label, stepped⟩ := advanced.stepped
    have orderly := managed.orderly
    exact ⟨ends.step managed polled advanced,
      stepped.rootPolled orderly.sound.closing orderly.placed polled⟩

end Scripted

end Asyncr
