import Asyncr.Scheduling.Channel

namespace Asyncr

namespace Scheduling

variable {scheduling next : Scheduling} {schedule : Nat}

/-! No step changes the id of a schedule, and only `create` adds one. -/

@[simp] theorem id_wakeSection (scheduling : Scheduling) (target schedule : Nat) :
    ((scheduling.wakeSection target).1.schedules schedule).id =
      (scheduling.schedules schedule).id := by
  cases poisoned : (scheduling.schedules target).poisoned with
  | true => rw [wakeSection_poisoned poisoned]
  | false =>
      rw [wakeSection_unpoisoned poisoned]
      exact id_setSchedule scheduling target _ (by rfl) schedule

theorem id_beginPoll (scheduling : Scheduling) (target : Nat)
    (entry : ReadyEntry) (schedule : Nat) :
    ((scheduling.beginPoll target entry).schedules schedule).id =
      (scheduling.schedules schedule).id := by
  by_cases begins : (scheduling.schedules target).poisoned = false ∧
      scheduling.state target = .queued
  · rw [beginPoll_ok begins.1 begins.2]
    exact id_setSchedule scheduling target _ (by rfl) schedule
  · rw [not_and_or, Bool.not_eq_false] at begins
    obtain ⟨changed, same, _, failed⟩ := beginPoll_error begins entry
    rw [failed]
    exact id_setSchedule scheduling target changed same schedule

theorem id_finishPoll (scheduling : Scheduling) (target : Nat)
    (result : Poll Unit) (schedule : Nat) :
    ((scheduling.finishPoll target result).1.schedules schedule).id =
      (scheduling.schedules schedule).id := by
  by_cases finishes : (scheduling.schedules target).poisoned = false ∧
      ∃ notified, scheduling.state target = .running notified
  · obtain ⟨unpoisoned, notified, running⟩ := finishes
    rw [finishPoll_running unpoisoned running]
    exact id_setSchedule scheduling target _ (by rfl) schedule
  · rw [not_and_or, Bool.not_eq_false, not_exists] at finishes
    obtain ⟨changed, same, _, failed⟩ := finishPoll_error finishes result
    rw [failed]
    exact id_setSchedule scheduling target changed same schedule

/-- The id a step gives to a new schedule. -/
def created? : ScheduleStep → Option Id
  | .create id => some id
  | _ => none

theorem step_ids {change : ScheduleStep} (old : created? change = none)
    (stepped : scheduling.step change = some next) :
    next.created = scheduling.created ∧
      ∀ schedule, (next.schedules schedule).id =
        (scheduling.schedules schedule).id := by
  cases change with
  | remoteWake target =>
      simp only [step, Option.ite_none_right_eq_some, Option.some.injEq] at stepped
      obtain ⟨_, rfl⟩ := stepped
      exact ⟨wakeSection_created _ _, id_wakeSection _ _⟩
  | remoteSend target =>
      simp only [step, Option.ite_none_right_eq_some, Option.some.injEq] at stepped
      obtain ⟨_, rfl⟩ := stepped
      exact ⟨sendReady_created _ _, fun schedule => by simp⟩
  | wake target =>
      simp only [step, Option.ite_none_right_eq_some, Option.some.injEq] at stepped
      obtain ⟨_, rfl⟩ := stepped
      exact ⟨wakeSection_created _ _, id_wakeSection _ _⟩
  | send =>
      simp only [step] at stepped
      split at stepped
      · cases stepped
        exact ⟨sendReady_created _ _, fun schedule => by simp⟩
      · cases stepped
  | create id => cases old
  | receive =>
      simp only [step] at stepped
      split at stepped
      · cases stepped
        exact ⟨rfl, fun _ => rfl⟩
      · cases stepped
  | reject =>
      simp only [step] at stepped
      split at stepped
      · cases stepped
        exact ⟨rfl, fun _ => rfl⟩
      · cases stepped
  | beginPoll target =>
      simp only [step] at stepped
      split at stepped
      · rename_i entry idle holds
        cases stepped
        refine ⟨?_, id_beginPoll scheduling target entry⟩
        unfold Scheduling.beginPoll
        split <;> rfl
      · cases stepped
  | finishPoll target result =>
      simp only [step, Option.ite_none_right_eq_some, Option.some.injEq] at stepped
      obtain ⟨_, rfl⟩ := stepped
      refine ⟨?_, id_finishPoll scheduling target result⟩
      unfold thenSend Scheduling.finishPoll
      split <;> rfl
  | unwind target =>
      simp only [step, Option.ite_none_right_eq_some, Option.some.injEq] at stepped
      obtain ⟨_, rfl⟩ := stepped
      exact ⟨rfl, fun _ => rfl⟩
  | disconnect =>
      simp only [step, Option.ite_none_right_eq_some, Option.some.injEq] at stepped
      obtain ⟨_, rfl⟩ := stepped
      exact ⟨rfl, fun _ => rfl⟩

theorem step_create {id : Id}
    (stepped : scheduling.step (.create id) = some next) :
    next = { scheduling.setSchedule scheduling.created
          { TaskSchedule.new id with state := .queued } with
        created := scheduling.created + 1
        own := some scheduling.created
        log := .woken scheduling.created :: scheduling.log } := by
  simp only [step, Option.ite_none_right_eq_some, Option.some.injEq] at stepped
  obtain ⟨_, rfl⟩ := stepped
  simp [create, thenSend, wakeSection, setSchedule, TaskSchedule.new,
    TaskSchedule.wake, ScheduleState.wake]

theorem step_receive (stepped : scheduling.step .receive = some next) :
    ∃ entry rest, scheduling.ready = entry :: rest ∧ scheduling.own = none ∧
      scheduling.taken = none ∧
      next = { scheduling with ready := rest, taken := some entry } := by
  simp only [step] at stepped
  split at stepped
  · rename_i entry rest idle free waiting
    cases stepped
    exact ⟨entry, rest, waiting, idle, free, rfl⟩
  · cases stepped

theorem step_reject (stepped : scheduling.step .reject = some next) :
    next = { scheduling with taken := none } := by
  simp only [step] at stepped
  split at stepped
  · cases stepped
    rfl
  · cases stepped

theorem step_beginPoll {target : Nat}
    (stepped : scheduling.step (.beginPoll target) = some next) :
    ∃ entry, scheduling.taken = some entry ∧ scheduling.own = none ∧
      next = scheduling.beginPoll target entry := by
  simp only [step] at stepped
  split at stepped
  · rename_i entry idle holds
    cases stepped
    exact ⟨entry, holds, idle, rfl⟩
  · cases stepped

theorem beginPoll_failed {target : Nat} {panic : Panic}
    (fails : ((scheduling.schedules target).beginPoll).2 = .error panic) :
    (scheduling.schedules target).poisoned = true ∨
      scheduling.state target ≠ .queued := by
  by_contra both
  rw [not_or, not_not, Bool.not_eq_true] at both
  have current : (scheduling.schedules target).state = .queued := both.2
  simp [TaskSchedule.beginPoll, both.1, current, ScheduleState.beginPoll] at fails

theorem beginPoll_begun {target : Nat}
    (begins : ((scheduling.schedules target).beginPoll).2 = .ok ()) :
    (scheduling.schedules target).poisoned = false ∧
      scheduling.state target = .queued := by
  cases poisoned : (scheduling.schedules target).poisoned with
  | true => simp [TaskSchedule.beginPoll, poisoned] at begins
  | false =>
      refine ⟨rfl, ?_⟩
      unfold state
      cases current : (scheduling.schedules target).state with
      | queued => rfl
      | _ => simp [TaskSchedule.beginPoll, poisoned, current,
          ScheduleState.beginPoll] at begins

theorem step_notBegun {target : Nat} {panic : Panic}
    (fails : ((scheduling.schedules target).beginPoll).2 = .error panic)
    (stepped : scheduling.step (.beginPoll target) = some next) :
    next.log = scheduling.log ∧
      ∀ schedule, next.state schedule = scheduling.state schedule := by
  obtain ⟨entry, _, _, rfl⟩ := step_beginPoll stepped
  obtain ⟨changed, _, same, failed⟩ :=
    beginPoll_error (beginPoll_failed fails) entry
  rw [failed]
  refine ⟨rfl, ?_⟩
  intro schedule
  refine (state_setSchedule scheduling target changed schedule).trans ?_
  split
  · rename_i equal
    rw [same, equal]
  · rfl

theorem step_taken {change : ScheduleStep} (keeps : change ≠ .receive)
    (stepped : scheduling.step change = some next) :
    next.taken = scheduling.taken ∨ next.taken = none := by
  cases change with
  | remoteWake target =>
      simp only [step, Option.ite_none_right_eq_some, Option.some.injEq] at stepped
      obtain ⟨_, rfl⟩ := stepped
      exact Or.inl (wakeSection_taken _ _)
  | remoteSend target =>
      simp only [step, Option.ite_none_right_eq_some, Option.some.injEq] at stepped
      obtain ⟨_, rfl⟩ := stepped
      exact Or.inl (sendReady_taken _ _)
  | wake target =>
      simp only [step, Option.ite_none_right_eq_some, Option.some.injEq] at stepped
      obtain ⟨_, rfl⟩ := stepped
      exact Or.inl (wakeSection_taken _ _)
  | send =>
      simp only [step] at stepped
      split at stepped
      · cases stepped
        exact Or.inl (sendReady_taken _ _)
      · cases stepped
  | create id =>
      rw [step_create stepped]
      exact Or.inl rfl
  | receive => exact absurd rfl keeps
  | reject =>
      simp only [step] at stepped
      split at stepped
      · cases stepped
        exact Or.inr rfl
      · cases stepped
  | beginPoll target =>
      simp only [step] at stepped
      split at stepped
      · cases stepped
        unfold Scheduling.beginPoll
        split
        · exact Or.inr rfl
        · exact Or.inr rfl
      · cases stepped
  | finishPoll target result =>
      simp only [step, Option.ite_none_right_eq_some, Option.some.injEq] at stepped
      obtain ⟨_, rfl⟩ := stepped
      unfold thenSend Scheduling.finishPoll
      split
      · exact Or.inl rfl
      · exact Or.inl rfl
  | unwind target =>
      simp only [step, Option.ite_none_right_eq_some, Option.some.injEq] at stepped
      obtain ⟨_, rfl⟩ := stepped
      exact Or.inl rfl
  | disconnect =>
      simp only [step, Option.ite_none_right_eq_some, Option.some.injEq] at stepped
      obtain ⟨_, rfl⟩ := stepped
      exact Or.inl rfl

theorem step_ids_below {change : ScheduleStep}
    (stepped : scheduling.step change = some next) :
    scheduling.created ≤ next.created ∧
      ∀ schedule, schedule < scheduling.created →
        (next.schedules schedule).id = (scheduling.schedules schedule).id := by
  cases old : created? change with
  | none =>
      obtain ⟨created, ids⟩ := step_ids old stepped
      exact ⟨Nat.le_of_eq created.symm, fun schedule _ => ids schedule⟩
  | some id =>
      cases change with
      | create =>
          rw [step_create stepped]
          refine ⟨Nat.le_succ _, ?_⟩
          intro schedule below
          exact congrArg TaskSchedule.id
            (schedules_setSchedule_of_ne (Nat.ne_of_lt below) _)
      | _ => cases old

theorem step_ready {change : ScheduleStep}
    (stepped : scheduling.step change = some next)
    (unreceived : change ≠ .receive) (attached : change ≠ .disconnect) :
    next.ready = scheduling.ready ∨
      ∃ schedule, next.ready = scheduling.ready ++
          [⟨(scheduling.schedules schedule).id, schedule⟩] ∧
        (change = .remoteSend schedule ∧ schedule ∈ scheduling.sending ∨
          change = .send ∧ scheduling.own = some schedule) := by
  have sent : ∀ target,
      (scheduling.sendReady target).ready = scheduling.ready ∨
        (scheduling.sendReady target).ready = scheduling.ready ++
          [⟨(scheduling.schedules target).id, target⟩] := by
    intro target
    unfold sendReady
    split
    · exact Or.inr rfl
    · exact Or.inl rfl
  cases change with
  | remoteWake target =>
      simp only [step, Option.ite_none_right_eq_some, Option.some.injEq] at stepped
      obtain ⟨_, rfl⟩ := stepped
      exact Or.inl (wakeSection_ready _ _)
  | remoteSend target =>
      simp only [step, Option.ite_none_right_eq_some, Option.some.injEq] at stepped
      obtain ⟨member, rfl⟩ := stepped
      exact (sent target).imp_right fun grown =>
        ⟨target, grown, Or.inl ⟨rfl, member⟩⟩
  | wake target =>
      simp only [step, Option.ite_none_right_eq_some, Option.some.injEq] at stepped
      obtain ⟨_, rfl⟩ := stepped
      exact Or.inl (wakeSection_ready _ _)
  | send =>
      simp only [step] at stepped
      split at stepped
      · rename_i target holds
        cases stepped
        exact (sent target).imp_right fun grown =>
          ⟨target, grown, Or.inr ⟨rfl, holds⟩⟩
      · cases stepped
  | create id =>
      rw [step_create stepped]
      exact Or.inl rfl
  | receive => exact absurd rfl unreceived
  | reject =>
      rw [step_reject stepped]
      exact Or.inl rfl
  | beginPoll target =>
      obtain ⟨entry, _, _, rfl⟩ := step_beginPoll stepped
      left
      unfold Scheduling.beginPoll
      split <;> rfl
  | finishPoll target result =>
      simp only [step, Option.ite_none_right_eq_some, Option.some.injEq] at stepped
      obtain ⟨_, rfl⟩ := stepped
      left
      unfold thenSend Scheduling.finishPoll
      split <;> rfl
  | unwind target =>
      simp only [step, Option.ite_none_right_eq_some, Option.some.injEq] at stepped
      obtain ⟨_, rfl⟩ := stepped
      exact Or.inl rfl
  | disconnect => exact absurd rfl attached

theorem step_remote_own {change : ScheduleStep} {target : Nat}
    (remote : change = .remoteWake target ∨ change = .remoteSend target)
    (stepped : scheduling.step change = some next) :
    next.own = scheduling.own := by
  rcases remote with rfl | rfl
  · simp only [step, Option.ite_none_right_eq_some, Option.some.injEq] at stepped
    obtain ⟨_, rfl⟩ := stepped
    exact wakeSection_own _ _
  · simp only [step, Option.ite_none_right_eq_some, Option.some.injEq] at stepped
    obtain ⟨_, rfl⟩ := stepped
    exact sendReady_own _ _

theorem step_wake_own {target : Nat}
    (stepped : scheduling.step (.wake target) = some next) :
    scheduling.own = none := by
  simp only [step, Option.ite_none_right_eq_some, Option.some.injEq] at stepped
  exact stepped.1.1

theorem step_send (connected : scheduling.connected = true)
    (stepped : scheduling.step .send = some next) :
    ∃ schedule, scheduling.own = some schedule ∧ next.own = none ∧
      next.ready = scheduling.ready ++
        [⟨(scheduling.schedules schedule).id, schedule⟩] := by
  simp only [step] at stepped
  split at stepped
  · rename_i target holds
    cases stepped
    exact ⟨target, holds, rfl, sendReady_ready connected target⟩
  · cases stepped

theorem step_connected {change : ScheduleStep}
    (stepped : scheduling.step change = some next)
    (attached : change ≠ .disconnect) :
    next.connected = scheduling.connected := by
  cases change with
  | remoteWake target =>
      simp only [step, Option.ite_none_right_eq_some, Option.some.injEq] at stepped
      obtain ⟨_, rfl⟩ := stepped
      exact wakeSection_connected _ _
  | remoteSend target =>
      simp only [step, Option.ite_none_right_eq_some, Option.some.injEq] at stepped
      obtain ⟨_, rfl⟩ := stepped
      exact sendReady_connected _ _
  | wake target =>
      simp only [step, Option.ite_none_right_eq_some, Option.some.injEq] at stepped
      obtain ⟨_, rfl⟩ := stepped
      exact wakeSection_connected _ _
  | send =>
      simp only [step] at stepped
      split at stepped
      · cases stepped
        exact sendReady_connected _ _
      · cases stepped
  | create id => rw [step_create stepped]; rfl
  | receive =>
      obtain ⟨_, _, _, _, _, rfl⟩ := step_receive stepped
      rfl
  | reject => rw [step_reject stepped]
  | beginPoll target =>
      obtain ⟨entry, _, _, rfl⟩ := step_beginPoll stepped
      unfold Scheduling.beginPoll
      split <;> rfl
  | finishPoll target result =>
      simp only [step, Option.ite_none_right_eq_some, Option.some.injEq] at stepped
      obtain ⟨_, rfl⟩ := stepped
      unfold thenSend Scheduling.finishPoll
      split <;> rfl
  | unwind target =>
      simp only [step, Option.ite_none_right_eq_some, Option.some.injEq] at stepped
      obtain ⟨_, rfl⟩ := stepped
      rfl
  | disconnect => exact absurd rfl attached

/-! What a step can do to the state of one schedule. -/

theorem state_wakeSection (scheduling : Scheduling) (target schedule : Nat) :
    (scheduling.wakeSection target).1.state schedule =
        scheduling.state schedule ∨
      target = schedule ∧ (scheduling.wakeSection target).1.state schedule =
        (scheduling.state schedule).wake.1 := by
  cases poisoned : (scheduling.schedules target).poisoned with
  | true =>
      rw [wakeSection_poisoned poisoned]
      exact Or.inl rfl
  | false =>
      rw [wakeSection_unpoisoned poisoned]
      cases decEq schedule target with
      | isTrue same =>
          subst same
          right
          refine ⟨rfl, ?_⟩
          change (scheduling.setSchedule schedule _).state schedule = _
          rw [state_setSchedule, if_pos rfl]
      | isFalse different =>
          left
          change (scheduling.setSchedule target _).state schedule = _
          rw [state_setSchedule, if_neg different]

/-- The transitions of one schedule in one step. -/
inductive Transition (schedule : Nat) :
    ScheduleStep → ScheduleState → ScheduleState → Prop
  | same {change : ScheduleStep} {state : ScheduleState} :
      Transition schedule change state state
  | woken {change : ScheduleStep} {state : ScheduleState} :
      Transition schedule change state state.wake.1
  | created {id : Id} : Transition schedule (.create id) .idle .queued
  | began : Transition schedule (.beginPoll schedule) .queued (.running false)
  | finished {notified : Bool} {result : Poll Unit} :
      Transition schedule (.finishPoll schedule result) (.running notified)
        (Scheduling.finished notified result)

theorem step_transition {change : ScheduleStep} (fresh : scheduling.Fresh)
    (stepped : scheduling.step change = some next) (schedule : Nat) :
    Transition schedule change (scheduling.state schedule)
      (next.state schedule) := by
  have woken : ∀ {change : ScheduleStep} (target : Nat),
      Transition schedule change (scheduling.state schedule)
        ((scheduling.wakeSection target).1.state schedule) := by
    intro change target
    rcases state_wakeSection scheduling target schedule with same | ⟨_, moved⟩
    · rw [same]
      exact .same
    · rw [moved]
      exact .woken
  have set : ∀ {change : ScheduleStep} {target : Nat} {changed : TaskSchedule},
      changed.state = scheduling.state target →
      Transition schedule change (scheduling.state schedule)
        ((scheduling.setSchedule target changed).state schedule) := by
    intro change target changed same
    rw [state_setSchedule]
    split
    · rename_i equal
      rw [same, equal]
      exact .same
    · exact .same
  cases change with
  | remoteWake target =>
      simp only [step, Option.ite_none_right_eq_some, Option.some.injEq] at stepped
      obtain ⟨_, rfl⟩ := stepped
      exact woken target
  | remoteSend target =>
      simp only [step, Option.ite_none_right_eq_some, Option.some.injEq] at stepped
      obtain ⟨_, rfl⟩ := stepped
      simp only [state, sendReady_schedules]
      exact .same
  | wake target =>
      simp only [step, Option.ite_none_right_eq_some, Option.some.injEq] at stepped
      obtain ⟨_, rfl⟩ := stepped
      exact woken target
  | send =>
      simp only [step] at stepped
      split at stepped
      · cases stepped
        simp only [state, sendReady_schedules]
        exact .same
      · cases stepped
  | create id =>
      rw [step_create stepped]
      change Transition schedule _ _ ((scheduling.setSchedule _ _).state schedule)
      rw [state_setSchedule]
      split
      · rename_i same
        have before : scheduling.state schedule = .idle :=
          congrArg TaskSchedule.state (fresh schedule (Nat.le_of_eq same.symm))
        rw [before]
        exact .created
      · exact .same
  | receive =>
      obtain ⟨_, _, _, _, _, rfl⟩ := step_receive stepped
      exact .same
  | reject =>
      rw [step_reject stepped]
      exact .same
  | beginPoll target =>
      obtain ⟨entry, _, _, rfl⟩ := step_beginPoll stepped
      by_cases begins : (scheduling.schedules target).poisoned = false ∧
          scheduling.state target = .queued
      · rw [beginPoll_ok begins.1 begins.2]
        change Transition schedule _ _
          ((scheduling.setSchedule _ _).state schedule)
        rw [state_setSchedule]
        split
        · rename_i equal
          subst equal
          rw [begins.2]
          exact .began
        · exact .same
      · rw [not_and_or, Bool.not_eq_false] at begins
        obtain ⟨changed, _, same, failed⟩ := beginPoll_error begins entry
        rw [failed]
        exact set same
  | finishPoll target result =>
      simp only [step, Option.ite_none_right_eq_some, Option.some.injEq] at stepped
      obtain ⟨_, rfl⟩ := stepped
      by_cases finishes : (scheduling.schedules target).poisoned = false ∧
          ∃ notified, scheduling.state target = .running notified
      · obtain ⟨unpoisoned, notified, running⟩ := finishes
        rw [finishPoll_running unpoisoned running]
        change Transition schedule _ _
          ((scheduling.setSchedule _ _).state schedule)
        rw [state_setSchedule]
        split
        · rename_i equal
          subst equal
          rw [running]
          exact .finished
        · exact .same
      · rw [not_and_or, Bool.not_eq_false, not_exists] at finishes
        obtain ⟨changed, _, same, failed⟩ := finishPoll_error finishes result
        rw [failed]
        exact set same
  | unwind target =>
      simp only [step, Option.ite_none_right_eq_some, Option.some.injEq] at stepped
      obtain ⟨_, rfl⟩ := stepped
      exact .same
  | disconnect =>
      simp only [step, Option.ite_none_right_eq_some, Option.some.injEq] at stepped
      obtain ⟨_, rfl⟩ := stepped
      exact .same

theorem Transition.complete {change : ScheduleStep} {after : ScheduleState}
    (transition : Transition schedule change .complete after) :
    after = .complete := by
  generalize before : ScheduleState.complete = state at transition
  cases transition with
  | same => rfl
  | woken =>
      subst before
      rfl
  | created => cases before
  | began => cases before
  | finished => cases before

theorem Transition.running {change : ScheduleStep} {notified : Bool}
    {after : ScheduleState}
    (transition : Transition schedule change (.running notified) after)
    (unfinished : ∀ result, change ≠ .finishPoll schedule result) :
    ∃ later, after = .running later := by
  generalize before : ScheduleState.running notified = state at transition
  cases transition with
  | same => exact ⟨notified, before.symm⟩
  | woken =>
      subst before
      cases notified with
      | true => exact ⟨true, rfl⟩
      | false => exact ⟨true, rfl⟩
  | created => cases before
  | began => cases before
  | finished => exact absurd rfl (unfinished _)

theorem Transition.runs {change : ScheduleStep} {before : ScheduleState}
    {notified : Bool}
    (transition : Transition schedule change before (.running notified)) :
    (∃ earlier, before = .running earlier) ∨ change = .beginPoll schedule := by
  generalize result : ScheduleState.running notified = after at transition
  cases transition with
  | same => exact Or.inl ⟨notified, result.symm⟩
  | woken =>
      left
      cases before with
      | running earlier => exact ⟨earlier, rfl⟩
      | idle => cases result
      | queued => cases result
      | complete => cases result
  | created => cases result
  | began => exact Or.inr rfl
  | @finished _ outcome =>
      left
      exact ⟨_, rfl⟩

theorem step_ended {change : ScheduleStep} (fresh : scheduling.Fresh)
    (stepped : scheduling.step change = some next)
    (unfinished : ∀ result, change ≠ .finishPoll schedule result)
    (ended : scheduling.state schedule = .complete ∨
      ∃ notified, scheduling.state schedule = .running notified) :
    next.state schedule = .complete ∨
      ∃ notified, next.state schedule = .running notified := by
  have transition := step_transition fresh stepped schedule
  rcases ended with complete | ⟨notified, running⟩
  · rw [complete] at transition
    exact Or.inl transition.complete
  · rw [running] at transition
    exact Or.inr (transition.running unfinished)

theorem poisoned_setSchedule (scheduling : Scheduling) (target : Nat)
    (changed : TaskSchedule) (schedule : Nat) :
    ((scheduling.setSchedule target changed).schedules schedule).poisoned =
      if schedule = target then changed.poisoned
        else (scheduling.schedules schedule).poisoned := by
  cases decEq schedule target with
  | isTrue same => simp [setSchedule, same]
  | isFalse different =>
      rw [schedules_setSchedule_of_ne different, if_neg different]

theorem step_unpoisoned {change : ScheduleStep}
    (stepped : scheduling.step change = some next)
    (unpoisoned : (scheduling.schedules schedule).poisoned = false)
    (unbegun : change = .beginPoll schedule →
      scheduling.state schedule = .queued)
    (unfinished : ∀ result, change = .finishPoll schedule result →
      ∃ notified, scheduling.state schedule = .running notified) :
    (next.schedules schedule).poisoned = false := by
  have woken : ∀ target,
      ((scheduling.wakeSection target).1.schedules schedule).poisoned =
        false := by
    intro target
    cases poisoned : (scheduling.schedules target).poisoned with
    | true =>
        rw [wakeSection_poisoned poisoned]
        exact unpoisoned
    | false =>
        rw [wakeSection_unpoisoned poisoned]
        refine (poisoned_setSchedule scheduling target _ schedule).trans ?_
        split
        · exact poisoned
        · exact unpoisoned
  cases change with
  | remoteWake target =>
      simp only [step, Option.ite_none_right_eq_some, Option.some.injEq] at stepped
      obtain ⟨_, rfl⟩ := stepped
      exact woken target
  | remoteSend target =>
      simp only [step, Option.ite_none_right_eq_some, Option.some.injEq] at stepped
      obtain ⟨_, rfl⟩ := stepped
      simpa using unpoisoned
  | wake target =>
      simp only [step, Option.ite_none_right_eq_some, Option.some.injEq] at stepped
      obtain ⟨_, rfl⟩ := stepped
      exact woken target
  | send =>
      simp only [step] at stepped
      split at stepped
      · cases stepped
        simpa using unpoisoned
      · cases stepped
  | create id =>
      rw [step_create stepped]
      refine (poisoned_setSchedule scheduling _ _ schedule).trans ?_
      split
      · rfl
      · exact unpoisoned
  | receive =>
      obtain ⟨_, _, _, _, _, rfl⟩ := step_receive stepped
      exact unpoisoned
  | reject =>
      rw [step_reject stepped]
      exact unpoisoned
  | beginPoll target =>
      obtain ⟨entry, _, _, rfl⟩ := step_beginPoll stepped
      cases decEq schedule target with
      | isTrue same =>
          subst same
          rw [beginPoll_ok unpoisoned (unbegun rfl)]
          exact (poisoned_setSchedule _ _ _ _).trans (by simp [unpoisoned])
      | isFalse different =>
          unfold Scheduling.beginPoll
          split
          · exact (poisoned_setSchedule _ _ _ _).trans
              (by simp [different, unpoisoned])
          · exact (poisoned_setSchedule _ _ _ _).trans
              (by simp [different, unpoisoned])
  | finishPoll target result =>
      simp only [step, Option.ite_none_right_eq_some, Option.some.injEq] at stepped
      obtain ⟨_, rfl⟩ := stepped
      cases decEq schedule target with
      | isTrue same =>
          subst same
          obtain ⟨notified, running⟩ := unfinished result rfl
          rw [finishPoll_running unpoisoned running]
          exact (poisoned_setSchedule _ _ _ _).trans (by simp [unpoisoned])
      | isFalse different =>
          unfold thenSend Scheduling.finishPoll
          split
          · exact (poisoned_setSchedule _ _ _ _).trans
              (by simp [different, unpoisoned])
          · exact (poisoned_setSchedule _ _ _ _).trans
              (by simp [different, unpoisoned])
  | unwind target =>
      simp only [step, Option.ite_none_right_eq_some, Option.some.injEq] at stepped
      obtain ⟨_, rfl⟩ := stepped
      exact unpoisoned
  | disconnect =>
      simp only [step, Option.ite_none_right_eq_some, Option.some.injEq] at stepped
      obtain ⟨_, rfl⟩ := stepped
      exact unpoisoned

theorem step_log {change : ScheduleStep}
    (stepped : scheduling.step change = some next) :
    next.log = scheduling.log ∨
      (∃ woken, next.log = .woken woken :: scheduling.log) ∨
      (∃ entry, next.log = .sent entry :: scheduling.log) ∨
      (∃ target entry, change = .beginPoll target ∧
        scheduling.state target = .queued ∧ scheduling.taken = some entry ∧
        next.log = .began target entry :: scheduling.log) ∨
      (∃ target, change = .unwind target ∧
        next.log = .unwound target :: scheduling.log) := by
  have woken : ∀ target,
      (scheduling.wakeSection target).1.log = scheduling.log ∨
        ∃ woken, (scheduling.wakeSection target).1.log =
          .woken woken :: scheduling.log := by
    intro target
    unfold wakeSection
    split
    · exact Or.inl rfl
    · exact Or.inr ⟨_, rfl⟩
  have sent : ∀ target, (scheduling.sendReady target).log = scheduling.log ∨
      ∃ entry, (scheduling.sendReady target).log =
        .sent entry :: scheduling.log := by
    intro target
    unfold sendReady
    split
    · exact Or.inr ⟨_, rfl⟩
    · exact Or.inl rfl
  cases change with
  | remoteWake target =>
      simp only [step, Option.ite_none_right_eq_some, Option.some.injEq] at stepped
      obtain ⟨_, rfl⟩ := stepped
      exact (woken target).imp_right Or.inl
  | remoteSend target =>
      simp only [step, Option.ite_none_right_eq_some, Option.some.injEq] at stepped
      obtain ⟨_, rfl⟩ := stepped
      exact (sent target).imp_right fun found => Or.inr (Or.inl found)
  | wake target =>
      simp only [step, Option.ite_none_right_eq_some, Option.some.injEq] at stepped
      obtain ⟨_, rfl⟩ := stepped
      exact (woken target).imp_right Or.inl
  | send =>
      simp only [step] at stepped
      split at stepped
      · rename_i target _
        cases stepped
        exact (sent target).imp_right fun found => Or.inr (Or.inl found)
      · cases stepped
  | create id =>
      rw [step_create stepped]
      exact Or.inr (Or.inl ⟨_, rfl⟩)
  | receive =>
      obtain ⟨_, _, _, _, _, rfl⟩ := step_receive stepped
      exact Or.inl rfl
  | reject =>
      rw [step_reject stepped]
      exact Or.inl rfl
  | beginPoll target =>
      obtain ⟨entry, taken, _, rfl⟩ := step_beginPoll stepped
      by_cases begins : (scheduling.schedules target).poisoned = false ∧
          scheduling.state target = .queued
      · rw [beginPoll_ok begins.1 begins.2]
        exact Or.inr (Or.inr (Or.inr (Or.inl
          ⟨target, entry, rfl, begins.2, taken, rfl⟩)))
      · rw [not_and_or, Bool.not_eq_false] at begins
        obtain ⟨changed, _, _, failed⟩ := beginPoll_error begins entry
        rw [failed]
        exact Or.inl rfl
  | finishPoll target result =>
      simp only [step, Option.ite_none_right_eq_some, Option.some.injEq] at stepped
      obtain ⟨_, rfl⟩ := stepped
      left
      unfold thenSend Scheduling.finishPoll
      split <;> rfl
  | unwind target =>
      simp only [step, Option.ite_none_right_eq_some, Option.some.injEq] at stepped
      obtain ⟨_, rfl⟩ := stepped
      exact Or.inr (Or.inr (Or.inr (Or.inr ⟨target, rfl, rfl⟩)))
  | disconnect =>
      simp only [step, Option.ite_none_right_eq_some, Option.some.injEq] at stepped
      obtain ⟨_, rfl⟩ := stepped
      exact Or.inl rfl

theorem step_unwound {change : ScheduleStep}
    (stepped : scheduling.step change = some next)
    (unwound : latestPollUnwound schedule scheduling.log = true)
    (unqueued : scheduling.state schedule ≠ .queued) :
    latestPollUnwound schedule next.log = true := by
  rcases step_log stepped with same | ⟨_, same⟩ | ⟨_, same⟩ |
    ⟨target, entry, _, queued, _, same⟩ | ⟨_, _, same⟩
  · rw [same]
    exact unwound
  · rw [same]
    exact unwound
  · rw [same]
    exact unwound
  · rw [same]
    have different : target ≠ schedule := by
      rintro rfl
      exact unqueued queued
    simp [latestPollUnwound, unwound, different]
  · rw [same]
    simp [latestPollUnwound, unwound]

end Scheduling

end Asyncr
