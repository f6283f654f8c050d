import Mathlib.Data.List.Count
import Mathlib.Tactic.SplitIfs
import Asyncr.Scheduling.Machine

namespace Asyncr

namespace Scheduling

variable {scheduling next : Scheduling} {schedule : Nat}

/-! What the small operations do to one schedule. -/

@[simp] theorem state_setSchedule (scheduling : Scheduling) (target : Nat)
    (changed : TaskSchedule) (schedule : Nat) :
    (scheduling.setSchedule target changed).state schedule =
      if schedule = target then changed.state else scheduling.state schedule := by
  unfold state setSchedule
  by_cases same : schedule = target
  · simp [same]
  · simp [same]

theorem wakeSection_poisoned
    (poisoned : (scheduling.schedules schedule).poisoned = true) :
    scheduling.wakeSection schedule = (scheduling, false) := by
  simp [wakeSection, TaskSchedule.wake, poisoned]

theorem wakeSection_unpoisoned
    (unpoisoned : (scheduling.schedules schedule).poisoned = false) :
    scheduling.wakeSection schedule =
      ({ scheduling.setSchedule schedule
          { scheduling.schedules schedule with
            state := (scheduling.state schedule).wake.1 } with
        log := .woken schedule :: scheduling.log },
        (scheduling.state schedule).wake.2 == .enqueue) := by
  simp [wakeSection, TaskSchedule.wake, unpoisoned, state]

theorem beginPoll_ok (unpoisoned : (scheduling.schedules schedule).poisoned = false)
    (queued : scheduling.state schedule = .queued) (entry : ReadyEntry) :
    scheduling.beginPoll schedule entry =
      { scheduling.setSchedule schedule
          { scheduling.schedules schedule with state := .running false } with
        taken := none
        log := .began schedule entry :: scheduling.log } := by
  unfold state at queued
  simp [beginPoll, TaskSchedule.beginPoll, unpoisoned, queued,
    ScheduleState.beginPoll]

theorem beginPoll_error
    (failed : (scheduling.schedules schedule).poisoned = true ∨
      scheduling.state schedule ≠ .queued) (entry : ReadyEntry) :
    ∃ changed : TaskSchedule,
      changed.id = (scheduling.schedules schedule).id ∧
      changed.state = scheduling.state schedule ∧
      scheduling.beginPoll schedule entry =
        { scheduling.setSchedule schedule changed with taken := none } := by
  cases poisoned : (scheduling.schedules schedule).poisoned with
  | true =>
      refine ⟨scheduling.schedules schedule, rfl, rfl, ?_⟩
      simp [beginPoll, TaskSchedule.beginPoll, poisoned]
  | false =>
      have unqueued := failed.resolve_left (by simp [poisoned])
      refine ⟨{ scheduling.schedules schedule with poisoned := true }, rfl, rfl, ?_⟩
      unfold state at unqueued
      cases current : (scheduling.schedules schedule).state with
      | queued => exact absurd current unqueued
      | _ => simp [beginPoll, TaskSchedule.beginPoll, poisoned, current,
          ScheduleState.beginPoll]

theorem finishPoll_poisoned
    (poisoned : (scheduling.schedules schedule).poisoned = true)
    (result : Poll Unit) :
    scheduling.finishPoll schedule result = (scheduling, false) := by
  simp [finishPoll, TaskSchedule.finishPoll, poisoned, setSchedule]

/-- The state after `finish_poll`, which sends exactly when it is queued again. -/
def finished (notified : Bool) : Poll Unit → ScheduleState
  | .ready _ => .complete
  | .pending => if notified then .queued else .idle

theorem finishPoll_running
    (unpoisoned : (scheduling.schedules schedule).poisoned = false)
    {notified : Bool} (running : scheduling.state schedule = .running notified)
    (result : Poll Unit) :
    scheduling.finishPoll schedule result =
      (scheduling.setSchedule schedule
        { scheduling.schedules schedule with state := finished notified result },
        finished notified result == .queued) := by
  unfold state at running
  cases result with
  | ready =>
      simp [finishPoll, TaskSchedule.finishPoll, unpoisoned, running,
        ScheduleState.finishPoll, finished]
  | pending =>
      cases notified with
      | true =>
          simp [finishPoll, TaskSchedule.finishPoll, unpoisoned, running,
            ScheduleState.finishPoll, finished]
      | false =>
          simp [finishPoll, TaskSchedule.finishPoll, unpoisoned, running,
            ScheduleState.finishPoll, finished]

theorem finishPoll_error
    (failed : (scheduling.schedules schedule).poisoned = true ∨
      ∀ notified, scheduling.state schedule ≠ .running notified)
    (result : Poll Unit) :
    ∃ changed : TaskSchedule,
      changed.id = (scheduling.schedules schedule).id ∧
      changed.state = scheduling.state schedule ∧
      scheduling.finishPoll schedule result =
        (scheduling.setSchedule schedule changed, false) := by
  cases poisoned : (scheduling.schedules schedule).poisoned with
  | true =>
      refine ⟨scheduling.schedules schedule, rfl, rfl, ?_⟩
      simp [finishPoll, TaskSchedule.finishPoll, poisoned]
  | false =>
      have still := failed.resolve_left (by simp [poisoned])
      refine ⟨{ scheduling.schedules schedule with poisoned := true }, rfl, rfl, ?_⟩
      unfold state at still
      cases current : (scheduling.schedules schedule).state with
      | running notified => exact absurd current (still notified)
      | _ => simp [finishPoll, TaskSchedule.finishPoll, poisoned, current,
          ScheduleState.finishPoll]

section

variable (scheduling schedule)

@[simp] theorem wakeSection_ready :
    (scheduling.wakeSection schedule).1.ready = scheduling.ready := by
  unfold wakeSection
  split <;> rfl

@[simp] theorem wakeSection_taken :
    (scheduling.wakeSection schedule).1.taken = scheduling.taken := by
  unfold wakeSection
  split <;> rfl

@[simp] theorem wakeSection_own :
    (scheduling.wakeSection schedule).1.own = scheduling.own := by
  unfold wakeSection
  split <;> rfl

@[simp] theorem wakeSection_sending :
    (scheduling.wakeSection schedule).1.sending = scheduling.sending := by
  unfold wakeSection
  split <;> rfl

@[simp] theorem wakeSection_created :
    (scheduling.wakeSection schedule).1.created = scheduling.created := by
  unfold wakeSection
  split <;> rfl

@[simp] theorem wakeSection_connected :
    (scheduling.wakeSection schedule).1.connected = scheduling.connected := by
  unfold wakeSection
  split <;> rfl

@[simp] theorem sendReady_schedules :
    (scheduling.sendReady schedule).schedules = scheduling.schedules := by
  unfold sendReady
  split <;> rfl

@[simp] theorem sendReady_taken :
    (scheduling.sendReady schedule).taken = scheduling.taken := by
  unfold sendReady
  split <;> rfl

@[simp] theorem sendReady_own :
    (scheduling.sendReady schedule).own = scheduling.own := by
  unfold sendReady
  split <;> rfl

@[simp] theorem sendReady_sending :
    (scheduling.sendReady schedule).sending = scheduling.sending := by
  unfold sendReady
  split <;> rfl

@[simp] theorem sendReady_created :
    (scheduling.sendReady schedule).created = scheduling.created := by
  unfold sendReady
  split <;> rfl

@[simp] theorem sendReady_connected :
    (scheduling.sendReady schedule).connected = scheduling.connected := by
  unfold sendReady
  split <;> rfl

@[simp] theorem beginPoll_taken (entry : ReadyEntry) :
    (scheduling.beginPoll schedule entry).taken = none := by
  unfold beginPoll
  split <;> rfl

end

theorem sendReady_ready (connected : scheduling.connected = true) (schedule : Nat) :
    (scheduling.sendReady schedule).ready = scheduling.ready ++
      [⟨(scheduling.schedules schedule).id, schedule⟩] := by
  simp [sendReady, connected]

/-! The entries of a schedule in the channel, the one just received, and the
sends decided on. -/

def inFlight (scheduling : Scheduling) : List Nat :=
  scheduling.ready.map ReadyEntry.sender ++
    (scheduling.taken.toList.map ReadyEntry.sender ++
      (scheduling.sending ++ scheduling.own.toList))

/-- One entry, or one send, for a queued schedule and none for any other; a
poisoned mutex never guards a queued one. -/
structure Balanced (scheduling : Scheduling) (schedule : Nat) : Prop where
  count : scheduling.inFlight.count schedule =
    if scheduling.state schedule = .queued then 1 else 0
  lock : (scheduling.schedules schedule).poisoned = true →
    scheduling.state schedule ≠ .queued

/-- The steps that keep `schedule` balanced: its entries are answered by its own
polls, and only a running poll finishes. -/
def Keeps (scheduling : Scheduling) (schedule : Nat) : ScheduleStep → Prop
  | .beginPoll target => ∀ entry, scheduling.taken = some entry →
      (entry.sender = schedule ↔ target = schedule)
  | .reject => ∀ entry, scheduling.taken = some entry → entry.sender ≠ schedule
  | .finishPoll target _ =>
      target = schedule → ∃ notified, scheduling.state schedule = .running notified
  | .disconnect => False
  | _ => True

/-- The slots of schedules that are not created yet are as they were initially. -/
def Fresh (scheduling : Scheduling) : Prop :=
  ∀ schedule, scheduling.created ≤ schedule →
    scheduling.schedules schedule = TaskSchedule.new rootTaskId

theorem count_inFlight (scheduling : Scheduling) (schedule : Nat) :
    scheduling.inFlight.count schedule =
      (scheduling.ready.map ReadyEntry.sender).count schedule +
        ((scheduling.taken.toList.map ReadyEntry.sender).count schedule +
          (scheduling.sending.count schedule +
            scheduling.own.toList.count schedule)) := by
  simp [inFlight]

theorem Balanced.transfer (balanced : scheduling.Balanced schedule)
    (same : next.schedules schedule = scheduling.schedules schedule)
    (count : next.inFlight.count schedule = scheduling.inFlight.count schedule) :
    next.Balanced schedule := by
  have sameState : next.state schedule = scheduling.state schedule := by
    unfold state
    rw [same]
  refine ⟨?_, ?_⟩
  · rw [count, sameState]
    exact balanced.count
  · rw [same, sameState]
    exact balanced.lock

theorem schedules_setSchedule_of_ne {target : Nat} (different : schedule ≠ target)
    (changed : TaskSchedule) :
    (scheduling.setSchedule target changed).schedules schedule =
      scheduling.schedules schedule :=
  Function.update_of_ne different _ _

theorem count_of_ne {target : Nat} (different : schedule ≠ target) (sends : Bool) :
    (if sends then [target] else []).count schedule = 0 := by
  cases sends with
  | true => simp [Ne.symm different]
  | false => rfl

/-- A critical section of `request_schedule` decides on a send exactly when it
makes the schedule queued. -/
theorem Balanced.wakeSection (balanced : scheduling.Balanced schedule)
    (target : Nat) :
    scheduling.inFlight.count schedule +
        (if (scheduling.wakeSection target).2 then [target] else []).count
          schedule =
      (if (scheduling.wakeSection target).1.state schedule = .queued then 1
        else 0) ∧
    (((scheduling.wakeSection target).1.schedules schedule).poisoned = true →
      (scheduling.wakeSection target).1.state schedule ≠ .queued) := by
  cases poisoned : (scheduling.schedules target).poisoned with
  | true =>
      rw [wakeSection_poisoned poisoned]
      exact ⟨balanced.count, balanced.lock⟩
  | false =>
      rw [wakeSection_unpoisoned poisoned]
      cases decEq schedule target with
      | isTrue same =>
          subst same
          have count := balanced.count
          constructor
          · change _ = if (scheduling.setSchedule schedule _).state schedule =
              .queued then 1 else 0
            rw [state_setSchedule, if_pos rfl]
            cases current : scheduling.state schedule with
            | running notified =>
                cases notified <;>
                  simp [current, count, ScheduleState.wake]
            | _ => simp [current, count, ScheduleState.wake]
          · simp [setSchedule, poisoned]
      | isFalse different =>
          have count := balanced.count
          have lock := balanced.lock
          constructor
          · change _ = if (scheduling.setSchedule target _).state schedule =
              .queued then 1 else 0
            rw [state_setSchedule, if_neg different, count_of_ne different, count]
            rfl
          · change ((scheduling.setSchedule target _).schedules schedule).poisoned
              = true → (scheduling.setSchedule target _).state schedule ≠ .queued
            rw [state_setSchedule, if_neg different,
              schedules_setSchedule_of_ne different]
            exact lock

theorem Balanced.created (balanced : scheduling.Balanced schedule)
    (fresh : scheduling.Fresh) (id : Id) :
    Balanced { scheduling.setSchedule scheduling.created (TaskSchedule.new id) with
      created := scheduling.created + 1 } schedule := by
  cases decEq schedule scheduling.created with
  | isTrue same =>
      have before : scheduling.state schedule = .idle :=
        congrArg TaskSchedule.state (fresh schedule (Nat.le_of_eq same.symm))
      refine ⟨?_, ?_⟩
      · change scheduling.inFlight.count schedule =
          if (scheduling.setSchedule _ _).state schedule = .queued then 1 else 0
        rw [balanced.count, before, state_setSchedule, if_pos same]
        rfl
      · intro _
        change (scheduling.setSchedule _ _).state schedule ≠ .queued
        rw [state_setSchedule, if_pos same]
        intro equal
        cases equal
  | isFalse different =>
      exact balanced.transfer (schedules_setSchedule_of_ne different _) rfl

theorem Balanced.beginPoll (balanced : scheduling.Balanced schedule)
    {target : Nat} {entry : ReadyEntry} (holds : scheduling.taken = some entry)
    (own : entry.sender = schedule ↔ target = schedule) :
    (scheduling.beginPoll target entry).Balanced schedule := by
  have count := balanced.count
  rw [count_inFlight, holds] at count
  cases decEq schedule target with
  | isTrue same =>
      subst same
      have isSender := own.mpr rfl
      have queued : scheduling.state schedule = .queued := by
        by_contra other
        rw [if_neg other] at count
        simp [isSender] at count
      have unpoisoned : (scheduling.schedules schedule).poisoned = false := by
        cases poisoned : (scheduling.schedules schedule).poisoned with
        | false => rfl
        | true => exact absurd queued (balanced.lock poisoned)
      rw [if_pos queued] at count
      rw [beginPoll_ok unpoisoned queued]
      refine ⟨?_, ?_⟩
      · change _ = if (scheduling.setSchedule schedule _).state schedule =
          .queued then 1 else 0
        rw [state_setSchedule, if_pos rfl, count_inFlight]
        simp [setSchedule, isSender] at count ⊢
        omega
      · simp [setSchedule, unpoisoned]
  | isFalse different =>
      have notSender : entry.sender ≠ schedule := fun same =>
        different (own.mp same).symm
      apply balanced.transfer
      · unfold Scheduling.beginPoll
        split
        · exact schedules_setSchedule_of_ne different _
        · exact schedules_setSchedule_of_ne different _
      · rw [count_inFlight, count_inFlight, holds]
        unfold Scheduling.beginPoll
        split
        · simp [setSchedule, notSender]
        · simp [setSchedule, notSender]

theorem Balanced.finishPoll (balanced : scheduling.Balanced schedule)
    (idle : scheduling.own = none) {target : Nat}
    (running : target = schedule →
      ∃ notified, scheduling.state schedule = .running notified)
    (result : Poll Unit) :
    (thenSend (scheduling.finishPoll target result) target).Balanced
      schedule := by
  cases decEq schedule target with
  | isTrue same =>
      subst same
      obtain ⟨notified, isRunning⟩ := running rfl
      have count := balanced.count
      rw [count_inFlight, isRunning] at count
      cases poisoned : (scheduling.schedules schedule).poisoned with
      | true =>
          rw [finishPoll_poisoned poisoned]
          have same : (thenSend (scheduling, false) schedule).schedules schedule =
              scheduling.schedules schedule := rfl
          apply balanced.transfer same
          rw [count_inFlight, count_inFlight, idle]
          rfl
      | false =>
          rw [finishPoll_running poisoned isRunning]
          refine ⟨?_, ?_⟩
          · change _ = if (scheduling.setSchedule schedule _).state schedule =
              .queued then 1 else 0
            rw [state_setSchedule, if_pos rfl, count_inFlight]
            simp only [idle, Option.toList_none, List.count_nil] at count
            simp only [thenSend, setSchedule, beq_iff_eq]
            split
            · simp at count ⊢
              omega
            · simp at count ⊢
              omega
          · simp [setSchedule, thenSend, poisoned]
  | isFalse different =>
      apply balanced.transfer
      · unfold Scheduling.finishPoll
        split
        · exact schedules_setSchedule_of_ne different _
        · exact schedules_setSchedule_of_ne different _
      · rw [count_inFlight, count_inFlight, idle]
        unfold Scheduling.finishPoll thenSend
        split
        · rename_i action _
          cases action with
          | enqueue => simp [setSchedule, Ne.symm different]
          | _ => rfl
        · rfl

theorem step_balanced {change : ScheduleStep}
    (fresh : scheduling.Fresh)
    (connected : scheduling.connected = true)
    (balanced : scheduling.Balanced schedule)
    (keeps : scheduling.Keeps schedule change)
    (stepped : scheduling.step change = some next) : next.Balanced schedule := by
  cases change with
  | remoteWake target =>
      simp only [step, Option.ite_none_right_eq_some, Option.some.injEq] at stepped
      obtain ⟨_, rfl⟩ := stepped
      obtain ⟨count, lock⟩ := balanced.wakeSection target
      refine ⟨?_, lock⟩
      refine Eq.trans ?_ count
      rw [count_inFlight, count_inFlight]
      simp only [wakeSection_ready, wakeSection_taken, wakeSection_own]
      cases (scheduling.wakeSection target).2 with
      | true => simp [List.count_cons]; omega
      | false => simp
  | remoteSend target =>
      simp only [step, Option.ite_none_right_eq_some, Option.some.injEq] at stepped
      obtain ⟨member, rfl⟩ := stepped
      refine balanced.transfer (by simp) ?_
      have held := List.count_pos_iff.mpr member
      rw [count_inFlight, count_inFlight]
      simp only [sendReady_ready connected, sendReady_taken, sendReady_own,
        List.map_append, List.count_append, List.map_cons, List.map_nil,
        List.count_erase, List.count_singleton]
      by_cases equal : target = schedule
      · subst equal
        simp only [beq_self_eq_true, if_true]
        omega
      · simp only [beq_eq_false_iff_ne.mpr equal, Bool.false_eq_true, if_false]
        omega
  | wake target =>
      simp only [step, Option.ite_none_right_eq_some, Option.some.injEq] at stepped
      obtain ⟨⟨idle, _⟩, rfl⟩ := stepped
      obtain ⟨count, lock⟩ := balanced.wakeSection target
      refine ⟨?_, lock⟩
      refine Eq.trans ?_ count
      rw [count_inFlight, count_inFlight]
      simp only [thenSend, wakeSection_ready, wakeSection_taken,
        wakeSection_sending, idle]
      cases (scheduling.wakeSection target).2 with
      | true => simp; omega
      | false => simp
  | send =>
      simp only [step] at stepped
      split at stepped
      · rename_i target holds
        cases stepped
        refine balanced.transfer (by simp) ?_
        rw [count_inFlight, count_inFlight]
        simp only [sendReady_ready connected, sendReady_taken, sendReady_sending,
          List.map_append, List.count_append, holds]
        simp
        omega
      · cases stepped
  | create id =>
      simp only [step, Option.ite_none_right_eq_some, Option.some.injEq] at stepped
      obtain ⟨idle, rfl⟩ := stepped
      obtain ⟨count, lock⟩ :=
        (balanced.created fresh id).wakeSection scheduling.created
      refine ⟨?_, lock⟩
      refine Eq.trans ?_ count
      rw [count_inFlight, count_inFlight]
      unfold thenSend create
      simp only [wakeSection_ready, wakeSection_taken, wakeSection_sending]
      cases (wakeSection _ scheduling.created).2 with
      | true => simp [setSchedule, idle]; omega
      | false => simp [setSchedule, idle]
  | receive =>
      simp only [step] at stepped
      split at stepped
      · rename_i entry rest idle free waiting
        cases stepped
        refine balanced.transfer rfl ?_
        rw [count_inFlight, count_inFlight, waiting, free]
        simp [List.count_cons]
        omega
      · cases stepped
  | reject =>
      simp only [step] at stepped
      split at stepped
      · rename_i entry idle holds
        cases stepped
        refine balanced.transfer rfl ?_
        rw [count_inFlight, count_inFlight, holds]
        simp [keeps entry holds]
      · cases stepped
  | beginPoll target =>
      simp only [step] at stepped
      split at stepped
      · rename_i entry idle holds
        cases stepped
        exact balanced.beginPoll holds (keeps entry holds)
      · cases stepped
  | finishPoll target result =>
      simp only [step, Option.ite_none_right_eq_some, Option.some.injEq] at stepped
      obtain ⟨idle, rfl⟩ := stepped
      exact balanced.finishPoll idle keeps result
  | unwind target =>
      simp only [step, Option.ite_none_right_eq_some, Option.some.injEq] at stepped
      obtain ⟨_, rfl⟩ := stepped
      exact balanced.transfer rfl rfl
  | disconnect => cases keeps

end Scheduling

end Asyncr
