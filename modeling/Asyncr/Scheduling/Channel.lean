import Asyncr.Scheduling.Wakeups

namespace Asyncr

namespace Scheduling

variable {scheduling next : Scheduling} {schedule : Nat}

/-! Everything in the channel and on its way there names a schedule. -/

@[simp] theorem id_setSchedule (scheduling : Scheduling) (target : Nat)
    (changed : TaskSchedule)
    (same : changed.id = (scheduling.schedules target).id) (schedule : Nat) :
    ((scheduling.setSchedule target changed).schedules schedule).id =
      (scheduling.schedules schedule).id := by
  cases decEq schedule target with
  | isTrue equal => simp [setSchedule, equal, same]
  | isFalse different => rw [schedules_setSchedule_of_ne different]

structure Addressed (scheduling : Scheduling) : Prop where
  fresh : scheduling.Fresh
  ready : ∀ entry ∈ scheduling.ready, entry.sender < scheduling.created ∧
    entry.id = (scheduling.schedules entry.sender).id
  taken : ∀ entry, scheduling.taken = some entry →
    entry.sender < scheduling.created ∧
      entry.id = (scheduling.schedules entry.sender).id
  sending : ∀ schedule ∈ scheduling.sending, schedule < scheduling.created
  own : ∀ schedule, scheduling.own = some schedule → schedule < scheduling.created

theorem addressed_initial : initial.Addressed where
  fresh := fun _ _ => rfl
  ready := by
    intro entry member
    cases member
  taken := by
    intro entry holds
    cases holds
  sending := by
    intro schedule member
    cases member
  own := by
    intro schedule holds
    cases holds

/-- The polls of a step are polls of schedules that were created. -/
def Polls (scheduling : Scheduling) : ScheduleStep → Prop
  | .beginPoll schedule | .finishPoll schedule _ => schedule < scheduling.created
  | _ => True

theorem Addressed.changed (addressed : scheduling.Addressed) {target : Nat}
    (created : target < scheduling.created) (changed : TaskSchedule)
    (same : changed.id = (scheduling.schedules target).id) :
    (scheduling.setSchedule target changed).Addressed where
  fresh := by
    intro schedule beyond
    have later : scheduling.created ≤ schedule := beyond
    have different : schedule ≠ target := by omega
    exact (schedules_setSchedule_of_ne different changed).trans
      (addressed.fresh schedule later)
  ready := by
    intro entry member
    obtain ⟨known, address⟩ := addressed.ready entry member
    exact ⟨known, address.trans (id_setSchedule _ _ _ same _).symm⟩
  taken := by
    intro entry holds
    obtain ⟨known, address⟩ := addressed.taken entry holds
    exact ⟨known, address.trans (id_setSchedule _ _ _ same _).symm⟩
  sending := addressed.sending
  own := addressed.own

theorem Addressed.setLog (addressed : scheduling.Addressed)
    (log : List ScheduleEvent) : Addressed { scheduling with log := log } :=
  ⟨addressed.fresh, addressed.ready, addressed.taken, addressed.sending,
    addressed.own⟩

theorem Addressed.wakeSection (addressed : scheduling.Addressed) {target : Nat}
    (created : target < scheduling.created) :
    (scheduling.wakeSection target).1.Addressed := by
  cases poisoned : (scheduling.schedules target).poisoned with
  | true =>
      rw [wakeSection_poisoned poisoned]
      exact addressed
  | false =>
      rw [wakeSection_unpoisoned poisoned]
      exact (addressed.changed created _ (by rfl)).setLog _

theorem Addressed.sendReady (addressed : scheduling.Addressed) {target : Nat}
    (created : target < scheduling.created) :
    (scheduling.sendReady target).Addressed := by
  unfold Scheduling.sendReady
  split
  · refine ⟨addressed.fresh, ?_, addressed.taken, addressed.sending,
      addressed.own⟩
    intro entry member
    rcases List.mem_append.mp member with before | last
    · exact addressed.ready entry before
    · obtain rfl := List.mem_singleton.mp last
      exact ⟨created, rfl⟩
  · exact addressed

theorem Addressed.create (addressed : scheduling.Addressed) (id : Id) :
    Addressed { scheduling.setSchedule scheduling.created (TaskSchedule.new id)
      with created := scheduling.created + 1 } where
  fresh := by
    intro schedule beyond
    have later : scheduling.created + 1 ≤ schedule := beyond
    have different : schedule ≠ scheduling.created := by omega
    exact (schedules_setSchedule_of_ne different _).trans
      (addressed.fresh schedule (by omega))
  ready := by
    intro entry member
    obtain ⟨known, address⟩ := addressed.ready entry member
    refine ⟨Nat.lt_succ_of_lt known, address.trans ?_⟩
    exact congrArg TaskSchedule.id
      (schedules_setSchedule_of_ne (Nat.ne_of_lt known) _).symm
  taken := by
    intro entry holds
    obtain ⟨known, address⟩ := addressed.taken entry holds
    refine ⟨Nat.lt_succ_of_lt known, address.trans ?_⟩
    exact congrArg TaskSchedule.id
      (schedules_setSchedule_of_ne (Nat.ne_of_lt known) _).symm
  sending := fun schedule member =>
    Nat.lt_succ_of_lt (addressed.sending schedule member)
  own := fun schedule holds => Nat.lt_succ_of_lt (addressed.own schedule holds)

theorem Addressed.setOwn (addressed : scheduling.Addressed) {own : Option Nat}
    (created : ∀ schedule, own = some schedule → schedule < scheduling.created) :
    Addressed { scheduling with own := own } :=
  ⟨addressed.fresh, addressed.ready, addressed.taken, addressed.sending,
    created⟩

theorem Addressed.thenSend {outcome : Scheduling × Bool}
    (addressed : outcome.1.Addressed) {target : Nat}
    (created : target < outcome.1.created) :
    (thenSend outcome target).Addressed := by
  apply addressed.setOwn
  intro schedule holds
  split at holds
  · cases holds
    exact created
  · cases holds

theorem Addressed.dropTaken (addressed : scheduling.Addressed) :
    Addressed { scheduling with taken := none } := by
  refine ⟨addressed.fresh, addressed.ready, ?_, addressed.sending,
    addressed.own⟩
  intro entry holds
  cases holds

theorem Addressed.beginPoll (addressed : scheduling.Addressed) {target : Nat}
    (created : target < scheduling.created) (entry : ReadyEntry) :
    (scheduling.beginPoll target entry).Addressed := by
  by_cases begins : (scheduling.schedules target).poisoned = false ∧
      scheduling.state target = .queued
  · rw [beginPoll_ok begins.1 begins.2]
    have changed := addressed.changed created
      { scheduling.schedules target with state := .running false } rfl
    exact (changed.setLog (.began target entry :: scheduling.log)).dropTaken
  · rw [not_and_or, Bool.not_eq_false] at begins
    obtain ⟨changed, same, _, failed⟩ := beginPoll_error begins entry
    rw [failed]
    exact (addressed.changed created changed same).dropTaken

theorem Addressed.finishPoll (addressed : scheduling.Addressed) {target : Nat}
    (created : target < scheduling.created) (result : Poll Unit) :
    (Scheduling.thenSend (scheduling.finishPoll target result)
      target).Addressed := by
  by_cases finishes : (scheduling.schedules target).poisoned = false ∧
      ∃ notified, scheduling.state target = .running notified
  · obtain ⟨unpoisoned, notified, running⟩ := finishes
    rw [finishPoll_running unpoisoned running]
    exact (addressed.changed created _ (by rfl)).thenSend created
  · rw [not_and_or, Bool.not_eq_false, not_exists] at finishes
    obtain ⟨changed, same, _, failed⟩ := finishPoll_error finishes result
    rw [failed]
    exact (addressed.changed created changed same).thenSend created

theorem step_addressed {change : ScheduleStep}
    (addressed : scheduling.Addressed) (polls : scheduling.Polls change)
    (stepped : scheduling.step change = some next) : next.Addressed := by
  cases change with
  | remoteWake target =>
      simp only [step, Option.ite_none_right_eq_some, Option.some.injEq] at stepped
      obtain ⟨created, rfl⟩ := stepped
      have woken := addressed.wakeSection created
      refine ⟨woken.fresh, woken.ready, woken.taken, ?_, woken.own⟩
      intro schedule member
      simp only [wakeSection_created]
      split at member
      · rcases List.mem_cons.mp member with rfl | before
        · exact created
        · exact addressed.sending schedule before
      · exact addressed.sending schedule member
  | remoteSend target =>
      simp only [step, Option.ite_none_right_eq_some, Option.some.injEq] at stepped
      obtain ⟨member, rfl⟩ := stepped
      have sent := addressed.sendReady (addressed.sending target member)
      refine ⟨sent.fresh, sent.ready, sent.taken, ?_, sent.own⟩
      intro schedule kept
      simp only [sendReady_created]
      exact addressed.sending schedule (List.mem_of_mem_erase kept)
  | wake target =>
      simp only [step, Option.ite_none_right_eq_some, Option.some.injEq] at stepped
      obtain ⟨⟨_, created⟩, rfl⟩ := stepped
      exact (addressed.wakeSection created).thenSend (by simpa using created)
  | send =>
      simp only [step] at stepped
      split at stepped
      · rename_i target holds
        cases stepped
        apply (addressed.sendReady (addressed.own target holds)).setOwn
        intro schedule none
        cases none
      · cases stepped
  | create id =>
      simp only [step, Option.ite_none_right_eq_some, Option.some.injEq] at stepped
      obtain ⟨_, rfl⟩ := stepped
      have existing : scheduling.created < scheduling.created + 1 :=
        Nat.lt_succ_self _
      apply ((addressed.create id).wakeSection existing).thenSend
      simp
  | receive =>
      simp only [step] at stepped
      split at stepped
      · rename_i entry rest idle free waiting
        cases stepped
        refine ⟨addressed.fresh, ?_, ?_, addressed.sending, addressed.own⟩
        · intro other member
          exact addressed.ready other (waiting ▸ List.mem_cons_of_mem _ member)
        · intro other holds
          cases holds
          exact addressed.ready entry (waiting ▸ List.mem_cons_self)
      · cases stepped
  | reject =>
      simp only [step] at stepped
      split at stepped
      · cases stepped
        exact addressed.dropTaken
      · cases stepped
  | beginPoll target =>
      simp only [step] at stepped
      split at stepped
      · rename_i entry idle holds
        cases stepped
        exact addressed.beginPoll polls entry
      · cases stepped
  | finishPoll target result =>
      simp only [step, Option.ite_none_right_eq_some, Option.some.injEq] at stepped
      obtain ⟨_, rfl⟩ := stepped
      exact addressed.finishPoll polls result
  | unwind target =>
      simp only [step, Option.ite_none_right_eq_some, Option.some.injEq] at stepped
      obtain ⟨_, rfl⟩ := stepped
      exact ⟨addressed.fresh, addressed.ready, addressed.taken,
        addressed.sending, addressed.own⟩
  | disconnect =>
      simp only [step, Option.ite_none_right_eq_some, Option.some.injEq] at stepped
      obtain ⟨_, rfl⟩ := stepped
      refine ⟨addressed.fresh, ?_, addressed.taken, addressed.sending,
        addressed.own⟩
      intro entry member
      cases member

end Scheduling

end Asyncr
