import Asyncr.Scheduling.Channel

namespace Asyncr

namespace Scheduling

variable {scheduling next : Scheduling} {schedule : Nat}

/-! The channel serves its entries in the order in which they were sent. -/

/-- The entries sent so far, the first one first. -/
def entered : List ScheduleEvent → List ReadyEntry
  | [] => []
  | .sent entry :: earlier => entered earlier ++ [entry]
  | .woken _ :: earlier | .began _ _ :: earlier | .unwound _ :: earlier =>
      entered earlier

/-- The entries whose polls have begun, the first one first. -/
def polled : List ScheduleEvent → List ReadyEntry
  | [] => []
  | .began _ entry :: earlier => polled earlier ++ [entry]
  | .woken _ :: earlier | .sent _ :: earlier | .unwound _ :: earlier =>
      polled earlier

structure InOrder (scheduling : Scheduling) : Prop where
  order : entered scheduling.log =
    polled scheduling.log ++ (scheduling.taken.toList ++ scheduling.ready)
  answered : ∀ schedule entry, .began schedule entry ∈ scheduling.log →
    entry.sender = schedule

def Serves (scheduling : Scheduling) : ScheduleStep → Prop
  | .reject | .disconnect => False
  | .beginPoll target => scheduling.state target = .queued ∧
      (scheduling.schedules target).poisoned = false ∧
      ∀ entry, scheduling.taken = some entry → entry.sender = target
  | _ => True

theorem inOrder_initial : initial.InOrder where
  order := rfl
  answered := by
    intro schedule entry member
    cases member

theorem InOrder.wakeSection (inOrder : scheduling.InOrder) (target : Nat) :
    (scheduling.wakeSection target).1.InOrder := by
  cases poisoned : (scheduling.schedules target).poisoned with
  | true =>
      rw [wakeSection_poisoned poisoned]
      exact inOrder
  | false =>
      rw [wakeSection_unpoisoned poisoned]
      refine ⟨inOrder.order, ?_⟩
      intro schedule entry member
      rcases List.mem_cons.mp member with same | earlier
      · cases same
      · exact inOrder.answered schedule entry earlier

theorem InOrder.sendReady (inOrder : scheduling.InOrder) (target : Nat) :
    (scheduling.sendReady target).InOrder := by
  unfold Scheduling.sendReady
  split
  · refine ⟨?_, ?_⟩
    · simp [entered, polled, inOrder.order]
    · intro schedule entry member
      rcases List.mem_cons.mp member with same | earlier
      · cases same
      · exact inOrder.answered schedule entry earlier
  · exact inOrder

theorem step_inOrder {change : ScheduleStep} (inOrder : scheduling.InOrder)
    (serves : scheduling.Serves change)
    (stepped : scheduling.step change = some next) : next.InOrder := by
  cases change with
  | remoteWake target =>
      simp only [step, Option.ite_none_right_eq_some, Option.some.injEq] at stepped
      obtain ⟨_, rfl⟩ := stepped
      have woken := inOrder.wakeSection target
      exact ⟨woken.order, woken.answered⟩
  | remoteSend target =>
      simp only [step, Option.ite_none_right_eq_some, Option.some.injEq] at stepped
      obtain ⟨_, rfl⟩ := stepped
      have sent := inOrder.sendReady target
      exact ⟨sent.order, sent.answered⟩
  | wake target =>
      simp only [step, Option.ite_none_right_eq_some, Option.some.injEq] at stepped
      obtain ⟨_, rfl⟩ := stepped
      have woken := inOrder.wakeSection target
      exact ⟨woken.order, woken.answered⟩
  | send =>
      simp only [step] at stepped
      split at stepped
      · rename_i target holds
        cases stepped
        have sent := inOrder.sendReady target
        exact ⟨sent.order, sent.answered⟩
      · cases stepped
  | create id =>
      simp only [step, Option.ite_none_right_eq_some, Option.some.injEq] at stepped
      obtain ⟨_, rfl⟩ := stepped
      have made : InOrder
          { scheduling.setSchedule scheduling.created (TaskSchedule.new id) with
            created := scheduling.created + 1 } :=
        ⟨inOrder.order, inOrder.answered⟩
      have woken := made.wakeSection scheduling.created
      exact ⟨woken.order, woken.answered⟩
  | receive =>
      simp only [step] at stepped
      split at stepped
      · rename_i entry rest idle free waiting
        cases stepped
        refine ⟨?_, inOrder.answered⟩
        have order := inOrder.order
        rw [free, waiting] at order
        exact order
      · cases stepped
  | reject => cases serves
  | beginPoll target =>
      simp only [step] at stepped
      split at stepped
      · rename_i entry idle holds
        cases stepped
        obtain ⟨queued, unpoisoned, own⟩ := serves
        rw [beginPoll_ok unpoisoned queued]
        refine ⟨?_, ?_⟩
        · have order := inOrder.order
          rw [holds] at order
          simp [entered, polled, setSchedule, order]
        · intro schedule other member
          rcases List.mem_cons.mp member with same | earlier
          · cases same
            exact own entry holds
          · exact inOrder.answered schedule other earlier
      · cases stepped
  | finishPoll target result =>
      simp only [step, Option.ite_none_right_eq_some, Option.some.injEq] at stepped
      obtain ⟨_, rfl⟩ := stepped
      unfold Scheduling.finishPoll
      split
      · exact ⟨inOrder.order, inOrder.answered⟩
      · exact ⟨inOrder.order, inOrder.answered⟩
  | unwind target =>
      simp only [step, Option.ite_none_right_eq_some, Option.some.injEq] at stepped
      obtain ⟨_, rfl⟩ := stepped
      refine ⟨inOrder.order, ?_⟩
      intro schedule entry member
      rcases List.mem_cons.mp member with same | earlier
      · cases same
      · exact inOrder.answered schedule entry earlier
  | disconnect => cases serves

end Scheduling

end Asyncr
