import Asyncr.Program.Structured

namespace Asyncr

open Library
open Time

/-! Where the requests for a poll come from. -/

namespace Scheduling

variable {scheduling next : Scheduling} {schedule : Nat}

theorem step_requested_back {change : ScheduleStep}
    (stepped : scheduling.step change = some next)
    (requested : (next.state schedule).requested = true) :
    (scheduling.state schedule).requested = true ∨ change = .wake schedule ∨
      change = .remoteWake schedule ∨
      schedule = scheduling.created ∧ ∃ id, change = .create id := by
  have woken : ∀ {target : Nat},
      ((scheduling.wakeSection target).1.state schedule).requested = true →
      (scheduling.state schedule).requested = true ∨ target = schedule := by
    intro target asked
    rcases state_wakeSection scheduling target schedule with same | ⟨isTarget, _⟩
    · exact Or.inl (same ▸ asked)
    · exact Or.inr isTarget
  have set : ∀ {target : Nat} {changed : TaskSchedule},
      (changed.state.requested = true → (scheduling.state target).requested = true) →
      ((scheduling.setSchedule target changed).state schedule).requested = true →
      (scheduling.state schedule).requested = true := by
    intro target changed before asked
    rw [state_setSchedule] at asked
    split at asked
    · rename_i same
      subst same
      exact before asked
    · exact asked
  cases change with
  | remoteWake target =>
      simp only [step, Option.ite_none_right_eq_some, Option.some.injEq] at stepped
      obtain ⟨_, rfl⟩ := stepped
      rcases woken requested with before | rfl
      · exact Or.inl before
      · exact Or.inr (Or.inr (Or.inl rfl))
  | wake target =>
      simp only [step, Option.ite_none_right_eq_some, Option.some.injEq] at stepped
      obtain ⟨_, rfl⟩ := stepped
      rcases woken requested with before | rfl
      · exact Or.inl before
      · exact Or.inr (Or.inl rfl)
  | remoteSend target =>
      simp only [step, Option.ite_none_right_eq_some, Option.some.injEq] at stepped
      obtain ⟨_, rfl⟩ := stepped
      simp only [state, sendReady_schedules] at requested
      exact Or.inl requested
  | send =>
      simp only [step] at stepped
      split at stepped
      · cases stepped
        simp only [state, sendReady_schedules] at requested
        exact Or.inl requested
      · cases stepped
  | create id =>
      rw [step_create stepped] at requested
      change ((scheduling.setSchedule _ _).state schedule).requested = true at requested
      rw [state_setSchedule] at requested
      split at requested
      · rename_i same
        exact Or.inr (Or.inr (Or.inr ⟨same, id, rfl⟩))
      · exact Or.inl requested
  | receive =>
      obtain ⟨_, _, _, _, _, rfl⟩ := step_receive stepped
      exact Or.inl requested
  | reject =>
      rw [step_reject stepped] at requested
      exact Or.inl requested
  | beginPoll target =>
      obtain ⟨entry, _, _, rfl⟩ := step_beginPoll stepped
      left
      by_cases begins : (scheduling.schedules target).poisoned = false ∧
          scheduling.state target = .queued
      · rw [beginPoll_ok begins.1 begins.2] at requested
        exact set (fun asked => by cases asked) requested
      · rw [not_and_or, Bool.not_eq_false] at begins
        obtain ⟨changed, _, same, failed⟩ := beginPoll_error begins entry
        rw [failed] at requested
        exact set (fun asked => same ▸ asked) requested
  | finishPoll target result =>
      simp only [step, Option.ite_none_right_eq_some, Option.some.injEq] at stepped
      obtain ⟨_, rfl⟩ := stepped
      left
      by_cases finishes : (scheduling.schedules target).poisoned = false ∧
          ∃ notified, scheduling.state target = .running notified
      · obtain ⟨unpoisoned, notified, running⟩ := finishes
        rw [finishPoll_running unpoisoned running] at requested
        refine set ?_ requested
        intro asked
        rw [running]
        cases notified with
        | true => rfl
        | false => cases result <;> cases asked
      · rw [not_and_or, Bool.not_eq_false, not_exists] at finishes
        obtain ⟨changed, _, same, failed⟩ := finishPoll_error finishes result
        rw [failed] at requested
        exact set (fun asked => same ▸ asked) requested
  | unwind target | disconnect =>
      simp only [step, Option.ite_none_right_eq_some, Option.some.injEq] at stepped
      obtain ⟨_, rfl⟩ := stepped
      exact Or.inl requested

end Scheduling

namespace Executor

variable {executor next : Executor} {move : Move} {schedule : Nat}

theorem wake_of_change {change : ScheduleStep}
    (takes : executor.change? move = some change) :
    (change = .wake schedule → move = .wake schedule) ∧
      (change = .remoteWake schedule → move = .remoteWake schedule) := by
  cases move with
  | wake target | remoteWake target =>
      cases takes
      constructor
      all_goals
        intro same
        cases same <;> rfl
  | dispatch | endPoll result | panic =>
      simp only [change?] at takes
      repeat' split at takes
      all_goals cases takes
      all_goals
        constructor
        all_goals
          intro same
          cases same
  | remoteSend | send | spawn | blockOn | tryRecv | recv | release =>
      cases takes
      constructor
      all_goals
        intro same
        cases same
  | _ => cases takes

theorem Moved.requested_back (moved : Moved executor move next)
    (requested : (next.scheduling.state schedule).requested = true) :
    (executor.scheduling.state schedule).requested = true ∨ move = .wake schedule ∨
      move = .remoteWake schedule ∨ schedule = executor.scheduling.created := by
  rcases moved.change with same | ⟨change, takes, stepped⟩
  · exact Or.inl (same ▸ requested)
  · rcases Scheduling.step_requested_back stepped requested with
      before | wakes | wakes | ⟨created, _⟩
    · exact Or.inl before
    · exact Or.inr (Or.inl ((wake_of_change takes).1 wakes))
    · exact Or.inr (Or.inr (Or.inl ((wake_of_change takes).2 wakes)))
    · exact Or.inr (Or.inr (Or.inr created))

end Executor

namespace World

variable {Output : Type} {world next : World Output} {label : Label Output}
  {schedule : Nat}

theorem Stepped.requested_back (stepped : Stepped world label next)
    (requested : (next.executor.scheduling.state schedule).requested = true) :
    (world.executor.scheduling.state schedule).requested = true ∨
      schedule = world.executor.scheduling.created ∨
      (∃ frame ∈ world.stack, frame.wakes? = some schedule) ∨
      label = .executor (.wake schedule) ∨ label = .executor (.remoteWake schedule) := by
  rcases stepped.takes with same | ⟨move, takes, step⟩
  · exact Or.inl (same ▸ requested)
  · rcases (Executor.moved_of_step step).requested_back requested with
      before | rfl | rfl | created
    · exact Or.inl before
    · right
      right
      cases takes with
      | permitted permitted => exact Or.inr (Or.inl rfl)
      | woke wakes =>
          left
          generalize world.stack = stack at wakes
          cases wakes with
          | fire | wake => exact ⟨_, List.mem_cons_self, rfl⟩
    · cases takes with
      | permitted permitted => exact Or.inr (Or.inr (Or.inr (Or.inr rfl)))
    · exact Or.inr (Or.inl created)

theorem wakes_of_cleanup {frame : Frame Output} {rest : List (Frame Output)}
    (member : frame ∈ cleanup rest) : frame.wakes? = none := by
  rcases mem_cleanup member with ⟨_, rfl, _⟩ | ⟨_, _, rfl, _⟩ | ⟨_, rfl⟩ <;> rfl

theorem wakes_of_unwinds {frame : Frame Output} {rest left : List (Frame Output)}
    (unwinds : Unwinds world rest left) (member : frame ∈ left) : frame.wakes? = none := by
  cases unwinds with
  | loop phase =>
      rcases List.mem_append.mp member with dropped | last
      · exact wakes_of_cleanup dropped
      · cases List.mem_singleton.mp last
        rfl
  | leaving phase | closing phase => exact wakes_of_cleanup member

theorem wakes_of_unwound {frame : Frame Output} {executor : Executor}
    (member : frame ∈ (unwound executor : List (Frame Output))) : frame.wakes? = none := by
  unfold unwound at member
  split at member
  · cases List.mem_singleton.mp member
    rfl
  · cases member

theorem wakes_of_dropTask {frame : Frame Output} {task : LocalTask}
    (member : frame ∈ world.dropTask task) : frame.wakes? = none := by
  rcases mem_dropTask member with rfl | rfl <;> rfl

theorem Stepped.wakes_back (stepped : Stepped world label next)
    (covered : world.time.driver.Covered) {frame : Frame Output}
    (member : frame ∈ next.stack) (wakes : frame.wakes? = some schedule) :
    frame ∈ world.stack ∨
      (label = .drain ∧ ∃ id registration,
        world.time.driver.registrations.lookup id = some registration ∧
          registration.deadline ≤ world.now ∧ registration.waker = .task schedule) ∨
      label = .proceed ∧ ∃ join cell result, world.joins join = some cell ∧
        cell.state = .pending (some (.task schedule)) ∧
        next.joins join = some { cell with state := .ready result } := by
  have silent : frame.wakes? = none → False := by
    intro none
    cases none.symm.trans wakes
  have below : ∀ {top : Frame Output} {rest : List (Frame Output)},
      world.stack = top :: rest → frame ∈ rest → frame ∈ world.stack := by
    intro top rest stack later
    rw [stack]
    exact List.mem_cons_of_mem _ later
  cases stepped with
  | refused runs closed =>
      simp only [List.mem_cons] at member
      rcases member with rfl | rfl | rfl | old
      · cases wakes
      · cases wakes
      · cases wakes
      · exact Or.inl old
  | suspended free stack step | finished free phase notRoot stack step =>
      exact (silent (wakes_of_unwound member)).elim
  | returned free stack =>
      simp only [harness, List.mem_cons, List.not_mem_nil, or_false] at member
      rcases member with rfl | rfl <;> cases wakes
  | rootYielded free stack step =>
      dsimp only at member
      split at member
      · cases List.mem_singleton.mp member
        cases wakes
      · cases List.mem_singleton.mp member
        cases wakes
      · cases member
  | codeReturned free stack notRoot notInner => exact Or.inl (below stack member)
  | caught free stack =>
      simp only [List.mem_cons, List.not_mem_nil, or_false] at member
      rcases member with rfl | rfl | rfl <;> cases wakes
  | unwound free fails unwinds step =>
      exact (silent (wakes_of_unwinds unwinds member)).elim
  | called free stack =>
      rcases List.mem_cons.mp member with rfl | later
      · cases wakes
      · exact Or.inl (below stack later)
  | wokeCode free woken =>
      obtain ⟨top, stack⟩ := woken.ne_nil
      rcases List.mem_cons.mp member with rfl | later
      · cases wakes
      · exact Or.inl (below stack later)
  | wokeTask free woken unpoisoned step =>
      obtain ⟨top, stack⟩ := woken.ne_nil
      exact Or.inl (below stack member)
  | @published join result rest cell waker free stack present pending =>
      rcases List.mem_append.mp member with pushed | later
      · obtain ⟨woken, isWaker, rfl⟩ := List.mem_map.mp
          (by simpa using pushed : frame ∈ waker.toList.map (Frame.wake join))
        cases Option.mem_toList.mp isWaker
        cases woken with
        | custom code => cases wakes
        | task other =>
            cases wakes
            exact Or.inr (Or.inr ⟨rfl, join, cell, result, present, pending,
              Function.update_self ..⟩)
      · rcases List.mem_cons.mp later with rfl | rest
        · cases wakes
        · exact Or.inl (below stack rest)
  | released free stack present front =>
      rcases List.mem_append.mp member with pushed | later
      · rcases front with rfl | ⟨rfl, _⟩
        · cases pushed
        · cases List.mem_singleton.mp pushed
          cases wakes
      · exact Or.inl (below stack later)
  | granted free stack present => exact Or.inl (below stack member)
  | drained step called =>
      obtain ⟨waker, isWaker, rfl⟩ := List.mem_map.mp member
      obtain ⟨_, replied⟩ := fired_of_processExpired called
      cases replied
      obtain ⟨⟨id, registration⟩, removed, rfl⟩ := List.mem_map.mp isWaker
      obtain ⟨found, due⟩ := (TimerState.mem_expired covered _ id registration).mp removed
      refine Or.inr (Or.inl ⟨rfl, id, registration, found, due, ?_⟩)
      cases waker : registration.waker with
      | custom code =>
          simp [waker, Frame.wakes?] at wakes
      | task other =>
          simp only [waker, Frame.wakes?, Option.some.injEq] at wakes
          rw [wakes]
  | stuck phase wait called paused failed step | notBegun step other =>
      cases List.mem_singleton.mp member
      cases wakes
  | began step phase =>
      cases List.mem_singleton.mp member
      cases wakes
  | cleared stack pending step | destroyed stack found step =>
      exact (silent (wakes_of_dropTask member)).elim
  | _ => exact Or.inl member

end World

end Asyncr
