import Asyncr.Time.DriverInvariant

namespace Asyncr.Time

open Asyncr
open Library

universe u

variable {W : Type u}

/-! `Sleep` of `time/sleep.rs`.  Its `timer` field is the shared driver state,
which every method takes and returns. -/

structure Sleep where
  deadline : Instant
  registration : Option TimerId
  deriving Repr

namespace Sleep

def new (deadline : Instant) : Sleep where
  deadline := deadline
  registration := none

def isElapsed (sleep : Sleep) (now : Instant) : Bool :=
  decide (sleep.deadline ≤ now)

def reset (sleep : Sleep) (timer : TimerState W) (deadline : Instant) :
    TimerState W × Sleep :=
  let sleep := { sleep with deadline := deadline }
  match sleep.registration with
  | some id =>
      match timer.reschedule id deadline with
      | (timer, true) => (timer, sleep)
      | (timer, false) => (timer, { sleep with registration := none })
  | none => (timer, sleep)

/-- `registration.take()` followed by `cancel`. -/
def release (sleep : Sleep) (timer : TimerState W) : TimerState W × Sleep :=
  match sleep.registration with
  | some id => (timer.cancel id, { sleep with registration := none })
  | none => (timer, sleep)

theorem release_registration (sleep : Sleep) (timer : TimerState W) :
    (sleep.release timer).2.registration = none := by
  unfold release
  cases held : sleep.registration with
  | none => exact held
  | some id => rfl

theorem release_nextId (sleep : Sleep) (timer : TimerState W) :
    (sleep.release timer).1.nextId = timer.nextId := by
  unfold release
  cases sleep.registration with
  | none => rfl
  | some id => rfl

theorem release_deadline (sleep : Sleep) (timer : TimerState W) :
    (sleep.release timer).2.deadline = sleep.deadline := by
  unfold release
  cases sleep.registration with
  | none => rfl
  | some id => rfl

theorem lookup_release_held {sleep : Sleep} {id : TimerId}
    (held : sleep.registration = some id) (timer : TimerState W) :
    (sleep.release timer).1.registrations.lookup id = none := by
  simp [release, held, TimerState.cancel]

theorem lookup_release_other {sleep : Sleep} {id : TimerId}
    (other : sleep.registration ≠ some id) (timer : TimerState W) :
    (sleep.release timer).1.registrations.lookup id =
      timer.registrations.lookup id := by
  unfold release
  cases held : sleep.registration with
  | none => rfl
  | some heldId =>
      have different : id ≠ heldId := by
        rintro rfl
        exact other held
      exact AList.lookup_erase_ne different

theorem lookup_release_absent {timer : TimerState W} {id : TimerId}
    (absent : timer.registrations.lookup id = none) (sleep : Sleep) :
    (sleep.release timer).1.registrations.lookup id = none := by
  by_cases held : sleep.registration = some id
  · exact lookup_release_held held timer
  · exact (lookup_release_other held timer).trans absent

theorem lookup_of_release {sleep : Sleep} {timer : TimerState W} {id : TimerId}
    {registration : TimerRegistration W}
    (found : (sleep.release timer).1.registrations.lookup id =
      some registration) :
    timer.registrations.lookup id = some registration := by
  by_cases held : sleep.registration = some id
  · rw [lookup_release_held held] at found
    cases found
  · exact (lookup_release_other held timer).symm.trans found

theorem release_covered {timer : TimerState W} (covered : timer.Covered)
    (sleep : Sleep) : (sleep.release timer).1.Covered := by
  unfold release
  cases sleep.registration with
  | none => exact covered
  | some id => exact covered.cancel id

theorem reset_covered {timer : TimerState W} (covered : timer.Covered)
    (sleep : Sleep) (deadline : Instant) :
    (sleep.reset timer deadline).1.Covered := by
  unfold reset
  cases held : sleep.registration with
  | none => exact covered
  | some id =>
      have moved := covered.reschedule id deadline
      rcases rescheduled : timer.reschedule id deadline with ⟨after, live⟩
      rw [rescheduled] at moved
      cases live with
      | true => simpa [rescheduled] using moved
      | false => simpa [rescheduled] using moved

theorem lookup_of_insert {registrations : Registrations W} {id other : TimerId}
    {registration found : TimerRegistration W}
    (lookup : (registrations.insert id registration).lookup other = some found) :
    other = id ∧ found = registration ∨ registrations.lookup other = some found := by
  cases decEq other id with
  | isTrue same =>
      subst same
      rw [AList.lookup_insert] at lookup
      exact Or.inl ⟨rfl, (Option.some.inj lookup).symm⟩
  | isFalse different =>
      rw [AList.lookup_insert_ne different] at lookup
      exact Or.inr lookup

theorem lookup_of_reset {sleep : Sleep} {timer : TimerState W} {deadline : Instant}
    {id : TimerId} {registration : TimerRegistration W}
    (found : (sleep.reset timer deadline).1.registrations.lookup id =
      some registration) :
    timer.registrations.lookup id = some registration ∨
      ∃ before, timer.registrations.lookup id = some before ∧
        registration = { before with deadline := deadline } := by
  unfold reset at found
  cases held : sleep.registration with
  | none =>
      simp only [held] at found
      exact Or.inl found
  | some heldId =>
      simp only [held] at found
      cases old : timer.registrations.lookup heldId with
      | none =>
          simp only [TimerState.reschedule_of_none old] at found
          exact Or.inl found
      | some before =>
          simp only [TimerState.reschedule_of_some old] at found
          rcases lookup_of_insert found with ⟨rfl, rfl⟩ | other
          · exact Or.inr ⟨before, old, rfl⟩
          · exact Or.inl other

theorem lookup_reset_other {sleep : Sleep} {id : TimerId}
    (other : sleep.registration ≠ some id) (timer : TimerState W)
    (deadline : Instant) :
    (sleep.reset timer deadline).1.registrations.lookup id =
      timer.registrations.lookup id := by
  unfold reset
  cases held : sleep.registration with
  | none => rfl
  | some heldId =>
      have different : id ≠ heldId := by
        rintro rfl
        exact other held
      cases found : timer.registrations.lookup heldId with
      | none => simp only [TimerState.reschedule_of_none found]
      | some registration =>
          simp only [TimerState.reschedule_of_some found]
          exact AList.lookup_insert_ne different

theorem lookup_reset_absent {timer : TimerState W} {id : TimerId}
    (absent : timer.registrations.lookup id = none) (sleep : Sleep)
    (deadline : Instant) :
    (sleep.reset timer deadline).1.registrations.lookup id = none := by
  by_cases held : sleep.registration = some id
  · simp [reset, held, TimerState.reschedule_of_none absent, absent]
  · exact (lookup_reset_other held timer deadline).trans absent

theorem reset_registration (sleep : Sleep) (timer : TimerState W)
    (deadline : Instant) :
    (sleep.reset timer deadline).2.registration = sleep.registration ∨
      (sleep.reset timer deadline).2.registration = none := by
  unfold reset
  cases held : sleep.registration with
  | none => exact Or.inr rfl
  | some id =>
      cases found : timer.registrations.lookup id with
      | none =>
          right
          simp only [TimerState.reschedule_of_none found]
      | some registration =>
          left
          simp only [TimerState.reschedule_of_some found]

theorem reset_deadline (sleep : Sleep) (timer : TimerState W)
    (deadline : Instant) : (sleep.reset timer deadline).2.deadline = deadline := by
  unfold reset
  cases held : sleep.registration with
  | none => rfl
  | some id =>
      cases found : timer.registrations.lookup id with
      | none => simp only [TimerState.reschedule_of_none found]
      | some registration => simp only [TimerState.reschedule_of_some found]

theorem reset_of_live {sleep : Sleep} {timer : TimerState W} {id : TimerId}
    {registration : TimerRegistration W} (held : sleep.registration = some id)
    (found : timer.registrations.lookup id = some registration)
    (deadline : Instant) :
    sleep.reset timer deadline =
      ({ timer with
          deadlines := timer.deadlines.push (toLex (deadline, id))
          registrations := timer.registrations.insert id
            { registration with deadline := deadline } },
        { sleep with deadline := deadline }) := by
  simp [reset, held, TimerState.reschedule_of_some found]

/-- `Sleep::poll`; `now` is the value `is_elapsed` reads. -/
def poll [WillWake W] (sleep : Sleep) (timer : TimerState W) (now : Instant) (waker : W) :
    TimerState W × Sleep × Except Panic (Poll Unit) :=
  if sleep.isElapsed now then
    let (timer, sleep) := sleep.release timer
    (timer, sleep, .ok (.ready ()))
  else
    match sleep.registration with
    | some id =>
        match timer.updateWaker id waker with
        | .ok timer => (timer, sleep, .ok .pending)
        | .error panic => (timer, sleep, .error panic)
    | none =>
        match timer.register sleep.deadline waker with
        | (timer, .ok id) =>
            (timer, { sleep with registration := some id }, .ok .pending)
        | (timer, .error panic) => (timer, sleep, .error panic)

theorem poll_elapsed [WillWake W] (sleep : Sleep) (timer : TimerState W)
    {now : Instant} (due : sleep.deadline ≤ now) (waker : W) :
    sleep.poll timer now waker =
      ((sleep.release timer).1, (sleep.release timer).2, .ok (.ready ())) := by
  simp [poll, isElapsed, due]

def drop (sleep : Sleep) (timer : TimerState W) : TimerState W :=
  (sleep.release timer).1

end Sleep

end Asyncr.Time
