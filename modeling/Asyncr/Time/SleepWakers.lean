import Asyncr.Time.SleepRuns

namespace Asyncr.Time

open Asyncr
open Library

universe u

variable {W : Type u} [WillWake W]

namespace Timers

/-! The waker that waits for a sleep. -/

omit [WillWake W] in
def waker? (timers : Timers W) (owner : Nat) : Option W :=
  ((timers.sleeps owner).bind Sleep.registration).bind fun id =>
    (timers.driver.registrations.lookup id).map TimerRegistration.waker

omit [WillWake W] in
theorem waker?_eq_some {timers : Timers W} {owner : Nat} {waker : W} :
    timers.waker? owner = some waker ↔
      ∃ id registration, timers.Holds owner id ∧
        timers.driver.registrations.lookup id = some registration ∧
        registration.waker = waker := by
  simp only [waker?, Option.bind_eq_some_iff, Option.map_eq_some_iff]
  constructor
  · rintro ⟨id, ⟨sleep, present, held⟩, registration, found, same⟩
    exact ⟨id, registration, ⟨sleep, present, held⟩, found, same⟩
  · rintro ⟨id, registration, ⟨sleep, present, held⟩, found, same⟩
    exact ⟨id, ⟨sleep, present, held⟩, registration, found, same⟩

namespace Outcome

variable {timers next : Timers W} {call : SleepCall W} {reply : SleepReply W}
  {owner : Nat}

theorem live_on (outcome : Outcome timers call next reply) (before : timers.Coupled)
    (leaves : Leaves owner timers call) {id : TimerId}
    {registration : TimerRegistration W} (holds : timers.Holds owner id)
    (found : timers.driver.registrations.lookup id = some registration) :
    (∃ after, next.driver.registrations.lookup id = some after ∧
      after.waker = registration.waker) ∨
      ∃ now, call = .processExpired now ∧ registration.deadline ≤ now := by
  cases targeted : call.target? with
  | some target =>
      left
      cases decEq owner target with
      | isFalse different =>
          exact ⟨registration,
            (outcome.others before targeted different holds).trans found, rfl⟩
      | isTrue same =>
          subst same
          obtain ⟨sleep, present, held⟩ := holds
          obtain ⟨deadline, rfl⟩ := outcome.reset_of_leaves leaves targeted present
          rw [Sleep.reset_of_live held found]
          exact ⟨_, AList.lookup_insert _, rfl⟩
  | none =>
      cases outcome with
      | created deadline | searched => exact Or.inl ⟨registration, found, rfl⟩
      | @expired now later =>
          cases Nat.decLe registration.deadline now with
          | isTrue due => exact Or.inr ⟨now, rfl, due⟩
          | isFalse early =>
              left
              refine ⟨registration, ?_, rfl⟩
              exact (TimerState.lookup_processExpired before.covered now id
                registration).mpr ⟨found, not_le.mp early⟩
      | elapsed waker live later due | updated live later held updated
      | registered live later unheld registered | reset deadline live
      | dropped live => cases targeted

theorem waker_back (outcome : Outcome timers call next reply)
    (called : timers.call call = some (next, reply)) (before : timers.Coupled)
    {waker : W} (waits : next.waker? owner = some waker) :
    timers.waker? owner = some waker ∨ ∃ now, call = .poll owner waker now := by
  obtain ⟨id, registration, ⟨sleep, present, held⟩, found, isWaker⟩ :=
    waker?_eq_some.mp waits
  have old : timers.sleeps owner = some sleep →
      ((∃ earlier, timers.driver.registrations.lookup id = some earlier ∧
        earlier.waker = waker)) → timers.waker? owner = some waker := by
    rintro was ⟨earlier, looked, same⟩
    exact waker?_eq_some.mpr ⟨id, earlier, ⟨sleep, was, held⟩, looked, same⟩
  have stays : timers.sleeps owner = some sleep →
      next.driver.registrations.lookup id = timers.driver.registrations.lookup id →
      timers.waker? owner = some waker := by
    intro was same
    exact old was ⟨registration, same ▸ found, isWaker⟩
  have apart : ∀ {target : Nat} {entry : Option Sleep},
      call.target? = some target → owner ≠ target →
      Function.update timers.sleeps target entry owner = some sleep →
      timers.waker? owner = some waker := by
    intro target entry targeted different updated
    rw [Function.update_of_ne different] at updated
    exact stays updated (outcome.others before targeted different
      ⟨sleep, updated, held⟩)
  cases outcome with
  | created deadline =>
      left
      cases decEq owner timers.created with
      | isTrue same =>
          subst same
          cases (Function.update_self ..).symm.trans present
          cases held
      | isFalse different =>
          exact stays ((Function.update_of_ne different ..).symm.trans present) rfl
  | @elapsed target _ _ _ live later due =>
      left
      cases decEq owner target with
      | isFalse different => exact apart rfl different present
      | isTrue same =>
          subst same
          cases (Function.update_self ..).symm.trans present
          rw [Sleep.release_registration] at held
          cases held
  | @updated target _ _ _ _ _ live later isHeld updated =>
      cases decEq owner target with
      | isFalse different => exact Or.inl (apart rfl different present)
      | isTrue same =>
          subst same
          cases (Function.update_self ..).symm.trans present
          rcases waker_of_call called found with ⟨earlier, looked, same⟩ | ⟨_, now, polls⟩
          · exact Or.inl (old live ⟨earlier, looked, same.trans isWaker⟩)
          · cases polls
            exact Or.inr ⟨_, by rw [isWaker]⟩
  | @registered target _ _ _ _ _ live later unheld registered =>
      cases decEq owner target with
      | isFalse different => exact Or.inl (apart rfl different present)
      | isTrue same =>
          subst same
          cases (Function.update_self ..).symm.trans present
          cases held
          obtain ⟨_, _, _, registrations⟩ := TimerState.register_ok registered
          rw [registrations, AList.lookup_insert] at found
          cases found
          cases isWaker
          exact Or.inr ⟨_, rfl⟩
  | @reset target _ deadline live =>
      left
      cases decEq owner target with
      | isFalse different => exact apart rfl different present
      | isTrue same =>
          subst same
          cases (Function.update_self ..).symm.trans present
          rename_i earlier
          rcases Sleep.reset_registration earlier timers.driver deadline with
            unchanged | gone
          · have wasHeld := unchanged.symm.trans held
            have looked : ∃ before, timers.driver.registrations.lookup id = some before ∧
                before.waker = waker := by
              rcases Sleep.lookup_of_reset found with same | ⟨before, same, rfl⟩
              · exact ⟨registration, same, isWaker⟩
              · exact ⟨before, same, isWaker⟩
            obtain ⟨before, same, woken⟩ := looked
            exact waker?_eq_some.mpr ⟨id, before, ⟨earlier, live, wasHeld⟩, same, woken⟩
          · cases gone.symm.trans held
  | @dropped target _ live =>
      left
      cases decEq owner target with
      | isFalse different => exact apart rfl different present
      | isTrue same =>
          subst same
          cases (Function.update_self ..).symm.trans present
  | @expired now later =>
      left
      have kept := (TimerState.lookup_processExpired before.covered now id
        registration).mp found
      exact old present ⟨registration, kept.1, isWaker⟩
  | searched => exact Or.inl (stays present rfl)

theorem waker_of_pending (outcome : Outcome timers call next reply) {waker : W}
    {now : Instant} (polls : call = .poll owner waker now)
    (unready : reply ≠ .polled (.ok (.ready ()))) :
    ∃ stored, next.waker? owner = some stored ∧ SameWake stored waker := by
  subst polls
  cases outcome with
  | elapsed => exact absurd rfl unready
  | @updated _ sleep _ _ id after live later held updated =>
      obtain ⟨registration, stored, _, same, _, _, found, _⟩ :=
        TimerState.updateWaker_ok updated
      exact ⟨stored, waker?_eq_some.mpr
        ⟨id, _, ⟨sleep, Function.update_self .., held⟩, found, rfl⟩, same⟩
  | @registered _ sleep _ _ id after live later unheld registered =>
      obtain ⟨_, _, _, registrations⟩ := TimerState.register_ok registered
      refine ⟨waker, waker?_eq_some.mpr ⟨id, ⟨sleep.deadline, waker⟩,
        ⟨_, Function.update_self .., rfl⟩, ?_, rfl⟩, Or.inl rfl⟩
      rw [registrations, AList.lookup_insert]

theorem present_on (outcome : Outcome timers call next reply) (before : timers.Coupled)
    (undropped : call ≠ .drop owner) (present : timers.sleeps owner ≠ none) :
    next.sleeps owner ≠ none := by
  obtain ⟨sleep, found⟩ := Option.ne_none_iff_exists'.mp present
  cases targeted : call.target? with
  | none =>
      rw [outcome.sleep_stays before targeted found]
      exact Option.some_ne_none sleep
  | some target =>
      cases decEq owner target with
      | isFalse different =>
          rw [outcome.sleeps_other targeted different]
          exact present
      | isTrue same =>
          subst same
          cases outcome with
          | elapsed | updated | registered | reset =>
              cases targeted
              exact fun gone => nomatch (Function.update_self ..).symm.trans gone
          | dropped live =>
              cases targeted
              exact absurd rfl undropped
          | created | expired | searched => cases targeted

end Outcome

end Timers

end Asyncr.Time
