import Asyncr.Library.Machine
import Asyncr.Time.DriverInvariant
import Asyncr.Time.Sleep

namespace Asyncr.Time

open Asyncr
open Library

universe u

variable {W : Type u} [WillWake W]

/-! All the sleeps that share one driver.  A sleep is known by the order in which
it was created; `none` marks one that was dropped or is not created yet. -/

structure Timers (W : Type u) where
  driver : TimerState W
  sleeps : Nat → Option Sleep
  created : Nat
  /-- The last value read from the clock. -/
  clock : Instant
  /-- History: how often `register` was called. -/
  registered : Nat
  /-- History: what `process_expired` removed, with the waker it then woke. -/
  fired : List (TimerId × W)

inductive SleepCall (W : Type u) where
  | new (deadline : Instant)
  | poll (sleep : Nat) (waker : W) (now : Instant)
  | reset (sleep : Nat) (deadline : Instant)
  | drop (sleep : Nat)
  | processExpired (now : Instant)
  | nextDeadline

inductive SleepReply (W : Type u) where
  | created (sleep : Nat)
  | polled (result : Except Panic (Poll Unit))
  | done
  | woken (wakers : List W)
  | deadline (next : Option Instant)

/-- The sleep whose method a call is, if it is one. -/
def SleepCall.target? {W : Type u} : SleepCall W → Option Nat
  | .poll sleep _ _ | .reset sleep _ | .drop sleep => some sleep
  | .new _ | .processExpired _ | .nextDeadline => none

/-- The deadline that each sleep was last given, by `new` or by `reset`, in the order
of creation. -/
def SleepCall.asks {W : Type u} (asked : List Instant) : SleepCall W → List Instant
  | .new deadline => asked ++ [deadline]
  | .reset sleep deadline => asked.set sleep deadline
  | .poll _ _ _ | .drop _ | .processExpired _ | .nextDeadline => asked

/-- `poll` goes through `TimerHandle::register`. -/
def Sleep.registers (sleep : Sleep) (now : Instant) : Bool :=
  !sleep.isElapsed now && sleep.registration.isNone

namespace Timers

def initial (clock : Instant) : Timers W where
  driver := TimerState.initial
  sleeps := fun _ => none
  created := 0
  clock := clock
  registered := 0
  fired := []

/-- One call, completed before the next; a call that reads the clock is given the
value read, which is never below an earlier one. -/
def call (timers : Timers W) : SleepCall W → Option (Timers W × SleepReply W)
  | .new deadline =>
      some ({ timers with
          sleeps := Function.update timers.sleeps timers.created
            (some (Sleep.new deadline))
          created := timers.created + 1 },
        .created timers.created)
  | .poll target waker now =>
      match timers.sleeps target with
      | none => none
      | some sleep =>
          if timers.clock ≤ now then
            let (driver, polled, result) := sleep.poll timers.driver now waker
            some ({ timers with
                driver := driver
                sleeps := Function.update timers.sleeps target (some polled)
                clock := now
                registered := timers.registered +
                  (if sleep.registers now then 1 else 0) },
              .polled result)
          else
            none
  | .reset target deadline =>
      match timers.sleeps target with
      | none => none
      | some sleep =>
          let (driver, moved) := sleep.reset timers.driver deadline
          some ({ timers with
              driver := driver
              sleeps := Function.update timers.sleeps target (some moved) },
            .done)
  | .drop target =>
      match timers.sleeps target with
      | none => none
      | some sleep =>
          some ({ timers with
              driver := sleep.drop timers.driver
              sleeps := Function.update timers.sleeps target none },
            .done)
  | .processExpired now =>
      if timers.clock ≤ now then
        let (driver, wakers) := timers.driver.processExpired now
        some ({ timers with
            driver := driver
            clock := now
            fired := timers.fired ++ (timers.driver.expired now).map
              fun removed => (removed.1, removed.2.waker) },
          .woken wakers)
      else
        none
  | .nextDeadline =>
      let (driver, next) := timers.driver.nextDeadline
      some ({ timers with driver := driver }, .deadline next)

def machine : Machine (Timers W) (SleepCall W) where
  step timers call := (timers.call call).map Prod.fst

/-! What one call can do to the driver and to its sleep. -/

inductive PollOutcome (sleep : Sleep) (driver : TimerState W) (now : Instant)
    (waker : W) : TimerState W → Sleep → Except Panic (Poll Unit) → Prop
  | elapsed :
      sleep.deadline ≤ now →
      PollOutcome sleep driver now waker (sleep.release driver).1
        (sleep.release driver).2 (.ok (.ready ()))
  | updated (id : TimerId) (after : TimerState W) :
      now < sleep.deadline → sleep.registration = some id →
      driver.updateWaker id waker = .ok after →
      PollOutcome sleep driver now waker after sleep (.ok .pending)
  | unregistered (id : TimerId) (panic : Panic) :
      now < sleep.deadline → sleep.registration = some id →
      driver.updateWaker id waker = .error panic →
      PollOutcome sleep driver now waker driver sleep (.error panic)
  | registered (id : TimerId) (after : TimerState W) :
      now < sleep.deadline → sleep.registration = none →
      driver.register sleep.deadline waker = (after, .ok id) →
      PollOutcome sleep driver now waker after
        { sleep with registration := some id } (.ok .pending)
  | exhausted (panic : Panic) (after : TimerState W) :
      now < sleep.deadline → sleep.registration = none →
      driver.register sleep.deadline waker = (after, .error panic) →
      PollOutcome sleep driver now waker after sleep (.error panic)

theorem poll_outcome (sleep : Sleep) (driver : TimerState W) (now : Instant)
    (waker : W) :
    PollOutcome sleep driver now waker (sleep.poll driver now waker).1
      (sleep.poll driver now waker).2.1 (sleep.poll driver now waker).2.2 := by
  unfold Sleep.poll
  by_cases due : sleep.deadline ≤ now
  · simp only [Sleep.isElapsed, due, decide_true, if_true]
    exact .elapsed due
  · have early : now < sleep.deadline := not_le.mp due
    simp only [Sleep.isElapsed, due, decide_false, Bool.false_eq_true, if_false]
    cases held : sleep.registration with
    | some id =>
        cases updated : driver.updateWaker id waker with
        | ok after =>
            simp only [updated]
            exact .updated id after early held updated
        | error panic =>
            simp only [updated]
            exact .unregistered id panic early held updated
    | none =>
        rcases registered : driver.register sleep.deadline waker with
          ⟨after, result⟩
        cases result with
        | ok id => exact .registered id after early held registered
        | error panic => exact .exhausted panic after early held registered

theorem PollOutcome.decides {sleep polled : Sleep} {driver after : TimerState W}
    {now : Instant} {waker : W} {result : Except Panic (Poll Unit)}
    (outcome : PollOutcome sleep driver now waker after polled result) :
    polled.deadline = sleep.deadline ∧
      (result = .ok (.ready ()) ∧ sleep.deadline ≤ now ∨
        result ≠ .ok (.ready ()) ∧ now < sleep.deadline) := by
  cases outcome with
  | elapsed due => exact ⟨sleep.release_deadline driver, Or.inl ⟨rfl, due⟩⟩
  | updated id after early held updated => exact ⟨rfl, Or.inr ⟨by simp, early⟩⟩
  | unregistered id panic early held failed => exact ⟨rfl, Or.inr ⟨by simp, early⟩⟩
  | registered id after early held registered =>
      exact ⟨rfl, Or.inr ⟨by simp, early⟩⟩
  | exhausted panic after early held failed => exact ⟨rfl, Or.inr ⟨by simp, early⟩⟩

theorem registers_iff (sleep : Sleep) (now : Instant) :
    sleep.registers now = true ↔
      now < sleep.deadline ∧ sleep.registration = none := by
  simp [Sleep.registers, Sleep.isElapsed]

theorem PollOutcome.covered {sleep polled : Sleep} {driver after : TimerState W}
    {now : Instant} {waker : W} {result : Except Panic (Poll Unit)}
    (outcome : PollOutcome sleep driver now waker after polled result)
    (covered : driver.Covered) : after.Covered := by
  cases outcome with
  | elapsed due => exact Sleep.release_covered covered sleep
  | updated id after early held updated => exact covered.updateWaker updated
  | unregistered id panic early held failed => exact covered
  | registered id after early held registered =>
      have kept := covered.register sleep.deadline waker
      rwa [registered] at kept
  | exhausted panic after early held failed =>
      have kept := covered.register sleep.deadline waker
      rwa [failed] at kept

theorem covered_of_call {timers after : Timers W} {call : SleepCall W}
    {reply : SleepReply W} (covered : timers.driver.Covered)
    (called : timers.call call = some (after, reply)) : after.driver.Covered := by
  cases call with
  | new deadline =>
      cases called
      exact covered
  | poll sleep waker now =>
      simp only [Timers.call] at called
      split at called
      · cases called
      · split at called
        · cases called
          exact (poll_outcome _ _ now waker).covered covered
        · cases called
  | reset sleep deadline =>
      simp only [Timers.call] at called
      split at called
      · cases called
      · cases called
        exact Sleep.reset_covered covered _ deadline
  | drop sleep =>
      simp only [Timers.call] at called
      split at called
      · cases called
      · cases called
        exact Sleep.release_covered covered _
  | processExpired now =>
      simp only [Timers.call] at called
      split at called
      · cases called
        exact covered.processExpired now
      · cases called
  | nextDeadline =>
      cases called
      exact covered.nextDeadline

theorem registrations_of_nextDeadline {timers after : Timers W}
    {reply : SleepReply W}
    (called : timers.call .nextDeadline = some (after, reply)) :
    after.driver.registrations = timers.driver.registrations := by
  cases called
  rfl

/-! Where a registration comes from. -/

/-- What a call leaves registered: what was, one whose waker or deadline it has
replaced, or a new one for a deadline to come. -/
inductive Registered (timers : Timers W) (id : TimerId) :
    SleepCall W → TimerRegistration W → Prop
  | kept {call : SleepCall W} {registration : TimerRegistration W} :
      timers.driver.registrations.lookup id = some registration →
      Registered timers id call registration
  | updated {sleep : Nat} {waker : W} {now : Instant}
      {before : TimerRegistration W} :
      timers.driver.registrations.lookup id = some before →
      Registered timers id (.poll sleep waker now) { before with waker := waker }
  | moved {sleep : Nat} {deadline : Instant} {before : TimerRegistration W} :
      timers.driver.registrations.lookup id = some before →
      Registered timers id (.reset sleep deadline)
        { before with deadline := deadline }
  | added {sleep : Nat} {deadline : Instant} {waker : W} {now : Instant} :
      now < deadline → Registered timers id (.poll sleep waker now) ⟨deadline, waker⟩

theorem PollOutcome.leaves {sleep polled : Sleep} {timers : Timers W}
    {after : TimerState W} {now : Instant} {waker : W}
    {result : Except Panic (Poll Unit)}
    (outcome : PollOutcome sleep timers.driver now waker after polled result)
    {id : TimerId} {registration : TimerRegistration W}
    (found : after.registrations.lookup id = some registration) (target : Nat) :
    Registered timers id (.poll target waker now) registration := by
  cases outcome with
  | elapsed due => exact .kept (Sleep.lookup_of_release found)
  | unregistered _ panic early held failed => exact .kept found
  | updated _ after early held updated =>
      simp only [TimerState.updateWaker] at updated
      split at updated
      · cases updated
      · rename_i before old
        split at updated
        · cases updated
          exact .kept found
        · cases updated
          rcases Sleep.lookup_of_insert found with ⟨rfl, rfl⟩ | before
          · exact .updated old
          · exact .kept before
  | registered _ after early held registered =>
      simp only [TimerState.register, TimerState.takeNextId] at registered
      split at registered
      · cases registered
      · rename_i taken
        cases registered
        split at taken
        · cases taken
        · cases taken
          rcases Sleep.lookup_of_insert found with ⟨_, rfl⟩ | before
          · exact .added early
          · exact .kept before
  | exhausted panic after early held failed =>
      simp only [TimerState.register, TimerState.takeNextId] at failed
      split at failed
      · rename_i taken
        cases failed
        split at taken
        · cases taken
          exact .kept found
        · cases taken
      · cases failed

theorem registered_of_call {timers after : Timers W} {call : SleepCall W}
    {reply : SleepReply W} (called : timers.call call = some (after, reply))
    {id : TimerId} {registration : TimerRegistration W}
    (found : after.driver.registrations.lookup id = some registration) :
    Registered timers id call registration := by
  cases call with
  | new deadline =>
      cases called
      exact .kept found
  | poll sleep waker now =>
      simp only [Timers.call] at called
      split at called
      · cases called
      · split at called
        · cases called
          exact (poll_outcome _ _ now waker).leaves found sleep
        · cases called
  | reset sleep deadline =>
      simp only [Timers.call] at called
      split at called
      · cases called
      · cases called
        rcases Sleep.lookup_of_reset found with before | ⟨before, old, rfl⟩
        · exact .kept before
        · exact .moved old
  | drop sleep =>
      simp only [Timers.call] at called
      split at called
      · cases called
      · cases called
        exact .kept (Sleep.lookup_of_release found)
  | processExpired now =>
      simp only [Timers.call] at called
      split at called
      · cases called
        exact .kept
          ((TimerState.expireLoop_remaining now _ _ id registration).mp found).1
      · cases called
  | nextDeadline =>
      cases called
      exact .kept found

theorem waker_of_call {timers after : Timers W} {call : SleepCall W}
    {reply : SleepReply W} (called : timers.call call = some (after, reply))
    {id : TimerId} {registration : TimerRegistration W}
    (found : after.driver.registrations.lookup id = some registration) :
    (∃ before, timers.driver.registrations.lookup id = some before ∧
      before.waker = registration.waker) ∨
      ∃ sleep now, call = .poll sleep registration.waker now := by
  cases registered_of_call called found with
  | kept before => exact Or.inl ⟨_, before, rfl⟩
  | updated before => exact Or.inr ⟨_, _, rfl⟩
  | moved before => exact Or.inl ⟨_, before, rfl⟩
  | added early => exact Or.inr ⟨_, _, rfl⟩

/-- `process_expired` wakes what was registered, and leaves what is not due. -/
theorem processExpired_spec {timers after : Timers W} {now : Instant}
    {wakers : List W} (covered : timers.driver.Covered)
    (called : timers.call (.processExpired now) = some (after, .woken wakers)) :
    (∀ waker ∈ wakers, ∃ id registration,
      timers.driver.registrations.lookup id = some registration ∧
        registration.waker = waker) ∧
    ∀ id registration,
      after.driver.registrations.lookup id = some registration →
      now < registration.deadline := by
  simp only [Timers.call] at called
  split at called
  · cases called
    refine ⟨?_, ?_⟩
    · intro waker member
      obtain ⟨⟨id, registration⟩, removed, rfl⟩ := List.mem_map.mp member
      exact ⟨id, registration,
        TimerState.expireLoop_removed_lookup now _ _ _ removed, rfl⟩
    · intro id registration found
      exact ((TimerState.lookup_processExpired covered now id registration).mp
        found).2
  · cases called

/-! What a call of another sleep, or of this one, does to a sleep. -/

theorem sleeps_of_other {timers after : Timers W} {reply : SleepReply W}
    {call : SleepCall W} {owner : Nat}
    (called : timers.call call = some (after, reply))
    (other : call.target? ≠ some owner) (created : owner < timers.created) :
    after.sleeps owner = timers.sleeps owner ∧ timers.created ≤ after.created := by
  cases call with
  | new deadline =>
      cases called
      exact ⟨Function.update_of_ne (Nat.ne_of_lt created) _ _, Nat.le_succ _⟩
  | poll target waker now =>
      have different : owner ≠ target := fun same => other (by rw [same]; rfl)
      simp only [Timers.call] at called
      split at called
      · cases called
      · split at called
        · cases called
          exact ⟨Function.update_of_ne different _ _, Nat.le_refl _⟩
        · cases called
  | reset target deadline =>
      have different : owner ≠ target := fun same => other (by rw [same]; rfl)
      simp only [Timers.call] at called
      split at called
      · cases called
      · cases called
        exact ⟨Function.update_of_ne different _ _, Nat.le_refl _⟩
  | drop target =>
      have different : owner ≠ target := fun same => other (by rw [same]; rfl)
      simp only [Timers.call] at called
      split at called
      · cases called
      · cases called
        exact ⟨Function.update_of_ne different _ _, Nat.le_refl _⟩
  | processExpired now =>
      simp only [Timers.call] at called
      split at called
      · cases called
        exact ⟨rfl, Nat.le_refl _⟩
      · cases called
  | nextDeadline =>
      cases called
      exact ⟨rfl, Nat.le_refl _⟩

theorem sleep_of_poll {timers after : Timers W}
    {owner : Nat} {sleep : Sleep} {waker : W} {now : Instant}
    {result : Except Panic (Poll Unit)} (present : timers.sleeps owner = some sleep)
    (called : timers.call (.poll owner waker now) = some (after, .polled result)) :
    after.created = timers.created ∧
      (∃ polled, after.sleeps owner = some polled ∧ polled.deadline = sleep.deadline) ∧
      (result = .ok (.ready ()) ∧ sleep.deadline ≤ now ∨
        result ≠ .ok (.ready ()) ∧ now < sleep.deadline) := by
  simp only [Timers.call, present] at called
  split at called
  · cases called
    obtain ⟨kept, told⟩ := (poll_outcome sleep timers.driver now waker).decides
    exact ⟨rfl, ⟨_, Function.update_self _ _ _, kept⟩, told⟩
  · cases called

/-! The deadline of a sleep is the last that it was given. -/

def Answers (timers : Timers W) (asked : List Instant) : Prop :=
  asked.length = timers.created ∧
    ∀ owner sleep, timers.sleeps owner = some sleep →
      asked[owner]? = some sleep.deadline

omit [WillWake W] in
theorem answers_initial (clock : Instant) : (initial clock : Timers W).Answers [] := by
  refine ⟨rfl, ?_⟩
  intro owner sleep found
  cases found

omit [WillWake W] in
theorem Answers.updated {timers : Timers W} {asked later : List Instant} {target : Nat}
    {changed : Option Sleep} (answers : timers.Answers asked)
    (others : ∀ owner < asked.length, owner ≠ target → later[owner]? = asked[owner]?)
    (given : ∀ sleep, changed = some sleep → later[target]? = some sleep.deadline) :
    ∀ owner sleep, Function.update timers.sleeps target changed owner = some sleep →
      later[owner]? = some sleep.deadline := by
  intro owner sleep found
  by_cases same : owner = target
  · subst same
    rw [Function.update_self] at found
    exact given sleep found
  · rw [Function.update_of_ne same] at found
    have old := answers.2 owner sleep found
    obtain ⟨bound, _⟩ := List.getElem?_eq_some_iff.mp old
    exact (others owner bound same).trans old

theorem answers_of_call {timers after : Timers W} {asked : List Instant}
    {call : SleepCall W} {reply : SleepReply W} (answers : timers.Answers asked)
    (called : timers.call call = some (after, reply)) :
    after.Answers (call.asks asked) := by
  have ⟨counted, given⟩ := answers
  cases call with
  | new deadline =>
      cases called
      refine ⟨by simp [SleepCall.asks, counted], answers.updated ?_ ?_⟩
      · intro owner bound _
        exact List.getElem?_append_left bound
      · intro sleep made
        cases made
        simp [SleepCall.asks, Sleep.new, ← counted]
  | poll target waker now =>
      simp only [Timers.call] at called
      split at called
      · cases called
      · rename_i sleep present
        split at called
        · cases called
          refine ⟨counted, answers.updated (fun _ _ _ => rfl) ?_⟩
          intro polled isPolled
          cases isPolled
          rw [(poll_outcome sleep timers.driver now waker).decides.1]
          exact given target sleep present
        · cases called
  | reset target deadline =>
      simp only [Timers.call] at called
      split at called
      · cases called
      · rename_i sleep present
        cases called
        obtain ⟨bound, _⟩ := List.getElem?_eq_some_iff.mp (given target sleep present)
        refine ⟨by simp [SleepCall.asks, counted], answers.updated ?_ ?_⟩
        · intro owner _ other
          exact List.getElem?_set_ne other.symm
        · intro moved isMoved
          cases isMoved
          rw [Sleep.reset_deadline]
          exact List.getElem?_set_self bound
  | drop target =>
      simp only [Timers.call] at called
      split at called
      · cases called
      · cases called
        refine ⟨counted, answers.updated (fun _ _ _ => rfl) ?_⟩
        intro sleep dropped
        cases dropped
  | processExpired now =>
      simp only [Timers.call] at called
      split at called
      · cases called
        exact ⟨counted, given⟩
      · cases called
  | nextDeadline =>
      cases called
      exact ⟨counted, given⟩

theorem dropped_of_present {timers : Timers W} {owner : Nat} {sleep : Sleep}
    (present : timers.sleeps owner = some sleep) :
    ∃ after, timers.call (.drop owner) = some (after, .done) ∧
      after.sleeps owner = none ∧ after.created = timers.created := by
  simp only [Timers.call, present]
  exact ⟨_, rfl, Function.update_self _ _ _, rfl⟩

end Timers

end Asyncr.Time
