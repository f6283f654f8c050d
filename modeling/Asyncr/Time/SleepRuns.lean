import Asyncr.Time.SleepCoupling

namespace Asyncr.Time

open Asyncr
open Library

universe u

variable {W : Type u} [WillWake W]

namespace Timers

/-- The outcomes of a call, without the panics that a coupled state excludes. -/
inductive Outcome (timers : Timers W) :
    SleepCall W → Timers W → SleepReply W → Prop
  | created (deadline : Instant) :
      Outcome timers (.new deadline)
        { timers with
          sleeps := Function.update timers.sleeps timers.created
            (some (Sleep.new deadline))
          created := timers.created + 1 }
        (.created timers.created)
  | elapsed {target : Nat} {sleep : Sleep} {now : Instant} (waker : W) :
      timers.sleeps target = some sleep → timers.clock ≤ now →
      sleep.deadline ≤ now →
      Outcome timers (.poll target waker now)
        { timers with
          driver := (sleep.release timers.driver).1
          sleeps := Function.update timers.sleeps target
            (some (sleep.release timers.driver).2)
          clock := now }
        (.polled (.ok (.ready ())))
  | updated {target : Nat} {sleep : Sleep} {now : Instant} {waker : W}
      {id : TimerId} {after : TimerState W} :
      timers.sleeps target = some sleep → timers.clock ≤ now →
      sleep.registration = some id →
      timers.driver.updateWaker id waker = .ok after →
      Outcome timers (.poll target waker now)
        { timers with
          driver := after
          sleeps := Function.update timers.sleeps target (some sleep)
          clock := now }
        (.polled (.ok .pending))
  | registered {target : Nat} {sleep : Sleep} {now : Instant} {waker : W}
      {id : TimerId} {after : TimerState W} :
      timers.sleeps target = some sleep → timers.clock ≤ now →
      sleep.registration = none →
      timers.driver.register sleep.deadline waker = (after, .ok id) →
      Outcome timers (.poll target waker now)
        { timers with
          driver := after
          sleeps := Function.update timers.sleeps target
            (some { sleep with registration := some id })
          registered := timers.registered + 1
          clock := now }
        (.polled (.ok .pending))
  | reset {target : Nat} {sleep : Sleep} (deadline : Instant) :
      timers.sleeps target = some sleep →
      Outcome timers (.reset target deadline)
        { timers with
          driver := (sleep.reset timers.driver deadline).1
          sleeps := Function.update timers.sleeps target
            (some (sleep.reset timers.driver deadline).2) }
        .done
  | dropped {target : Nat} {sleep : Sleep} :
      timers.sleeps target = some sleep →
      Outcome timers (.drop target)
        { timers with
          driver := (sleep.release timers.driver).1
          sleeps := Function.update timers.sleeps target none }
        .done
  | expired {now : Instant} :
      timers.clock ≤ now →
      Outcome timers (.processExpired now)
        { timers with
          driver := (timers.driver.processExpired now).1
          clock := now
          fired := timers.fired ++ (timers.driver.expired now).map
            fun removed => (removed.1, removed.2.waker) }
        (.woken (timers.driver.processExpired now).2)
  | searched :
      Outcome timers .nextDeadline
        { timers with driver := timers.driver.nextDeadline.1 }
        (.deadline timers.driver.nextDeadline.2)

theorem Coupled.pollOutcome {timers : Timers W} (coupled : timers.Coupled)
    {target : Nat} {sleep : Sleep} (live : timers.sleeps target = some sleep)
    {now : Instant} (later : timers.clock ≤ now) (waker : W) :
    Outcome timers (.poll target waker now)
      { timers with
        driver := (sleep.poll timers.driver now waker).1
        sleeps := Function.update timers.sleeps target
          (some (sleep.poll timers.driver now waker).2.1)
        clock := now
        registered := timers.registered + (if sleep.registers now then 1 else 0) }
      (.polled (sleep.poll timers.driver now waker).2.2) := by
  have outcome := poll_outcome sleep timers.driver now waker
  generalize (sleep.poll timers.driver now waker).1 = driver at outcome ⊢
  generalize (sleep.poll timers.driver now waker).2.1 = polled at outcome ⊢
  generalize (sleep.poll timers.driver now waker).2.2 = result at outcome ⊢
  cases outcome with
  | elapsed due =>
      have silent : sleep.registers now = false := by
        simp [Sleep.registers, Sleep.isElapsed, due]
      rw [if_neg (by simp [silent])]
      exact Outcome.elapsed waker live later due
  | updated id after early held updated =>
      have silent : sleep.registers now = false := by
        simp [Sleep.registers, held]
      rw [if_neg (by simp [silent])]
      exact Outcome.updated live later held updated
  | unregistered id panic early held failed =>
      obtain ⟨_, absent⟩ := TimerState.updateWaker_error failed
      exact absurd absent (coupled.live_of_early live held later early)
  | registered id after early unheld registered =>
      rw [if_pos ((registers_iff sleep now).mpr ⟨early, unheld⟩)]
      exact Outcome.registered live later unheld registered
  | exhausted panic after early unheld failed =>
      obtain ⟨_, present, _⟩ := TimerState.register_error failed
      exact absurd present coupled.next_unused

theorem Coupled.outcome {timers next : Timers W} (coupled : timers.Coupled)
    {call : SleepCall W} {reply : SleepReply W}
    (called : timers.call call = some (next, reply)) :
    Outcome timers call next reply := by
  cases call with
  | new deadline =>
      cases called
      exact Outcome.created deadline
  | poll target waker now =>
      unfold Timers.call at called
      cases live : timers.sleeps target with
      | none =>
          simp only [live, reduceCtorEq] at called
      | some sleep =>
          simp only [live] at called
          split at called
          · rename_i later
            cases called
            exact coupled.pollOutcome live later waker
          · cases called
  | reset target deadline =>
      unfold Timers.call at called
      cases live : timers.sleeps target with
      | none =>
          simp only [live, reduceCtorEq] at called
      | some sleep =>
          simp only [live] at called
          cases called
          exact Outcome.reset deadline live
  | drop target =>
      unfold Timers.call at called
      cases live : timers.sleeps target with
      | none =>
          simp only [live, reduceCtorEq] at called
      | some sleep =>
          simp only [live] at called
          cases called
          exact Outcome.dropped live
  | processExpired now =>
      unfold Timers.call at called
      dsimp only at called
      split at called
      · rename_i later
        cases called
        exact Outcome.expired later
      · cases called
  | nextDeadline =>
      cases called
      exact Outcome.searched

namespace Outcome

variable {timers next : Timers W} {call : SleepCall W} {reply : SleepReply W}

theorem registered_le (outcome : Outcome timers call next reply) :
    timers.registered ≤ next.registered := by
  cases outcome with
  | registered => exact Nat.le_succ _
  | _ => exact le_refl _

theorem coupled (outcome : Outcome timers call next reply)
    (before : timers.Coupled) (few : next.registered < 2 ^ 64) :
    next.Coupled := by
  cases outcome with
  | created deadline => exact before.created deadline
  | elapsed waker live later due =>
      apply before.release live _ later
      intro after same
      cases same
      exact Sleep.release_registration _ _
  | updated live later held updated => exact before.updated live held updated later
  | registered live later unheld registered =>
      exact before.registered live unheld registered few later
  | reset deadline live => exact before.reset live deadline
  | dropped live =>
      apply before.release live _ (le_refl _)
      intro after same
      cases same
  | expired later => exact before.processExpired later _
  | searched => exact before.nextDeadline

theorem no_panic (outcome : Outcome timers call next reply) (panic : Panic) :
    reply ≠ .polled (.error panic) := by
  cases outcome with
  | _ =>
      intro same
      cases same

theorem others (outcome : Outcome timers call next reply)
    (before : timers.Coupled) {target other : Nat}
    (targeted : call.target? = some target) (different : other ≠ target)
    {id : TimerId} (holds : timers.Holds other id) :
    next.driver.registrations.lookup id =
      timers.driver.registrations.lookup id := by
  have notHeld : ∀ sleep, timers.sleeps target = some sleep →
      sleep.registration ≠ some id := by
    intro sleep live held
    exact different (before.heldOnce id other target holds ⟨sleep, live, held⟩)
  cases outcome with
  | created deadline => cases targeted
  | elapsed waker live later due =>
      cases targeted
      exact Sleep.lookup_release_other (notHeld _ live) _
  | updated live later held updated =>
      cases targeted
      obtain ⟨_, _, _, _, _, _, _, same⟩ := TimerState.updateWaker_ok updated
      exact same id fun equal => notHeld _ live (equal ▸ held)
  | @registered _ sleep _ waker fresh after live later unheld registered =>
      cases targeted
      obtain ⟨isNext, _, _, registrations⟩ := TimerState.register_ok registered
      have unlike : id ≠ fresh := by
        rintro rfl
        have below := before.heldFresh other id holds
        rw [isNext, ← before.counter] at below
        exact Nat.lt_irrefl _ below
      rw [registrations, AList.lookup_insert_ne unlike]
  | @reset _ sleep deadline live =>
      cases targeted
      exact Sleep.lookup_reset_other (notHeld _ live) _ deadline
  | dropped live =>
      cases targeted
      exact Sleep.lookup_release_other (notHeld _ live) _
  | expired later => cases targeted
  | searched => cases targeted

end Outcome

/-! What whole runs preserve, as long as fewer than `2 ^ 64` ids were given out. -/

theorem machine_step {timers next : Timers W} {call : SleepCall W} :
    machine.step timers call = some next ↔
      ∃ reply, timers.call call = some (next, reply) := by
  simp [machine]

theorem registered_le_of_call {timers next : Timers W} {call : SleepCall W}
    {reply : SleepReply W} (called : timers.call call = some (next, reply)) :
    timers.registered ≤ next.registered := by
  unfold Timers.call at called
  cases call with
  | new deadline =>
      cases called
      exact le_refl _
  | poll target waker now =>
      cases live : timers.sleeps target with
      | none => simp only [live, reduceCtorEq] at called
      | some sleep =>
          simp only [live] at called
          split at called
          · cases called
            exact Nat.le_add_right _ _
          · cases called
  | reset target deadline =>
      cases live : timers.sleeps target with
      | none => simp only [live, reduceCtorEq] at called
      | some sleep =>
          simp only [live] at called
          cases called
          exact le_refl _
  | drop target =>
      cases live : timers.sleeps target with
      | none => simp only [live, reduceCtorEq] at called
      | some sleep =>
          simp only [live] at called
          cases called
          exact le_refl _
  | processExpired now =>
      dsimp only at called
      split at called
      · cases called
        exact le_refl _
      · cases called
  | nextDeadline =>
      cases called
      exact le_refl _

theorem run_registered_le {allowed : Timers W → SleepCall W → Prop}
    {start finish : Timers W} (reach : machine.Reach allowed start finish) :
    start.registered ≤ finish.registered := by
  induction reach with
  | refl => exact le_refl _
  | step call _ _ stepped ih =>
      obtain ⟨reply, called⟩ := machine_step.mp stepped
      exact le_trans ih (registered_le_of_call called)

theorem run_invariant {allowed : Timers W → SleepCall W → Prop}
    {start finish : Timers W} (reach : machine.Reach allowed start finish)
    (few : finish.registered < 2 ^ 64) (coupled : start.Coupled)
    {holds : Timers W → Prop} (initially : holds start)
    (preserved : ∀ timers call next reply, timers.Coupled → holds timers →
      allowed timers call → Outcome timers call next reply → holds next) :
    finish.Coupled ∧ holds finish := by
  induction reach with
  | refl => exact ⟨coupled, initially⟩
  | step call before accepted stepped ih =>
      obtain ⟨reply, called⟩ := machine_step.mp stepped
      obtain ⟨middleCoupled, middleHolds⟩ :=
        ih (lt_of_le_of_lt (registered_le_of_call called) few)
      have outcome := middleCoupled.outcome called
      exact ⟨outcome.coupled middleCoupled few,
        preserved _ _ _ _ middleCoupled middleHolds accepted outcome⟩

theorem run_coupled {allowed : Timers W → SleepCall W → Prop}
    {start finish : Timers W} (reach : machine.Reach allowed start finish)
    (few : finish.registered < 2 ^ 64) (coupled : start.Coupled) :
    finish.Coupled := by
  have kept : finish.Coupled ∧ True := run_invariant reach few coupled trivial
    fun _ _ _ _ _ _ _ _ => trivial
  exact kept.1

/-- The wakers that the registration `id` has caused to be woken so far. -/
def wakesOf (timers : Timers W) (id : TimerId) : List W :=
  (timers.fired.filter fun firing => firing.1 == id).map Prod.snd

/-- The id was given out and its registration is gone: it never fires again. -/
structure Retired (timers : Timers W) (id : TimerId) : Prop where
  used : id.val.toNat < timers.registered
  absent : timers.driver.registrations.lookup id = none

/-- A registration has caused no wake while it is live, and at most one ever. -/
def FiredOnce (timers : Timers W) : Prop :=
  ∀ firing ∈ timers.fired, timers.Retired firing.1

/-- From a pending poll of `owner` with `waker` to its next poll or drop: `id` is
still armed for that waker, or has fired with it once. -/
inductive Waiting (timers : Timers W) (owner : Nat) (id : TimerId) (waker : W) :
    Prop
  | armed {sleep : Sleep} {registration : TimerRegistration W} :
      timers.sleeps owner = some sleep → sleep.registration = some id →
      timers.driver.registrations.lookup id = some registration →
      SameWake registration.waker waker → timers.wakesOf id = [] →
      Waiting timers owner id waker
  | fired {sleep : Sleep} {stored : W} :
      timers.sleeps owner = some sleep →
      (sleep.registration = some id ∨ sleep.registration = none) →
      timers.Retired id → SameWake stored waker →
      timers.wakesOf id = [stored] → Waiting timers owner id waker

/-- The call is neither a poll nor a drop of `owner`. -/
def Leaves (owner : Nat) (_ : Timers W) : SleepCall W → Prop
  | .poll target _ _ | .drop target => target ≠ owner
  | .new _ | .reset _ _ | .processExpired _ | .nextDeadline => True

namespace Outcome

variable {timers next : Timers W} {call : SleepCall W} {reply : SleepReply W}

omit [WillWake W] in
theorem wakesOf_expired (before : timers.Coupled) (now : Instant)
    (id : TimerId) :
    (((timers.driver.expired now).map fun removed =>
      (removed.1, removed.2.waker)).filter fun firing => firing.1 == id).map
        Prod.snd =
      match timers.driver.registrations.lookup id with
      | some registration =>
          if registration.deadline ≤ now then [registration.waker] else []
      | none => [] := by
  rw [List.filter_map, List.map_map]
  have sameFilter : ((fun firing : TimerId × W => firing.1 == id) ∘
      fun removed : TimerId × TimerRegistration W =>
        (removed.1, removed.2.waker)) = fun removed => removed.1 == id := rfl
  rw [sameFilter]
  cases found : timers.driver.registrations.lookup id with
  | none =>
      rw [TimerState.filter_expired_of_absent before.covered
        (by simp [found])]
      rfl
  | some registration =>
      cases Nat.decLe registration.deadline now with
      | isTrue within =>
          rw [TimerState.filter_expired_of_live before.covered found within]
          exact (if_pos within).symm
      | isFalse future =>
          rw [TimerState.filter_expired_of_absent before.covered (by
            intro other present
            rw [found] at present
            cases present
            exact not_le.mp future)]
          exact (if_neg future).symm

theorem retired (outcome : Outcome timers call next reply)
    (before : timers.Coupled) {id : TimerId} (retired : timers.Retired id) :
    next.Retired id ∧ next.wakesOf id = timers.wakesOf id := by
  obtain ⟨used, absent⟩ := retired
  cases outcome with
  | created deadline => exact ⟨⟨used, absent⟩, rfl⟩
  | elapsed waker live later due =>
      exact ⟨⟨used, Sleep.lookup_release_absent absent _⟩, rfl⟩
  | @updated _ _ _ _ heldId _ live later held updated =>
      obtain ⟨_, _, found, _, _, _, _, same⟩ :=
        TimerState.updateWaker_ok updated
      have different : id ≠ heldId := by
        rintro rfl
        rw [absent] at found
        cases found
      exact ⟨⟨used, (same id different).trans absent⟩, rfl⟩
  | @registered _ _ _ _ fresh _ live later unheld registered =>
      obtain ⟨isNext, _, _, registrations⟩ := TimerState.register_ok registered
      have different : id ≠ fresh := by
        rintro rfl
        rw [isNext, ← before.counter] at used
        exact Nat.lt_irrefl _ used
      refine ⟨⟨Nat.lt_succ_of_lt used, ?_⟩, rfl⟩
      rw [registrations, AList.lookup_insert_ne different]
      exact absent
  | reset deadline live =>
      exact ⟨⟨used, Sleep.lookup_reset_absent absent _ deadline⟩, rfl⟩
  | dropped live =>
      exact ⟨⟨used, Sleep.lookup_release_absent absent _⟩, rfl⟩
  | @expired now later =>
      refine ⟨⟨used, ?_⟩, ?_⟩
      · rw [Option.eq_none_iff_forall_ne_some]
        intro registration kept
        have live := ((TimerState.lookup_processExpired before.covered now id
          registration).mp kept).1
        rw [absent] at live
        cases live
      · unfold wakesOf
        rw [List.filter_append, List.map_append, wakesOf_expired before now id,
          absent, List.append_nil]
  | searched => exact ⟨⟨used, absent⟩, rfl⟩

theorem fired_once (outcome : Outcome timers call next reply)
    (before : timers.Coupled) (once : timers.FiredOnce) : next.FiredOnce := by
  have earlier : ∀ firing ∈ timers.fired, next.Retired firing.1 :=
    fun firing member => (outcome.retired before (once firing member)).1
  cases outcome with
  | @expired now later =>
      intro firing member
      rcases List.mem_append.mp member with old | new
      · exact earlier firing old
      · obtain ⟨⟨id, registration⟩, removed, rfl⟩ := List.mem_map.mp new
        obtain ⟨found, within⟩ := (TimerState.mem_expired before.covered now id
          registration).mp removed
        obtain ⟨owner, sleep, present, held, _⟩ :=
          before.owned id registration found
        refine ⟨before.heldFresh owner id ⟨sleep, present, held⟩, ?_⟩
        rw [Option.eq_none_iff_forall_ne_some]
        intro kept remains
        obtain ⟨same, future⟩ := (TimerState.lookup_processExpired
          before.covered now id kept).mp remains
        obtain rfl := Option.some.inj (same.symm.trans found)
        exact absurd within (not_le.mpr future)
  | created deadline => exact earlier
  | elapsed waker live later due => exact earlier
  | updated live later held updated => exact earlier
  | registered live later unheld registered => exact earlier
  | reset deadline live => exact earlier
  | dropped live => exact earlier
  | searched => exact earlier

theorem sleeps_other (outcome : Outcome timers call next reply)
    {target other : Nat} (targeted : call.target? = some target)
    (different : other ≠ target) :
    next.sleeps other = timers.sleeps other := by
  cases outcome with
  | created deadline => cases targeted
  | elapsed waker live later due =>
      cases targeted
      exact Function.update_of_ne different _ _
  | updated live later held updated =>
      cases targeted
      exact Function.update_of_ne different _ _
  | registered live later unheld registered =>
      cases targeted
      exact Function.update_of_ne different _ _
  | reset deadline live =>
      cases targeted
      exact Function.update_of_ne different _ _
  | dropped live =>
      cases targeted
      exact Function.update_of_ne different _ _
  | expired later => cases targeted
  | searched => cases targeted

theorem fired_of_target (outcome : Outcome timers call next reply)
    {target : Nat} (targeted : call.target? = some target) :
    next.fired = timers.fired := by
  cases outcome with
  | expired later => cases targeted
  | created deadline => cases targeted
  | searched => cases targeted
  | elapsed waker live later due => rfl
  | updated live later held updated => rfl
  | registered live later unheld registered => rfl
  | reset deadline live => rfl
  | dropped live => rfl

theorem reset_of_leaves (outcome : Outcome timers call next reply) {owner : Nat}
    (leaves : Leaves owner timers call) (targeted : call.target? = some owner)
    {sleep : Sleep} (present : timers.sleeps owner = some sleep) :
    ∃ deadline, next = { timers with
      driver := (sleep.reset timers.driver deadline).1
      sleeps := Function.update timers.sleeps owner
        (some (sleep.reset timers.driver deadline).2) } := by
  cases outcome with
  | reset deadline live =>
      cases targeted
      cases present.symm.trans live
      exact ⟨deadline, rfl⟩
  | elapsed waker live later due | updated live later held updated
  | registered live later unheld registered | dropped live =>
      cases targeted
      exact absurd rfl leaves
  | created deadline | expired later | searched => cases targeted

theorem sleep_stays (outcome : Outcome timers call next reply)
    (before : timers.Coupled) (untargeted : call.target? = none) {owner : Nat}
    {sleep : Sleep} (present : timers.sleeps owner = some sleep) :
    next.sleeps owner = some sleep := by
  cases outcome with
  | created deadline =>
      have different : owner ≠ timers.created := by
        rintro rfl
        rw [before.uncreated _ (le_refl _)] at present
        cases present
      exact (Function.update_of_ne different _ _).trans present
  | expired later | searched => exact present
  | elapsed waker live later due | updated live later held updated
  | registered live later unheld registered | reset deadline live | dropped live =>
      cases untargeted

theorem sleep_of_leaves (outcome : Outcome timers call next reply)
    (before : timers.Coupled) {owner : Nat} (leaves : Leaves owner timers call)
    {sleep : Sleep} (present : timers.sleeps owner = some sleep) :
    ∃ after, next.sleeps owner = some after ∧
      (after.registration = sleep.registration ∨ after.registration = none) := by
  cases targeted : call.target? with
  | some target =>
      cases decEq owner target with
      | isFalse different =>
          rw [outcome.sleeps_other targeted different]
          exact ⟨sleep, present, Or.inl rfl⟩
      | isTrue same =>
          subst same
          obtain ⟨deadline, rfl⟩ := outcome.reset_of_leaves leaves targeted present
          exact ⟨_, Function.update_self _ _ _,
            Sleep.reset_registration sleep timers.driver deadline⟩
  | none => exact ⟨sleep, outcome.sleep_stays before targeted present, Or.inl rfl⟩

theorem waiting_processExpired (before : timers.Coupled) {owner : Nat} {id : TimerId}
    {sleep : Sleep} {registration : TimerRegistration W} {waker : W}
    (present : timers.sleeps owner = some sleep) (held : sleep.registration = some id)
    (found : timers.driver.registrations.lookup id = some registration)
    (same : SameWake registration.waker waker) (silent : timers.wakesOf id = [])
    {now : Instant}
    (driver : next.driver = (timers.driver.processExpired now).1)
    (sleeps : next.sleeps = timers.sleeps)
    (registered : next.registered = timers.registered)
    (fired : next.fired = timers.fired ++ (timers.driver.expired now).map
      fun removed => (removed.1, removed.2.waker)) :
    next.Waiting owner id waker := by
  have holds : timers.Holds owner id := ⟨sleep, present, held⟩
  have woken : next.wakesOf id =
      if registration.deadline ≤ now then [registration.waker] else [] := by
    unfold wakesOf at silent ⊢
    rw [fired, List.filter_append, List.map_append, silent,
      wakesOf_expired before now id, found, List.nil_append]
  have remains : ∀ kept, next.driver.registrations.lookup id = some kept ↔
      timers.driver.registrations.lookup id = some kept ∧ now < kept.deadline := by
    intro kept
    rw [driver]
    exact TimerState.lookup_processExpired before.covered now id kept
  rw [← sleeps] at present
  cases Nat.decLe registration.deadline now with
  | isTrue within =>
      refine .fired present (Or.inl held)
        ⟨registered ▸ before.heldFresh owner id holds, ?_⟩ same
        (woken.trans (if_pos within))
      rw [Option.eq_none_iff_forall_ne_some]
      intro kept still
      obtain ⟨equal, future⟩ := (remains kept).mp still
      obtain rfl := Option.some.inj (equal.symm.trans found)
      exact absurd within (not_le.mpr future)
  | isFalse future =>
      exact .armed present held
        ((remains registration).mpr ⟨found, not_le.mp future⟩) same
        (woken.trans (if_neg future))

theorem waiting (outcome : Outcome timers call next reply)
    (before : timers.Coupled) {owner : Nat} (leaves : Leaves owner timers call)
    {id : TimerId} {waker : W} (waiting : timers.Waiting owner id waker) :
    next.Waiting owner id waker := by
  cases waiting with
  | fired present held retired same once =>
      obtain ⟨after, kept, registration⟩ :=
        outcome.sleep_of_leaves before leaves present
      obtain ⟨still, silent⟩ := outcome.retired before retired
      refine .fired kept ?_ still same (silent.trans once)
      rcases registration with unchanged | gone
      · exact unchanged ▸ held
      · exact Or.inr gone
  | @armed sleep registration present held found same silent =>
      have holds : timers.Holds owner id := ⟨sleep, present, held⟩
      cases targeted : call.target? with
      | some target =>
          cases decEq owner target with
          | isFalse different =>
              have kept := outcome.sleeps_other targeted different
              have looked := outcome.others before targeted different holds
              refine .armed (kept.trans present) held (looked.trans found) same ?_
              unfold wakesOf
              rw [outcome.fired_of_target targeted]
              exact silent
          | isTrue sameTarget =>
              subst sameTarget
              obtain ⟨deadline, rfl⟩ :=
                outcome.reset_of_leaves leaves targeted present
              rw [Sleep.reset_of_live held found]
              exact .armed (Function.update_self _ _ _) held
                (AList.lookup_insert _) same silent
      | none =>
          have kept := outcome.sleep_stays before targeted present
          cases outcome with
          | created deadline => exact .armed kept held found same silent
          | expired later =>
              exact waiting_processExpired before present held found same silent rfl
                rfl rfl rfl
          | searched => exact .armed kept held found same silent
          | elapsed waker live later due | updated live later held updated
          | registered live later unheld registered | reset deadline live
          | dropped live => cases targeted

end Outcome

/-- An id never passes from one sleep to another. -/
structure Exclusive (timers : Timers W) (owner : Nat) (id : TimerId) : Prop where
  used : id.val.toNat < timers.registered
  holder : ∀ other, timers.Holds other id → other = owner

omit [WillWake W] in
theorem holds_of_update {timers : Timers W} {id : TimerId} {target other : Nat}
    {entry : Option Sleep} {sleep : Sleep} (held : sleep.registration = some id)
    (present : Function.update timers.sleeps target entry other = some sleep)
    (kept : entry = some sleep → timers.Holds target id) : timers.Holds other id := by
  cases decEq other target with
  | isTrue same =>
      subst same
      rw [Function.update_self] at present
      exact kept present
  | isFalse different =>
      rw [Function.update_of_ne different] at present
      exact ⟨sleep, present, held⟩

theorem Outcome.exclusive {timers next : Timers W} {call : SleepCall W}
    {reply : SleepReply W} (outcome : Outcome timers call next reply)
    (before : timers.Coupled) {owner : Nat} {id : TimerId}
    (exclusive : timers.Exclusive owner id) : next.Exclusive owner id := by
  obtain ⟨used, holder⟩ := exclusive
  refine ⟨lt_of_lt_of_le used outcome.registered_le, ?_⟩
  intro other holds
  -- whatever holds the id now held it before: `register` gives out unused ids
  suffices timers.Holds other id by exact holder other this
  obtain ⟨sleep, present, held⟩ := holds
  cases outcome with
  | created deadline =>
      refine holds_of_update held present fun changed => ?_
      cases changed
      cases held
  | @elapsed target old now waker live later due =>
      refine holds_of_update held present fun changed => ?_
      cases changed
      rw [Sleep.release_registration] at held
      cases held
  | @updated target old now waker heldId after live later heldBefore updated =>
      refine holds_of_update held present fun changed => ?_
      cases changed
      exact ⟨sleep, live, held⟩
  | @registered target old now waker fresh after live later unheld registered =>
      refine holds_of_update held present fun changed => ?_
      cases changed
      obtain rfl : fresh = id := Option.some.inj held
      obtain ⟨isNext, _⟩ := TimerState.register_ok registered
      rw [isNext, ← before.counter] at used
      exact absurd used (Nat.lt_irrefl _)
  | @reset target old deadline live =>
      refine holds_of_update held present fun changed => ?_
      cases changed
      rcases Sleep.reset_registration old timers.driver deadline with kept | gone
      · exact ⟨old, live, kept ▸ held⟩
      · rw [gone] at held
        cases held
  | @dropped target old live =>
      exact holds_of_update held present nofun
  | expired later => exact ⟨sleep, present, held⟩
  | searched => exact ⟨sleep, present, held⟩

theorem Coupled.waiting_of_pending {timers polled : Timers W}
    (coupled : timers.Coupled) (once : timers.FiredOnce) {owner : Nat} {waker : W}
    {now : Instant}
    (called : timers.call (.poll owner waker now) =
      some (polled, .polled (.ok .pending))) :
    ∃ id, polled.Holds owner id ∧ polled.Waiting owner id waker := by
  have silent : ∀ id, (¬ timers.Retired id) → timers.wakesOf id = [] := by
    intro id unretired
    unfold wakesOf
    rw [List.map_eq_nil_iff, List.filter_eq_nil_iff]
    intro firing member same
    obtain rfl : firing.1 = id := beq_iff_eq.mp same
    exact unretired (once firing member)
  cases coupled.outcome called with
  | @updated _ sleep _ _ id after live later held updated =>
      obtain ⟨registration, stored, found, same, _, _, new, _⟩ :=
        TimerState.updateWaker_ok updated
      refine ⟨id, ⟨sleep, Function.update_self _ _ _, held⟩, ?_⟩
      refine .armed (Function.update_self _ _ _) held new same (silent id ?_)
      intro retired
      rw [retired.absent] at found
      cases found
  | @registered _ sleep _ _ id after live later unheld registered =>
      obtain ⟨isNext, _, _, registrations⟩ := TimerState.register_ok registered
      refine ⟨id, ⟨_, Function.update_self _ _ _, rfl⟩, ?_⟩
      have found : after.registrations.lookup id =
          some ⟨sleep.deadline, waker⟩ := by
        rw [registrations, AList.lookup_insert]
      refine .armed (Function.update_self _ _ _) rfl found (Or.inl rfl)
        (silent id ?_)
      · intro retired
        have used := retired.used
        rw [isNext, ← coupled.counter] at used
        exact Nat.lt_irrefl _ used

theorem Waiting.wakesOf_cases {timers : Timers W} {owner : Nat} {id : TimerId}
    {waker : W} (waiting : timers.Waiting owner id waker) :
    timers.wakesOf id = [] ∨
      ∃ stored, SameWake stored waker ∧ timers.wakesOf id = [stored] := by
  cases waiting with
  | armed present held found same silent => exact Or.inl silent
  | fired present held retired same once => exact Or.inr ⟨_, same, once⟩

/-- After `process_expired` at or past its deadline a waiting sleep has fired. -/
theorem Waiting.fired_of_due {timers after : Timers W} {owner : Nat}
    {id : TimerId} {waker : W} (waiting : timers.Waiting owner id waker)
    (coupled : timers.Coupled) {sleep : Sleep}
    (present : timers.sleeps owner = some sleep) {now : Instant}
    (due : sleep.deadline ≤ now) {reply : SleepReply W}
    (called : timers.call (.processExpired now) = some (after, reply)) :
    ∃ stored, SameWake stored waker ∧ after.wakesOf id = [stored] := by
  have outcome := coupled.outcome called
  have leaves : Leaves owner timers (.processExpired now) := trivial
  have still := outcome.waiting coupled leaves waiting
  cases still with
  | fired _ _ _ same once => exact ⟨_, same, once⟩
  | @armed kept registration keptPresent keptHeld found same silent =>
      cases outcome with
      | expired later =>
          rw [present] at keptPresent
          cases keptPresent
          obtain ⟨before, future⟩ := (TimerState.lookup_processExpired
            coupled.covered now id registration).mp found
          obtain ⟨holder, holderSleep, holderPresent, holderHeld, deadline⟩ :=
            coupled.owned id registration before
          obtain rfl := coupled.heldOnce id holder owner
            ⟨holderSleep, holderPresent, holderHeld⟩ ⟨sleep, present, keptHeld⟩
          rw [present] at holderPresent
          cases holderPresent
          rw [deadline] at due
          exact absurd due (not_le.mpr future)

theorem wakesOf_of_retired {allowed : Timers W → SleepCall W → Prop}
    {start finish : Timers W} (reach : machine.Reach allowed start finish)
    (few : finish.registered < 2 ^ 64) (coupled : start.Coupled) {id : TimerId}
    (retired : start.Retired id) : finish.wakesOf id = start.wakesOf id := by
  have silent : finish.Coupled ∧ finish.Retired id ∧
      finish.wakesOf id = start.wakesOf id := by
    apply run_invariant reach few coupled ⟨retired, rfl⟩
    intro timers call next reply before still _ stepped
    obtain ⟨after, same⟩ := stepped.retired before still.1
    exact ⟨after, same.trans still.2⟩
  exact silent.2.2

theorem run_firedOnce {clock : Instant} {timers : Timers W}
    (reach : machine.Reach Machine.Any (initial clock) timers)
    (few : timers.registered < 2 ^ 64) : timers.Coupled ∧ timers.FiredOnce := by
  apply run_invariant reach few (coupled_initial clock)
  · intro firing member
    cases member
  · intro timers call next reply coupled once _ outcome
    exact outcome.fired_once coupled once

/-- Whatever the sleeps of one driver do, in any order, the two records of each
registration agree, no call panics or touches another sleep's registration, and
a pending poll is answered by one wake of its own waker. -/
theorem sleeps_coupled {clock : Instant} {timers : Timers W}
    (reach : machine.Reach Machine.Any (initial clock) timers)
    (few : timers.registered < 2 ^ 64) :
    (∀ id registration,
      timers.driver.registrations.lookup id = some registration →
      ∃ owner sleep, timers.sleeps owner = some sleep ∧
        sleep.registration = some id ∧
        sleep.deadline = registration.deadline ∧
        ∀ other, timers.Holds other id → other = owner) ∧
    (∀ owner sleep id, timers.sleeps owner = some sleep →
      sleep.registration = some id →
      timers.driver.registrations.lookup id = none →
      sleep.deadline ≤ timers.clock) ∧
    (∀ call next reply, timers.call call = some (next, reply) →
      (∀ panic, reply ≠ .polled (.error panic)) ∧
      ∀ target other id, call.target? = some target → other ≠ target →
        timers.Holds other id →
        next.driver.registrations.lookup id =
          timers.driver.registrations.lookup id) ∧
    (∀ owner waker now polled,
      timers.call (.poll owner waker now) =
        some (polled, .polled (.ok .pending)) →
      ∃ id, polled.Holds owner id ∧
        ∀ later, machine.Reach (Leaves owner) polled later →
          later.registered < 2 ^ 64 →
          (later.wakesOf id = [] ∨
            ∃ stored, SameWake stored waker ∧ later.wakesOf id = [stored]) ∧
          (∀ earlier other, machine.Reach Machine.Any (initial clock) earlier →
            machine.Reach Machine.Any earlier timers →
            earlier.Holds owner other → other ≠ id →
            later.wakesOf other = polled.wakesOf other) ∧
          ∀ sleep instant after reply, later.sleeps owner = some sleep →
            sleep.deadline ≤ instant →
            later.call (.processExpired instant) = some (after, reply) →
            ∃ stored, SameWake stored waker ∧ after.wakesOf id = [stored]) := by
  obtain ⟨coupled, once⟩ := run_firedOnce reach few
  refine ⟨?_, coupled.elapsed, ?_, ?_⟩
  · intro id registration found
    obtain ⟨owner, sleep, present, held, deadline⟩ :=
      coupled.owned id registration found
    exact ⟨owner, sleep, present, held, deadline, fun other holds =>
      coupled.heldOnce id other owner holds ⟨sleep, present, held⟩⟩
  · intro call next reply called
    have outcome := coupled.outcome called
    exact ⟨outcome.no_panic, fun target other id targeted different holds =>
      outcome.others coupled targeted different holds⟩
  · intro owner waker now polled called
    have outcome := coupled.outcome called
    obtain ⟨id, holds, waiting⟩ := coupled.waiting_of_pending once called
    refine ⟨id, holds, fun later run bound => ?_⟩
    have polledFew := lt_of_le_of_lt (run_registered_le run) bound
    have polledCoupled := outcome.coupled coupled polledFew
    obtain ⟨laterCoupled, laterWaiting⟩ := run_invariant run bound polledCoupled
      waiting fun timers call next reply before still leaves stepped =>
        stepped.waiting before leaves still
    refine ⟨laterWaiting.wakesOf_cases, ?_, ?_⟩
    · intro earlier other reachedEarlier toTimers heldEarlier different
      have earlierFew := lt_of_le_of_lt (run_registered_le toTimers) few
      have earlierCoupled := run_coupled reachedEarlier earlierFew
        (coupled_initial clock)
      have exclusive := (run_invariant toTimers few earlierCoupled
        ⟨earlierCoupled.heldFresh owner other heldEarlier, fun holder holding =>
          earlierCoupled.heldOnce other holder owner holding heldEarlier⟩
        fun timers call next reply before still _ stepped =>
          stepped.exclusive before still).2
      have polledExclusive := outcome.exclusive coupled exclusive
      have retired : polled.Retired other := by
        refine ⟨polledExclusive.used, ?_⟩
        rw [Option.eq_none_iff_forall_ne_some]
        intro registration live
        obtain ⟨holder, sleep, present, held, _⟩ :=
          polledCoupled.owned other registration live
        obtain rfl := polledExclusive.holder holder ⟨sleep, present, held⟩
        obtain ⟨same, samePresent, sameHeld⟩ := holds
        rw [present] at samePresent
        cases samePresent
        exact different (Option.some.inj (held.symm.trans sameHeld))
      exact wakesOf_of_retired run bound polledCoupled retired
    · intro sleep instant after reply present due processed
      exact laterWaiting.fired_of_due laterCoupled present due processed

/-- Two sleeps, one of them moved before it is first polled. -/
def movedSleepCalls : List (SleepCall Waker) :=
  [.new 9, .new 5, .poll 1 (.task 1) 1, .reset 0 7]

def movedSleeps : Timers Waker :=
  (machine.run Machine.Any (initial 0) movedSleepCalls).getD (initial 0)

theorem sleeps_coupled_moved :
    ∃ polled id, movedSleeps.call (.poll 0 (.task 3) 2) =
        some (polled, .polled (.ok .pending)) ∧
      polled.Holds 0 id ∧ polled.wakesOf id = [] ∧
      ∀ after reply,
        polled.call (.processExpired 8) = some (after, reply) →
        ∃ stored, SameWake stored (.task 3) ∧ after.wakesOf id = [stored] := by
  have ran : machine.run Machine.Any (initial 0) movedSleepCalls =
      some movedSleeps := rfl
  have reach := Machine.reach_of_run ran
  obtain ⟨_, _, _, pending⟩ := sleeps_coupled reach (by decide)
  obtain ⟨id, holds, answered⟩ := pending 0 (.task 3) 2 _ rfl
  obtain ⟨woken, _, due⟩ := answered _ .refl (by decide)
  refine ⟨_, id, rfl, holds, ?_, ?_⟩
  · exact woken.resolve_right (by
      rintro ⟨stored, _, once⟩
      cases once)
  · intro after reply called
    exact due _ 8 after reply rfl (by decide) called

end Timers

end Asyncr.Time
