import Asyncr.Time.Timers

namespace Asyncr.Time

open Asyncr
open Library

universe u

variable {W : Type u}

namespace Timers

def Holds (timers : Timers W) (owner : Nat) (id : TimerId) : Prop :=
  ∃ sleep, timers.sleeps owner = some sleep ∧ sleep.registration = some id

/-- The two records of every registration agree, except that the driver may have
fired one whose sleep has not been polled since. -/
structure Coupled (timers : Timers W) : Prop where
  covered : timers.driver.Covered
  counter : timers.driver.nextId.toNat = timers.registered
  heldFresh : ∀ owner id, timers.Holds owner id →
    id.val.toNat < timers.registered
  heldOnce : ∀ id first second, timers.Holds first id →
    timers.Holds second id → first = second
  owned : ∀ id registration,
    timers.driver.registrations.lookup id = some registration →
    ∃ owner sleep, timers.sleeps owner = some sleep ∧
      sleep.registration = some id ∧ sleep.deadline = registration.deadline
  elapsed : ∀ owner sleep id, timers.sleeps owner = some sleep →
    sleep.registration = some id →
    timers.driver.registrations.lookup id = none →
    sleep.deadline ≤ timers.clock
  uncreated : ∀ owner, timers.created ≤ owner → timers.sleeps owner = none

theorem coupled_initial (clock : Instant) : (initial clock : Timers W).Coupled where
  covered := TimerState.covered_initial
  counter := rfl
  heldFresh := by
    rintro owner id ⟨sleep, found, _⟩
    cases found
  heldOnce := by
    rintro id first second ⟨sleep, found, _⟩
    cases found
  owned := by
    intro id registration found
    cases found
  elapsed := by
    intro owner sleep id found
    cases found
  uncreated := fun _ _ => rfl

namespace Coupled

variable {timers : Timers W}

theorem replace (coupled : timers.Coupled) {target : Nat} {sleep : Sleep}
    (live : timers.sleeps target = some sleep) {driver : TimerState W}
    {changed : Option Sleep} {registered : Nat} {clock : Instant}
    (covered : driver.Covered) (counter : driver.nextId.toNat = registered)
    (grows : timers.registered ≤ registered) (later : timers.clock ≤ clock)
    (others : ∀ id, sleep.registration ≠ some id →
      (∀ after, changed = some after → after.registration ≠ some id) →
      driver.registrations.lookup id = timers.driver.registrations.lookup id)
    (own : ∀ id registration,
      driver.registrations.lookup id = some registration →
      (sleep.registration = some id ∨
        ∃ after, changed = some after ∧ after.registration = some id) →
      ∃ after, changed = some after ∧ after.registration = some id ∧
        after.deadline = registration.deadline)
    (expired : ∀ after id, changed = some after → after.registration = some id →
      driver.registrations.lookup id = none → after.deadline ≤ clock)
    (fresh : ∀ after id, changed = some after → after.registration = some id →
      id.val.toNat < registered ∧
        (sleep.registration = some id ∨ timers.registered ≤ id.val.toNat)) :
    Coupled { timers with
      driver := driver
      sleeps := Function.update timers.sleeps target changed
      registered := registered
      clock := clock } where
  covered := covered
  counter := counter
  heldFresh := by
    rintro owner id ⟨found, present, held⟩
    cases decEq owner target with
    | isTrue same =>
        subst same
        simp only [Function.update_self] at present
        exact (fresh found id present held).1
    | isFalse different =>
        simp only [Function.update_of_ne different] at present
        exact lt_of_lt_of_le (coupled.heldFresh owner id ⟨found, present, held⟩)
          grows
  heldOnce := by
    have apart : ∀ owner id, owner ≠ target → timers.Holds owner id →
        ∀ after, changed = some after → after.registration ≠ some id := by
      intro owner id different holds after present held
      rcases (fresh after id present held).2 with before | new
      · exact different (coupled.heldOnce id owner target holds
          ⟨sleep, live, before⟩)
      · exact absurd (coupled.heldFresh owner id holds) (not_lt.mpr new)
    rintro id first second ⟨left, leftPresent, leftHeld⟩
      ⟨right, rightPresent, rightHeld⟩
    by_cases firstSame : first = target
    · subst firstSame
      by_contra different
      simp only [Function.update_self] at leftPresent
      simp only [Function.update_of_ne (Ne.symm different)] at rightPresent
      exact apart second id (Ne.symm different) ⟨right, rightPresent, rightHeld⟩
        left leftPresent leftHeld
    · simp only [Function.update_of_ne firstSame] at leftPresent
      by_cases secondSame : second = target
      · subst secondSame
        simp only [Function.update_self] at rightPresent
        exact absurd rightHeld (apart first id firstSame
          ⟨left, leftPresent, leftHeld⟩ right rightPresent)
      · simp only [Function.update_of_ne secondSame] at rightPresent
        exact coupled.heldOnce id first second ⟨left, leftPresent, leftHeld⟩
          ⟨right, rightPresent, rightHeld⟩
  owned := by
    intro id registration found
    by_cases involved : sleep.registration = some id ∨
        ∃ after, changed = some after ∧ after.registration = some id
    · obtain ⟨after, present, held, deadline⟩ := own id registration found involved
      exact ⟨target, after, by simp [present], held, deadline⟩
    · rw [not_or, not_exists] at involved
      have before := others id involved.1 fun after present held =>
        involved.2 after ⟨present, held⟩
      simp only [before] at found
      obtain ⟨owner, ownerSleep, present, held, deadline⟩ :=
        coupled.owned id registration found
      have different : owner ≠ target := by
        rintro rfl
        rw [live, Option.some.injEq] at present
        exact involved.1 (present ▸ held)
      exact ⟨owner, ownerSleep, by simp [different, present], held, deadline⟩
  elapsed := by
    intro owner ownerSleep id present held absent
    cases decEq owner target with
    | isTrue same =>
        subst same
        simp only [Function.update_self] at present
        exact expired ownerSleep id present held absent
    | isFalse different =>
        simp only [Function.update_of_ne different] at present
        have notOld : sleep.registration ≠ some id := fun before =>
          different (coupled.heldOnce id owner target
            ⟨ownerSleep, present, held⟩ ⟨sleep, live, before⟩)
        have notNew : ∀ after, changed = some after →
            after.registration ≠ some id := by
          intro after changedTo heldNew
          rcases (fresh after id changedTo heldNew).2 with before | new
          · exact notOld before
          · exact absurd (coupled.heldFresh owner id ⟨ownerSleep, present, held⟩)
              (not_lt.mpr new)
        have before := others id notOld notNew
        simp only [before] at absent
        exact le_trans (coupled.elapsed owner ownerSleep id present held absent)
          later
  uncreated := by
    intro owner beyond
    have different : owner ≠ target := by
      rintro rfl
      rw [coupled.uncreated owner beyond] at live
      cases live
    simp [different, coupled.uncreated owner beyond]

theorem release (coupled : timers.Coupled) {target : Nat} {sleep : Sleep}
    (live : timers.sleeps target = some sleep) {changed : Option Sleep}
    (cleared : ∀ after, changed = some after → after.registration = none)
    {clock : Instant} (later : timers.clock ≤ clock) :
    Coupled { timers with
      driver := (sleep.release timers.driver).1
      sleeps := Function.update timers.sleeps target changed
      clock := clock } := by
  have nothingHeld : ∀ after id, changed = some after →
      after.registration ≠ some id := by
    intro after id present held
    rw [cleared after present] at held
    cases held
  refine coupled.replace live (Sleep.release_covered coupled.covered sleep)
    ?_ (le_refl _) later ?_ ?_ ?_ ?_
  · rw [Sleep.release_nextId]
    exact coupled.counter
  · intro id notHeld _
    exact Sleep.lookup_release_other notHeld timers.driver
  · rintro id registration found (held | ⟨after, present, held⟩)
    · rw [Sleep.lookup_release_held held] at found
      cases found
    · exact absurd held (nothingHeld after id present)
  · intro after id present held
    exact absurd held (nothingHeld after id present)
  · intro after id present held
    exact absurd held (nothingHeld after id present)

theorem updated [WillWake W] (coupled : timers.Coupled) {target : Nat}
    {sleep : Sleep} (live : timers.sleeps target = some sleep) {id : TimerId}
    (held : sleep.registration = some id) {waker : W} {after : TimerState W}
    (updated : timers.driver.updateWaker id waker = .ok after)
    {clock : Instant} (later : timers.clock ≤ clock) :
    Coupled { timers with
      driver := after
      sleeps := Function.update timers.sleeps target (some sleep)
      clock := clock } := by
  obtain ⟨registration, stored, found, _, nextId, _, new, others⟩ :=
    TimerState.updateWaker_ok updated
  refine coupled.replace live (coupled.covered.updateWaker updated)
    (nextId ▸ coupled.counter) (le_refl _) later ?_ ?_ ?_ ?_
  · intro other notHeld _
    exact others other fun same => notHeld (same ▸ held)
  · intro other current present involved
    have isHeld : sleep.registration = some other := by
      rcases involved with isHeld | ⟨kept, same, isHeld⟩
      · exact isHeld
      · cases same
        exact isHeld
    obtain rfl : other = id := Option.some.inj (isHeld.symm.trans held)
    rw [new] at present
    cases present
    obtain ⟨owner, ownerSleep, ownerPresent, ownerHeld, deadline⟩ :=
      coupled.owned other registration found
    obtain rfl := coupled.heldOnce other owner target
      ⟨ownerSleep, ownerPresent, ownerHeld⟩ ⟨sleep, live, held⟩
    rw [live] at ownerPresent
    cases ownerPresent
    exact ⟨sleep, rfl, held, deadline⟩
  · intro kept other same isHeld absent
    cases same
    obtain rfl : other = id := Option.some.inj (isHeld.symm.trans held)
    rw [new] at absent
    cases absent
  · intro kept other same isHeld
    cases same
    exact ⟨coupled.heldFresh target other ⟨sleep, live, isHeld⟩, Or.inl isHeld⟩

theorem registered (coupled : timers.Coupled) {target : Nat} {sleep : Sleep}
    (live : timers.sleeps target = some sleep)
    (unheld : sleep.registration = none) {id : TimerId} {waker : W}
    {after : TimerState W}
    (registered : timers.driver.register sleep.deadline waker = (after, .ok id))
    (few : timers.registered + 1 < 2 ^ 64)
    {clock : Instant} (later : timers.clock ≤ clock) :
    Coupled { timers with
      driver := after
      sleeps := Function.update timers.sleeps target
        (some { sleep with registration := some id })
      registered := timers.registered + 1
      clock := clock } := by
  have covered := coupled.covered.register sleep.deadline waker
  rw [registered] at covered
  obtain ⟨fresh, absent, nextId, registrations⟩ :=
    TimerState.register_ok registered
  have idValue : id.val.toNat = timers.registered := by
    rw [fresh]
    exact coupled.counter
  have counter : after.nextId.toNat = timers.registered + 1 := by
    rw [nextId, UInt64.toNat_add, coupled.counter]
    exact Nat.mod_eq_of_lt few
  refine coupled.replace live covered counter (Nat.le_succ _) later ?_ ?_ ?_ ?_
  · intro other _ notNew
    have different : other ≠ id := by
      rintro rfl
      exact notNew _ rfl rfl
    rw [registrations, AList.lookup_insert_ne different]
  · intro other registration found involved
    rcases involved with isHeld | ⟨new, same, isHeld⟩
    · rw [unheld] at isHeld
      cases isHeld
    · cases same
      obtain rfl : id = other := Option.some.inj isHeld
      rw [registrations, AList.lookup_insert] at found
      cases found
      exact ⟨_, rfl, rfl, rfl⟩
  · intro new other same isHeld gone
    cases same
    obtain rfl : id = other := Option.some.inj isHeld
    rw [registrations, AList.lookup_insert] at gone
    cases gone
  · intro new other same isHeld
    cases same
    obtain rfl : id = other := Option.some.inj isHeld
    rw [idValue]
    exact ⟨Nat.lt_succ_self _, Or.inr (le_refl _)⟩

theorem reset (coupled : timers.Coupled) {target : Nat} {sleep : Sleep}
    (live : timers.sleeps target = some sleep) (deadline : Instant) :
    Coupled { timers with
      driver := (sleep.reset timers.driver deadline).1
      sleeps := Function.update timers.sleeps target
        (some (sleep.reset timers.driver deadline).2) } := by
  unfold Sleep.reset
  cases held : sleep.registration with
  | none =>
      have nothing : ∀ after id, some (Sleep.new deadline) = some after →
          after.registration ≠ some id := by
        intro after id same isHeld
        cases same
        cases isHeld
      refine coupled.replace live coupled.covered coupled.counter (le_refl _)
        (le_refl _) (fun _ _ _ => rfl) ?_ ?_ ?_
      · intro id registration _ involved
        rcases involved with isHeld | ⟨after, same, isHeld⟩
        · cases held.symm.trans isHeld
        · exact absurd isHeld (nothing after id same)
      · intro after id same isHeld
        exact absurd isHeld (nothing after id same)
      · intro after id same isHeld
        exact absurd isHeld (nothing after id same)
  | some id =>
      cases found : timers.driver.registrations.lookup id with
      | none =>
          simp only [TimerState.reschedule_of_none found]
          refine coupled.replace live coupled.covered coupled.counter
            (le_refl _) (le_refl _) (fun _ _ _ => rfl) ?_ ?_ ?_
          · intro other registration present involved
            rcases involved with isHeld | ⟨after, same, isHeld⟩
            · obtain rfl := Option.some.inj (held.symm.trans isHeld)
              rw [found] at present
              cases present
            · cases same
              cases isHeld
          · intro after other same isHeld
            cases same
            cases isHeld
          · intro after other same isHeld
            cases same
            cases isHeld
      | some registration =>
          have covered := coupled.covered.reschedule id deadline
          simp only [TimerState.reschedule_of_some found] at covered ⊢
          refine coupled.replace live covered coupled.counter (le_refl _)
            (le_refl _) ?_ ?_ ?_ ?_
          · intro other notHeld _
            have different : other ≠ id := by
              rintro rfl
              exact notHeld held
            exact AList.lookup_insert_ne different
          · intro other stored present involved
            have isHeld : sleep.registration = some other := by
              rcases involved with isHeld | ⟨after, same, isHeld⟩
              · exact isHeld
              · cases same
                exact held.trans isHeld
            obtain rfl := Option.some.inj (isHeld.symm.trans held)
            simp only [AList.lookup_insert, Option.some.injEq] at present
            subst present
            exact ⟨_, rfl, rfl, rfl⟩
          · intro after other same isHeld absent
            cases same
            obtain rfl := Option.some.inj isHeld
            simp only [AList.lookup_insert, reduceCtorEq] at absent
          · intro after other same isHeld
            cases same
            exact ⟨coupled.heldFresh target other
              ⟨sleep, live, held.trans isHeld⟩, Or.inl (held.trans isHeld)⟩

theorem created (coupled : timers.Coupled) (deadline : Instant) :
    Coupled { timers with
      sleeps := Function.update timers.sleeps timers.created
        (some (Sleep.new deadline))
      created := timers.created + 1 } := by
  have holds_before : ∀ owner id,
      Holds { timers with
        sleeps := Function.update timers.sleeps timers.created
          (some (Sleep.new deadline))
        created := timers.created + 1 } owner id → timers.Holds owner id := by
    rintro owner id ⟨sleep, present, held⟩
    cases decEq owner timers.created with
    | isTrue same =>
        subst same
        simp only [Function.update_self, Option.some.injEq] at present
        subst present
        cases held
    | isFalse different =>
        simp only [Function.update_of_ne different] at present
        exact ⟨sleep, present, held⟩
  refine ⟨coupled.covered, coupled.counter, ?_, ?_, ?_, ?_, ?_⟩
  · intro owner id holds
    exact coupled.heldFresh owner id (holds_before owner id holds)
  · intro id first second left right
    exact coupled.heldOnce id first second (holds_before first id left)
      (holds_before second id right)
  · intro id registration found
    obtain ⟨owner, sleep, present, held, same⟩ :=
      coupled.owned id registration found
    have different : owner ≠ timers.created := by
      rintro rfl
      rw [coupled.uncreated _ (le_refl _)] at present
      cases present
    exact ⟨owner, sleep, by simp [different, present], held, same⟩
  · intro owner sleep id present held absent
    obtain ⟨before, presentBefore, heldBefore⟩ :=
      holds_before owner id ⟨sleep, present, held⟩
    cases decEq owner timers.created with
    | isTrue same =>
        rw [same, coupled.uncreated _ (le_refl _)] at presentBefore
        cases presentBefore
    | isFalse different =>
        simp only [Function.update_of_ne different] at present
        exact coupled.elapsed owner sleep id present held absent
  · intro owner beyond
    have different : owner ≠ timers.created := by
      rintro rfl
      exact absurd beyond (Nat.not_succ_le_self _)
    simp only [Function.update_of_ne different]
    exact coupled.uncreated owner (Nat.le_of_succ_le beyond)

theorem processExpired (coupled : timers.Coupled) {now : Instant}
    (later : timers.clock ≤ now) (fired : List (TimerId × W)) :
    Coupled { timers with
      driver := (timers.driver.processExpired now).1
      clock := now
      fired := fired } where
  covered := coupled.covered.processExpired now
  counter := coupled.counter
  heldFresh := coupled.heldFresh
  heldOnce := coupled.heldOnce
  owned := by
    intro id registration found
    exact coupled.owned id registration
      ((TimerState.lookup_processExpired coupled.covered now id
        registration).mp found).1
  elapsed := by
    intro owner sleep id present held absent
    cases before : timers.driver.registrations.lookup id with
    | none =>
        exact le_trans (coupled.elapsed owner sleep id present held before) later
    | some registration =>
        obtain ⟨holder, holderSleep, holderPresent, holderHeld, same⟩ :=
          coupled.owned id registration before
        obtain rfl := coupled.heldOnce id holder owner
          ⟨holderSleep, holderPresent, holderHeld⟩ ⟨sleep, present, held⟩
        rw [present] at holderPresent
        cases holderPresent
        by_contra future
        have kept := (TimerState.lookup_processExpired coupled.covered now id
          registration).mpr ⟨before, same ▸ not_le.mp future⟩
        simp only [kept, reduceCtorEq] at absent
  uncreated := coupled.uncreated

theorem nextDeadline (coupled : timers.Coupled) :
    Coupled { timers with driver := timers.driver.nextDeadline.1 } :=
  ⟨coupled.covered.nextDeadline, coupled.counter, coupled.heldFresh,
    coupled.heldOnce, coupled.owned, coupled.elapsed, coupled.uncreated⟩

theorem live_of_early (coupled : timers.Coupled) {owner : Nat} {sleep : Sleep}
    {id : TimerId} (present : timers.sleeps owner = some sleep)
    (held : sleep.registration = some id) {now : Instant}
    (later : timers.clock ≤ now) (early : now < sleep.deadline) :
    timers.driver.registrations.lookup id ≠ none := by
  intro absent
  have due := coupled.elapsed owner sleep id present held absent
  exact absurd early (not_lt.mpr (le_trans due later))

/-- Below `2 ^ 64` registrations the id under the counter was never given out. -/
theorem next_unused (coupled : timers.Coupled) :
    (⟨timers.driver.nextId⟩ : TimerId) ∉ timers.driver.registrations := by
  intro member
  obtain ⟨registration, found⟩ :=
    Option.isSome_iff_exists.mp (AList.lookup_isSome.mpr member)
  obtain ⟨owner, sleep, present, held, _⟩ := coupled.owned _ registration found
  have below := coupled.heldFresh owner _ ⟨sleep, present, held⟩
  rw [← coupled.counter] at below
  exact Nat.lt_irrefl _ below

end Coupled

end Timers

end Asyncr.Time
