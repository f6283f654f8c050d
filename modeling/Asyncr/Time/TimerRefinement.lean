import Asyncr.Time.TimerMap

namespace Asyncr.Time

open Asyncr
open Library

universe u

variable {W : Type u} [WillWake W]

/-! The lazy heap and the registrations together represent the timer map. -/

inductive Holds : Option (TimerRegistration W) → Option (Instant × W) → Prop
  | absent : Holds none none
  | live {registration : TimerRegistration W} {latest : W} :
      SameWake registration.waker latest →
      Holds (some registration) (some (registration.deadline, latest))

structure Represents (state : TimerState W) (map : TimerMap W) : Prop where
  covered : state.Covered
  holds : ∀ id, Holds (state.registrations.lookup id) (map id)

namespace Holds

theorem map_eq_none_iff {stored : Option (TimerRegistration W)}
    {entry : Option (Instant × W)} (held : Holds stored entry) :
    entry = none ↔ stored = none := by
  cases held with
  | absent => simp
  | live => simp

theorem liveDeadline_eq {registrations : Registrations W} {id : TimerId}
    {entry : Option (Instant × W)}
    (held : Holds (registrations.lookup id) entry) :
    TimerState.liveDeadline registrations id = entry.map Prod.fst := by
  unfold TimerState.liveDeadline
  generalize registrations.lookup id = stored at held
  cases held with
  | absent => rfl
  | live => rfl

theorem insert {registrations : Registrations W} {map : TimerMap W}
    (held : ∀ id, Holds (registrations.lookup id) (map id)) (id : TimerId)
    (registration : TimerRegistration W) (latest : W)
    (same : SameWake registration.waker latest) (other : TimerId) :
    Holds ((registrations.insert id registration).lookup other)
      (map.set id (some (registration.deadline, latest)) other) := by
  cases decEq other id with
  | isTrue equality =>
      subst equality
      rw [AList.lookup_insert, TimerMap.set_same]
      exact Holds.live same
  | isFalse different =>
      rw [AList.lookup_insert_ne different, map.set_other _ different]
      exact held other

end Holds

theorem represents_initial :
    Represents (TimerState.initial : TimerState W) TimerMap.empty where
  covered := TimerState.covered_initial
  holds := fun _ => Holds.absent

namespace Represents

variable {state : TimerState W} {map : TimerMap W}

theorem map_liveDeadline (represents : Represents state map) (id : TimerId)
    (deadline : Instant) :
    TimerState.liveDeadline state.registrations id = some deadline ↔
      ∃ latest, map id = some (deadline, latest) := by
  rw [(represents.holds id).liveDeadline_eq]
  cases map id with
  | none => simp
  | some entry =>
      rcases entry with ⟨present, latest⟩
      simp

theorem registered (represents : Represents state map) (id : TimerId)
    (registration : TimerRegistration W)
    (found : state.registrations.lookup id = some registration) :
    ∃ latest, map id = some (registration.deadline, latest) ∧
      SameWake registration.waker latest := by
  have held := represents.holds id
  rw [found] at held
  generalize entryEquality : map id = entry at held
  cases held with
  | live same => exact ⟨_, rfl, same⟩

theorem register (represents : Represents state map) (deadline : Instant)
    (waker : W) :
    ∃ after,
      TimerMap.Step map (.register deadline waker)
        (state.call (.register deadline waker)).2 after ∧
      Represents (state.call (.register deadline waker)).1 after := by
  have covered := represents.covered.register deadline waker
  unfold TimerState.call TimerState.register TimerState.takeNextId at *
  dsimp only at *
  by_cases present : (⟨state.nextId⟩ : TimerId) ∈ state.registrations
  · rw [if_pos present] at *
    refine ⟨map, TimerMap.Step.exhausted map deadline waker ⟨state.nextId⟩ ?_,
      ⟨covered, represents.holds⟩⟩
    intro absent
    have missing := (represents.holds ⟨state.nextId⟩).map_eq_none_iff.mp absent
    exact AList.lookup_eq_none.mp missing present
  · rw [if_neg present] at *
    refine ⟨map.set ⟨state.nextId⟩ (some (deadline, waker)),
      TimerMap.Step.register map deadline waker ⟨state.nextId⟩ ?_,
      ⟨covered, ?_⟩⟩
    · exact (represents.holds _).map_eq_none_iff.mpr
        (AList.lookup_eq_none.mpr present)
    · exact Holds.insert represents.holds ⟨state.nextId⟩ ⟨deadline, waker⟩
        waker (Or.inl rfl)

theorem updateWaker (represents : Represents state map) (id : TimerId)
    (waker : W) (live : state.Live id) :
    ∃ after,
      TimerMap.Step map (.updateWaker id waker)
        (state.call (.updateWaker id waker)).2 after ∧
      Represents (state.call (.updateWaker id waker)).1 after := by
  obtain ⟨registration, found⟩ :=
    Option.isSome_iff_exists.mp (AList.lookup_isSome.mpr live)
  obtain ⟨old, entry, _⟩ := represents.registered id registration found
  have step := TimerMap.Step.updateWaker map id waker old registration.deadline
    entry
  refine ⟨map.set id (some (registration.deadline, waker)), ?_⟩
  cases wakes : willWake registration.waker waker with
  | true =>
      have unchanged : state.updateWaker id waker = .ok state := by
        simp [TimerState.updateWaker, found, wakes]
      simp only [TimerState.call, unchanged]
      refine ⟨step, represents.covered, fun other => ?_⟩
      cases decEq other id with
      | isTrue equality =>
          subst equality
          rw [found, TimerMap.set_same]
          exact Holds.live (Or.inr wakes)
      | isFalse different =>
          rw [map.set_other _ different]
          exact represents.holds other
  | false =>
      have updated : state.updateWaker id waker = .ok { state with
          registrations := state.registrations.insert id
            { registration with waker := waker } } := by
        simp [TimerState.updateWaker, found, wakes]
      have covered := represents.covered.updateWaker updated
      simp only [TimerState.call, updated]
      exact ⟨step, covered, Holds.insert represents.holds id
        { registration with waker := waker } waker (Or.inl rfl)⟩

theorem cancel (represents : Represents state map) (id : TimerId) :
    ∃ after,
      TimerMap.Step map (.cancel id) (state.call (.cancel id)).2 after ∧
      Represents (state.call (.cancel id)).1 after := by
  refine ⟨map.set id none, TimerMap.Step.cancel map id,
    represents.covered.cancel id, fun other => ?_⟩
  change Holds ((state.registrations.erase id).lookup other)
    (map.set id none other)
  cases decEq other id with
  | isTrue equality =>
      subst equality
      rw [AList.lookup_erase, TimerMap.set_same]
      exact Holds.absent
  | isFalse different =>
      rw [AList.lookup_erase_ne different, map.set_other _ different]
      exact represents.holds other

theorem reschedule (represents : Represents state map) (id : TimerId)
    (deadline : Instant) :
    ∃ after,
      TimerMap.Step map (.reschedule id deadline)
        (state.call (.reschedule id deadline)).2 after ∧
      Represents (state.call (.reschedule id deadline)).1 after := by
  have covered := represents.covered.reschedule id deadline
  cases found : state.registrations.lookup id with
  | none =>
      have kept := TimerState.reschedule_of_none found deadline
      have absent := (represents.holds id).map_eq_none_iff.mpr found
      simp only [TimerState.call, kept]
      exact ⟨map, TimerMap.Step.notLive map id deadline absent, represents⟩
  | some registration =>
      have moved := TimerState.reschedule_of_some found deadline
      obtain ⟨latest, entry, same⟩ := represents.registered id registration found
      rw [moved] at covered
      simp only [TimerState.call, moved]
      exact ⟨map.set id (some (deadline, latest)),
        TimerMap.Step.reschedule map id deadline registration.deadline latest
          entry,
        covered, Holds.insert represents.holds id
          { registration with deadline := deadline } latest same⟩

theorem nextDeadline (represents : Represents state map) :
    ∃ after,
      TimerMap.Step map .nextDeadline (state.call .nextDeadline).2 after ∧
      Represents (state.call .nextDeadline).1 after := by
  refine ⟨map, ?_, represents.covered.nextDeadline, represents.holds⟩
  change TimerMap.Step map .nextDeadline (.deadline state.nextDeadline.2) map
  cases found : state.nextDeadline.2 with
  | none =>
      refine TimerMap.Step.noDeadline map fun id => ?_
      exact (represents.holds id).map_eq_none_iff.mpr
        (TimerState.nextDeadline_eq_none represents.covered found id)
  | some deadline =>
      refine TimerMap.Step.someDeadline map deadline ?_
      have least := TimerState.nextDeadline_eq_some represents.covered found
      have same : state.liveDeadlines = map.deadlines := by
        ext other
        exact exists_congr fun id => represents.map_liveDeadline id other
      rwa [same] at least

theorem due (represents : Represents state map) (now : Instant) :
    TimerMap.Due map now ((state.expired now).map TimerState.entryOf) where
  increasing := state.expired_increasing now
  mem_iff := fun entry => by
    constructor
    · intro member
      obtain ⟨⟨id, registration⟩, removed, rfl⟩ := List.mem_map.mp member
      obtain ⟨found, within⟩ :=
        (TimerState.mem_expired represents.covered now id registration).mp removed
      obtain ⟨latest, present, _⟩ := represents.registered id registration found
      exact ⟨within, latest, present⟩
    · rintro ⟨within, latest, present⟩
      obtain ⟨registration, found, sameDeadline⟩ := Option.map_eq_some_iff.mp
        ((represents.map_liveDeadline _ _).mpr ⟨latest, present⟩)
      have removed := (TimerState.mem_expired represents.covered now _ _).mpr
        ⟨found, sameDeadline ▸ within⟩
      refine List.mem_map.mpr ⟨_, removed, ?_⟩
      unfold TimerState.entryOf
      rw [sameDeadline]
      rfl

theorem processExpired (represents : Represents state map) (now : Instant) :
    ∃ after,
      TimerMap.Step map (.processExpired now)
        (state.call (.processExpired now)).2 after ∧
      Represents (state.call (.processExpired now)).1 after := by
  let after : TimerMap W := fun id =>
    (map id).filter fun entry => decide (now < entry.1)
  have after_iff : ∀ id deadline waker, after id = some (deadline, waker) ↔
      map id = some (deadline, waker) ∧ now < deadline := by
    intro id deadline waker
    simp [after, Option.filter_eq_some_iff]
  have wakers : List.Forall₂ (fun entry waker => ∃ latest,
      map (ofLex entry).2 = some ((ofLex entry).1, latest) ∧
        SameWake waker latest)
      ((state.expired now).map TimerState.entryOf)
      (state.processExpired now).2 := by
    refine List.forall₂_map_left_iff.mpr (List.forall₂_map_right_iff.mpr ?_)
    refine List.forall₂_same.mpr fun ⟨id, registration⟩ removed => ?_
    obtain ⟨found, _⟩ :=
      (TimerState.mem_expired represents.covered now id registration).mp removed
    exact represents.registered id registration found
  refine ⟨after, TimerMap.Step.processExpired map after now _ _
    (represents.due now) wakers after_iff,
    represents.covered.processExpired now, fun id => ?_⟩
  change Holds ((state.processExpired now).1.registrations.lookup id) (after id)
  cases found : (state.processExpired now).1.registrations.lookup id with
  | none =>
      have gone : after id = none := by
        rw [Option.eq_none_iff_forall_not_mem]
        rintro ⟨deadline, waker⟩ kept
        obtain ⟨present, future⟩ := (after_iff id deadline waker).mp kept
        obtain ⟨registration, before, rfl⟩ := Option.map_eq_some_iff.mp
          ((represents.map_liveDeadline id deadline).mpr ⟨waker, present⟩)
        rw [(TimerState.lookup_processExpired represents.covered now id
          registration).mpr ⟨before, future⟩] at found
        cases found
      rw [gone]
      exact Holds.absent
  | some registration =>
      obtain ⟨before, future⟩ := (TimerState.lookup_processExpired
        represents.covered now id registration).mp found
      obtain ⟨latest, present, same⟩ :=
        represents.registered id registration before
      rw [(after_iff id registration.deadline latest).mpr ⟨present, future⟩]
      exact Holds.live same

/-- Every admissible call is a step of the map with the same reply. -/
theorem call (represents : Represents state map) (call : TimerCall W)
    (admissible : state.Admissible call) :
    ∃ after, TimerMap.Step map call (state.call call).2 after ∧
      Represents (state.call call).1 after := by
  cases call with
  | register deadline waker => exact represents.register deadline waker
  | updateWaker id waker => exact represents.updateWaker id waker admissible
  | cancel id => exact represents.cancel id
  | reschedule id deadline => exact represents.reschedule id deadline
  | processExpired now => exact represents.processExpired now
  | nextDeadline => exact represents.nextDeadline

theorem calls (calls : List (TimerCall W)) {state : TimerState W}
    {map : TimerMap W} (represents : Represents state map)
    (admissible : state.AllAdmissible calls) :
    ∃ after, TimerMap.Run map calls (state.calls calls).2 after ∧
      Represents (state.calls calls).1 after := by
  induction calls generalizing state map with
  | nil => exact ⟨map, TimerMap.Run.nil map, represents⟩
  | cons first rest ih =>
      obtain ⟨middle, step, represented⟩ :=
        represents.call first admissible.1
      obtain ⟨after, run, final⟩ := ih represented admissible.2
      exact ⟨after, TimerMap.Run.cons step run, final⟩

end Represents

omit [WillWake W] in
theorem register_panic_unchanged (state : TimerState W) (deadline : Instant)
    (waker : W) (panic : Panic)
    (failed : (state.register deadline waker).2 = .error panic) :
    (state.register deadline waker).1.registrations = state.registrations ∧
      (state.register deadline waker).1.deadlines = state.deadlines := by
  unfold TimerState.register TimerState.takeNextId at *
  dsimp only at *
  by_cases present : (⟨state.nextId⟩ : TimerId) ∈ state.registrations
  · rw [if_pos present]
    exact ⟨rfl, rfl⟩
  · rw [if_neg present] at failed
    cases failed

/-- The driver behaves like the timer map over every sequence of calls, however
often the id counter has wrapped and whatever stale entries the heap still holds. -/
theorem driver_refines_timer_map (calls : List (TimerCall W))
    (admissible : (TimerState.initial : TimerState W).AllAdmissible calls) :
    ∃ map, TimerMap.Run TimerMap.empty calls
        ((TimerState.initial : TimerState W).calls calls).2 map ∧
      Represents ((TimerState.initial : TimerState W).calls calls).1 map ∧
      ∀ deadline waker panic,
        (((TimerState.initial : TimerState W).calls calls).1.register
          deadline waker).2 = .error panic →
        (((TimerState.initial : TimerState W).calls calls).1.register
            deadline waker).1.registrations =
            ((TimerState.initial : TimerState W).calls calls).1.registrations ∧
          (((TimerState.initial : TimerState W).calls calls).1.register
            deadline waker).1.deadlines =
            ((TimerState.initial : TimerState W).calls calls).1.deadlines := by
  obtain ⟨map, run, represents⟩ := represents_initial.calls calls admissible
  exact ⟨map, run, represents, fun deadline waker panic failed =>
    register_panic_unchanged _ deadline waker panic failed⟩

/-- A timer moved to an earlier deadline and polled again before it fires. -/
def movedTimerCalls : List (TimerCall Waker) :=
  [.register 9 (.task 0), .reschedule ⟨0⟩ 5, .updateWaker ⟨0⟩ (.task 1),
    .nextDeadline, .processExpired 7]

theorem driver_refines_timer_map_moved :
    ∃ map, TimerMap.Run TimerMap.empty movedTimerCalls
      [.registered ⟨0⟩, .rescheduled true, .done, .deadline (some 5),
        .woken [.task 1]] map := by
  obtain ⟨map, run, _⟩ := driver_refines_timer_map movedTimerCalls
    (by decide)
  exact ⟨map, run⟩

end Asyncr.Time
