import Asyncr.Time.Driver

namespace Asyncr.Time

open Asyncr
open Library

universe u

namespace TimerState

variable {W : Type u}

/-! The deadline of every live id, as the lazy queue sees it. -/

def liveDeadline (registrations : Registrations W) (id : TimerId) :
    Option Instant :=
  (registrations.lookup id).map TimerRegistration.deadline

theorem liveDeadline_insert (registrations : Registrations W) (id : TimerId)
    (registration : TimerRegistration W) :
    liveDeadline (registrations.insert id registration) =
      Function.update (liveDeadline registrations) id
        (some registration.deadline) := by
  funext other
  cases decEq other id with
  | isTrue same =>
      subst same
      simp [liveDeadline]
  | isFalse different =>
      simp [liveDeadline, AList.lookup_insert_ne different,
        Function.update_of_ne different]

theorem liveDeadline_erase (registrations : Registrations W) (id : TimerId) :
    liveDeadline (registrations.erase id) =
      Function.update (liveDeadline registrations) id none := by
  funext other
  cases decEq other id with
  | isTrue same =>
      subst same
      simp [liveDeadline]
  | isFalse different =>
      simp [liveDeadline, AList.lookup_erase_ne different,
        Function.update_of_ne different]

theorem isCurrent_iff (registrations : Registrations W) (entry : DeadlineEntry) :
    isCurrent registrations entry = true ↔
      LazyQueue.Current (liveDeadline registrations) entry := by
  unfold isCurrent LazyQueue.Current liveDeadline
  cases registrations.lookup (ofLex entry).2 with
  | none => simp
  | some registration => simp

/-! The registrations after each method of the handle. -/

theorem register_ok {state after : TimerState W} {deadline : Instant}
    {waker : W} {id : TimerId}
    (registered : state.register deadline waker = (after, .ok id)) :
    id.val = state.nextId ∧ state.registrations.lookup id = none ∧
      after.nextId = state.nextId + 1 ∧
      after.registrations = state.registrations.insert id ⟨deadline, waker⟩ := by
  unfold register takeNextId at registered
  dsimp only at registered
  by_cases present : (⟨state.nextId⟩ : TimerId) ∈ state.registrations
  · rw [if_pos present] at registered
    cases registered
  · rw [if_neg present] at registered
    cases registered
    exact ⟨rfl, AList.lookup_eq_none.mpr present, rfl, rfl⟩

theorem register_error {state after : TimerState W} {deadline : Instant}
    {waker : W} {panic : Panic}
    (failed : state.register deadline waker = (after, .error panic)) :
    panic = .timerIdExhausted ∧ (⟨state.nextId⟩ : TimerId) ∈ state.registrations ∧
      after = { state with nextId := state.nextId + 1 } := by
  unfold register takeNextId at failed
  dsimp only at failed
  by_cases present : (⟨state.nextId⟩ : TimerId) ∈ state.registrations
  · rw [if_pos present] at failed
    cases failed
    exact ⟨rfl, present, rfl⟩
  · rw [if_neg present] at failed
    cases failed

theorem updateWaker_ok [WillWake W] {state after : TimerState W} {id : TimerId}
    {waker : W} (updated : state.updateWaker id waker = .ok after) :
    ∃ registration stored,
      state.registrations.lookup id = some registration ∧
      SameWake stored waker ∧ after.nextId = state.nextId ∧
      after.deadlines = state.deadlines ∧
      after.registrations.lookup id = some ⟨registration.deadline, stored⟩ ∧
      ∀ other, other ≠ id →
        after.registrations.lookup other = state.registrations.lookup other := by
  unfold updateWaker at updated
  cases found : state.registrations.lookup id with
  | none =>
      rw [found] at updated
      cases updated
  | some registration =>
      rw [found] at updated
      dsimp only at updated
      split at updated
      · rename_i wakes
        cases updated
        exact ⟨registration, registration.waker, rfl, Or.inr wakes, rfl, rfl,
          found, fun _ _ => rfl⟩
      · cases updated
        exact ⟨registration, waker, rfl, Or.inl rfl, rfl, rfl,
          AList.lookup_insert _, fun other different =>
            AList.lookup_insert_ne different⟩

theorem updateWaker_error [WillWake W] {state : TimerState W} {id : TimerId}
    {waker : W} {panic : Panic}
    (failed : state.updateWaker id waker = .error panic) :
    panic = .timerWithoutRegistration ∧
      state.registrations.lookup id = none := by
  unfold updateWaker at failed
  cases found : state.registrations.lookup id with
  | none =>
      rw [found] at failed
      cases failed
      exact ⟨rfl, rfl⟩
  | some registration =>
      rw [found] at failed
      dsimp only at failed
      split at failed
      · cases failed
      · cases failed

/-- Every live registration has a heap entry at its present deadline. -/
def Covered (state : TimerState W) : Prop :=
  LazyQueue.Covers (liveDeadline state.registrations) state.deadlines.entries

theorem covered_initial : (initial : TimerState W).Covered := by
  intro id deadline present
  simp [initial, liveDeadline] at present

theorem Covered.insert_push {state : TimerState W} (covered : state.Covered)
    (id : TimerId) (registration : TimerRegistration W) :
    LazyQueue.Covers
      (liveDeadline (state.registrations.insert id registration))
      (state.deadlines.push (toLex (registration.deadline, id))).entries := by
  rw [liveDeadline_insert]
  exact LazyQueue.Covers.update_push covered id registration.deadline

theorem Covered.register {state : TimerState W} (covered : state.Covered)
    (deadline : Instant) (waker : W) :
    (state.register deadline waker).1.Covered := by
  unfold TimerState.register takeNextId
  dsimp only
  split
  · rename_i failed
    split at failed
    · cases failed
      exact covered
    · cases failed
  · rename_i taken
    split at taken
    · cases taken
    · cases taken
      exact covered.insert_push _ ⟨deadline, waker⟩

theorem Covered.updateWaker [WillWake W] {state after : TimerState W}
    (covered : state.Covered) {id : TimerId} {waker : W}
    (updated : state.updateWaker id waker = .ok after) : after.Covered := by
  obtain ⟨registration, stored, found, _, _, deadlines, new, others⟩ :=
    updateWaker_ok updated
  have same : liveDeadline after.registrations =
      liveDeadline state.registrations := by
    funext other
    unfold liveDeadline
    cases decEq other id with
    | isTrue equality =>
        rw [equality, new, found]
        rfl
    | isFalse different => rw [others other different]
  unfold Covered
  rw [same, deadlines]
  exact covered

theorem Covered.cancel {state : TimerState W} (covered : state.Covered)
    (id : TimerId) : (state.cancel id).Covered := by
  unfold Covered TimerState.cancel
  rw [liveDeadline_erase]
  exact LazyQueue.Covers.update_none covered id

theorem Covered.reschedule {state : TimerState W} (covered : state.Covered)
    (id : TimerId) (deadline : Instant) :
    (state.reschedule id deadline).1.Covered := by
  unfold TimerState.reschedule
  cases state.registrations.lookup id with
  | none => exact covered
  | some registration =>
      exact covered.insert_push id { registration with deadline := deadline }

/-! The loop of `process_expired` is the library's `drain`. -/

theorem expireLoop_left (now : Instant) (entries : List DeadlineEntry)
    (registrations : Registrations W) :
    (expireLoop now entries registrations).1 =
      (LazyQueue.drain now entries (liveDeadline registrations)).2 := by
  induction entries generalizing registrations with
  | nil => rfl
  | cons entry rest ih =>
      unfold expireLoop LazyQueue.drain
      cases found : registrations.lookup (ofLex entry).2 with
      | none =>
          simp only [liveDeadline, found, Option.map_none, reduceCtorEq,
            if_false]
          split
          · rfl
          · exact ih registrations
      | some registration =>
          simp only [liveDeadline, found, Option.map_some, Option.some.injEq]
          split
          · rfl
          · by_cases current : (ofLex entry).1 = registration.deadline
            · rw [if_pos current.symm, if_pos current]
              have later := ih (registrations.erase (ofLex entry).2)
              rw [liveDeadline_erase] at later
              exact later
            · rw [if_neg (Ne.symm current), if_neg current]
              exact ih registrations

def entryOf (removed : TimerId × TimerRegistration W) : DeadlineEntry :=
  toLex (removed.2.deadline, removed.1)

theorem expireLoop_removed_entries (now : Instant) (entries : List DeadlineEntry)
    (registrations : Registrations W) :
    (expireLoop now entries registrations).2.2.map entryOf =
      (LazyQueue.drain now entries (liveDeadline registrations)).1 := by
  induction entries generalizing registrations with
  | nil => rfl
  | cons entry rest ih =>
      unfold expireLoop LazyQueue.drain
      cases found : registrations.lookup (ofLex entry).2 with
      | none =>
          simp only [liveDeadline, found, Option.map_none, reduceCtorEq,
            if_false]
          split
          · rfl
          · exact ih registrations
      | some registration =>
          simp only [liveDeadline, found, Option.map_some, Option.some.injEq]
          split
          · rfl
          · by_cases current : (ofLex entry).1 = registration.deadline
            · rw [if_pos current.symm, if_pos current]
              have later := ih (registrations.erase (ofLex entry).2)
              rw [liveDeadline_erase] at later
              have head : entryOf ((ofLex entry).2, registration) = entry := by
                unfold entryOf
                rw [← current]
                rfl
              exact congrArg₂ List.cons head later
            · rw [if_neg (Ne.symm current), if_neg current]
              exact ih registrations

theorem expireLoop_removed_lookup (now : Instant) (entries : List DeadlineEntry)
    (registrations : Registrations W) :
    ∀ removed ∈ (expireLoop now entries registrations).2.2,
      registrations.lookup removed.1 = some removed.2 := by
  induction entries generalizing registrations with
  | nil => simp [expireLoop]
  | cons entry rest ih =>
      unfold expireLoop
      dsimp only
      split
      · simp
      · split
        · rename_i registration found
          split
          · intro removed member
            rcases List.mem_cons.mp member with rfl | later
            · exact found
            · have kept := ih (registrations.erase (ofLex entry).2) removed later
              have different : removed.1 ≠ (ofLex entry).2 := by
                intro same
                rw [same, AList.lookup_erase] at kept
                cases kept
              rwa [AList.lookup_erase_ne different] at kept
          · exact ih registrations
        · exact ih registrations

theorem expireLoop_remaining (now : Instant) (entries : List DeadlineEntry)
    (registrations : Registrations W) (id : TimerId)
    (registration : TimerRegistration W) :
    (expireLoop now entries registrations).2.1.lookup id = some registration ↔
      registrations.lookup id = some registration ∧
        ∀ entry ∈ (LazyQueue.drain now entries (liveDeadline registrations)).1,
          (ofLex entry).2 ≠ id := by
  induction entries generalizing registrations with
  | nil => simp [expireLoop, LazyQueue.drain]
  | cons entry rest ih =>
      unfold expireLoop LazyQueue.drain
      cases found : registrations.lookup (ofLex entry).2 with
      | none =>
          simp only [liveDeadline, found, Option.map_none, reduceCtorEq,
            if_false]
          split
          · simp
          · exact ih registrations
      | some top =>
          simp only [liveDeadline, found, Option.map_some, Option.some.injEq]
          split
          · simp
          · by_cases current : (ofLex entry).1 = top.deadline
            · rw [if_pos current.symm, if_pos current]
              have later := ih (registrations.erase (ofLex entry).2)
              rw [liveDeadline_erase] at later
              refine later.trans ?_
              rw [List.forall_mem_cons]
              cases decEq (ofLex entry).2 id with
              | isTrue same =>
                  subst same
                  simp
              | isFalse different =>
                  rw [AList.lookup_erase_ne (Ne.symm different)]
                  exact and_congr_right fun _ =>
                    (and_iff_right different).symm
            · rw [if_neg (Ne.symm current), if_neg current]
              exact ih registrations

theorem expireLoop_length (now : Instant) (entries : List DeadlineEntry)
    (registrations : Registrations W) :
    (expireLoop now entries registrations).2.1.keys.length +
      (expireLoop now entries registrations).2.2.length =
        registrations.keys.length := by
  induction entries generalizing registrations with
  | nil => rfl
  | cons entry rest ih =>
      unfold expireLoop
      dsimp only
      split
      · rfl
      · split
        · rename_i registration found
          split
          · have present : (ofLex entry).2 ∈ registrations.keys :=
              AList.lookup_isSome.mp (by rw [found]; rfl)
            have erased := List.length_erase_of_mem present
            have positive := List.length_pos_of_mem present
            have removed := ih (registrations.erase (ofLex entry).2)
            rw [AList.keys_erase, erased] at removed
            rw [List.length_cons, ← Nat.add_assoc, removed]
            exact Nat.sub_add_cancel positive
          · exact ih registrations
        · exact ih registrations

/-! What one run of `process_expired` does, read off the registrations. -/

theorem mem_expired {state : TimerState W} (covered : state.Covered)
    (now : Instant) (id : TimerId) (registration : TimerRegistration W) :
    (id, registration) ∈ state.expired now ↔
      state.registrations.lookup id = some registration ∧
        registration.deadline ≤ now := by
  have entries := expireLoop_removed_entries now state.deadlines.entries
    state.registrations
  constructor
  · intro member
    have fired : toLex (registration.deadline, id) ∈
        (LazyQueue.drain now state.deadlines.entries
          (liveDeadline state.registrations)).1 := by
      rw [← entries]
      exact List.mem_map_of_mem (f := entryOf) member
    exact ⟨expireLoop_removed_lookup now _ _ _ member,
      (LazyQueue.drain_sound now _ _ _ fired).2.2⟩
  · rintro ⟨found, within⟩
    have current : LazyQueue.Current (liveDeadline state.registrations)
        (toLex (registration.deadline, id)) := by
      simp [LazyQueue.Current, liveDeadline, found]
    have fired := LazyQueue.drain_complete now _ _ state.deadlines.sorted
      _ (covered.current_mem current) current within
    rw [← entries] at fired
    obtain ⟨⟨otherId, other⟩, member, same⟩ := List.mem_map.mp fired
    obtain ⟨_, rfl⟩ := Prod.mk.inj (toLex.injective same)
    have otherFound := expireLoop_removed_lookup now _ _ _ member
    rw [found] at otherFound
    cases otherFound
    exact member

/-- Registrations fire in increasing order of deadline and id. -/
theorem expired_increasing (state : TimerState W) (now : Instant) :
    ((state.expired now).map entryOf).Pairwise (· < ·) := by
  unfold expired
  rw [expireLoop_removed_entries]
  exact LazyQueue.drain_strict now _ _ state.deadlines.sorted

theorem filter_expired_of_live {state : TimerState W} (covered : state.Covered)
    {now : Instant} {id : TimerId} {registration : TimerRegistration W}
    (found : state.registrations.lookup id = some registration)
    (within : registration.deadline ≤ now) :
    (state.expired now).filter (fun removed => removed.1 == id) =
      [(id, registration)] := by
  have member := (mem_expired covered now id registration).mpr ⟨found, within⟩
  have distinct : (state.expired now).Nodup :=
    ((expired_increasing state now).imp ne_of_lt).of_map _
      fun _ _ different same => different (congrArg entryOf same)
  have chosen : (id, registration) ∈
      (state.expired now).filter (fun removed => removed.1 == id) :=
    List.mem_filter.mpr ⟨member, beq_self_eq_true id⟩
  have only : ∀ removed ∈
      (state.expired now).filter (fun removed => removed.1 == id),
      removed = (id, registration) := by
    rintro ⟨otherId, other⟩ kept
    obtain ⟨removed, same⟩ := List.mem_filter.mp kept
    obtain rfl : otherId = id := beq_iff_eq.mp same
    obtain ⟨otherFound, _⟩ :=
      (mem_expired covered now otherId other).mp removed
    rw [found] at otherFound
    cases otherFound
    rfl
  have once := distinct.filter fun removed => removed.1 == id
  cases kept : (state.expired now).filter fun removed => removed.1 == id with
  | nil =>
      rw [kept] at chosen
      cases chosen
  | cons first rest =>
      rw [kept] at only once
      obtain rfl := only first List.mem_cons_self
      cases rest with
      | nil => rfl
      | cons second others =>
          have same := only second
            (List.mem_cons_of_mem _ List.mem_cons_self)
          exact absurd (same ▸ List.mem_cons_self)
            (List.nodup_cons.mp once).1

theorem filter_expired_of_absent {state : TimerState W} (covered : state.Covered)
    {now : Instant} {id : TimerId}
    (kept : ∀ registration, state.registrations.lookup id = some registration →
      now < registration.deadline) :
    (state.expired now).filter (fun removed => removed.1 == id) = [] := by
  rw [List.filter_eq_nil_iff]
  rintro ⟨otherId, other⟩ removed same
  obtain rfl : otherId = id := beq_iff_eq.mp same
  obtain ⟨found, within⟩ := (mem_expired covered now otherId other).mp removed
  exact absurd (kept other found) (not_lt.mpr within)

theorem lookup_processExpired {state : TimerState W} (covered : state.Covered)
    (now : Instant) (id : TimerId) (registration : TimerRegistration W) :
    (state.processExpired now).1.registrations.lookup id = some registration ↔
      state.registrations.lookup id = some registration ∧
        now < registration.deadline := by
  refine (expireLoop_remaining now _ _ id registration).trans ?_
  refine and_congr_right fun found => ?_
  rw [← expireLoop_removed_entries]
  constructor
  · intro unfired
    by_contra expired
    have member := (mem_expired covered now id registration).mpr
      ⟨found, not_lt.mp expired⟩
    exact unfired _ (List.mem_map_of_mem (f := entryOf) member) rfl
  · intro future fired member same
    obtain ⟨⟨otherId, other⟩, removed, rfl⟩ := List.mem_map.mp member
    obtain rfl : otherId = id := same
    obtain ⟨otherFound, within⟩ :=
      (mem_expired covered now otherId other).mp removed
    rw [found] at otherFound
    cases otherFound
    exact absurd future (not_lt.mpr within)

theorem Covered.processExpired {state : TimerState W} (covered : state.Covered)
    (now : Instant) : (state.processExpired now).1.Covered := by
  intro id deadline present
  obtain ⟨registration, found, rfl⟩ := Option.map_eq_some_iff.mp present
  obtain ⟨before, future⟩ :=
    (lookup_processExpired covered now id registration).mp found
  have member := covered id registration.deadline
    (by simp [liveDeadline, before])
  change toLex (registration.deadline, id) ∈ (expireLoop now _ _).1
  rw [expireLoop_left]
  exact LazyQueue.drain_rest_complete now _ _ _ member future

theorem Covered.nextDeadline {state : TimerState W} (covered : state.Covered) :
    (state.nextDeadline).1.Covered :=
  LazyQueue.Covers.dropUntil covered fun entry current =>
    (isCurrent_iff state.registrations entry).mpr current

def liveDeadlines (state : TimerState W) : Set Instant :=
  {deadline | ∃ id, liveDeadline state.registrations id = some deadline}

theorem nextDeadline_eq_some {state : TimerState W} (covered : state.Covered)
    {deadline : Instant} (found : (state.nextDeadline).2 = some deadline) :
    IsLeast state.liveDeadlines deadline := by
  obtain ⟨entry, top, rfl⟩ := Option.map_eq_some_iff.mp found
  exact LazyQueue.Covers.peek_isLeast covered
    (isCurrent_iff state.registrations) top

theorem nextDeadline_eq_none {state : TimerState W} (covered : state.Covered)
    (nothing : (state.nextDeadline).2 = none) (id : TimerId) :
    state.registrations.lookup id = none := by
  have absent := LazyQueue.Covers.peek_eq_none covered
    (fun entry current => (isCurrent_iff state.registrations entry).mpr current)
    (Option.map_eq_none_iff.mp nothing) id
  simpa [liveDeadline] using absent

end TimerState

end Asyncr.Time
