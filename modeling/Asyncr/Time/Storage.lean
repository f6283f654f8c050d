import Asyncr.Library.LazyQueueStorage
import Asyncr.Time.TimerMap
import Asyncr.Time.Timers

namespace Asyncr.Time

open Asyncr
open Library

universe u

namespace TimerState

variable {W : Type u}

/-! What the driver's heap stores, and how often its two loops run. -/

def liveEntries (registrations : Registrations W) : List DeadlineEntry :=
  registrations.entries.map fun stored => toLex (stored.2.deadline, stored.1)

theorem mem_liveEntries (registrations : Registrations W) (entry : DeadlineEntry) :
    entry ∈ liveEntries registrations ↔
      LazyQueue.Current (liveDeadline registrations) entry := by
  unfold liveEntries LazyQueue.Current liveDeadline
  rw [Option.map_eq_some_iff, List.mem_map]
  constructor
  · rintro ⟨⟨id, registration⟩, stored, rfl⟩
    exact ⟨registration, AList.mem_lookup_iff.mpr stored, rfl⟩
  · rintro ⟨registration, found, deadline⟩
    exact ⟨⟨_, registration⟩, AList.mem_lookup_iff.mp found, by rw [deadline]; rfl⟩

theorem nodup_liveEntries (registrations : Registrations W) :
    (liveEntries registrations).Nodup := by
  have keys : ((liveEntries registrations).map fun entry => (ofLex entry).2).Nodup := by
    have same : (liveEntries registrations).map (fun entry => (ofLex entry).2) =
        registrations.keys := by
      simp [liveEntries, AList.keys, List.keys, Function.comp_def]
    rw [same]
    exact registrations.keys_nodup
  exact keys.of_map _

/-- The entry of a live id, which `cancel` and `reschedule` leave in the heap. -/
def entryOfLive (state : TimerState W) (id : TimerId) : List DeadlineEntry :=
  match liveDeadline state.registrations id with
  | some deadline => [toLex (deadline, id)]
  | none => []

def supersedes (state : TimerState W) : TimerCall W → List DeadlineEntry
  | .cancel id | .reschedule id _ => state.entryOfLive id
  | .register _ _ | .updateWaker _ _ | .processExpired _ | .nextDeadline => []

/-- Whether an entry that is not current outlasts the loop of a call:
`process_expired` passes what is due, `next_deadline` what comes before every
current entry. -/
def outlasts (state : TimerState W) : TimerCall W → DeadlineEntry → Bool
  | .processExpired now, entry => decide (now < (ofLex entry).1)
  | .nextDeadline, entry =>
      (liveEntries state.registrations).any fun current => decide (current ≤ entry)
  | .register _ _, _ | .updateWaker _ _, _ | .cancel _, _ | .reschedule _ _, _ => true

def pushes (state : TimerState W) : TimerCall W → Nat
  | .register deadline waker =>
      match (state.register deadline waker).2 with
      | .ok _ => 1
      | .error _ => 0
  | .reschedule id _ => (state.entryOfLive id).length
  | .updateWaker _ _ | .cancel _ | .processExpired _ | .nextDeadline => 0

/-- How many times the loop of a call comes to its `pop`. -/
def pops (state : TimerState W) : TimerCall W → Nat
  | .processExpired now =>
      (state.deadlines.entries.takeWhile fun entry =>
        !decide (now < (ofLex entry).1)).length
  | .nextDeadline =>
      (state.deadlines.entries.takeWhile fun entry =>
        !isCurrent state.registrations entry).length
  | .register _ _ | .updateWaker _ _ | .cancel _ | .reschedule _ _ => 0

variable [WillWake W]

/-- The entries of registrations that were cancelled or moved, less those that a loop
has passed since. -/
def superseded (state : TimerState W) :
    List (TimerCall W) → List DeadlineEntry → List DeadlineEntry
  | [], entries => entries
  | call :: rest, entries =>
      (state.call call).1.superseded rest
        ((state.supersedes call ++ entries).filter (state.outlasts call))

def pushed (state : TimerState W) : List (TimerCall W) → Nat
  | [] => 0
  | call :: rest => state.pushes call + (state.call call).1.pushed rest

def popped (state : TimerState W) : List (TimerCall W) → Nat
  | [] => 0
  | call :: rest => state.pops call + (state.call call).1.popped rest

/-! The heap and the live deadlines after each call. -/

omit [WillWake W] in
theorem register_pushes {state after : TimerState W} {deadline : Instant} {waker : W}
    {id : TimerId} (registered : state.register deadline waker = (after, .ok id)) :
    after.deadlines = state.deadlines.push (toLex (deadline, id)) := by
  unfold register takeNextId at registered
  dsimp only at registered
  by_cases present : (⟨state.nextId⟩ : TimerId) ∈ state.registrations
  · rw [if_pos present] at registered
    cases registered
  · rw [if_neg present] at registered
    cases registered
    rfl

theorem updateWaker_live {state after : TimerState W} {id : TimerId} {waker : W}
    (updated : state.updateWaker id waker = .ok after) :
    after.deadlines = state.deadlines ∧
      liveDeadline after.registrations = liveDeadline state.registrations := by
  obtain ⟨registration, stored, found, _, _, heap, present, others⟩ :=
    updateWaker_ok updated
  refine ⟨heap, funext fun other => ?_⟩
  unfold liveDeadline
  by_cases same : other = id
  · rw [same, present, found]
    rfl
  · rw [others other same]

omit [WillWake W] in
theorem liveDeadline_processExpired {state : TimerState W} (covered : state.Covered)
    (now : Instant) (id : TimerId) (deadline : Instant) :
    liveDeadline (state.processExpired now).1.registrations id = some deadline ↔
      liveDeadline state.registrations id = some deadline ∧ now < deadline := by
  unfold liveDeadline
  rw [Option.map_eq_some_iff, Option.map_eq_some_iff]
  constructor
  · rintro ⟨registration, found, rfl⟩
    obtain ⟨before, late⟩ :=
      (lookup_processExpired covered now id registration).mp found
    exact ⟨⟨registration, before, rfl⟩, late⟩
  · rintro ⟨⟨registration, before, rfl⟩, late⟩
    exact ⟨registration, (lookup_processExpired covered now id registration).mpr
      ⟨before, late⟩, rfl⟩

omit [WillWake W] in
theorem processExpired_entries (state : TimerState W) (now : Instant) :
    (state.processExpired now).1.deadlines.entries =
      state.deadlines.entries.filter fun entry => decide (now < (ofLex entry).1) :=
  (expireLoop_left now _ _).trans
    (LazyQueue.drain_rest_eq_filter now state.deadlines.sorted _)

def Stores (state : TimerState W) (entries : List DeadlineEntry) : Prop :=
  LazyQueue.Stores state.deadlines.entries (liveDeadline state.registrations) entries

omit [WillWake W] in
theorem Stores.covered {state : TimerState W} {entries : List DeadlineEntry}
    (stores : state.Stores entries) : state.Covered := by
  intro id deadline present
  exact (stores.mem_iff _).mpr (Or.inl present)

omit [WillWake W] in
theorem Stores.perm {state : TimerState W} {entries : List DeadlineEntry}
    (stores : state.Stores entries) :
    state.deadlines.entries.Perm (liveEntries state.registrations ++ entries) := by
  refine List.perm_iff_count.mpr fun entry => ?_
  have counted := stores (ofLex entry).1 (ofLex entry).2
  change state.deadlines.entries.count entry = _ + entries.count entry at counted
  rw [List.count_append, counted, Nat.add_right_cancel_iff,
    (nodup_liveEntries state.registrations).count]
  exact ite_congr (propext (mem_liveEntries state.registrations entry).symm)
    (fun _ => rfl) fun _ => rfl

omit [WillWake W] in
theorem filter_outlasts {state : TimerState W} {call : TimerCall W}
    (outlasts : ∀ entry, state.outlasts call entry = true)
    (entries : List DeadlineEntry) :
    entries.filter (state.outlasts call) = entries :=
  List.filter_eq_self.mpr fun entry _ => outlasts entry

/-- Each call keeps the account of its heap. -/
theorem Stores.call {state : TimerState W} {entries : List DeadlineEntry}
    (stores : state.Stores entries) (call : TimerCall W) :
    (state.call call).1.Stores
      ((state.supersedes call ++ entries).filter (state.outlasts call)) := by
  cases call with
  | register deadline waker =>
      rw [filter_outlasts fun _ => rfl]
      simp only [TimerState.call, supersedes, List.nil_append]
      rcases registered : state.register deadline waker with ⟨after, id | panic⟩
      · obtain ⟨_, _, rfl⟩ := register_error registered
        exact stores
      · obtain ⟨_, absent, _, inserted⟩ := register_ok registered
        unfold Stores
        rw [register_pushes registered, inserted, liveDeadline_insert]
        exact LazyQueue.Stores.push stores (by simp [liveDeadline, absent]) deadline
  | updateWaker id waker =>
      rw [filter_outlasts fun _ => rfl]
      simp only [TimerState.call, supersedes, List.nil_append]
      cases updated : state.updateWaker id waker with
      | error panic => exact stores
      | ok after =>
          obtain ⟨heap, live⟩ := updateWaker_live updated
          unfold Stores
          rw [heap, live]
          exact stores
  | cancel id =>
      rw [filter_outlasts fun _ => rfl]
      simp only [TimerState.call, supersedes, entryOfLive]
      unfold Stores TimerState.cancel
      rw [liveDeadline_erase]
      cases present : liveDeadline state.registrations id with
      | some deadline => exact LazyQueue.Stores.remove stores present
      | none => 
          have same : Function.update (liveDeadline state.registrations) id none =
              liveDeadline state.registrations := by
            rw [← present, Function.update_eq_self]
          rw [same]
          exact stores
  | reschedule id deadline =>
      rw [filter_outlasts fun _ => rfl]
      simp only [TimerState.call, supersedes, entryOfLive]
      cases found : state.registrations.lookup id with
      | none =>
          rw [reschedule_of_none found]
          simpa [liveDeadline, found] using stores
      | some registration =>
          have present : liveDeadline state.registrations id =
            some registration.deadline := by simp [liveDeadline, found]
          rw [reschedule_of_some found, present]
          unfold Stores
          rw [liveDeadline_insert]
          exact LazyQueue.Stores.move stores present deadline
  | processExpired now =>
      simp only [TimerState.call, supersedes, List.nil_append]
      unfold Stores
      rw [processExpired_entries]
      refine LazyQueue.Stores.filter stores fun id deadline => ?_
      rw [liveDeadline_processExpired stores.covered]
      exact and_congr_right fun _ => decide_eq_true_iff.symm
  | nextDeadline =>
      simp only [TimerState.call, supersedes, List.nil_append]
      refine LazyQueue.Stores.dropUntil stores
        (isCurrent_iff state.registrations) fun entry => ?_
      simp only [outlasts, List.any_eq_true, decide_eq_true_eq, mem_liveEntries]

theorem pops_add_length (state : TimerState W) (call : TimerCall W) :
    state.pops call + (state.call call).1.deadlines.entries.length =
      state.deadlines.entries.length + state.pushes call := by
  cases call with
  | register deadline waker =>
      simp only [TimerState.call, pops, pushes]
      rcases registered : state.register deadline waker with ⟨after, id | panic⟩
      · obtain ⟨_, _, rfl⟩ := register_error registered
        simp
      · simp [register_pushes registered, MinHeap.push, List.orderedInsert_length]
  | updateWaker id waker =>
      simp only [TimerState.call, pops, pushes]
      cases updated : state.updateWaker id waker with
      | error panic => simp
      | ok after => simp [(updateWaker_live updated).1]
  | cancel id => simp [TimerState.call, pops, pushes, TimerState.cancel]
  | reschedule id deadline =>
      simp only [TimerState.call, pops, pushes, entryOfLive]
      cases found : state.registrations.lookup id with
      | none => simp [reschedule_of_none found, liveDeadline, found]
      | some registration =>
          simp [reschedule_of_some found, liveDeadline, found, MinHeap.push,
            List.orderedInsert_length]
  | processExpired now =>
      have left : (state.processExpired now).1.deadlines.entries = _ :=
        (expireLoop_left now _ _).trans (LazyQueue.drain_rest_eq_dropWhile now _ _)
      simp only [TimerState.call, pops, pushes, left]
      rw [← List.length_append, List.takeWhile_append_dropWhile, Nat.add_zero]
  | nextDeadline =>
      have left : state.nextDeadline.1.deadlines.entries =
        state.deadlines.entries.dropWhile fun entry =>
          !isCurrent state.registrations entry := rfl
      simp only [TimerState.call, pops, pushes, left]
      rw [← List.length_append, List.takeWhile_append_dropWhile, Nat.add_zero]

theorem Stores.calls (calls : List (TimerCall W)) {state : TimerState W}
    {entries : List DeadlineEntry} (stores : state.Stores entries) :
    (state.calls calls).1.Stores (state.superseded calls entries) := by
  induction calls generalizing state entries with
  | nil => exact stores
  | cons call rest ih => exact ih (stores.call call)

theorem popped_add_length (calls : List (TimerCall W)) (state : TimerState W) :
    state.popped calls + (state.calls calls).1.deadlines.entries.length =
      state.deadlines.entries.length + state.pushed calls := by
  induction calls generalizing state with
  | nil => simp [popped, pushed, TimerState.calls]
  | cons call rest ih =>
      have first := state.pops_add_length call
      have later := ih (state.call call).1
      simp only [popped, pushed, TimerState.calls]
      omega

omit [WillWake W] in
theorem stores_initial : (initial : TimerState W).Stores [] :=
  fun _ _ => rfl

theorem calls_append (first second : List (TimerCall W)) (state : TimerState W) :
    (state.calls (first ++ second)).1 = ((state.calls first).1.calls second).1 := by
  induction first generalizing state with
  | nil => rfl
  | cons call rest ih => exact ih (state.call call).1

omit [WillWake W] in
theorem behind_live_of_nextDeadline (state : TimerState W) :
    ∀ entry ∈ state.nextDeadline.1.deadlines.entries,
      ∃ current ∈ liveEntries state.registrations, current ≤ entry := by
  intro entry member
  change entry ∈ (state.deadlines.dropUntil (isCurrent state.registrations)).entries
    at member
  cases top : (state.deadlines.dropUntil (isCurrent state.registrations)).peek with
  | none =>
      have empty := List.head?_eq_none_iff.mp top
      rw [empty] at member
      cases member
  | some current =>
      obtain ⟨isLive, _, _⟩ := MinHeap.peek_dropUntil top
      refine ⟨current, (mem_liveEntries _ _).mpr ((isCurrent_iff _ _).mp isLive), ?_⟩
      obtain ⟨rest, shape⟩ := List.head?_eq_some_iff.mp top
      have sorted := (state.deadlines.dropUntil (isCurrent state.registrations)).sorted
      rw [shape] at member sorted
      rcases List.mem_cons.mp member with rfl | later
      · exact le_refl _
      · exact (List.pairwise_cons.mp sorted).1 entry later

end TimerState

/-! The calls of the driver that the calls of a sleep make. -/

namespace Sleep

variable {W : Type u}

def pollCalls (sleep : Sleep) (now : Instant) (waker : W) : List (TimerCall W) :=
  if sleep.isElapsed now then
    sleep.registration.toList.map .cancel
  else
    match sleep.registration with
    | some id => [.updateWaker id waker]
    | none => [.register sleep.deadline waker]

def resetCalls (sleep : Sleep) (deadline : Instant) : List (TimerCall W) :=
  sleep.registration.toList.map fun id => .reschedule id deadline

def dropCalls (sleep : Sleep) : List (TimerCall W) :=
  sleep.registration.toList.map .cancel

variable [WillWake W]

theorem drop_calls (sleep : Sleep) (timer : TimerState W) :
    sleep.drop timer = (timer.calls sleep.dropCalls).1 := by
  unfold drop release dropCalls
  cases sleep.registration with
  | none => rfl
  | some id => rfl

theorem reset_calls (sleep : Sleep) (timer : TimerState W) (deadline : Instant) :
    (sleep.reset timer deadline).1 = (timer.calls (sleep.resetCalls deadline)).1 := by
  unfold reset resetCalls
  cases sleep.registration with
  | none => rfl
  | some id =>
      simp only [Option.toList_some, List.map_cons, List.map_nil, TimerState.calls,
        TimerState.call]
      rcases timer.reschedule id deadline with ⟨after, _ | _⟩ <;> rfl

theorem poll_calls (sleep : Sleep) (timer : TimerState W) (now : Instant) (waker : W) :
    (sleep.poll timer now waker).1 = (timer.calls (sleep.pollCalls now waker)).1 := by
  unfold poll pollCalls
  cases sleep.isElapsed now with
  | true => exact sleep.drop_calls timer
  | false =>
      cases sleep.registration with
      | none =>
          simp only [Bool.false_eq_true, if_false, TimerState.calls, TimerState.call]
          rcases timer.register sleep.deadline waker with ⟨after, _ | _⟩ <;> rfl
      | some id =>
          simp only [Bool.false_eq_true, if_false, TimerState.calls, TimerState.call]
          cases timer.updateWaker id waker <;> rfl

end Sleep

namespace Timers

variable {W : Type u} [WillWake W]

def driverCalls (timers : Timers W) : SleepCall W → List (TimerCall W)
  | .new _ => []
  | .poll target waker now =>
      match timers.sleeps target with
      | some sleep => sleep.pollCalls now waker
      | none => []
  | .reset target deadline =>
      match timers.sleeps target with
      | some sleep => sleep.resetCalls deadline
      | none => []
  | .drop target =>
      match timers.sleeps target with
      | some sleep => sleep.dropCalls
      | none => []
  | .processExpired now => [.processExpired now]
  | .nextDeadline => [.nextDeadline]

theorem driver_of_call {timers after : Timers W} {call : SleepCall W}
    {reply : SleepReply W} (called : timers.call call = some (after, reply)) :
    after.driver = (timers.driver.calls (timers.driverCalls call)).1 := by
  cases call with
  | new deadline =>
      cases called
      rfl
  | poll target waker now =>
      simp only [Timers.call] at called
      cases present : timers.sleeps target with
      | none => simp [present] at called
      | some sleep =>
          simp only [present, driverCalls] at called ⊢
          split at called
          · cases called
            exact sleep.poll_calls timers.driver now waker
          · cases called
  | reset target deadline =>
      simp only [Timers.call] at called
      cases present : timers.sleeps target with
      | none => simp [present] at called
      | some sleep =>
          simp only [present, driverCalls] at called ⊢
          cases called
          exact sleep.reset_calls timers.driver deadline
  | drop target =>
      simp only [Timers.call] at called
      cases present : timers.sleeps target with
      | none => simp [present] at called
      | some sleep =>
          simp only [present, driverCalls] at called ⊢
          cases called
          exact sleep.drop_calls timers.driver
  | processExpired now =>
      simp only [Timers.call] at called
      split at called
      · cases called
        rfl
      · cases called
  | nextDeadline =>
      cases called
      rfl

end Timers

end Asyncr.Time
