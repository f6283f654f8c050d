import Asyncr.Time.DriverInvariant

namespace Asyncr.Time

open Asyncr
open Library

universe u

variable {W : Type u}

/-! The purpose of the timer driver, with no heap and no stale entries: a finite
map from the live ids to their deadline and to the waker supplied last. -/

abbrev TimerMap (W : Type u) := TimerId → Option (Instant × W)

inductive TimerCall (W : Type u) where
  | register (deadline : Instant) (waker : W)
  | updateWaker (id : TimerId) (waker : W)
  | cancel (id : TimerId)
  | reschedule (id : TimerId) (deadline : Instant)
  | processExpired (now : Instant)
  | nextDeadline

/-- What a call returns to its caller, and the wakers it is about to wake. -/
inductive TimerReply (W : Type u) where
  | registered (id : TimerId)
  | panicked (panic : Panic)
  | done
  | rescheduled (live : Bool)
  | woken (wakers : List W)
  | deadline (next : Option Instant)

namespace TimerMap

def empty : TimerMap W := fun _ => none

def set (map : TimerMap W) (id : TimerId) (entry : Option (Instant × W)) :
    TimerMap W :=
  Function.update map id entry

@[simp] theorem set_same (map : TimerMap W) (id : TimerId)
    (entry : Option (Instant × W)) : map.set id entry id = entry := by
  simp [set]

theorem set_other (map : TimerMap W) {id other : TimerId}
    (entry : Option (Instant × W)) (different : other ≠ id) :
    map.set id entry other = map other := by
  simp [set, different]

def deadlines (map : TimerMap W) : Set Instant :=
  {deadline | ∃ id waker, map id = some (deadline, waker)}

/-- The entries due at `now` in the order in which they fire. -/
structure Due (map : TimerMap W) (now : Instant) (fired : List DeadlineEntry) :
    Prop where
  increasing : fired.Pairwise (· < ·)
  mem_iff : ∀ entry, entry ∈ fired ↔
    (ofLex entry).1 ≤ now ∧
      ∃ waker, map (ofLex entry).2 = some ((ofLex entry).1, waker)

/-- The effect and the reply that the map allows for each call. -/
inductive Step [WillWake W] :
    TimerMap W → TimerCall W → TimerReply W → TimerMap W → Prop
  | register (map : TimerMap W) (deadline : Instant) (waker : W) (id : TimerId) :
      map id = none →
      Step map (.register deadline waker) (.registered id)
        (map.set id (some (deadline, waker)))
  | exhausted (map : TimerMap W) (deadline : Instant) (waker : W) (id : TimerId) :
      map id ≠ none →
      Step map (.register deadline waker) (.panicked .timerIdExhausted) map
  | updateWaker (map : TimerMap W) (id : TimerId) (waker old : W)
      (deadline : Instant) :
      map id = some (deadline, old) →
      Step map (.updateWaker id waker) .done
        (map.set id (some (deadline, waker)))
  | cancel (map : TimerMap W) (id : TimerId) :
      Step map (.cancel id) .done (map.set id none)
  | reschedule (map : TimerMap W) (id : TimerId) (deadline old : Instant)
      (waker : W) :
      map id = some (old, waker) →
      Step map (.reschedule id deadline) (.rescheduled true)
        (map.set id (some (deadline, waker)))
  | notLive (map : TimerMap W) (id : TimerId) (deadline : Instant) :
      map id = none →
      Step map (.reschedule id deadline) (.rescheduled false) map
  | processExpired (map after : TimerMap W) (now : Instant)
      (fired : List DeadlineEntry) (wakers : List W) :
      Due map now fired →
      List.Forall₂ (fun entry waker => ∃ latest,
        map (ofLex entry).2 = some ((ofLex entry).1, latest) ∧
          SameWake waker latest) fired wakers →
      (∀ id deadline waker, after id = some (deadline, waker) ↔
        map id = some (deadline, waker) ∧ now < deadline) →
      Step map (.processExpired now) (.woken wakers) after
  | someDeadline (map : TimerMap W) (deadline : Instant) :
      IsLeast map.deadlines deadline →
      Step map .nextDeadline (.deadline (some deadline)) map
  | noDeadline (map : TimerMap W) :
      (∀ id, map id = none) →
      Step map .nextDeadline (.deadline none) map

/-- A sequence of calls, each completed before the next one. -/
inductive Run [WillWake W] :
    TimerMap W → List (TimerCall W) → List (TimerReply W) → TimerMap W → Prop
  | nil (map : TimerMap W) : Run map [] [] map
  | cons {map middle after : TimerMap W} {call : TimerCall W}
      {reply : TimerReply W} {calls : List (TimerCall W)}
      {replies : List (TimerReply W)} :
      Step map call reply middle → Run middle calls replies after →
      Run map (call :: calls) (reply :: replies) after

end TimerMap

namespace TimerState

def call [WillWake W] (state : TimerState W) :
    TimerCall W → TimerState W × TimerReply W
  | .register deadline waker =>
      match state.register deadline waker with
      | (state, .ok id) => (state, .registered id)
      | (state, .error panic) => (state, .panicked panic)
  | .updateWaker id waker =>
      match state.updateWaker id waker with
      | .ok state => (state, .done)
      | .error panic => (state, .panicked panic)
  | .cancel id => (state.cancel id, .done)
  | .reschedule id deadline =>
      let (state, live) := state.reschedule id deadline
      (state, .rescheduled live)
  | .processExpired now =>
      let (state, wakers) := state.processExpired now
      (state, .woken wakers)
  | .nextDeadline =>
      let (state, next) := state.nextDeadline
      (state, .deadline next)

def calls [WillWake W] (state : TimerState W) :
    List (TimerCall W) → TimerState W × List (TimerReply W)
  | [] => (state, [])
  | first :: rest =>
      let (middle, reply) := state.call first
      let (after, replies) := middle.calls rest
      (after, reply :: replies)

def Live (state : TimerState W) (id : TimerId) : Prop :=
  id ∈ state.registrations

/-- `update_waker` is called on a live id only. -/
def Admissible (state : TimerState W) : TimerCall W → Prop
  | .updateWaker id _ => state.Live id
  | _ => True

instance (state : TimerState W) (id : TimerId) : Decidable (state.Live id) :=
  inferInstanceAs (Decidable (id ∈ state.registrations))

instance (state : TimerState W) :
    (call : TimerCall W) → Decidable (state.Admissible call)
  | .updateWaker id _ => inferInstanceAs (Decidable (state.Live id))
  | .register _ _ => isTrue trivial
  | .cancel _ => isTrue trivial
  | .reschedule _ _ => isTrue trivial
  | .processExpired _ => isTrue trivial
  | .nextDeadline => isTrue trivial

def AllAdmissible [WillWake W] (state : TimerState W) :
    List (TimerCall W) → Prop
  | [] => True
  | first :: rest =>
      state.Admissible first ∧ (state.call first).1.AllAdmissible rest

instance instDecidableAllAdmissible [WillWake W] :
    (state : TimerState W) → (calls : List (TimerCall W)) →
    Decidable (state.AllAdmissible calls)
  | _, [] => isTrue trivial
  | state, first :: rest =>
      have := instDecidableAllAdmissible (state.call first).1 rest
      inferInstanceAs (Decidable (_ ∧ _))

end TimerState

end Asyncr.Time
