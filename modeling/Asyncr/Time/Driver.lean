import Mathlib.Data.List.AList
import Mathlib.Order.Basic
import Asyncr.Library.LazyQueue
import Asyncr.Task
import Asyncr.Time.Instant

namespace Asyncr.Time

open Asyncr
open Library

universe u

/-! The timer driver of `time/driver.rs`.  `TimerHandle` and `TimerDriver` share
one `TimerState`; their methods are functions of that state. -/

structure TimerId where
  val : UInt64
  deriving Repr

namespace TimerId

theorem toNat_injective : Function.Injective fun id : TimerId => id.val.toNat := by
  rintro ⟨left⟩ ⟨right⟩ same
  exact congrArg TimerId.mk (UInt64.toNat.inj same)

instance : LinearOrder TimerId :=
  LinearOrder.lift' (fun id => id.val.toNat) toNat_injective

end TimerId

structure TimerRegistration (W : Type u) where
  deadline : Instant
  waker : W

/-- An entry of the `BinaryHeap<Reverse<(Instant, TimerId)>>`. -/
abbrev DeadlineEntry := Instant ×ₗ TimerId

abbrev Registrations (W : Type u) :=
  AList fun _ : TimerId => TimerRegistration W

structure TimerState (W : Type u) where
  nextId : UInt64
  deadlines : MinHeap DeadlineEntry
  registrations : Registrations W

namespace TimerState

variable {W : Type u}

/-- `TimerState::default`. -/
def initial : TimerState W where
  nextId := 0
  deadlines := MinHeap.empty
  registrations := ∅

/-- `TimerHandle::next_id`.  The counter has moved on when the panic unwinds. -/
def takeNextId (state : TimerState W) : TimerState W × Except Panic TimerId :=
  let id : TimerId := ⟨state.nextId⟩
  let state := { state with nextId := state.nextId + 1 }
  if id ∈ state.registrations then
    (state, .error .timerIdExhausted)
  else
    (state, .ok id)

def register (state : TimerState W) (deadline : Instant) (waker : W) :
    TimerState W × Except Panic TimerId :=
  match state.takeNextId with
  | (state, .error panic) => (state, .error panic)
  | (state, .ok id) =>
      ({ state with
          deadlines := state.deadlines.push (toLex (deadline, id))
          registrations := state.registrations.insert id ⟨deadline, waker⟩ },
        .ok id)

def updateWaker [WillWake W] (state : TimerState W) (id : TimerId) (waker : W) :
    Except Panic (TimerState W) :=
  match state.registrations.lookup id with
  | none => .error .timerWithoutRegistration
  | some registration =>
      if willWake registration.waker waker then
        .ok state
      else
        .ok { state with
          registrations :=
            state.registrations.insert id { registration with waker := waker } }

def cancel (state : TimerState W) (id : TimerId) : TimerState W :=
  { state with registrations := state.registrations.erase id }

def reschedule (state : TimerState W) (id : TimerId) (newDeadline : Instant) :
    TimerState W × Bool :=
  match state.registrations.lookup id with
  | none => (state, false)
  | some registration =>
      ({ state with
          deadlines := state.deadlines.push (toLex (newDeadline, id))
          registrations :=
            state.registrations.insert id
              { registration with deadline := newDeadline } },
        true)

theorem reschedule_of_none {state : TimerState W} {id : TimerId}
    (absent : state.registrations.lookup id = none) (newDeadline : Instant) :
    state.reschedule id newDeadline = (state, false) := by
  simp [reschedule, absent]

theorem reschedule_of_some {state : TimerState W} {id : TimerId}
    {registration : TimerRegistration W}
    (found : state.registrations.lookup id = some registration)
    (newDeadline : Instant) :
    state.reschedule id newDeadline =
      ({ state with
          deadlines := state.deadlines.push (toLex (newDeadline, id))
          registrations :=
            state.registrations.insert id
              { registration with deadline := newDeadline } }, true) := by
  simp [reschedule, found]

/-- The `while let` loop of `process_expired`: what stays in the heap, the
registrations left, and the pairs `remove_entry` took out. -/
def expireLoop (now : Instant) : List DeadlineEntry → Registrations W →
    List DeadlineEntry × Registrations W × List (TimerId × TimerRegistration W)
  | [], registrations => ([], registrations, [])
  | entry :: rest, registrations =>
      let deadline := (ofLex entry).1
      let id := (ofLex entry).2
      if now < deadline then
        (entry :: rest, registrations, [])
      else
        match registrations.lookup id with
        | some registration =>
            if deadline = registration.deadline then
              let (left, remaining, removed) :=
                expireLoop now rest (registrations.erase id)
              (left, remaining, (id, registration) :: removed)
            else
              expireLoop now rest registrations
        | none => expireLoop now rest registrations

theorem expireLoop_sublist (now : Instant) (entries : List DeadlineEntry)
    (registrations : Registrations W) :
    (expireLoop now entries registrations).1.Sublist entries := by
  induction entries generalizing registrations with
  | nil => simp [expireLoop]
  | cons entry rest ih =>
      unfold expireLoop
      dsimp only
      split
      · exact List.Sublist.refl _
      · split
        · split
          · exact (ih _).cons _
          · exact (ih _).cons _
        · exact (ih _).cons _

/-- What `process_expired` removes at `now`, in order. -/
def expired (state : TimerState W) (now : Instant) :
    List (TimerId × TimerRegistration W) :=
  (expireLoop now state.deadlines.entries state.registrations).2.2

/-- `TimerDriver::process_expired` up to the point where its borrow ends: the
wakers are returned in the order in which they are about to be woken. -/
def processExpired (state : TimerState W) (now : Instant) :
    TimerState W × List W :=
  let outcome := expireLoop now state.deadlines.entries state.registrations
  ({ state with
      deadlines := ⟨outcome.1, state.deadlines.sorted.sublist
        (expireLoop_sublist now state.deadlines.entries state.registrations)⟩
      registrations := outcome.2.1 },
    outcome.2.2.map fun removed => removed.2.waker)

def isCurrent (registrations : Registrations W) (entry : DeadlineEntry) : Bool :=
  match registrations.lookup (ofLex entry).2 with
  | some registration => registration.deadline == (ofLex entry).1
  | none => false

/-- `TimerDriver::next_deadline`: the loop pops until a current entry is on top. -/
def nextDeadline (state : TimerState W) : TimerState W × Option Instant :=
  let deadlines := state.deadlines.dropUntil (isCurrent state.registrations)
  ({ state with deadlines := deadlines },
    deadlines.peek.map fun entry => (ofLex entry).1)

def timeUntilNextDeadline (state : TimerState W) (now : Instant) :
    TimerState W × Option Duration :=
  let (state, deadline) := state.nextDeadline
  (state, deadline.map fun deadline => deadline.saturatingDurationSince now)

end TimerState

end Asyncr.Time
