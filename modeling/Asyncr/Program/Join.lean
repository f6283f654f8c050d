import Asyncr.Panic
import Asyncr.Task

namespace Asyncr

/-! `join.rs`: the state that a `JoinHandle` and a `JoinSender` share. -/

universe u

inductive JoinError where
  | cancelled
  | panic
  deriving DecidableEq, Repr

inductive JoinState (Output : Type u) where
  | pending (waker : Option Waker)
  | ready (result : Except JoinError Output)
  | consumed

namespace JoinState

variable {Output : Type u}

def poll (state : JoinState Output) (waker : Waker) :
    JoinState Output × Except Panic (Poll (Except JoinError Output)) :=
  match state with
  | .pending _ => (.pending (some waker), .ok .pending)
  | .ready result => (.consumed, .ok (.ready result))
  | .consumed => (.consumed, .error .joinPolledAfterCompletion)

/-- `Drop for JoinHandle`. -/
def abandon : JoinState Output → JoinState Output
  | .pending _ => .pending none
  | state => state

def complete (state : JoinState Output) (result : Except JoinError Output) :
    Except Panic (JoinState Output × Option Waker) :=
  match state with
  | .pending waker => .ok (.ready result, waker)
  | .ready _ | .consumed => .error .joinCompletedTwice

def isPending : JoinState Output → Bool
  | .pending _ => true
  | .ready _ | .consumed => false

end JoinState

/-- The shared state, and who holds a reference to it; with the last one it is freed. -/
structure JoinCell (Output : Type u) where
  state : JoinState Output
  handle : Bool
  sender : Bool

namespace JoinCell

variable {Output : Type u}

/-- `join_pair`, with its handle given out at once or not yet. -/
def new (handle : Bool) : JoinCell Output where
  state := .pending none
  handle := handle
  sender := true

/-- Nobody holds the state any more, and an output is freed with it. -/
def freesOutput (cell : JoinCell Output) : Bool :=
  match cell.handle, cell.sender, cell.state with
  | false, false, .ready (.ok _) => true
  | _, _, _ => false

theorem freesOutput_iff {cell : JoinCell Output} : cell.freesOutput = true ↔
    cell.handle = false ∧ cell.sender = false ∧
      ∃ value, cell.state = .ready (.ok value) := by
  unfold freesOutput
  split <;> simp_all

end JoinCell

end Asyncr
