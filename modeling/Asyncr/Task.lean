namespace Asyncr

/-! What a future sees of the runtime that polls it. -/

universe u

inductive Poll (α : Type u) where
  | ready (value : α)
  | pending
  deriving DecidableEq, Repr

def Poll.isReady {α : Type u} : Poll α → Bool
  | .ready _ => true
  | .pending => false

/-- `Id` of `task.rs`. -/
structure Id where
  val : UInt64
  deriving DecidableEq, Repr

def rootTaskId : Id := ⟨0⟩

/-- `Waker::will_wake`: the only comparison of wakers the code makes. -/
class WillWake (W : Type u) where
  willWake : W → W → Bool

export WillWake (willWake)

/-- A stored waker stands for the one supplied last if it is that waker or
`will_wake` says that it wakes the same task. -/
def SameWake {W : Type u} [WillWake W] (stored latest : W) : Prop :=
  stored = latest ∨ willWake stored latest = true

/-- The waker of a `TaskSchedule`, or one that runs code of the program. -/
inductive Waker where
  | task (schedule : Nat)
  | custom (code : Nat)
  deriving DecidableEq, Repr

instance : WillWake Waker where
  willWake left right := decide (left = right)

end Asyncr
