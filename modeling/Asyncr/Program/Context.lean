import Asyncr.Program.World

namespace Asyncr

open Library
open Time

/-! The runtime context of one thread: `context.rs`, `Handle::enter` and
`Runtime::block_on`.  A runtime and its handles are known by a number. -/

abbrev Handle := Nat

inductive SetCurrentError where
  | alreadyEntered
  deriving DecidableEq, Repr

structure EnterGuard where
  number : Nat
  /-- The handle it was created from. -/
  handle : Handle
  deriving DecidableEq, Repr

structure Thread (Output : Type) where
  /-- `CONTEXT`. -/
  context : Option Handle
  runtimes : Handle → Option (World Output)
  /-- How many runtimes were created. -/
  created : Nat
  /-- The guards that are alive. -/
  guards : List EnterGuard
  /-- The guards that the active calls of `block_on` hold, the innermost first. -/
  calls : List EnterGuard
  /-- How many guards were created. -/
  entered : Nat

/-- What code does to the thread before it returns or panics. -/
abbrev OnThread (Output : Type) := EStateM Panic (Thread Output)

/-- What a thread does with its runtimes.  Their steps may come in any order, as
far as a call of `block_on` borrows its runtime alone. -/
inductive ThreadLabel (Output : Type) where
  | create (clock : Clock) (os : Instant)
  | enter (handle : Handle)
  /-- A guard is dropped that no call of `block_on` holds. -/
  | dropGuard (guard : EnterGuard)
  | blockOn (handle : Handle)
  /-- The innermost call of `block_on` ends: it returns, or a panic leaves it. -/
  | ends
  | world (handle : Handle) (label : Label Output)

namespace OnThread

variable {Output : Type}

def trySetCurrent (handle : Handle) :
    OnThread Output (Except SetCurrentError Unit) := do
  let thread ← get
  match thread.context with
  | some _ => return .error .alreadyEntered
  | none =>
      set { thread with context := some handle }
      return .ok ()

def clearCurrent : OnThread Output Unit :=
  modify fun thread => { thread with context := none }

def tryCurrent : OnThread Output (Option Handle) := do
  return (← get).context

def current : OnThread Output Handle := do
  match ← tryCurrent with
  | some handle => return handle
  | none => throw .notEntered

def newGuard (handle : Handle) : OnThread Output EnterGuard := do
  let thread ← get
  let guard : EnterGuard := ⟨thread.entered, handle⟩
  set { thread with
    guards := guard :: thread.guards
    entered := thread.entered + 1 }
  return guard

def enter (handle : Handle) : OnThread Output EnterGuard := do
  match ← trySetCurrent handle with
  | .error .alreadyEntered => throw .alreadyEntered
  | .ok () => newGuard handle

/-- `Drop for EnterGuard`. -/
def dropGuard (guard : EnterGuard) : OnThread Output Unit := do
  modify fun thread => { thread with guards := thread.guards.erase guard }
  clearCurrent

def setRuntime (handle : Handle) (world : World Output) : OnThread Output Unit :=
  modify fun thread =>
    { thread with runtimes := Function.update thread.runtimes handle (some world) }

/-- `Runtime::block_on`, until `Executor::block_on` has called back. -/
def blockOn (handle : Handle) (begun : World Output) : OnThread Output Unit := do
  let guard ← enter handle
  modify fun thread => { thread with calls := guard :: thread.calls }
  setRuntime handle begun

/-- `Runtime::block_on` once `Executor::block_on` has ended. -/
def leave (guard : EnterGuard) : OnThread Output Unit := do
  modify fun thread => { thread with calls := thread.calls.erase guard }
  dropGuard guard

end OnThread

namespace Thread

variable {Output : Type}

def initial : Thread Output where
  context := none
  runtimes := fun _ => none
  created := 0
  guards := []
  calls := []
  entered := 0

def after {α : Type} (thread : Thread Output) (code : OnThread Output α) :
    Thread Output :=
  match code.run thread with
  | .ok _ next => next
  | .error _ next => next

def unborrowed (thread : Thread Output) (handle : Handle) : Bool :=
  thread.calls.all fun guard => decide (guard.handle ≠ handle)

/-- The steps of a runtime that are not `Runtime::block_on`; one that is borrowed is
not dropped. -/
def permits (thread : Thread Output) (handle : Handle) : Label Output → Bool
  | .executor .blockOn => false
  | .executor .close => thread.unborrowed handle
  | _ => true

def step (thread : Thread Output) : ThreadLabel Output → Option (Thread Output)
  | .create clock os =>
      some { thread.after (.setRuntime thread.created (World.initial clock os)) with
        created := thread.created + 1 }
  | .enter handle =>
      if (thread.runtimes handle).isSome then
        some (thread.after (.enter handle))
      else
        none
  | .dropGuard guard =>
      if guard ∈ thread.guards ∧ guard ∉ thread.calls then
        some (thread.after (.dropGuard guard))
      else
        none
  | .blockOn handle =>
      if thread.unborrowed handle then
        ((thread.runtimes handle).bind fun world =>
          world.step (.executor .blockOn)).map fun begun =>
            thread.after (.blockOn handle begun)
      else
        none
  | .ends =>
      match thread.calls with
      | guard :: _ =>
          match thread.runtimes guard.handle with
          | some world =>
              if world.executor.phase = .outside then
                some (thread.after (.leave guard))
              else
                none
          | none => none
      | [] => none
  | .world handle label =>
      if thread.permits handle label then
        ((thread.runtimes handle).bind fun world => world.step label).map
          fun next => thread.after (.setRuntime handle next)
      else
        none

def machine : Machine (Thread Output) (ThreadLabel Output) where
  step := step

end Thread

end Asyncr
