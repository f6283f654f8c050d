import Asyncr.Library.Machine
import Asyncr.Program.Join

namespace Asyncr

open Library

universe u

/-! One pair of `join_pair`, statement by statement.  Every method borrows the
shared state from a `RefCell`, and the only code of the program that runs inside a
method is the waker that `publish_inner` wakes. -/

inductive JoinFault where
  /-- The panic of `RefCell::borrow_mut`. -/
  | alreadyBorrowed
  | raised (panic : Panic)
  deriving DecidableEq, Repr

/-- Where the one call of `JoinHandle` in progress, if any, has got to. -/
inductive HandlePoint where
  | idle
  | polling (waker : Waker)
  | matching (waker : Waker)
  | dropping
  | clearing
  | gone
  deriving DecidableEq, Repr

/-- Where `JoinSender` has got to.  `own` tells `publish`, which drops `self` when
`publish_inner` has returned, from the drop itself. -/
inductive SenderPoint (Output : Type u) where
  | alive
  | entered (result : Except JoinError Output) (own : Bool)
  | taken (result : Except JoinError Output) (own : Bool)
  | completing (result : Except JoinError Output) (own : Bool)
  | completed (waker : Option Waker) (own : Bool)
  | waking (waker : Waker) (own : Bool)
  | dropping
  | gone

inductive JoinEvent (Output : Type u) where
  | polled (waker : Waker) (reply : Poll (Except JoinError Output))
  | handleDropped
  | published (result : Except JoinError Output)
  | senderDropped
  | completed (result : Except JoinError Output)
  | woken (waker : Waker)

structure JoinPair (Output : Type u) where
  shared : JoinState Output
  borrowed : Bool
  /-- The sender's `state` is `Some`. -/
  linked : Bool
  handle : HandlePoint
  sender : SenderPoint Output
  fault : Option JoinFault
  /-- History, oldest first. -/
  log : List (JoinEvent Output)

inductive JoinStep (Output : Type u) where
  | poll (waker : Waker)
  | dropHandle
  | publish (result : Except JoinError Output)
  | dropSender
  /-- The innermost method runs its next statement. -/
  | proceed
  | wakeReturns

namespace HandlePoint

def rests : HandlePoint → Bool
  | .idle | .gone => true
  | .polling _ | .matching _ | .dropping | .clearing => false

end HandlePoint

namespace SenderPoint

variable {Output : Type u}

/-- No statement of the sender's methods is running: code of the program is. -/
def yields : SenderPoint Output → Bool
  | .alive | .waking _ _ | .gone => true
  | .entered _ _ | .taken _ _ | .completing _ _ | .completed _ _ | .dropping => false

def leave (own : Bool) : SenderPoint Output :=
  if own then .dropping else .gone

end SenderPoint

namespace JoinPair

variable {Output : Type u}

def new : JoinPair Output where
  shared := .pending none
  borrowed := false
  linked := true
  handle := .idle
  sender := .alive
  fault := none
  log := []

/-- `borrow_mut`, and where the method is once it has its borrow. -/
def borrow (pair : JoinPair Output) (handle : HandlePoint)
    (sender : SenderPoint Output) : JoinPair Output :=
  if pair.borrowed then
    { pair with fault := some .alreadyBorrowed }
  else
    { pair with borrowed := true, handle := handle, sender := sender }

/-- The match of `JoinHandle::poll`, at whose end the borrow is released. -/
def matched (pair : JoinPair Output) (waker : Waker) : JoinPair Output :=
  match pair.shared.poll waker with
  | (shared, .ok reply) =>
      { pair with
        shared := shared
        borrowed := false
        handle := .idle
        log := pair.log ++ [.polled waker reply] }
  | (shared, .error panic) =>
      { pair with shared := shared, fault := some (.raised panic) }

def cleared (pair : JoinPair Output) : JoinPair Output :=
  { pair with
    shared := pair.shared.abandon
    borrowed := false
    handle := .gone
    log := pair.log ++ [.handleDropped] }

/-- `let waker = state.borrow_mut().complete(result)`: the borrow is a temporary of
this statement. -/
def complete (pair : JoinPair Output) (result : Except JoinError Output)
    (own : Bool) : JoinPair Output :=
  match pair.shared.complete result with
  | .ok (shared, waker) =>
      { pair with
        shared := shared
        borrowed := false
        sender := .completed waker own
        log := pair.log ++ [.completed result] }
  | .error panic => { pair with fault := some (.raised panic) }

/-- `if let Some(waker) = waker { waker.wake() }`. -/
def wake (pair : JoinPair Output) (waker : Option Waker) (own : Bool) :
    JoinPair Output :=
  match waker with
  | some waker =>
      { pair with
        sender := .waking waker own
        log := pair.log ++ [.woken waker] }
  | none => { pair with sender := .leave own }

/-- `let Some(state) = self.state.take() else { return }`. -/
def take (pair : JoinPair Output) (result : Except JoinError Output) (own : Bool) :
    JoinPair Output :=
  if pair.linked then
    { pair with linked := false, sender := .taken result own }
  else
    { pair with sender := .leave own }

/-- The next statement of `publish`, `publish_inner` or `Drop for JoinSender`. -/
def sends (pair : JoinPair Output) : Option (JoinPair Output) :=
  match pair.sender with
  | .entered result own => some (pair.take result own)
  | .taken result own => some (pair.borrow pair.handle (.completing result own))
  | .completing result own => some (pair.complete result own)
  | .completed waker own => some (pair.wake waker own)
  | .dropping => some { pair with sender := .entered (.error .cancelled) false }
  | .alive | .waking _ _ | .gone => none

def proceed (pair : JoinPair Output) : Option (JoinPair Output) :=
  match pair.handle with
  | .polling waker => some (pair.borrow (.matching waker) pair.sender)
  | .matching waker => some (pair.matched waker)
  | .dropping => some (pair.borrow .clearing pair.sender)
  | .clearing => some pair.cleared
  | .idle | .gone => pair.sends

def step (pair : JoinPair Output) (label : JoinStep Output) :
    Option (JoinPair Output) :=
  if pair.fault.isSome then
    none
  else
    match label with
    | .poll waker =>
        if pair.handle = .idle ∧ pair.sender.yields then
          some { pair with handle := .polling waker }
        else
          none
    | .dropHandle =>
        if pair.handle = .idle ∧ pair.sender.yields then
          some { pair with handle := .dropping }
        else
          none
    | .publish result =>
        match pair.sender with
        | .alive =>
            if pair.handle.rests then
              some { pair with
                sender := .entered result true
                log := pair.log ++ [.published result] }
            else
              none
        | _ => none
    | .dropSender =>
        match pair.sender with
        | .alive =>
            if pair.handle.rests then
              some { pair with
                sender := .entered (.error .cancelled) false
                log := pair.log ++ [.senderDropped] }
            else
              none
        | _ => none
    | .proceed => pair.proceed
    | .wakeReturns =>
        match pair.sender with
        | .waking _ own =>
            if pair.handle.rests then some { pair with sender := .leave own } else none
        | _ => none

def machine : Machine (JoinPair Output) (JoinStep Output) := ⟨step⟩

end JoinPair

end Asyncr
