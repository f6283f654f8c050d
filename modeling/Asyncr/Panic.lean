namespace Asyncr

/-! The panics the runtime itself can raise, one for each site. -/

inductive Panic where
  | onlyQueuedPolled
  | notRunningAtFinish
  | mutexPoisoned
  | notAdmitted
  | channelDisconnected
  | joinCompletedTwice
  | joinPolledAfterCompletion
  | timerWithoutRegistration
  | timerIdExhausted
  | deadlineOutOfRange
  | clockAlreadyPaused
  | clockAlreadyRunning
  | clockAdvanceOutOfRange
  | clockNotPaused
  | clockMovedBackwards
  | alreadyEntered
  | notEntered
  deriving DecidableEq, Repr

end Asyncr
