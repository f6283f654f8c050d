import Mathlib.Data.List.Basic
import Asyncr.Program.JoinPair

namespace Asyncr

open Library

universe u v

variable {Output : Type u}

/-! What a log says of the pair, and the invariant that ties it to the state. -/

namespace JoinEvent

/-- The result the sender was asked to complete with. -/
def request : JoinEvent Output → Option (Except JoinError Output)
  | .published result => some result
  | .senderDropped => some (.error .cancelled)
  | _ => none

def reply : JoinEvent Output → Option (Poll (Except JoinError Output))
  | .polled _ reply => some reply
  | _ => none

def completion : JoinEvent Output → Option (Except JoinError Output)
  | .completed result => some result
  | _ => none

def wake : JoinEvent Output → Option Waker
  | .woken waker => some waker
  | _ => none

/-- The waker that waits for the completion, after an event. -/
def waiter (before : Option Waker) : JoinEvent Output → Option Waker
  | .polled waker .pending => some waker
  | .handleDropped => none
  | _ => before

end JoinEvent

def HandlePoint.borrows : HandlePoint → Bool
  | .matching _ | .clearing => true
  | .idle | .polling _ | .dropping | .gone => false

def HandlePoint.polls : HandlePoint → Bool
  | .polling _ | .matching _ => true
  | .idle | .dropping | .clearing | .gone => false

def SenderPoint.borrows : SenderPoint Output → Bool
  | .completing _ _ => true
  | .alive | .entered _ _ | .taken _ _ | .completed _ _ | .waking _ _ | .dropping
  | .gone => false

def SenderPoint.early : SenderPoint Output → Bool
  | .alive | .entered _ _ | .taken _ _ | .completing _ _ => true
  | .completed _ _ | .waking _ _ | .dropping | .gone => false

def HandlePoint.rank : HandlePoint → Nat
  | .polling _ | .dropping => 2
  | .matching _ | .clearing => 1
  | .idle | .gone => 0

/-- How many statements the sender has to run at most. -/
def SenderPoint.rank : SenderPoint Output → Nat
  | .entered _ own => 5 + (if own then 6 else 0)
  | .taken _ own => 4 + (if own then 6 else 0)
  | .completing _ own => 3 + (if own then 6 else 0)
  | .completed _ own => 2 + (if own then 6 else 0)
  | .waking _ own => 1 + (if own then 6 else 0)
  | .dropping => 6
  | .alive | .gone => 0

theorem HandlePoint.quiet {handle : HandlePoint} (rests : handle.rests = true) :
    handle.borrows = false ∧ handle.polls = false := by
  cases handle with
  | idle => exact ⟨rfl, rfl⟩
  | gone => exact ⟨rfl, rfl⟩
  | polling waker => cases rests
  | matching waker => cases rests
  | dropping => cases rests
  | clearing => cases rests

theorem SenderPoint.leave_borrows (own : Bool) :
    (SenderPoint.leave own : SenderPoint Output).borrows = false := by
  cases own with
  | true => rfl
  | false => rfl

theorem SenderPoint.unborrowed {sender : SenderPoint Output}
    (yields : sender.yields = true) : sender.borrows = false := by
  cases sender with
  | completing result own => cases yields
  | _ => rfl

theorem SenderPoint.rank_leave_lt {rest : Nat} (positive : 0 < rest) (own : Bool) :
    (SenderPoint.leave own : SenderPoint Output).rank <
      rest + (if own then 6 else 0) := by
  cases own with
  | true => exact Nat.lt_add_of_pos_left positive
  | false => exact positive

theorem SenderPoint.leave_ne_alive (own : Bool) :
    (SenderPoint.leave own : SenderPoint Output) ≠ .alive := by
  cases own with
  | true => nofun
  | false => nofun

namespace JoinPair

abbrev JoinLog (Output : Type u) := List (JoinEvent Output)

def requests (log : JoinLog Output) : List (Except JoinError Output) :=
  log.filterMap JoinEvent.request

def replies (log : JoinLog Output) : List (Poll (Except JoinError Output)) :=
  log.filterMap JoinEvent.reply

def completions (log : JoinLog Output) : List (Except JoinError Output) :=
  log.filterMap JoinEvent.completion

def wakes (log : JoinLog Output) : List Waker :=
  log.filterMap JoinEvent.wake

/-- The waker of the last pending poll, unless the handle was dropped since. -/
def waiter (log : JoinLog Output) : Option Waker :=
  log.foldl JoinEvent.waiter none

/-- The handle is not polled again once a poll has returned its result. -/
def OneShot (pair : JoinPair Output) : JoinStep Output → Prop
  | .poll _ => ∀ result, .ready result ∉ replies pair.log
  | _ => True

/-- Nothing has been completed: polls return `Pending` and no waker is woken. -/
structure Waits (log : JoinLog Output) : Prop where
  pending : ∀ reply ∈ replies log, reply = .pending
  incomplete : completions log = []
  silent : wakes log = []

/-- A sender that has not completed, and what it has been asked for. -/
inductive Asks : Bool → SenderPoint Output → List (Except JoinError Output) → Prop
  | alive : Asks true .alive []
  | entered (result : Except JoinError Output) (own : Bool) :
      Asks true (.entered result own) [result]
  | taken (result : Except JoinError Output) (own : Bool) :
      Asks false (.taken result own) [result]
  | completing (result : Except JoinError Output) (own : Bool) :
      Asks false (.completing result own) [result]

/-- A sender that has completed, the waiter it found and the wakers it has woken. -/
inductive Answers : SenderPoint Output → Option Waker → List Waker → Prop
  | completed (waker : Option Waker) (own : Bool) :
      Answers (.completed waker own) waker []
  | waking (waker : Waker) (own : Bool) : Answers (.waking waker own) (some waker) [waker]
  | dropping (waker : Option Waker) : Answers .dropping waker waker.toList
  | entered (waker : Option Waker) :
      Answers (.entered (.error .cancelled) false) waker waker.toList
  | gone (waker : Option Waker) : Answers .gone waker waker.toList

/-- What is left of the result after the polls that followed its completion. -/
inductive Observed (result : Except JoinError Output) :
    JoinState Output → List (Poll (Except JoinError Output)) → Prop
  | stored : Observed result (.ready result) []
  | taken : Observed result .consumed [.ready result]

structure Settled (pair : JoinPair Output) (before : JoinLog Output)
    (result : Except JoinError Output) (after : JoinLog Output) : Prop where
  log : pair.log = before ++ .completed result :: after
  waits : Waits before
  unlinked : pair.linked = false
  requested : requests pair.log = [result]
  once : completions after = []
  answers : Answers pair.sender (waiter before) (wakes after)
  observed : Observed result pair.shared (replies after)

inductive Stage (pair : JoinPair Output) : Prop
  | waiting :
      Waits pair.log → pair.shared = .pending (waiter pair.log) →
      Asks pair.linked pair.sender (requests pair.log) → Stage pair
  | settled (before : JoinLog Output) (result : Except JoinError Output)
      (after : JoinLog Output) : Settled pair before result after → Stage pair

structure Sound (pair : JoinPair Output) : Prop where
  sane : pair.fault = none
  borrowed : pair.borrowed =
    (pair.handle.borrows || pair.sender.borrows)
  single : pair.handle.rests = true ∨ pair.sender.yields = true
  unread : pair.handle.polls = true → pair.shared ≠ .consumed
  stage : Stage pair

variable {pair next : JoinPair Output}

theorem sound_new : Sound (new : JoinPair Output) where
  sane := rfl
  borrowed := rfl
  single := Or.inl rfl
  unread := nofun
  stage := .waiting ⟨nofun, rfl, rfl⟩ rfl .alive

theorem Stage.frame (stage : Stage pair) (log : next.log = pair.log)
    (shared : next.shared = pair.shared) (linked : next.linked = pair.linked)
    (sender : next.sender = pair.sender) : Stage next := by
  cases stage with
  | waiting waits waiting asks =>
      refine .waiting ?_ ?_ ?_
      · rwa [log]
      · rwa [log, shared]
      · rwa [log, linked, sender]
  | settled before result after settled =>
      refine .settled before result after
        ⟨?_, settled.waits, ?_, ?_, settled.once, ?_, ?_⟩
      · rw [log, settled.log]
      · rw [linked, settled.unlinked]
      · rw [log, settled.requested]
      · rw [sender]
        exact settled.answers
      · rw [shared]
        exact settled.observed

/-! One event more in the log. -/

theorem filterMap_last {α : Type u} {β : Type v} (read : α → Option β) (log : List α)
    (event : α) :
    (log ++ [event]).filterMap read = log.filterMap read ++ (read event).toList := by
  cases shown : read event with
  | none => simp [shown]
  | some value => simp [shown]

@[simp] theorem requests_append (log : JoinLog Output) (event : JoinEvent Output) :
    requests (log ++ [event]) = requests log ++ event.request.toList :=
  filterMap_last _ log event

@[simp] theorem replies_append (log : JoinLog Output) (event : JoinEvent Output) :
    replies (log ++ [event]) = replies log ++ event.reply.toList :=
  filterMap_last _ log event

@[simp] theorem completions_append (log : JoinLog Output) (event : JoinEvent Output) :
    completions (log ++ [event]) = completions log ++ event.completion.toList :=
  filterMap_last _ log event

@[simp] theorem wakes_append (log : JoinLog Output) (event : JoinEvent Output) :
    wakes (log ++ [event]) = wakes log ++ event.wake.toList :=
  filterMap_last _ log event

@[simp] theorem waiter_append (log : JoinLog Output) (event : JoinEvent Output) :
    waiter (log ++ [event]) = event.waiter (waiter log) := by
  simp [waiter]

theorem Waits.append {log : JoinLog Output} {event : JoinEvent Output}
    (waits : Waits log) (reply : ∀ given, event.reply = some given → given = .pending)
    (completion : event.completion = none) (wake : event.wake = none) :
    Waits (log ++ [event]) where
  pending := by
    intro given member
    rw [replies_append, List.mem_append, Option.mem_toList] at member
    rcases member with before | last
    · exact waits.pending given before
    · exact reply given last
  incomplete := by
    simpa [completion] using waits.incomplete
  silent := by
    simpa [wake] using waits.silent

theorem Settled.grow {before after : JoinLog Output}
    {result : Except JoinError Output} {event : JoinEvent Output}
    (settled : Settled pair before result after) (log : next.log = pair.log ++ [event])
    (linked : next.linked = pair.linked) (request : event.request = none)
    (completion : event.completion = none)
    (answers : Answers next.sender (waiter before) (wakes (after ++ [event])))
    (observed : Observed result next.shared (replies (after ++ [event]))) :
    Stage next := by
  refine .settled before result (after ++ [event])
    ⟨?_, settled.waits, ?_, ?_, ?_, answers, observed⟩
  · rw [log, settled.log, List.append_assoc, List.cons_append]
  · rw [linked, settled.unlinked]
  · rw [log]
    simpa [request] using settled.requested
  · simpa [completion] using settled.once

theorem Stage.matched (stage : Stage pair) (waker : Waker)
    (unread : pair.shared ≠ .consumed) (sane : pair.fault = none) :
    Stage (pair.matched waker) ∧ (pair.matched waker).fault = none := by
  cases stage with
  | waiting waits shared asks =>
      simp only [JoinPair.matched, shared, JoinState.poll]
      refine ⟨.waiting (waits.append ?_ rfl rfl) ?_ ?_, sane⟩
      · intro given shown
        cases shown
        rfl
      · simp [JoinEvent.waiter]
      · simpa [JoinEvent.request] using asks
  | settled before result after settled =>
      have observed := settled.observed
      generalize shown : pair.shared = shared at observed
      generalize told : replies after = given at observed
      cases observed with
      | taken => exact absurd shown unread
      | stored =>
          simp only [JoinPair.matched, shown, JoinState.poll]
          refine ⟨settled.grow rfl rfl rfl rfl ?_ ?_, sane⟩
          · simpa [JoinEvent.wake] using settled.answers
          · rw [replies_append, told]
            exact .taken

theorem Stage.cleared (stage : Stage pair) : Stage pair.cleared := by
  cases stage with
  | waiting waits shared asks =>
      refine .waiting (waits.append nofun rfl rfl) ?_ ?_
      · simp [JoinPair.cleared, shared, JoinState.abandon, JoinEvent.waiter]
      · simpa [JoinPair.cleared, JoinEvent.request] using asks
  | settled before result after settled =>
      refine settled.grow rfl rfl rfl rfl ?_ ?_
      · simpa [JoinPair.cleared, JoinEvent.wake] using settled.answers
      · have observed := settled.observed
        generalize shown : pair.shared = shared at observed
        generalize told : replies after = given at observed
        have abandoned : pair.cleared.shared = shared := by
          cases observed with
          | stored => simp [JoinPair.cleared, shown, JoinState.abandon]
          | taken => simp [JoinPair.cleared, shown, JoinState.abandon]
        rw [abandoned]
        simpa [JoinEvent.reply, told] using observed

theorem Stage.requested (stage : Stage pair) (alive : pair.sender = .alive)
    {event : JoinEvent Output} {result : Except JoinError Output}
    (request : event.request = some result) (reply : event.reply = none)
    (completion : event.completion = none) (wake : event.wake = none)
    (waiting : ∀ before, event.waiter before = before) (own : Bool) :
    Stage { pair with
      sender := .entered result own
      log := pair.log ++ [event] } := by
  cases stage with
  | waiting waits shared asks =>
      refine .waiting (waits.append ?_ completion wake) ?_ ?_
      · intro given shown
        rw [reply] at shown
        cases shown
      · simp [waiting, shared]
      · rw [alive] at asks
        generalize none_yet : requests pair.log = made at asks
        generalize pair.linked = linked at asks
        cases asks with
        | alive =>
            rw [requests_append, none_yet, request]
            exact .entered result own
  | settled before result after settled =>
      have answers := settled.answers
      rw [alive] at answers
      cases answers

theorem Settled.goes {before after : JoinLog Output} {result : Except JoinError Output}
    (settled : Settled pair before result after) (log : next.log = pair.log)
    (shared : next.shared = pair.shared) (linked : next.linked = pair.linked)
    (answers : Answers next.sender (waiter before) (wakes after)) : Stage next := by
  refine .settled before result after
    ⟨?_, settled.waits, ?_, ?_, settled.once, answers, ?_⟩
  · rw [log, settled.log]
  · rw [linked, settled.unlinked]
  · rw [log, settled.requested]
  · rw [shared]
    exact settled.observed

theorem Answers.leave (waker : Option Waker) (own : Bool) :
    Answers (.leave own : SenderPoint Output) waker waker.toList := by
  cases own with
  | true => exact .dropping waker
  | false => exact .gone waker

/-! What a stage says where the sender stands. -/

section

variable {link own : Bool} {made : List (Except JoinError Output)}
  {result : Except JoinError Output} {waker : Option Waker} {woken : List Waker}

theorem Asks.early {sender : SenderPoint Output} (asks : Asks link sender made) :
    sender.early = true := by
  cases asks with
  | alive => rfl
  | entered => rfl
  | taken => rfl
  | completing => rfl

theorem Asks.entered_inv
    (asks : Asks link (.entered result own : SenderPoint Output) made) :
    link = true ∧ made = [result] := by
  cases asks with
  | entered => exact ⟨rfl, rfl⟩

theorem Asks.taken_inv
    (asks : Asks link (.taken result own : SenderPoint Output) made) :
    link = false ∧ made = [result] := by
  cases asks with
  | taken => exact ⟨rfl, rfl⟩

theorem Asks.completing_inv
    (asks : Asks link (.completing result own : SenderPoint Output) made) :
    link = false ∧ made = [result] := by
  cases asks with
  | completing => exact ⟨rfl, rfl⟩

theorem Answers.entered_inv
    (answers : Answers (.entered result own : SenderPoint Output) waker woken) :
    woken = waker.toList ∧ own = false := by
  cases answers with
  | entered => exact ⟨rfl, rfl⟩

theorem Answers.completed_inv {found : Option Waker}
    (answers : Answers (.completed found own : SenderPoint Output) waker woken) :
    found = waker ∧ woken = [] := by
  cases answers with
  | completed => exact ⟨rfl, rfl⟩

theorem Answers.waking_inv {found : Waker}
    (answers : Answers (.waking found own : SenderPoint Output) waker woken) :
    waker = some found ∧ woken = [found] := by
  cases answers with
  | waking => exact ⟨rfl, rfl⟩

theorem Answers.woken_cases {sender : SenderPoint Output}
    (answers : Answers sender waker woken) :
    woken = waker.toList ∨ woken = [] ∧ ∃ own, sender = .completed waker own := by
  cases answers with
  | completed waker own => exact Or.inr ⟨rfl, own, rfl⟩
  | waking waker own => exact Or.inl rfl
  | dropping waker => exact Or.inl rfl
  | entered waker => exact Or.inl rfl
  | gone waker => exact Or.inl rfl

theorem Observed.replies_cases {shared : JoinState Output}
    {given : List (Poll (Except JoinError Output))}
    (observed : Observed result shared given) : given = [] ∨ given = [.ready result] := by
  cases observed with
  | stored => exact Or.inl rfl
  | taken => exact Or.inr rfl

theorem Answers.dropping_inv
    (answers : Answers (.dropping : SenderPoint Output) waker woken) :
    woken = waker.toList := by
  cases answers with
  | dropping => rfl

end

theorem Stage.taken (stage : Stage pair) {result : Except JoinError Output} {own : Bool}
    (entered : pair.sender = .entered result own) : Stage (pair.take result own) := by
  cases stage with
  | waiting waits shared asks =>
      rw [entered] at asks
      obtain ⟨linked, once⟩ := asks.entered_inv
      simp only [JoinPair.take, linked, if_true]
      refine .waiting waits shared ?_
      rw [once]
      exact .taken result own
  | settled before outcome after settled =>
      have answers := settled.answers
      rw [entered] at answers
      simp only [JoinPair.take, settled.unlinked, Bool.false_eq_true, if_false]
      refine settled.goes rfl rfl settled.unlinked.symm ?_
      rw [answers.entered_inv.1]
      exact .leave (waiter before) own

theorem Stage.completing (stage : Stage pair) {result : Except JoinError Output}
    {own : Bool} (taken : pair.sender = .taken result own) :
    Stage { pair with borrowed := true, sender := .completing result own } := by
  cases stage with
  | waiting waits shared asks =>
      rw [taken] at asks
      obtain ⟨linked, once⟩ := asks.taken_inv
      refine .waiting waits shared ?_
      rw [linked, once]
      exact .completing result own
  | settled before outcome after settled =>
      have answers := settled.answers
      rw [taken] at answers
      cases answers

theorem Stage.completed (stage : Stage pair) {result : Except JoinError Output}
    {own : Bool} (completing : pair.sender = .completing result own)
    (sane : pair.fault = none) :
    Stage (pair.complete result own) ∧ (pair.complete result own).fault = none := by
  cases stage with
  | waiting waits shared asks =>
      rw [completing] at asks
      obtain ⟨unlinked, once⟩ := asks.completing_inv
      simp only [JoinPair.complete, shared, JoinState.complete]
      refine ⟨.settled pair.log result [] ⟨rfl, waits, unlinked, ?_, rfl, ?_, ?_⟩, sane⟩
      · simp [once, JoinEvent.request]
      · exact .completed (waiter pair.log) own
      · exact .stored
  | settled before outcome after settled =>
      have answers := settled.answers
      rw [completing] at answers
      cases answers

theorem Stage.woken (stage : Stage pair) {waker : Option Waker} {own : Bool}
    (completed : pair.sender = .completed waker own) : Stage (pair.wake waker own) := by
  cases stage with
  | waiting waits shared asks =>
      have early := asks.early
      rw [completed] at early
      cases early
  | settled before outcome after settled =>
      have answers := settled.answers
      rw [completed] at answers
      obtain ⟨found, silent⟩ := answers.completed_inv
      cases waker with
      | none =>
          refine settled.goes rfl rfl rfl ?_
          rw [silent, ← found]
          exact .leave none own
      | some waker =>
          refine settled.grow rfl rfl rfl rfl ?_ ?_
          · rw [wakes_append, silent, ← found]
            exact .waking waker own
          · simpa [JoinPair.wake, JoinEvent.reply] using settled.observed

theorem Stage.dropping (stage : Stage pair) (dropping : pair.sender = .dropping) :
    Stage { pair with sender := .entered (.error .cancelled) false } := by
  cases stage with
  | waiting waits shared asks =>
      have early := asks.early
      rw [dropping] at early
      cases early
  | settled before outcome after settled =>
      have answers := settled.answers
      rw [dropping] at answers
      refine settled.goes rfl rfl rfl ?_
      rw [answers.dropping_inv]
      exact .entered (waiter before)

theorem Stage.returned (stage : Stage pair) {waker : Waker} {own : Bool}
    (waking : pair.sender = .waking waker own) :
    Stage { pair with sender := .leave own } := by
  cases stage with
  | waiting waits shared asks =>
      have early := asks.early
      rw [waking] at early
      cases early
  | settled before outcome after settled =>
      have answers := settled.answers
      rw [waking] at answers
      obtain ⟨found, woken⟩ := answers.waking_inv
      refine settled.goes rfl rfl rfl ?_
      rw [found, woken]
      exact .leave (some waker) own

/-! Every step keeps the pair sound. -/

/-- Between two methods of the handle, only the sender's may hold the borrow. -/
theorem Sound.resting (rests : next.handle.rests = true) (sane : next.fault = none)
    (borrowed : next.borrowed = next.sender.borrows) (stage : Stage next) :
    Sound next where
  sane := sane
  borrowed := by
    rw [borrowed, (HandlePoint.quiet rests).1, Bool.false_or]
  single := Or.inl rests
  unread := by
    intro polls
    rw [(HandlePoint.quiet rests).2] at polls
    cases polls
  stage := stage

theorem Sound.borrowed_of_rests (sound : Sound pair) (rests : pair.handle.rests = true) :
    pair.borrowed = pair.sender.borrows := by
  rw [sound.borrowed, (HandlePoint.quiet rests).1, Bool.false_or]

theorem Sound.alone (sound : Sound pair) (running : pair.handle.rests = false) :
    pair.sender.yields = true ∧ pair.borrowed = pair.handle.borrows := by
  have yields : pair.sender.yields = true := by
    rcases sound.single with rests | yields
    · rw [running] at rests
      cases rests
    · exact yields
  refine ⟨yields, ?_⟩
  rw [sound.borrowed, SenderPoint.unborrowed yields, Bool.or_false]

theorem Sound.sends (sound : Sound pair) (rests : pair.handle.rests = true)
    (sends : pair.sends = some next) : Sound next := by
  have borrowed := sound.borrowed_of_rests rests
  cases sender : pair.sender with
  | alive => simp [JoinPair.sends, sender] at sends
  | waking waker own => simp [JoinPair.sends, sender] at sends
  | gone => simp [JoinPair.sends, sender] at sends
  | entered result own =>
      simp only [JoinPair.sends, sender, Option.some.injEq] at sends
      subst sends
      have stage := sound.stage.taken sender
      rw [sender] at borrowed
      unfold take at stage ⊢
      cases linked : pair.linked with
      | true =>
          simp only [linked, if_true] at stage ⊢
          exact .resting rests sound.sane borrowed stage
      | false =>
          simp only [linked, Bool.false_eq_true, if_false] at stage ⊢
          refine .resting rests sound.sane ?_ stage
          exact borrowed.trans (SenderPoint.leave_borrows own).symm
  | taken result own =>
      simp only [JoinPair.sends, sender, Option.some.injEq] at sends
      subst sends
      rw [sender] at borrowed
      have free : pair.borrowed = false := borrowed
      simp only [borrow, free, Bool.false_eq_true, if_false]
      exact .resting rests sound.sane rfl (sound.stage.completing sender)
  | completing result own =>
      simp only [JoinPair.sends, sender, Option.some.injEq] at sends
      subst sends
      obtain ⟨stage, sane⟩ := sound.stage.completed sender sound.sane
      unfold complete at stage sane ⊢
      cases completed : pair.shared.complete result with
      | ok found =>
          simp only [completed] at stage ⊢
          exact .resting rests sound.sane rfl stage
      | error panic =>
          simp only [completed] at sane
          cases sane
  | completed waker own =>
      simp only [JoinPair.sends, sender, Option.some.injEq] at sends
      subst sends
      have stage := sound.stage.woken sender
      rw [sender] at borrowed
      cases waker with
      | none =>
          refine .resting rests sound.sane ?_ stage
          exact borrowed.trans (SenderPoint.leave_borrows own).symm
      | some waker => exact .resting rests sound.sane borrowed stage
  | dropping =>
      simp only [JoinPair.sends, sender, Option.some.injEq] at sends
      subst sends
      rw [sender] at borrowed
      exact .resting rests sound.sane borrowed (sound.stage.dropping sender)

theorem Sound.proceed (sound : Sound pair) (proceeds : pair.proceed = some next) :
    Sound next := by
  unfold JoinPair.proceed at proceeds
  cases handle : pair.handle with
  | idle =>
      simp only [handle] at proceeds
      exact sound.sends (by rw [handle]; rfl) proceeds
  | gone =>
      simp only [handle] at proceeds
      exact sound.sends (by rw [handle]; rfl) proceeds
  | polling waker =>
      have alone := sound.alone (by rw [handle]; rfl)
      rw [handle] at alone
      have free : pair.borrowed = false := alone.2
      simp only [handle, borrow, free, Bool.false_eq_true, if_false,
        Option.some.injEq] at proceeds
      subst proceeds
      refine ⟨sound.sane, rfl, Or.inr alone.1, ?_, sound.stage.frame rfl rfl rfl rfl⟩
      exact fun _ => sound.unread (by rw [handle]; rfl)
  | matching waker =>
      have alone := sound.alone (by rw [handle]; rfl)
      have unread := sound.unread (by rw [handle]; rfl)
      simp only [handle, Option.some.injEq] at proceeds
      subst proceeds
      obtain ⟨stage, sane⟩ := sound.stage.matched waker unread sound.sane
      unfold matched at stage sane ⊢
      rcases polled : pair.shared.poll waker with ⟨shared, reply⟩
      cases reply with
      | ok reply =>
          simp only [polled] at stage ⊢
          refine .resting rfl sound.sane ?_ stage
          exact (SenderPoint.unborrowed alone.1).symm
      | error panic =>
          simp only [polled] at sane
          cases sane
  | dropping =>
      have alone := sound.alone (by rw [handle]; rfl)
      rw [handle] at alone
      have free : pair.borrowed = false := alone.2
      simp only [handle, borrow, free, Bool.false_eq_true, if_false,
        Option.some.injEq] at proceeds
      subst proceeds
      exact ⟨sound.sane, rfl, Or.inr alone.1, nofun, sound.stage.frame rfl rfl rfl rfl⟩
  | clearing =>
      have alone := sound.alone (by rw [handle]; rfl)
      simp only [handle, Option.some.injEq] at proceeds
      subst proceeds
      refine .resting rfl sound.sane ?_ sound.stage.cleared
      exact (SenderPoint.unborrowed alone.1).symm

theorem Settled.replies_eq {before after : JoinLog Output}
    {result : Except JoinError Output} (settled : Settled pair before result after) :
    replies pair.log = replies before ++ replies after := by
  rw [settled.log, replies, List.filterMap_append]
  rfl

theorem Stage.unconsumed (stage : Stage pair)
    (oneShot : ∀ result, .ready result ∉ replies pair.log) :
    pair.shared ≠ .consumed := by
  intro consumed
  cases stage with
  | waiting waits shared asks =>
      rw [shared] at consumed
      cases consumed
  | settled before result after settled =>
      have observed := settled.observed
      rw [consumed] at observed
      generalize told : replies after = given at observed
      cases observed with
      | taken =>
          apply oneShot result
          rw [settled.replies_eq, told]
          simp

theorem Sound.begin (sound : Sound pair) (handle : HandlePoint)
    (idle : pair.handle = .idle) (yields : pair.sender.yields = true)
    (fresh : handle.borrows = false)
    (unread : handle.polls = true → pair.shared ≠ .consumed) :
    Sound { pair with handle := handle } where
  sane := sound.sane
  borrowed := by
    show pair.borrowed = (handle.borrows || pair.sender.borrows)
    rw [fresh, Bool.false_or]
    exact sound.borrowed_of_rests (by rw [idle]; rfl)
  single := Or.inr yields
  unread := unread
  stage := sound.stage.frame rfl rfl rfl rfl

theorem Sound.requested (sound : Sound pair) (rests : pair.handle.rests = true)
    (alive : pair.sender = .alive) {result : Except JoinError Output} {own : Bool}
    {log : List (JoinEvent Output)}
    (stage : Stage { pair with sender := .entered result own, log := log }) :
    Sound { pair with sender := .entered result own, log := log } := by
  have borrowed := sound.borrowed_of_rests rests
  rw [alive] at borrowed
  exact .resting rests sound.sane borrowed stage

theorem Sound.step (sound : Sound pair) {label : JoinStep Output}
    (oneShot : OneShot pair label) (stepped : pair.step label = some next) :
    Sound next := by
  have sane : pair.fault.isSome = false := by
    rw [sound.sane]
    rfl
  simp only [JoinPair.step, sane, Bool.false_eq_true, if_false] at stepped
  cases label with
  | proceed => exact sound.proceed stepped
  | poll waker =>
      simp only [Option.ite_none_right_eq_some, Option.some.injEq] at stepped
      obtain ⟨⟨idle, yields⟩, rfl⟩ := stepped
      exact sound.begin (.polling waker) idle yields rfl fun _ =>
         sound.stage.unconsumed oneShot
  | dropHandle =>
      simp only [Option.ite_none_right_eq_some, Option.some.injEq] at stepped
      obtain ⟨⟨idle, yields⟩, rfl⟩ := stepped
      exact sound.begin .dropping idle yields rfl nofun
  | publish result =>
      cases sender : pair.sender with
      | alive =>
          simp only [sender, Option.ite_none_right_eq_some,
            Option.some.injEq] at stepped
          obtain ⟨rests, rfl⟩ := stepped
          exact sound.requested rests sender
            (sound.stage.requested sender rfl rfl rfl rfl (fun _ => rfl) true)
      | _ => simp [sender] at stepped
  | dropSender =>
      cases sender : pair.sender with
      | alive =>
          simp only [sender, Option.ite_none_right_eq_some,
            Option.some.injEq] at stepped
          obtain ⟨rests, rfl⟩ := stepped
          exact sound.requested rests sender
            (sound.stage.requested sender rfl rfl rfl rfl (fun _ => rfl) false)
      | _ => simp [sender] at stepped
  | wakeReturns =>
      cases sender : pair.sender with
      | waking waker own =>
          simp only [sender, Option.ite_none_right_eq_some,
            Option.some.injEq] at stepped
          obtain ⟨rests, rfl⟩ := stepped
          have borrowed := sound.borrowed_of_rests rests
          rw [sender] at borrowed
          refine .resting rests sound.sane ?_ (sound.stage.returned sender)
          exact borrowed.trans (SenderPoint.leave_borrows own).symm
      | _ => simp [sender] at stepped

theorem run_sound (reach : machine.Reach OneShot (new : JoinPair Output) pair) :
    Sound pair :=
  reach.invariant sound_new fun _ _ _ sound oneShot stepped =>
    sound.step oneShot stepped

/-! The methods come to an end. -/

def Internal (_ : JoinPair Output) : JoinStep Output → Prop
  | .proceed | .wakeReturns => True
  | .poll _ | .dropHandle | .publish _ | .dropSender => False

def rank (pair : JoinPair Output) : Nat :=
  pair.handle.rank + pair.sender.rank

/-- The next statement brings the sender nearer to its end. -/
structure Nearer (pair next : JoinPair Output) : Prop where
  handle : next.handle = pair.handle
  closer : next.sender.rank < pair.sender.rank
  asked : next.sender ≠ .alive

theorem Sound.sends_nearer (sound : Sound pair) (rests : pair.handle.rests = true)
    (sends : pair.sends = some next) : Nearer pair next := by
  have borrowed := sound.borrowed_of_rests rests
  cases sender : pair.sender with
  | alive => simp [JoinPair.sends, sender] at sends
  | waking waker own => simp [JoinPair.sends, sender] at sends
  | gone => simp [JoinPair.sends, sender] at sends
  | entered result own =>
      simp only [JoinPair.sends, sender, Option.some.injEq] at sends
      subst sends
      unfold take
      cases linked : pair.linked with
      | true =>
          refine ⟨rfl, ?_, nofun⟩
          simp [sender, SenderPoint.rank]
      | false =>
          refine ⟨rfl, ?_, SenderPoint.leave_ne_alive own⟩
          rw [sender]
          exact SenderPoint.rank_leave_lt (by decide) own
  | taken result own =>
      simp only [JoinPair.sends, sender, Option.some.injEq] at sends
      subst sends
      rw [sender] at borrowed
      have free : pair.borrowed = false := borrowed
      simp only [borrow, free, Bool.false_eq_true, if_false]
      refine ⟨rfl, ?_, nofun⟩
      simp [sender, SenderPoint.rank]
  | completing result own =>
      simp only [JoinPair.sends, sender, Option.some.injEq] at sends
      subst sends
      have sane := (sound.stage.completed sender sound.sane).2
      unfold complete at sane ⊢
      cases completed : pair.shared.complete result with
      | ok found =>
          refine ⟨rfl, ?_, nofun⟩
          simp [sender, SenderPoint.rank]
      | error panic =>
          simp only [completed] at sane
          cases sane
  | completed waker own =>
      simp only [JoinPair.sends, sender, Option.some.injEq] at sends
      subst sends
      cases waker with
      | none =>
          refine ⟨rfl, ?_, SenderPoint.leave_ne_alive own⟩
          rw [sender]
          exact SenderPoint.rank_leave_lt (by decide) own
      | some waker =>
          refine ⟨rfl, ?_, nofun⟩
          simp [wake, sender, SenderPoint.rank]
  | dropping =>
      simp only [JoinPair.sends, sender, Option.some.injEq] at sends
      subst sends
      refine ⟨rfl, ?_, nofun⟩
      simp [sender, SenderPoint.rank]

theorem sends_some (asked : pair.sender ≠ .alive)
    (unfinished : pair.sender ≠ .gone) :
    (∃ waker own, pair.sender = .waking waker own) ∨ ∃ next, pair.sends = some next := by
  cases sender : pair.sender with
  | alive => exact absurd sender asked
  | gone => exact absurd sender unfinished
  | waking waker own => exact Or.inl ⟨waker, own, rfl⟩
  | _ =>
      right
      simp [JoinPair.sends, sender]

theorem Sound.handle_nearer (sound : Sound pair) (running : pair.handle.rests = false) :
    ∃ next, pair.proceed = some next ∧ next.handle.rank < pair.handle.rank ∧
      next.sender = pair.sender := by
  have alone := sound.alone running
  unfold JoinPair.proceed
  cases handle : pair.handle with
  | idle => simp [handle, HandlePoint.rests] at running
  | gone => simp [handle, HandlePoint.rests] at running
  | polling waker =>
      rw [handle] at alone
      have free : pair.borrowed = false := alone.2
      simp only [borrow, free, Bool.false_eq_true, if_false]
      exact ⟨_, rfl, Nat.lt_succ_self 1, rfl⟩
  | dropping =>
      rw [handle] at alone
      have free : pair.borrowed = false := alone.2
      simp only [borrow, free, Bool.false_eq_true, if_false]
      exact ⟨_, rfl, Nat.lt_succ_self 1, rfl⟩
  | clearing => exact ⟨_, rfl, Nat.zero_lt_one, rfl⟩
  | matching waker =>
      have unread := sound.unread (by rw [handle]; rfl)
      have sane := (sound.stage.matched waker unread sound.sane).2
      refine ⟨_, rfl, ?_⟩
      unfold matched at sane ⊢
      rcases polled : pair.shared.poll waker with ⟨shared, reply⟩
      cases reply with
      | ok reply => exact ⟨Nat.zero_lt_one, rfl⟩
      | error panic =>
          simp only [polled] at sane
          cases sane

/-- A sender that was asked can go on until it has finished. -/
theorem Sound.progress (sound : Sound pair) (asked : pair.sender ≠ .alive)
    (unfinished : pair.sender ≠ .gone) :
    ∃ label next, Internal pair label ∧ pair.step label = some next ∧
      next.rank < pair.rank ∧ next.sender ≠ .alive := by
  have sane : pair.fault.isSome = false := by
    rw [sound.sane]
    rfl
  cases running : pair.handle.rests with
  | false =>
      obtain ⟨next, proceeds, closer, same⟩ := sound.handle_nearer running
      refine ⟨.proceed, next, trivial, ?_, ?_, by rwa [same]⟩
      · simpa [JoinPair.step, sane] using proceeds
      · rw [rank, rank, same]
        exact Nat.add_lt_add_right closer _
  | true =>
      rcases sends_some asked unfinished with ⟨waker, own, sender⟩ | ⟨next, sends⟩
      · refine ⟨.wakeReturns, { pair with sender := .leave own }, trivial, ?_, ?_,
          SenderPoint.leave_ne_alive own⟩
        · simp [JoinPair.step, sane, sender, running]
        · refine Nat.add_lt_add_left ?_ _
          rw [sender]
          exact SenderPoint.rank_leave_lt (by decide) own
      · have nearer := sound.sends_nearer running sends
        refine ⟨.proceed, next, trivial, ?_, ?_, nearer.asked⟩
        · cases handle : pair.handle with
          | idle => simpa [JoinPair.step, JoinPair.proceed, sane, handle] using sends
          | gone => simpa [JoinPair.step, JoinPair.proceed, sane, handle] using sends
          | _ => simp [handle, HandlePoint.rests] at running
        · rw [rank, rank, nearer.handle]
          exact Nat.add_lt_add_left nearer.closer _

theorem Sound.finishes (sound : Sound pair) (asked : pair.sender ≠ .alive) :
    ∃ later, machine.Reach Internal pair later ∧ later.sender = .gone := by
  induction ranked : pair.rank using Nat.strongRecOn generalizing pair with
  | _ bound ih =>
      by_cases finished : pair.sender = .gone
      · exact ⟨pair, .refl, finished⟩
      · obtain ⟨label, next, internal, stepped, closer, still⟩ :=
          sound.progress asked finished
        have oneShot : OneShot pair label := by
          cases label with
          | poll waker => cases internal
          | _ => trivial
        obtain ⟨later, reach, gone⟩ :=
          ih next.rank (by rwa [← ranked]) (sound.step oneShot stepped) still rfl
        exact ⟨later, (Machine.Reach.single label internal stepped).trans reach, gone⟩

/-! One pair over any run. -/

def pollThrough (pair : JoinPair Output) (waker : Waker) : Option (JoinPair Output) :=
  ((pair.step (.poll waker)).bind fun begun => begun.step .proceed).bind
    fun borrowed => borrowed.step .proceed

/-- A poll that finds the result returns it, whatever the sender is waiting for. -/
theorem Sound.poll_ready (sound : Sound pair) {before after : JoinLog Output}
    {result : Except JoinError Output} (settled : Settled pair before result after)
    (idle : pair.handle = .idle) (yields : pair.sender.yields = true)
    (oneShot : ∀ taken, .ready taken ∉ replies pair.log) (waker : Waker) :
    ∃ later, pair.pollThrough waker = some later ∧
      later.log = pair.log ++ [.polled waker (.ready result)] := by
  have sane : pair.fault.isSome = false := by
    rw [sound.sane]
    rfl
  have free : pair.borrowed = false := by
    rw [sound.borrowed, idle, SenderPoint.unborrowed yields]
    rfl
  have observed := settled.observed
  generalize shown : pair.shared = shared at observed
  generalize told : replies after = given at observed
  cases observed with
  | taken => exact absurd shown (sound.stage.unconsumed oneShot)
  | stored =>
      simp [pollThrough, JoinPair.step, JoinPair.proceed, borrow, matched,
        JoinState.poll, sane, free, idle, yields, shown]

/-- The pair never faults.  It is completed once, when its sender has come to its
end; polls before that are pending and the first one after it returns the result
asked for; the waker woken is the one that waits at that moment, and from then on a
poll finds the result. -/
theorem join_one_shot
    (reach : machine.Reach OneShot (new : JoinPair Output) pair) :
    pair.fault = none ∧
    (Waits pair.log ∧ pair.sender.early = true ∨
      ∃ before result after, pair.log = before ++ .completed result :: after ∧
        Waits before ∧ completions after = [] ∧ requests pair.log = [result] ∧
        (replies after = [] ∨ replies after = [.ready result]) ∧
        (wakes after = (waiter before).toList ∨
          wakes after = [] ∧ ∃ own, pair.sender = .completed (waiter before) own) ∧
        ((∀ taken, .ready taken ∉ replies pair.log) → pair.handle = .idle →
          pair.sender.yields = true → ∀ waker, ∃ later,
            pair.pollThrough waker = some later ∧
              later.log = pair.log ++ [.polled waker (.ready result)])) ∧
    (pair.sender ≠ .alive →
      ∃ later, machine.Reach Internal pair later ∧ later.sender = .gone) := by
  have sound := run_sound reach
  refine ⟨sound.sane, ?_, sound.finishes⟩
  cases sound.stage with
  | waiting waits shared asks => exact Or.inl ⟨waits, asks.early⟩
  | settled before result after settled =>
      right
      refine ⟨before, result, after, settled.log, settled.waits, settled.once,
        settled.requested, ?_, ?_, ?_⟩
      · exact settled.observed.replies_cases
      · exact settled.answers.woken_cases
      · intro oneShot idle yields waker
        exact sound.poll_ready settled idle yields oneShot waker

theorem oneShot_iff (log : JoinLog Output) :
    ((replies log).all fun reply => !reply.isReady) = true ↔
      ∀ result, .ready result ∉ replies log := by
  rw [List.all_eq_true]
  constructor
  · intro pending result member
    have shown := pending _ member
    cases shown
  · intro none_ready reply member
    cases reply with
    | ready result => exact absurd member (none_ready result)
    | pending => rfl

instance : ∀ (pair : JoinPair Output) (label : JoinStep Output),
    Decidable (OneShot pair label)
  | pair, .poll _ => decidable_of_iff _ (oneShot_iff pair.log)
  | _, .dropHandle | _, .publish _ | _, .dropSender | _, .proceed | _, .wakeReturns =>
      isTrue trivial

/-- Polled by two wakers, published, and polled again by the second one while it is
being woken. -/
def reentrantSteps : List (JoinStep Nat) :=
  [.poll (.task 1), .proceed, .proceed, .poll (.custom 2), .proceed, .proceed,
    .publish (.ok 7), .proceed, .proceed, .proceed, .proceed,
    .poll (.custom 2), .proceed, .proceed, .wakeReturns]

def reentrantPair : JoinPair Nat :=
  (machine.run OneShot new reentrantSteps).getD new

theorem join_one_shot_reentrant :
    reentrantPair.fault = none ∧ reentrantPair.sender = .dropping ∧
      wakes reentrantPair.log = [.custom 2] ∧
      ∃ later, machine.Reach Internal reentrantPair later ∧ later.sender = .gone := by
  have ran : machine.run OneShot (new : JoinPair Nat) reentrantSteps =
      some reentrantPair := rfl
  obtain ⟨sane, _, finishes⟩ := join_one_shot (Machine.reach_of_run ran)
  exact ⟨sane, rfl, rfl, finishes nofun⟩

end JoinPair

end Asyncr
