import Asyncr.Program.Quiet

namespace Asyncr

namespace World

open Library
open Time

variable {Output : Type} {world next : World Output} {label : Label Output}

/-! A call of `next_ready_id`, where all wakers are those of schedules. -/

/-- Everything the executor's thread does in the call, and the clock of the operating
system. -/
inductive Searched (world : World Output) : Label Output → World Output → Prop
  | ticked {reading os : Instant} :
      Searched world (.tick reading) { world with os := os }
  | remote {move : Move} {executor : Executor} :
      (∃ schedule, move = .remoteWake schedule ∨ move = .remoteSend schedule) →
      world.executor.step move = some executor →
      Searched world (.executor move) { world with executor := executor }
  | sent {executor : Executor} : world.executor.step .send = some executor →
      Searched world (.executor .send) { world with executor := executor }
  | drained {root : Nat} {executor : Executor} {time : Timers Waker}
      {wakers : List Waker} :
      world.executor.phase = .iterating root →
      world.executor.step .drain = some executor →
      world.time.call (.processExpired world.now) = some (time, .woken wakers) →
      Searched world .drain
        { world with
          executor := executor
          time := time
          stack := wakers.map Frame.fire }
  | fired {root schedule : Nat} {rest : List (Frame Output)}
      {executor : Executor} :
      world.executor.phase = .expiring root →
      world.executor.scheduling.own = none →
      world.stack = .fire (.task schedule) :: rest →
      (world.executor.scheduling.schedules schedule).poisoned = false →
      world.executor.step (.wake schedule) = some executor →
      Searched world .proceed
        { world with
          executor := executor
          stack := rest
          log := .fired (.task schedule) :: world.log }
  | panicked {root schedule : Nat} {rest left : List (Frame Output)}
      {executor : Executor} :
      world.executor.phase = .expiring root →
      world.stack = .fire (.task schedule) :: rest →
      (world.executor.scheduling.schedules schedule).poisoned = true →
      world.executor.step .panic = some executor →
      Searched world .proceed
        { world with
          executor := executor
          stack := left
          log := .fired (.task schedule) :: world.log }
  | settled {root : Nat} {executor : Executor} :
      world.executor.phase = .expiring root → world.stack = [] →
      world.executor.step .settle = some executor →
      Searched world (.executor .settle) { world with executor := executor }
  | tried {root : Nat} {executor : Executor} :
      world.executor.phase = .receiving root →
      world.executor.step .tryRecv = some executor →
      Searched world (.executor .tryRecv) { world with executor := executor }
  | planned {root : Nat} {time : Timers Waker} {deadline : Option Instant} :
      world.executor.phase = .waiting root → world.wait = none →
      world.time.call .nextDeadline = some (time, .deadline deadline) →
      world.clock.isPaused = false ∨ deadline = none →
      Searched world .plan
        { world with
          time := time
          wait := some (deadline.map fun deadline =>
            deadline.saturatingDurationSince world.now) }
  | jumped {root : Nat} {time : Timers Waker} {deadline : Instant} {clock : Clock}
      {executor : Executor} :
      world.executor.phase = .waiting root → world.wait = none →
      world.time.call .nextDeadline = some (time, .deadline (some deadline)) →
      world.clock.isPaused = true → world.clock.advanceTo deadline = .ok clock →
      world.executor.step .retry = some executor →
      Searched world .plan
        { world with executor := executor, time := time, clock := clock }
  | stuck {root : Nat} {time : Timers Waker} {deadline : Instant} {panic : Panic}
      {executor : Executor} :
      world.executor.phase = .waiting root → world.wait = none →
      world.time.call .nextDeadline = some (time, .deadline (some deadline)) →
      world.clock.isPaused = true →
      world.clock.advanceTo deadline = .error panic →
      world.executor.step .panic = some executor →
      Searched world .plan
        { world with
          executor := executor
          time := time
          stack := [.call .dropRoot] }
  | received {timeout : Option Duration} {executor : Executor} :
      world.wait = some timeout → world.executor.step .recv = some executor →
      Searched world .recv { world with executor := executor, wait := none }
  | timedOut {timeout : Duration} {executor : Executor} :
      world.wait = some (some timeout) →
      world.executor.step .retry = some executor →
      Searched world .timeout { world with executor := executor, wait := none }

theorem Quiet.scheduled_top (quiet : world.Quiet) {rest : List (Frame Output)}
    {waker : Waker} {event : ProgramEvent Output}
    (wakes : Wakes world.stack waker rest event) :
    ∃ schedule, waker = .task schedule := by
  have scheduled := wakes.scheduled quiet.frames
  cases waker with
  | task schedule => exact ⟨schedule, rfl⟩
  | custom code => cases scheduled

theorem Quiet.searched_moved (quiet : world.Quiet) (placed : world.Placed)
    (searching : world.executor.phase.searching = true) {move : Move}
    {executor : Executor} (permitted : world.permits move = true)
    (moved : world.executor.step move = some executor) :
    Searched world (.executor move) { world with executor := executor } := by
  have phased : ∀ {phase : Phase}, world.executor.phase = phase →
      phase.searching = true := by
    rintro phase rfl
    exact searching
  have after := Executor.moved_of_step moved
  cases move with
  | remoteWake schedule => exact .remote ⟨schedule, Or.inl rfl⟩ moved
  | remoteSend schedule => exact .remote ⟨schedule, Or.inr rfl⟩ moved
  | send => exact .sent moved
  | wake schedule =>
      rw [permits, quiet.still placed searching] at permitted
      cases permitted
  | settle =>
      cases after with
      | settle phase free =>
          exact .settled phase (List.isEmpty_iff.mp permitted) moved
  | tryRecv =>
      cases after with
      | foundEmpty phase free empty => exact .tried phase moved
      | tryReceived phase change => exact .tried phase moved
  | blockOn =>
      cases after with
      | blockOn phase change => cases phased phase
  | unwound =>
      cases after with
      | unwound phase free => cases phased phase
  | leave =>
      cases after with
      | left phase free => cases phased phase
  | close =>
      cases after with
      | closed phase free => cases phased phase
  | tear =>
      cases after with
      | torn phase free empty => cases phased phase
  | release =>
      cases after with
      | released phase empty change => cases phased phase
      | leaked phase change => cases phased phase
  | spawn | drain | recv | retry | dispatch | endPoll result | panic | clear
  | destroy id => cases permitted

theorem Quiet.searched (quiet : world.Quiet) (placed : world.Placed)
    (searching : world.executor.phase.searching = true)
    (step : machine.step world label = some next) : Searched world label next := by
  have still := quiet.still placed searching
  have fired : ∀ {stack : List (Frame Output)} {frame : Frame Output},
      world.stack = frame :: stack → ∃ waker, frame = .fire waker := by
    intro rest frame stack
    obtain ⟨waker, isFire, _⟩ := quiet.fires placed searching stack
    exact ⟨waker, isFire⟩
  have phased : ∀ {phase : Phase}, world.executor.phase = phase →
      phase.searching = true := by
    rintro phase rfl
    exact searching
  have quieted : ∀ {schedule : Nat} {rest : List (Frame Output)}
      {event : ProgramEvent Output}, Wakes world.stack (.task schedule) rest event →
      world.stack = .fire (.task schedule) :: rest ∧
        event = .fired (.task schedule) ∧
        ∃ root, world.executor.phase = .expiring root := by
    intro schedule rest event wakes
    generalize same : world.stack = stack at wakes
    cases wakes with
    | fire =>
        obtain ⟨waker, isFire, root⟩ := quiet.fires placed searching same
        exact ⟨rfl, rfl, root⟩
    | wake =>
        obtain ⟨waker, isFire⟩ := fired same
        cases isFire
  have notPoll : ∀ join waker, label ≠ .pollJoin join waker := by
    rintro join waker rfl
    change world.step (.pollJoin join waker) = some next at step
    simp only [World.step, still, Bool.false_and] at step
    split at step <;> cases step
  cases stepped_of_step step with
  | moved permitted moved =>
      exact quiet.searched_moved placed searching permitted moved
  | timed origin later =>
      rcases origin with ⟨reading, rfl, rfl⟩ | ⟨runs, _⟩
      · exact .ticked
      · rw [still] at runs
        cases runs
  | timer runs asked called =>
      rw [still] at runs
      cases runs
  | refused runs closed =>
      rw [still] at runs
      cases runs
  | spawned runs unclosed moved =>
      rw [still] at runs
      cases runs
  | rejected => exact absurd rfl (notPoll _ _)
  | awaited runs found handle known pending => exact absurd rfl (notPoll _ _)
  | yielded runs found handle ready => exact absurd rfl (notPoll _ _)
  | dropped runs found handle =>
      rw [still] at runs
      cases runs
  | suspended free stack moved =>
      obtain ⟨waker, isFire⟩ := fired stack
      cases isFire
  | returned free stack =>
      obtain ⟨waker, isFire⟩ := fired stack
      cases isFire
  | rootYielded free stack moved =>
      obtain ⟨waker, isFire⟩ := fired stack
      cases isFire
  | codeReturned free stack notRoot notInner =>
      obtain ⟨waker, isFire⟩ := fired stack
      cases isFire
  | caught free stack =>
      obtain ⟨waker, isFire⟩ := fired stack
      cases isFire
  | unwound free fails unwinds moved =>
      cases fails with
      | code stack outermost =>
          obtain ⟨waker, isFire⟩ := fired stack
          cases isFire
      | poisoned wakes poisoned =>
          obtain ⟨stack, rfl, root, phase⟩ := quieted wakes
          exact .panicked phase stack poisoned moved
      | published stack found twice =>
          obtain ⟨waker, isFire⟩ := fired stack
          cases isFire
  | called free stack =>
      obtain ⟨waker, isFire⟩ := fired stack
      cases isFire
  | wokeCode free wakes =>
      obtain ⟨schedule, other⟩ := quiet.scheduled_top wakes
      cases other
  | wokeTask free wakes unpoisoned moved =>
      obtain ⟨stack, rfl, root, phase⟩ := quieted wakes
      exact .fired phase free stack unpoisoned moved
  | published free stack found pending =>
      obtain ⟨waker, isFire⟩ := fired stack
      cases isFire
  | released free stack found front =>
      obtain ⟨waker, isFire⟩ := fired stack
      cases isFire
  | granted free stack found =>
      obtain ⟨waker, isFire⟩ := fired stack
      cases isFire
  | drained moved called =>
      cases Executor.moved_of_step moved with
      | drain phase free => exact .drained phase moved called
  | planned phase wait called running => exact .planned phase wait called running
  | jumped phase wait called paused advanced moved =>
      exact .jumped phase wait called paused advanced moved
  | stuck phase wait called paused failed moved =>
      exact .stuck phase wait called paused failed moved
  | received waits moved => exact .received waits moved
  | timedOut waits moved => exact .timedOut waits moved
  | began moved polling =>
      cases Executor.moved_of_step moved with
      | notAdmitted phase _ _ _ | notBegun phase _ _ _ _ | began phase _ _ _ _ =>
          cases phased phase
  | notBegun moved other =>
      cases Executor.moved_of_step moved with
      | notAdmitted phase _ _ _ | notBegun phase _ _ _ _ | began phase _ _ _ _ =>
          cases phased phase
  | finished free phase notRoot stack moved => cases phased phase
  | cleared stack pending moved =>
      cases Executor.moved_of_step moved with
      | cleared phase free waiting => cases phased phase
  | destroyed stack found moved =>
      cases Executor.moved_of_step moved with
      | destroyed phase free member => cases phased phase

end World

end Asyncr
