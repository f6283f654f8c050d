import Asyncr.Program.Joiners

namespace Asyncr

namespace World

open Library
open Time

variable {Output : Type} {world next : World Output} {label : Label Output}
  {allowed : World Output → Label Output → Prop} {clock : Clock} {os : Instant}

/-! The wakers that the runtime keeps are those of schedules that exist, or the
program's own. -/

structure Acquainted (world : World Output) : Prop where
  stored : ∀ join cell waker, world.joins join = some cell →
    cell.state = .pending (some waker) →
    waker.known world.executor.scheduling.created = true
  waking : ∀ join waker, .wake join waker ∈ world.stack →
    waker.known world.executor.scheduling.created = true

theorem acquainted_initial : (initial clock os : World Output).Acquainted where
  stored := by
    intro join cell waker found
    cases found
  waking := by
    intro join waker member
    cases member

theorem known_grows {waker : Waker} {created later : Nat} (grows : created ≤ later)
    (known : waker.known created = true) : waker.known later = true := by
  cases waker with
  | custom code => rfl
  | task schedule =>
      simp only [Waker.known, decide_eq_true_eq] at known ⊢
      omega

theorem Acquainted.step (acquainted : world.Acquainted)
    (stepped : Stepped world label next) : next.Acquainted where
  stored := by
    intro join cell waker found waits
    apply known_grows stepped.created_le
    rcases stepped.stored_back found waits with ⟨old, before, waited⟩ | ⟨_, known⟩
    · exact acquainted.stored join old waker before waited
    · exact known
  waking := by
    intro join waker member
    apply known_grows stepped.created_le
    rcases stepped.wake_back member with old | ⟨cell, _, _, found, waits, _⟩
    · exact acquainted.waking join waker old
    · exact acquainted.stored join cell waker found waits

/-! Everything one step can do once the executor is being dropped. -/

inductive Closes (world : World Output) : Label Output → World Output → Prop
  | moved {move : Move} {executor : Executor} :
      world.permits move = true → world.executor.step move = some executor →
      Closes world (.executor move) { world with executor := executor }
  | timed {label : Label Output} {clock : Clock} {os : Instant} :
      (∃ reading, label = .tick reading) ∨
        (world.codeRuns = true ∧ ∃ call, label = .clock call) →
      Closes world label { world with clock := clock, os := os }
  | timer {call : SleepCall Waker} {time : Timers Waker} :
      world.codeRuns = true → Closes world (.timer call) { world with time := time }
  | refused :
      world.codeRuns = true →
      Closes world .spawn
        { world.setJoin (.refused world.refused) (JoinCell.new false) with
          refused := world.refused + 1
          stack := .call (.dropFuture (.refused world.refused)) ::
            .publish (.refused world.refused) (.error .cancelled) ::
            .grant (.refused world.refused) :: world.stack }
  | rejected {join : JoinRef} {waker : Waker} :
      Closes world (.pollJoin join waker) world
  | awaited {join : JoinRef} {waker : Waker} {cell : JoinCell Output}
      {stored : Option Waker} :
      world.codeRuns = true → world.joins join = some cell →
      cell.state = .pending stored →
      Closes world (.pollJoin join waker)
        { world.setJoin join { cell with state := .pending (some waker) } with
          log := .awaited join waker :: world.log }
  | yielded {join : JoinRef} {waker : Waker} {cell : JoinCell Output}
      {result : Except JoinError Output} :
      world.codeRuns = true → world.joins join = some cell →
      cell.state = .ready result →
      Closes world (.pollJoin join waker)
        { world.setJoin join { cell with state := .consumed } with
          log := .yielded join result :: world.log }
  | dropped {join : JoinRef} {cell : JoinCell Output} :
      world.codeRuns = true → world.joins join = some cell →
      Closes world (.dropJoin join) (world.dropJoin join cell)
  | codeReturned {code : Code} {rest : List (Frame Output)} :
      world.stack = .running code :: rest →
      Closes world .codeReturns { world with stack := rest }
  | unwound {label : Label Output} {rest : List (Frame Output)}
      {log : List (ProgramEvent Output)} {executor : Executor} :
      Fails world label rest log → world.executor.step .panic = some executor →
      Closes world label
        { world with executor := executor, stack := cleanup rest, log := log }
  | called {code : Code} {rest : List (Frame Output)} :
      world.stack = .call code :: rest →
      Closes world .proceed { world with stack := .running code :: rest }
  | wokeCode {code : Nat} {rest : List (Frame Output)}
      {event : ProgramEvent Output} :
      Wakes world.stack (.custom code) rest event →
      Closes world .proceed
        { world with
          stack := .running (.waker code) :: rest
          log := event :: world.log }
  | wokeTask {schedule : Nat} {rest : List (Frame Output)}
      {event : ProgramEvent Output} {executor : Executor} :
      Wakes world.stack (.task schedule) rest event →
      world.executor.step (.wake schedule) = some executor →
      Closes world .proceed
        { world with
          executor := executor
          stack := rest
          log := event :: world.log }
  | published {join : JoinRef} {result : Except JoinError Output}
      {rest : List (Frame Output)} {cell : JoinCell Output}
      {waker : Option Waker} :
      world.stack = .publish join result :: rest →
      world.joins join = some cell → cell.state = .pending waker →
      Closes world .proceed
        { world.setJoin join { cell with state := .ready result } with
          stack := (waker.map (Frame.wake join)).toList ++ .release join :: rest
          log := .published join result waker :: world.log }
  | released {join : JoinRef} {rest front : List (Frame Output)}
      {cell : JoinCell Output} :
      world.stack = .release join :: rest → world.joins join = some cell →
      front = [] ∨ front = [.call (.dropOutput join)] →
      Closes world .proceed
        { world.setJoin join { cell with sender := false } with
          stack := front ++ rest }
  | granted {join : JoinRef} {rest : List (Frame Output)}
      {cell : JoinCell Output} :
      world.stack = .grant join :: rest → world.joins join = some cell →
      Closes world .proceed
        { world.setJoin join { cell with handle := true } with stack := rest }
  | cleared {task : LocalTask} {executor : Executor} :
      world.stack = [] → world.executor.step .clear = some executor →
      Closes world .clear
        { world with executor := executor, stack := world.dropTask task }
  | destroyed {id : Id} {task : LocalTask} {executor : Executor} :
      world.stack = [] → world.executor.step (.destroy id) = some executor →
      Closes world (.destroy id)
        { world with executor := executor, stack := world.dropTask task }

theorem Stepped.closing (stepped : Stepped world label next)
    (orderly : world.Orderly) (closed : world.executor.closed = true) :
    Closes world label next := by
  have closing : world.executor.phase.closing = true :=
    orderly.sound.closing.symm.trans closed
  have phased : ∀ {phase : Phase}, world.executor.phase = phase →
      phase.closing = true := by
    rintro phase rfl
    exact closing
  have uncalled : ∀ {join : JoinRef},
      world.stack ≠ [.running (.inner join)] := by
    intro join stack
    obtain ⟨_, _, _, _, _, _, phase⟩ :=
      orderly.shaped.inner join (stack ▸ List.mem_singleton.mpr rfl)
    cases phased phase
  cases stepped with
  | moved permitted step => exact .moved permitted step
  | timed origin later =>
      exact .timed (origin.imp_left fun ⟨reading, isTick, _⟩ => ⟨reading, isTick⟩)
  | timer runs asked called => exact .timer runs
  | refused runs _ => exact .refused runs
  | spawned runs unclosed step =>
      rw [closed] at unclosed
      cases unclosed
  | rejected => exact .rejected
  | awaited runs found handle known pending => exact .awaited runs found pending
  | yielded runs found handle ready => exact .yielded runs found ready
  | dropped runs found handle => exact .dropped runs found
  | suspended free stack step => exact absurd stack uncalled
  | returned free stack => exact absurd stack uncalled
  | rootYielded free stack step =>
      obtain ⟨_, _, _, phase⟩ :=
        orderly.shaped.root (stack ▸ List.mem_singleton.mpr rfl)
      cases phased phase
  | codeReturned free stack notRoot notInner => exact .codeReturned stack
  | caught free stack => exact absurd stack uncalled
  | unwound free fails unwinds step =>
      cases unwinds with
      | loop phase =>
          rcases phase with ⟨_, _, _, phase⟩ | ⟨_, phase⟩ <;> cases phased phase
      | leaving phase => cases phased phase
      | closing _ => exact .unwound fails step
  | called free stack => exact .called stack
  | wokeCode free wakes => exact .wokeCode wakes
  | wokeTask free wakes unpoisoned step => exact .wokeTask wakes step
  | published free stack found pending => exact .published stack found pending
  | released free stack found front =>
      exact .released stack found (front.imp_right And.left)
  | granted free stack found => exact .granted stack found
  | planned phase wait found running => cases phased phase
  | jumped phase wait found paused advanced step => cases phased phase
  | stuck phase wait found paused failed step => cases phased phase
  | drained step _ | received _ step | timedOut _ step | began step _
  | notBegun step _ =>
      have busy := Phase.idle_of_closing closing
      rw [Executor.idle_of_loop step rfl] at busy
      cases busy
  | finished free phase notRoot stack step => cases phased phase
  | cleared stack pending step => exact .cleared stack step
  | destroyed stack found step => exact .destroyed stack step

end World

end Asyncr
