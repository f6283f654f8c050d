import Asyncr.Program.Requests
import Asyncr.Program.ScriptRuns

namespace Asyncr

open Library
open Time

/-! What a block waits for. -/

inductive Future.Awaits {Output : Type} (future : Future Output) : Resource → Prop
  | handle {index target : Nat} {rest : Except JoinError Output → Script Output} :
      future.spent = none → future.script = .join index rest →
      future.handles[index]? = some target → Awaits future (.handle target)
  | timer {deadline : Instant} {rest : Script Output} {sleep : Nat} :
      future.spent = none → future.script = .sleepUntil deadline rest →
      future.sleep = some sleep → Awaits future (.timer sleep)

namespace World

variable {Output : Type} {world next : World Output} {label : Label Output}
  {schedule : Nat} {resource : Resource}

inductive Offers (world : World Output) : Resource → Prop
  | ready {target : Nat} {cell : JoinCell Output} {result : Except JoinError Output} :
      world.joins (.task target) = some cell → cell.state = .ready result →
      Offers world (.handle target)
  | due {sleep : Nat} {entry : Sleep} :
      world.time.sleeps sleep = some entry → entry.deadline ≤ world.now →
      Offers world (.timer sleep)

/-- The call that a label makes of a resource. -/
def touches? : Label Output → Option Resource
  | .pollJoin (.task target) _ | .dropJoin (.task target) => some (.handle target)
  | .timer call => call.target?.map .timer
  | _ => none

theorem Stepped.now_le (stepped : Stepped world label next) : world.now ≤ next.now := by
  cases stepped with
  | timed cause later => exact later
  | jumped phase wait called paused advanced step => exact Clock.now_le_advanceTo advanced
  | _ => exact Nat.le_refl _

theorem Stepped.ready_stays (stepped : Stepped world label next) (cells : world.Cells)
    {target : Nat} {cell : JoinCell Output} {result : Except JoinError Output}
    (found : world.joins (.task target) = some cell) (ready : cell.state = .ready result)
    (untouched : touches? label ≠ some (.handle target)) :
    ∃ after, next.joins (.task target) = some after ∧ after.state = .ready result := by
  have kept : ∀ {other : JoinRef} {before changed : JoinCell Output},
      world.joins other = some before →
      next.joins = Function.update world.joins other (some changed) →
      (other = .task target → before.state = .ready result →
        changed.state = .ready result) →
      ∃ after, next.joins (.task target) = some after ∧ after.state = .ready result := by
    intro other before changed present joins same
    rcases kept_updated joins found with ⟨rfl, now⟩ | ⟨_, now⟩
    · cases found.symm.trans present
      exact ⟨changed, now, same rfl ready⟩
    · exact ⟨cell, now, ready⟩
  have fresh : ∀ {other : JoinRef} {changed : JoinCell Output},
      world.joins other = none →
      next.joins = Function.update world.joins other (some changed) →
      ∃ after, next.joins (.task target) = some after ∧ after.state = .ready result := by
    intro other changed absent joins
    rcases kept_updated joins found with ⟨rfl, _⟩ | ⟨_, now⟩
    · cases absent.symm.trans found
    · exact ⟨cell, now, ready⟩
  cases stepped with
  | refused runs closed => exact fresh cells.fresh_refused rfl
  | spawned runs unclosed step => exact fresh cells.fresh_task rfl
  | awaited runs present handle known pending | yielded runs present handle pending
  | dropped runs present handle =>
      apply kept present rfl
      rintro rfl
      exact absurd rfl untouched
  | published free stack present pending =>
      apply kept present rfl
      intro _ settled
      cases pending.symm.trans settled
  | released free stack present front | granted free stack present =>
      exact kept present rfl fun _ settled => settled
  | _ => exact ⟨cell, found, ready⟩

theorem Stepped.sleep_on (stepped : Stepped world label next)
    (coupled : world.time.Coupled) {sleep : Nat} {entry : Sleep}
    (present : world.time.sleeps sleep = some entry)
    (untouched : touches? label ≠ some (.timer sleep)) :
    next.time.sleeps sleep = some entry := by
  rcases stepped.timer_call with same | ⟨call, reply, called, origin⟩
  · rw [same]
    exact present
  · have outcome := coupled.outcome called
    cases targeted : call.target? with
    | none => exact outcome.sleep_stays coupled targeted present
    | some target =>
        rw [outcome.sleeps_other targeted, present]
        rintro rfl
        rcases origin with rfl | rfl | rfl
        · exact untouched (by rw [touches?, targeted]; rfl)
        · cases targeted
        · cases targeted

theorem Offers.step (offers : world.Offers resource) (stepped : Stepped world label next)
    (cells : world.Cells) (coupled : world.time.Coupled)
    (untouched : touches? label ≠ some resource) : next.Offers resource := by
  cases offers with
  | ready found ready =>
      obtain ⟨after, now, settled⟩ := stepped.ready_stays cells found ready untouched
      exact .ready now settled
  | due present due =>
      exact .due (stepped.sleep_on coupled present untouched)
        (Nat.le_trans due stepped.now_le)

theorem Stepped.poll_begins (stepped : Stepped world label next)
    (polled : next.executor.phase.polled? = some schedule) :
    world.executor.phase.polled? = some schedule ∨
      label = .dispatch ∧ world.executor.scheduling.state schedule = .queued ∧
        next.executor.scheduling.state schedule = .running false ∧
          ∃ code, next.stack = [.running code] ∧
            (code = .root ∨ code = .inner (.task schedule)) := by
  obtain ⟨root, id, phase⟩ := Phase.polled?_eq_some.mp polled
  rcases stepped.takes with same | ⟨move, takes, step⟩
  · exact Or.inl (same ▸ polled)
  · rcases (Executor.moved_of_step step).polls phase with before | rfl
    · exact Or.inl (Phase.polled?_eq_some.mpr ⟨root, id, before⟩)
    · right
      cases takes with
      | permitted permitted => cases permitted
      | dispatched =>
          cases stepped with
          | timed cause later =>
              rcases cause with ⟨_, other, _⟩ | ⟨_, _, other⟩ <;> cases other
          | unwound free fails unwinds change => cases fails
          | notBegun change other => exact absurd phase (other root id schedule)
          | @began _ target taken executor change began =>
              cases began.symm.trans phase
              have started : world.executor.scheduling.state schedule = .queued ∧
                  executor.scheduling.state schedule = .running false := by
                cases Executor.moved_of_step change with
                | began dispatching entry found begins created =>
                    cases phase
                    obtain ⟨unpoisoned, queued⟩ := Scheduling.beginPoll_begun begins
                    obtain ⟨_, _, _, rfl⟩ := Scheduling.step_beginPoll created
                    refine ⟨queued, ?_⟩
                    rw [Scheduling.beginPoll_ok unpoisoned queued]
                    exact (Scheduling.state_setSchedule ..).trans (if_pos rfl)
                | notAdmitted dispatching entry missing created => cases phase
                | notBegun dispatching entry found fails created => cases phase
              refine ⟨rfl, started.1, started.2, _, rfl, ?_⟩
              · split
                · exact Or.inl rfl
                · exact Or.inr rfl

theorem joiner_of_ready {join : JoinRef} {waker : Waker} {cell : JoinCell Output}
    {result : Except JoinError Output} (found : world.joins join = some cell)
    (ready : cell.state = .ready result)
    (step : machine.step world (.pollJoin join waker) = some next) :
    next.joiner? join = none := by
  simp only [machine, World.step, found] at step
  split at step
  · simp only [World.pollJoin, ready, JoinState.poll, Option.some.injEq] at step
    rw [← step]
    simp [joiner?, setJoin, JoinState.waiter?]
  · cases step

theorem waker_of_ready (coupled : world.time.Coupled) {sleep : Nat} {waker : Waker}
    {now : Instant} {time : Timers Waker}
    (called : world.time.call (.poll sleep waker now) =
      some (time, .polled (.ok (.ready ())))) : time.waker? sleep = none := by
  generalize isReply : SleepReply.polled (.ok (.ready ())) = reply at called
  cases coupled.outcome called with
  | elapsed waker live later due =>
      simp [Timers.waker?, Sleep.release_registration]
  | updated live later held updated => cases isReply
  | registered live later unheld registered => cases isReply

theorem ready_of_due {sleep : Nat} {entry : Sleep} {waker : Waker} {now : Instant}
    {time : Timers Waker} {reply : SleepReply Waker}
    (present : world.time.sleeps sleep = some entry) (due : entry.deadline ≤ now)
    (called : world.time.call (.poll sleep waker now) = some (time, reply)) :
    reply = .polled (.ok (.ready ())) := by
  simp only [Timers.call, present] at called
  split at called
  · cases called
    simp [Sleep.poll, Sleep.isElapsed, due]
  · cases called

theorem unpolled_of_endPoll {executor after : Executor} {result : Poll Unit}
    (step : executor.step (.endPoll result) = some after) :
    after.phase.polled? = none := by
  cases Executor.moved_of_step step <;> rfl

theorem Stepped.unpolled (stepped : Stepped world label next)
    (pends : label = .yield .pending ∨ label = .rootYield .pending) :
    next.executor.phase.polled? = none := by
  rcases pends with rfl | rfl
  · cases stepped with
    | timed cause later => rcases cause with ⟨_, other, _⟩ | ⟨_, _, other⟩ <;> cases other
    | unwound free fails unwinds step => cases fails
    | suspended free stack step => exact unpolled_of_endPoll step
  · cases stepped with
    | timed cause later => rcases cause with ⟨_, other, _⟩ | ⟨_, _, other⟩ <;> cases other
    | unwound free fails unwinds step => cases fails
    | rootYielded free stack step => exact unpolled_of_endPoll step

theorem Stepped.unrun {root : Bool} {result : Except JoinError Output}
    (stepped : Stepped world label next) (ends : label = Future.last root result)
    (code : Code) : .running code ∉ next.stack := by
  intro member
  have ended : (∃ value, label = .yield (.ready value)) ∨
      label = .rootYield (.ready ()) ∨ label = .panic := by
    rw [ends]
    cases result with
    | error error => exact Or.inr (Or.inr rfl)
    | ok value =>
        cases root with
        | true => exact Or.inr (Or.inl rfl)
        | false => exact Or.inl ⟨value, rfl⟩
  rcases ended with ⟨value, rfl⟩ | rfl | rfl
  · cases stepped with
    | timed cause later => rcases cause with ⟨_, other, _⟩ | ⟨_, _, other⟩ <;> cases other
    | unwound free fails unwinds step => cases fails
    | returned free stack => simp [harness] at member
  · cases stepped with
    | timed cause later => rcases cause with ⟨_, other, _⟩ | ⟨_, _, other⟩ <;> cases other
    | unwound free fails unwinds step => cases fails
    | rootYielded free stack step =>
        dsimp only at member
        split at member <;> simp at member
  · cases stepped with
    | timed cause later => rcases cause with ⟨_, other, _⟩ | ⟨_, _, other⟩ <;> cases other
    | caught free stack => simp at member
    | unwound free fails unwinds step =>
        cases unwinds with
        | loop phase =>
            rcases List.mem_append.mp member with dropped | last
            · rcases mem_cleanup dropped with ⟨_, other, _⟩ | ⟨_, _, other, _⟩ |
                ⟨_, other⟩ <;> cases other
            · simp at last
        | leaving phase | closing phase =>
            rcases mem_cleanup member with ⟨_, other, _⟩ | ⟨_, _, other, _⟩ |
              ⟨_, other⟩ <;> cases other

theorem Stepped.poll_back (stepped : Stepped world label next) (shaped : world.Shaped)
    (polled : world.executor.phase.polled? = some schedule) {code : Code}
    (isPoll : code = .root ∨ ∃ join, code = .inner join)
    (member : .running code ∈ next.stack) : .running code ∈ world.stack := by
  rcases stepped.pushed member with old | pushed
  · exact old
  · generalize same : Frame.running code = frame at pushed
    cases pushed with
    | called present =>
        cases same
        obtain ⟨notRoot, notInner⟩ := shaped.calls _ present
        rcases isPoll with isRoot | ⟨join, isInner⟩
        · exact absurd isRoot notRoot
        · exact absurd isInner (notInner join)
    | invoked wakes =>
        cases same
        rcases isPoll with other | ⟨join, other⟩ <;> cases other
    | began step phase =>
        obtain ⟨_, _, isPolling⟩ := Phase.polled?_eq_some.mp polled
        have idle := Executor.idle_of_loop step rfl
        rw [isPolling] at idle
        cases idle
    | _ => cases same

theorem Stepped.stack_on (stepped : Stepped world label next)
    (unclosed : world.executor.closed = false) (asks : Scripted.asks label = true) :
    next.stack = world.stack := by
  cases stepped with
  | refused runs closed => cases unclosed.symm.trans closed
  | unwound free fails unwinds step => cases fails <;> cases asks
  | timer | spawned | rejected | awaited | yielded | dropped => rfl
  | timed cause later => rfl
  | _ => cases asks

end World

namespace Future

variable {Output : Type} {world : World Output} {schedule : Nat} {root : Bool}
  {future : Future Output} {turn : Turn Output} {resource : Resource}

theorem Awaits.owned (awaits : future.Awaits resource) : resource ∈ future.owned := by
  rw [mem_owned]
  cases awaits with
  | handle unspent script found =>
      exact Or.inr (Or.inl ⟨_, List.mem_of_getElem? found, rfl⟩)
  | timer unspent script sleeps => exact Or.inr (Or.inr ⟨_, sleeps, rfl⟩)

theorem Awaits.unspent (awaits : future.Awaits resource) : future.spent = none := by
  cases awaits with
  | handle unspent script found => exact unspent
  | timer unspent script sleeps => exact unspent

theorem Awaits.result? (awaits : future.Awaits resource) :
    future.script.result? future.handles = none := by
  cases awaits with
  | handle unspent script found => simp [script, Script.result?, found]
  | timer unspent script sleeps => simp [script, Script.result?]

inductive Polls (world : World Output) (schedule : Nat) : Label Output → Resource → Prop
  | handle {target : Nat} :
      Polls world schedule (.pollJoin (.task target) (.task schedule)) (.handle target)
  | timer {sleep : Nat} :
      Polls world schedule (.timer (.poll sleep (.task schedule) world.now)) (.timer sleep)

inductive Gets (world : World Output) (schedule : Nat) : Label Output → Resource → Prop
  | handle {target : Nat} {cell : JoinCell Output} {result : Except JoinError Output} :
      world.joins (.task target) = some cell → cell.state = .ready result →
      Gets world schedule (.pollJoin (.task target) (.task schedule)) (.handle target)
  | timer {sleep : Nat} {time : Timers Waker} :
      world.time.call (.poll sleep (.task schedule) world.now) =
        some (time, .polled (.ok (.ready ()))) →
      Gets world schedule (.timer (.poll sleep (.task schedule) world.now)) (.timer sleep)

theorem Gets.unjoined {label : Label Output} {target : Nat} {next : World Output}
    (gets : Gets world schedule label (.handle target))
    (step : World.machine.step world label = some next) :
    next.joiner? (.task target) = none := by
  cases gets with
  | handle found ready => exact World.joiner_of_ready found ready step

theorem Gets.unregistered {label : Label Output} {sleep : Nat} {next : World Output}
    (gets : Gets world schedule label (.timer sleep)) (coupled : world.time.Coupled)
    (step : World.machine.step world label = some next) :
    next.time.waker? sleep = none := by
  cases gets with
  | timer called =>
      obtain ⟨reply, again⟩ := (World.stepped_of_step step).timer_called
      generalize next.time = time at again ⊢
      cases called.symm.trans again
      exact World.waker_of_ready coupled called

/-- A block goes on to wait for what it waits for, or polls, until it gets it. -/
theorem Turned.waits (turned : future.Turned world schedule root turn)
    (waits : future.stage ≠ .fresh ∧ future.Awaits resource ∨
      Polls world schedule turn.label resource) :
    (∃ after, turn.left = .going after ∧ after.stage ≠ .fresh ∧ after.Awaits resource) ∨
      Gets world schedule turn.label resource := by
  cases turned with
  | @freed other spent =>
      rcases waits with ⟨_, awaits⟩ | polls
      · cases awaits with
        | handle unspent | timer unspent => cases spent.symm.trans unspent
      · cases other <;> cases polls
  | suspended unspent pending =>
      rcases waits with ⟨_, awaits⟩ | polls
      · refine Or.inl ⟨_, rfl, nofun, ?_⟩
        cases awaits with
        | handle unspent script found => exact .handle unspent script found
        | timer unspent script sleeps => exact .timer unspent script sleeps
      · cases root <;> cases polls
  | spawned runs script =>
      rcases waits with ⟨_, awaits⟩ | polls
      · cases awaits with
        | handle unspent other | timer unspent other => cases script.symm.trans other
      · cases polls
  | joined runs script found present ready =>
      right
      rcases waits with ⟨_, awaits⟩ | polls
      · cases awaits with
        | handle unspent other has =>
            cases script.symm.trans other
            cases found.symm.trans has
            exact .handle present ready
        | timer unspent other => cases script.symm.trans other
      · cases polls with
        | handle => exact .handle present ready
  | awaited runs script found unready =>
      left
      refine ⟨_, rfl, nofun, ?_⟩
      rcases waits with ⟨_, awaits⟩ | polls
      · cases awaits with
        | handle unspent other has => exact .handle unspent other has
        | timer unspent other => cases script.symm.trans other
      · cases polls with
        | handle => exact .handle runs.1 script found
  | timed runs script unslept =>
      rcases waits with ⟨_, awaits⟩ | polls
      · cases awaits with
        | handle unspent other => cases script.symm.trans other
        | timer unspent other sleeps => cases unslept.symm.trans sleeps
      · cases polls
  | slept runs script sleeps called =>
      right
      rcases waits with ⟨_, awaits⟩ | polls
      · cases awaits with
        | handle unspent other => cases script.symm.trans other
        | timer unspent other has =>
            cases sleeps.symm.trans has
            exact .timer called
      · cases polls with
        | timer => exact .timer called
  | dozed runs script sleeps unready =>
      left
      refine ⟨_, rfl, nofun, ?_⟩
      rcases waits with ⟨_, awaits⟩ | polls
      · cases awaits with
        | handle unspent other => cases script.symm.trans other
        | timer unspent other has => exact .timer unspent other has
      · cases polls with
        | timer => exact .timer runs.1 script sleeps
  | dropped runs comes handles | cancelled runs comes handles sleeps =>
      rcases waits with ⟨_, awaits⟩ | polls
      · cases awaits.result?.symm.trans comes
      · cases polls
  | @ended result runs comes handles unslept =>
      rcases waits with ⟨_, awaits⟩ | polls
      · cases awaits.result?.symm.trans comes
      · cases result <;> cases root <;> cases polls

/-- A block whose await is over goes on to the next one. -/
theorem Turned.goes_on (turned : future.Turned world schedule root turn)
    (suspended : future.stage = .suspended) (awaits : future.Awaits resource)
    (offers : world.Offers resource) {next : World Output}
    (step : World.machine.step world turn.label = some next) :
    ∃ after, turn.left = .going after ∧ after.stage = .fresh := by
  cases turned with
  | freed spent => cases awaits.unspent.symm.trans spent
  | suspended unspent pending => cases suspended.symm.trans pending
  | spawned | joined | slept => exact ⟨_, rfl, rfl⟩
  | awaited runs script found unready =>
      cases awaits with
      | handle unspent other has =>
          cases script.symm.trans other
          cases found.symm.trans has
          cases offers with
          | ready present ready => exact absurd ready (unready _ _ present)
      | timer unspent other => cases script.symm.trans other
  | timed runs script unslept =>
      cases awaits with
      | handle unspent other => cases script.symm.trans other
      | timer unspent other sleeps => cases unslept.symm.trans sleeps
  | dozed runs script sleeps unready =>
      cases awaits with
      | handle unspent other => cases script.symm.trans other
      | timer unspent other has =>
          cases sleeps.symm.trans has
          cases offers with
          | due present due =>
              obtain ⟨reply, called⟩ := (World.stepped_of_step step).timer_called
              obtain rfl := World.ready_of_due present due called
              exact absurd called (unready _)
  | dropped runs comes handles | cancelled runs comes handles sleeps
  | ended runs comes handles unslept => cases awaits.result?.symm.trans comes

theorem Turned.touches (turned : future.Turned world schedule root turn)
    (touches : World.touches? turn.label = some resource) : resource ∈ future.owned := by
  have dropped : ∀ {other : Resource},
      World.touches? (other.drop : Label Output) = some resource → other = resource := by
    intro other touched
    cases other <;> cases touched <;> rfl
  cases turned with
  | @freed other spent =>
      cases dropped touches
      exact mem_owned.mpr (Or.inl spent)
  | joined runs script found present ready | awaited runs script found unready =>
      cases touches
      exact mem_owned.mpr (Or.inr (Or.inl ⟨_, List.mem_of_getElem? found, rfl⟩))
  | slept runs script sleeps called | dozed runs script sleeps unready
  | cancelled runs comes handles sleeps =>
      cases touches
      exact mem_owned.mpr (Or.inr (Or.inr ⟨_, sleeps, rfl⟩))
  | dropped runs comes handles =>
      cases touches
      exact mem_owned.mpr (Or.inr (Or.inl ⟨_, handles ▸ List.mem_cons_self, rfl⟩))
  | suspended => cases root <;> cases touches
  | spawned | timed => cases touches
  | @ended result => cases result <;> cases root <;> cases touches

theorem Turned.labels (turned : future.Turned world schedule root turn) :
    Scripted.asks turn.label = true ∨ (∃ result, turn.label = .yield result) ∨
      (∃ result, turn.label = .rootYield result) ∨ turn.label = .panic := by
  cases turned with
  | @freed other spent => exact Or.inl (Scripted.asks_drop other)
  | suspended =>
      cases root with
      | true => exact Or.inr (Or.inr (Or.inl ⟨_, rfl⟩))
      | false => exact Or.inr (Or.inl ⟨_, rfl⟩)
  | @ended result =>
      cases result with
      | error error => exact Or.inr (Or.inr (Or.inr rfl))
      | ok value =>
          cases root with
          | true => exact Or.inr (Or.inr (Or.inl ⟨_, rfl⟩))
          | false => exact Or.inr (Or.inl ⟨_, rfl⟩)
  | _ => exact Or.inl rfl

theorem Turned.going_asks (turned : future.Turned world schedule root turn)
    {after : Future Output} (left : turn.left = .going after) :
    Scripted.asks turn.label = true ∨ turn.label = .yield .pending ∨
      turn.label = .rootYield .pending := by
  cases turned with
  | @freed other spent => exact Or.inl (Scripted.asks_drop other)
  | suspended =>
      cases root with
      | true => exact Or.inr (Or.inr rfl)
      | false => exact Or.inr (Or.inl rfl)
  | ended => cases left
  | _ => exact Or.inl rfl

theorem Turned.ends (turned : future.Turned world schedule root turn)
    {result : Except JoinError Output} (left : turn.left = .ended result) :
    turn.label = last root result := by
  cases turned with
  | ended =>
      cases left
      rfl
  | _ => cases left

theorem Turned.abroad (turned : future.Turned world schedule root turn) :
    turn.label.home = false ∧ ∀ move, turn.label ≠ .executor move := by
  rcases turned.labels with asks | ⟨result, yields⟩ | ⟨result, yields⟩ | panics
  · cases label : turn.label with
    | spawn | pollJoin _ _ | dropJoin _ | timer _ => exact ⟨rfl, nofun⟩
    | _ =>
        rw [label] at asks
        cases asks
  · rw [yields]
    exact ⟨rfl, nofun⟩
  · rw [yields]
    exact ⟨rfl, nofun⟩
  · rw [panics]
    exact ⟨rfl, nofun⟩

theorem Turned.unsuspended (turned : future.Turned world schedule root turn)
    (asks : Scripted.asks turn.label = true)
    (arrived : future.stage = .suspended → ∃ resource, future.Awaits resource)
    {after : Future Output} (left : turn.left = .going after) :
    after.stage ≠ .suspended := by
  intro suspended
  cases turned with
  | freed spent =>
      cases left
      obtain ⟨resource, awaits⟩ := arrived suspended
      cases awaits with
      | handle unspent | timer unspent => cases spent.symm.trans unspent
  | suspended => cases root <;> cases asks
  | timed runs script unslept =>
      cases left
      obtain ⟨resource, awaits⟩ := arrived suspended
      cases awaits with
      | handle unspent other => cases script.symm.trans other
      | timer unspent other sleeps => cases unslept.symm.trans sleeps
  | dropped runs comes handles | cancelled runs comes handles sleeps =>
      cases left
      obtain ⟨resource, awaits⟩ := arrived suspended
      cases awaits.result?.symm.trans comes
  | spawned | joined | awaited | slept | dozed =>
      cases left
      cases suspended
  | ended => cases left

end Future

end Asyncr
