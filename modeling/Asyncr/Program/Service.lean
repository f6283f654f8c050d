import Asyncr.Executor.Fifo
import Asyncr.Program.Frames
import Asyncr.Program.Waiting

namespace Asyncr

namespace World

open Library
open Time
open Scheduling

variable {Output : Type} {world next : World Output} {label : Label Output}
  {clock : Clock} {os : Instant}

/-! Calls of `block_on` that return: who is served, and in which order. -/

def returns (world : World Output) (label : Label Output) : Bool :=
  (machine.step world label).all fun next =>
    decide (next.executor.phase ≠ .unwinding)

def Returns (world : World Output) (label : Label Output) : Prop :=
  world.returns label = true

instance (world : World Output) (label : Label Output) :
    Decidable (world.Returns label) :=
  inferInstanceAs (Decidable (_ = true))

theorem Returns.phase (returns : world.Returns label)
    (step : machine.step world label = some next) :
    next.executor.phase ≠ .unwinding := by
  unfold Returns World.returns at returns
  rw [step] at returns
  simpa using returns

theorem returns_of_moved {executor after : Executor} {move : Move}
    (moved : executor.step move = some after)
    (calm : after.phase ≠ .unwinding) : executor.Returns move := by
  unfold Executor.Returns Executor.returns
  cases move with
  | panic =>
      obtain ⟨closing, _⟩ := (phase_of_panic moved).resolve_left calm
      have ends : executor.rootEnds .panic = true :=
        Executor.rootEnds_of_closing closing
      simp [closing, ends]
  | dispatch =>
      cases Executor.moved_of_step moved with
      | notAdmitted phase taken missing change => exact absurd rfl calm
      | notBegun phase taken found fails change => exact absurd rfl calm
      | began phase taken found begins change =>
          simp [Executor.rootEnds, phase, taken, found]
  | _ => rfl

theorem returning_reach {start : World Output}
    (reach : machine.Reach Returns start world) :
    Executor.machine.Reach Executor.Returns start.executor world.executor := by
  apply executor_reach reach
  intro world label move next returns step _ moved
  exact returns_of_moved moved (returns.phase step)

def firing : List (Frame Output) → List Waker
  | [] => []
  | .fire waker :: rest => waker :: firing rest
  | .running _ :: rest | .call _ :: rest | .wake _ _ :: rest
  | .publish _ _ :: rest | .release _ :: rest | .grant _ :: rest => firing rest

def firedWakers : List (ProgramEvent Output) → List Waker
  | [] => []
  | .fired waker :: earlier => firedWakers earlier ++ [waker]
  | .polled _ :: earlier | .returned _ _ :: earlier | .panicked _ :: earlier
  | .published _ _ _ :: earlier | .woke _ _ :: earlier | .awaited _ _ :: earlier
  | .yielded _ _ :: earlier => firedWakers earlier

/-- Nothing that has expired is forgotten. -/
def Fires (world : World Output) : Prop :=
  world.time.fired.map Prod.snd = firedWakers world.log ++ firing world.stack

theorem firing_fire (wakers : List Waker) :
    firing (wakers.map (Frame.fire : Waker → Frame Output)) = wakers := by
  induction wakers with
  | nil => rfl
  | cons waker rest ih => simp [firing, ih]

theorem firing_dropTask (task : LocalTask) : firing (world.dropTask task) = [] := by
  unfold dropTask
  split
  · split <;> rfl
  · rfl

theorem firing_unwound (executor : Executor) :
    firing (unwound executor : List (Frame Output)) = [] := by
  unfold unwound
  split <;> rfl

theorem fired_of_sleepCall {call : SleepCall Waker} {time : Timers Waker}
    {reply : SleepReply Waker} (asked : world.sleepCall call = true)
    (called : world.time.call call = some (time, reply)) :
    time.fired = world.time.fired := by
  cases call with
  | new deadline =>
      cases called
      rfl
  | reset sleep deadline | drop sleep =>
      simp only [Timers.call] at called
      split at called
      · cases called
      · cases called
        rfl
  | poll sleep waker now =>
      simp only [Timers.call] at called
      split at called
      · cases called
      · split at called
        · cases called
          rfl
        · cases called
  | processExpired now => cases asked
  | nextDeadline => cases asked

theorem fired_of_nextDeadline {timers after : Timers Waker}
    {reply : SleepReply Waker}
    (called : timers.call .nextDeadline = some (after, reply)) :
    after.fired = timers.fired := by
  cases called
  rfl

theorem fired_of_processExpired {timers after : Timers Waker} {now : Instant}
    {reply : SleepReply Waker}
    (called : timers.call (.processExpired now) = some (after, reply)) :
    after.fired = timers.fired ++ (timers.driver.expired now).map
        (fun removed => (removed.1, removed.2.waker)) ∧
      reply = .woken ((timers.driver.expired now).map fun removed =>
        removed.2.waker) := by
  simp only [Timers.call] at called
  split at called
  · cases called
    exact ⟨rfl, rfl⟩
  · cases called

theorem Wakes.firing {rest : List (Frame Output)} {waker : Waker}
    {event : ProgramEvent Output} (wakes : Wakes world.stack waker rest event) :
    firedWakers (event :: world.log) ++ World.firing rest =
      firedWakers world.log ++ World.firing world.stack := by
  generalize world.stack = stack at wakes ⊢
  cases wakes with
  | fire => simp [firedWakers, World.firing]
  | wake => simp [firedWakers, World.firing]

/-- What `process_expired` has removed it wakes before the loop goes on. -/
def Expiring (world : World Output) : Prop :=
  ∀ waker, .fire waker ∈ world.stack → ∃ root, world.executor.phase = .expiring root

theorem expiring_stays {executor after : Executor} {move : Move} {root : Nat}
    (moved : Executor.Moved executor move after)
    (phase : executor.phase = .expiring root) :
    after.phase = .expiring root ∨ move = .settle ∨ after.phase = .unwinding := by
  cases moved with
  | settle before free => exact Or.inr (Or.inl rfl)
  | wakerPanicked before free => exact Or.inr (Or.inr rfl)
  | remoteWake change | remoteSend change | wake runs change | send change
  | refused runs closed | submitted runs unclosed change
  | cleared before free pending | destroyed before free member => exact Or.inl phase
  | blockOn before _ | drain before _ | foundEmpty before _ _ | tryReceived before _
  | received before _ | retry before | notAdmitted before _ _ _
  | notBegun before _ _ _ _ | began before _ _ _ _ | notFinished before _ _
  | suspended before _ _ | rootReady before _ _ | taskReady before _ _ _
  | pollPanicked before _ | waitPanicked before _ | leavingPanicked before _
  | clearingPanicked before _ _ | tearingPanicked before _ _
  | droppedPanicked before _ | unwound before _ | left before _ | closed before _
  | torn before _ _ | released before _ _ | leaked before _ =>
      cases phase.symm.trans before

theorem Stepped.expiring (stepped : Stepped world label next)
    (calm : next.executor.phase ≠ .unwinding) (expiring : world.Expiring) :
    next.Expiring := by
  intro waker member
  rcases stepped.pushed member with old | pushed
  · obtain ⟨root, phase⟩ := expiring waker old
    rcases stepped.takes with same | ⟨move, takes, moved⟩
    · exact ⟨root, same ▸ phase⟩
    · rcases expiring_stays (Executor.moved_of_step moved) phase with
        after | rfl | unwinding
      · exact ⟨root, after⟩
      · cases takes with
        | permitted permitted =>
            rw [List.isEmpty_iff.mp permitted] at old
            cases old
      · exact absurd unwinding calm
  · cases pushed with
    | fired step called member =>
        generalize next.executor = executor at step ⊢
        cases Executor.moved_of_step step with
        | drain phase free => exact ⟨_, rfl⟩

theorem firing_nil {stack : List (Frame Output)}
    (unfired : ∀ waker, .fire waker ∉ stack) : firing stack = [] := by
  induction stack with
  | nil => rfl
  | cons frame rest ih =>
      have below := ih fun waker member => unfired waker (List.mem_cons_of_mem _ member)
      cases frame with
      | fire waker => exact absurd List.mem_cons_self (unfired waker)
      | _ => exact below

theorem firing_cleanup (rest : List (Frame Output)) : firing (cleanup rest) = [] := by
  apply firing_nil
  intro waker member
  rcases mem_cleanup member with ⟨_, isCall, _⟩ | ⟨_, _, isPublish, _⟩ | ⟨_, isRelease⟩
  · cases isCall
  · cases isPublish
  · cases isRelease

theorem Fires.fails {rest : List (Frame Output)} {log : List (ProgramEvent Output)}
    (fires : world.Fires) (fails : Fails world label rest log)
    (unfired : ∀ waker, .fire waker ∉ world.stack) :
    world.time.fired.map Prod.snd = firedWakers log := by
  unfold Fires at fires
  rw [firing_nil unfired, List.append_nil] at fires
  cases fails with
  | code stack outermost => exact fires
  | published stack found twice => exact fires
  | poisoned wakes poisoned =>
      have grown := wakes.firing
      obtain ⟨frame, stack⟩ := wakes.ne_nil
      rw [firing_nil unfired, firing_nil, List.append_nil, List.append_nil] at grown
      · exact fires.trans grown.symm
      · intro waker member
        exact unfired waker (stack ▸ List.mem_cons_of_mem _ member)

theorem Stepped.fires (stepped : Stepped world label next)
    (placed : world.Placed) (calm : next.executor.phase ≠ .unwinding)
    (expiring : world.Expiring) (fires : world.Fires) : next.Fires := by
  have kept := @Fires.fails Output world label
  unfold Fires at *
  cases stepped with
  | moved permitted step => exact fires
  | timed origin later => exact fires
  | timer runs asked called =>
      change _ = firedWakers world.log ++ firing world.stack
      rw [fired_of_sleepCall asked called]
      exact fires
  | refused runs closed => exact fires
  | spawned runs unclosed step => exact fires
  | rejected => exact fires
  | awaited runs found handle known pending => exact fires
  | yielded runs found handle ready => exact fires
  | dropped runs found handle => exact fires
  | suspended free stack step =>
      rw [stack] at fires
      change _ = firedWakers world.log ++ firing (World.unwound _)
      rw [firing_unwound]
      exact fires
  | returned free stack =>
      rw [stack] at fires
      exact fires
  | rootYielded free stack step =>
      rw [stack] at fires
      dsimp only
      split <;> exact fires
  | codeReturned free stack notRoot notInner =>
      rw [stack] at fires
      exact fires
  | caught free stack =>
      rw [stack] at fires
      exact fires
  | unwound free fails unwinds step =>
      obtain ⟨closing, _⟩ := (phase_of_panic step).resolve_left calm
      have unfired : ∀ waker, .fire waker ∉ world.stack := by
        intro waker member
        obtain ⟨root, phase⟩ := expiring waker member
        rw [phase] at closing
        cases closing
      have logged := kept fires fails unfired
      cases unwinds with
      | loop phase =>
          rw [opened_of_loop phase] at closing
          cases closing
      | leaving phase | closing phase =>
          rw [firing_cleanup, List.append_nil]
          exact logged
  | called free stack =>
      rw [stack] at fires
      exact fires
  | wokeCode free wakes => exact fires.trans wakes.firing.symm
  | wokeTask free wakes unpoisoned step => exact fires.trans wakes.firing.symm
  | @published join result rest cell waker free stack found pending =>
      rw [stack] at fires
      cases waker with
      | none => exact fires
      | some waker => exact fires
  | released free stack found front =>
      rw [stack] at fires
      rcases front with rfl | ⟨rfl, _⟩
      · exact fires
      · exact fires
  | granted free stack found =>
      rw [stack] at fires
      exact fires
  | @drained executor time wakers step called =>
      have empty := placed.empty step rfl
      rw [empty] at fires
      change time.fired.map Prod.snd =
        firedWakers world.log ++ firing (wakers.map Frame.fire)
      obtain ⟨grown, replied⟩ := fired_of_processExpired called
      cases replied
      rw [grown, firing_fire, List.map_append, fires]
      simp [firing]
  | planned phase wait found running =>
      change _ = firedWakers world.log ++ firing world.stack
      rw [fired_of_nextDeadline found]
      exact fires
  | jumped phase wait found paused advanced step =>
      change _ = firedWakers world.log ++ firing world.stack
      rw [fired_of_nextDeadline found]
      exact fires
  | stuck phase wait found paused failed step =>
      exact absurd (unwinding_of_panic step (by rw [phase]; rfl)) calm
  | received held step => exact fires
  | timedOut held step => exact fires
  | began step phase =>
      rw [placed.empty step rfl] at fires
      exact fires
  | notBegun step other =>
      cases Executor.moved_of_step step with
      | notAdmitted phase taken missing change => exact absurd rfl calm
      | notBegun phase taken found fails change => exact absurd rfl calm
      | began phase taken found begins change => exact absurd rfl (other _ _ _)
  | finished free phase notRoot stack step =>
      rw [stack] at fires
      change _ = firedWakers world.log ++ firing (World.unwound _)
      rw [firing_unwound]
      exact fires
  | cleared stack pending step =>
      rw [stack] at fires
      change _ = firedWakers world.log ++ firing (world.dropTask _)
      rw [firing_dropTask]
      exact fires
  | destroyed stack found step =>
      rw [stack] at fires
      change _ = firedWakers world.log ++ firing (world.dropTask _)
      rw [firing_dropTask]
      exact fires

theorem run_fires (reach : machine.Reach Returns (initial clock os) world) :
    world.Expiring ∧ world.Fires := by
  induction reach with
  | refl =>
      refine ⟨?_, rfl⟩
      intro waker member
      cases member
  | step label before returns step ih =>
      have stepped := stepped_of_step step
      have calm := returns.phase step
      exact ⟨stepped.expiring calm ih.1,
        stepped.fires (run_placed before) calm ih.1 ih.2⟩

theorem Stepped.log_grows (stepped : Stepped world label next) :
    ∃ events, next.log = events ++ world.log := by
  cases stepped with
  | awaited | yielded | returned | caught | wokeCode | wokeTask | published
  | began => exact ⟨_, (List.singleton_append).symm⟩
  | unwound free fails unwinds step =>
      cases fails with
      | code stack outermost => exact ⟨[], rfl⟩
      | poisoned wakes poisoned => exact ⟨_, (List.singleton_append).symm⟩
      | published stack found twice => exact ⟨[], rfl⟩
  | _ => exact ⟨[], rfl⟩

theorem Stepped.fired_grows (stepped : Stepped world label next) :
    ∃ more, next.time.fired = world.time.fired ++ more := by
  have same : ∀ {time : Timers Waker}, time.fired = world.time.fired →
      ∃ more, time.fired = world.time.fired ++ more := by
    intro time equality
    exact ⟨[], by rw [equality, List.append_nil]⟩
  cases stepped with
  | timer runs asked called => exact same (fired_of_sleepCall asked called)
  | drained step called => exact ⟨_, (fired_of_processExpired called).1⟩
  | planned phase wait found running => exact same (fired_of_nextDeadline found)
  | jumped phase wait found paused advanced step =>
      exact same (fired_of_nextDeadline found)
  | stuck phase wait found paused failed step =>
      exact same (fired_of_nextDeadline found)
  | _ => exact same rfl

theorem run_grows {allowed : World Output → Label Output → Prop}
    {before after : World Output} (onward : machine.Reach allowed before after) :
    (∃ events, after.log = events ++ before.log) ∧
      ∃ more, after.time.fired = before.time.fired ++ more := by
  induction onward with
  | refl => exact ⟨⟨[], rfl⟩, [], (List.append_nil _).symm⟩
  | step label _ _ step ih =>
      obtain ⟨⟨events, log⟩, more, fired⟩ := ih
      have stepped := stepped_of_step step
      obtain ⟨newer, grown⟩ := stepped.log_grows
      obtain ⟨later, extended⟩ := stepped.fired_grows
      refine ⟨⟨newer ++ events, ?_⟩, more ++ later, ?_⟩
      · rw [grown, log, List.append_assoc]
      · rw [extended, fired, List.append_assoc]

theorem firedWakers_append (later earlier : List (ProgramEvent Output)) :
    firedWakers (later ++ earlier) =
      firedWakers earlier ++ firedWakers later := by
  induction later with
  | nil => simp [firedWakers]
  | cons event rest ih => cases event <;> simp [firedWakers, ih]

theorem mem_firedWakers {waker : Waker} {log : List (ProgramEvent Output)}
    (member : waker ∈ firedWakers log) : .fired waker ∈ log := by
  induction log with
  | nil => cases member
  | cons event rest ih =>
      cases event with
      | fired other =>
          rcases List.mem_append.mp member with earlier | last
          · exact List.mem_cons_of_mem _ (ih earlier)
          · rw [List.mem_singleton.mp last]
            exact List.mem_cons_self
      | _ => exact List.mem_cons_of_mem _ (ih member)

theorem drain_spec {before drained : World Output}
    (step : machine.step before .drain = some drained) :
    (∃ root, before.executor.phase = .iterating root) ∧
      (∃ root, drained.executor.phase = .expiring root) ∧
      drained.log = before.log ∧
      drained.time.fired = before.time.fired ++
        (before.time.driver.expired before.now).map
          fun removed => (removed.1, removed.2.waker) := by
  change before.drain = some drained at step
  unfold drain at step
  split at step
  · rename_i executor time wakers moved called
    cases step
    cases Executor.moved_of_step moved with
    | drain phase free =>
        exact ⟨⟨_, phase⟩, ⟨_, rfl⟩, rfl, (fired_of_processExpired called).1⟩
  · cases step

/-- What `process_expired` finds expired is woken before an id is returned. -/
theorem expired_woken {before drained after : World Output} {root : Nat}
    (reach : machine.Reach Returns (initial clock os) before)
    (step : machine.step before .drain = some drained)
    (onward : machine.Reach Returns drained after)
    (phase : after.executor.phase = .dispatching root) {id : TimerId}
    {registration : TimerRegistration Waker}
    (live : before.time.driver.registrations.lookup id = some registration)
    (due : registration.deadline ≤ before.now) :
    ∃ events, after.log = events ++ before.log ∧
      .fired registration.waker ∈ events := by
  obtain ⟨⟨top, iterating⟩, ⟨_, expiring⟩, sameLog, fired⟩ := drain_spec step
  have returns : before.Returns .drain := by
    unfold Returns World.returns
    rw [step]
    simp [expiring]
  have later := (reach.trans (Machine.Reach.single _ returns step)).trans onward
  have empty : before.stack = [] := run_placed reach (by rw [iterating]; rfl)
  have settled : after.stack = [] := run_placed later (by rw [phase]; rfl)
  obtain ⟨⟨events, log⟩, more, grown⟩ := run_grows onward
  have earlierFires := (run_fires reach).2
  have laterFires := (run_fires later).2
  unfold Fires at earlierFires laterFires
  rw [sameLog] at log
  rw [empty] at earlierFires
  rw [settled, log, firedWakers_append, grown, fired, List.map_append,
    List.map_append, earlierFires] at laterFires
  simp only [firing, List.append_nil, List.append_assoc,
    List.append_cancel_left_eq] at laterFires
  have expired : (id, registration) ∈ before.time.driver.expired before.now :=
    (TimerState.mem_expired (run_covered reach) _ id registration).mpr ⟨live, due⟩
  refine ⟨events, log, mem_firedWakers ?_⟩
  rw [← laterFires, List.map_map]
  exact List.mem_append_left _
    (List.mem_map_of_mem (f := fun removed => removed.2.waker) expired)

/-- Whoever has asked for a poll gets it in turn, also across calls of `block_on`,
and an expired timer is never left behind by tasks that wake themselves. -/
theorem served_in_order {before after : World Output}
    (reach : machine.Reach Returns (initial clock os) before)
    (onward : machine.Reach Returns before after)
    (few : after.executor.spawned < 2 ^ 64 - 1)
    (alive : after.executor.phase ≠ .dropped) :
    (entered after.executor.scheduling.log =
      polled after.executor.scheduling.log ++
        (after.executor.scheduling.taken.toList ++
          after.executor.scheduling.ready)) ∧
    (∀ schedule entry, .began schedule entry ∈ after.executor.scheduling.log →
      entry.sender = schedule) ∧
    (∀ root id schedule events between entry,
      before.executor.phase = .polling root id schedule →
      after.executor.scheduling.log =
        events ++ .began schedule entry ::
          (between ++ before.executor.scheduling.log) →
      before.executor.scheduling.ready <+: polled between) ∧
    (∀ schedule events between entry,
      before.executor.phase = .outside →
      (after.executor.scheduling.schedules schedule).id = rootTaskId →
      after.executor.scheduling.log =
        events ++ .began schedule entry ::
          (between ++ before.executor.scheduling.log) →
      before.executor.scheduling.ready <+: polled between) ∧
    (∀ drained root id registration,
      machine.step before .drain = some drained →
      machine.Reach Returns drained after →
      after.executor.phase = .dispatching root →
      before.time.driver.registrations.lookup id = some registration →
      registration.deadline ≤ before.now →
      ∃ events, after.log = events ++ before.log ∧
        .fired registration.waker ∈ events) := by
  have first := returning_reach reach
  have second := returning_reach onward
  obtain ⟨_, _, inOrder⟩ := Executor.run_inOrder (first.trans second) few
  refine ⟨(inOrder alive).order, (inOrder alive).answered, ?_, ?_, ?_⟩
  · intro root id schedule events between entry phase grown
    exact Executor.not_overtaken first second few alive grown phase
  · intro schedule events between entry phase isRoot grown
    exact Executor.served_before_root first second few alive grown phase isRoot
  · intro drained root id registration step later phase live due
    exact expired_woken reach step later phase live due

/-- A root that wakes itself, next to a task and to a sleep. -/
def wakefulLabels : List (Label Nat) :=
  [.executor .blockOn, .executor .send, .drain, .executor .settle,
    .executor .tryRecv, .dispatch, .spawn, .executor .send, .timer (.new 5),
    .timer (.poll 0 (.task 1) 0), .executor (.wake 0)]

def wakeful : World Nat :=
  (machine.run Returns (initial (Clock.new 0) 0) wakefulLabels).getD
    (initial (Clock.new 0) 0)

def wakefulLaterLabels : List (Label Nat) :=
  [.rootYield .pending, .executor .send, .tick 7, .drain, .proceed,
    .executor .settle, .executor .tryRecv, .dispatch, .yield .pending, .drain,
    .executor .settle, .executor .tryRecv, .dispatch]

def wakefulLater : World Nat :=
  (machine.run Returns wakeful wakefulLaterLabels).getD wakeful

theorem served_in_order_wakeful :
    wakeful.executor.scheduling.ready <+:
      polled [.began 1 ⟨⟨1⟩, 1⟩, .woken 1, .sent ⟨rootTaskId, 0⟩] := by
  have ran : machine.run Returns (initial (Clock.new 0) 0) wakefulLabels =
    some wakeful := rfl
  have later : machine.run Returns wakeful wakefulLaterLabels =
    some wakefulLater := rfl
  obtain ⟨_, _, notOvertaken, _⟩ := served_in_order
    (Machine.reach_of_run ran) (Machine.reach_of_run later) (by decide) (by decide)
  exact notOvertaken 0 rootTaskId 0 [] _ ⟨rootTaskId, 0⟩ rfl rfl

end World

end Asyncr
