import Asyncr.Program.Harness
import Asyncr.Program.Waiting

namespace Asyncr

def Waker.scheduled : Waker → Bool
  | .task _ => true
  | .custom _ => false

/-- `process_expired` has been called since the last poll. -/
def Phase.drained : Phase → Bool
  | .expiring _ | .receiving _ | .waiting _ => true
  | .outside | .iterating _ | .dispatching _ | .polling _ _ _ | .leaving _
  | .unwinding | .clearing | .tearing | .leaking | .dropped => false

def Phase.searching : Phase → Bool
  | .iterating _ | .expiring _ | .receiving _ | .waiting _ => true
  | .outside | .dispatching _ | .polling _ _ _ | .leaving _ | .unwinding
  | .clearing | .tearing | .leaking | .dropped => false

theorem Phase.searching_of_drained {phase : Phase}
    (drained : phase.drained = true) : phase.searching = true := by
  cases phase with
  | expiring root | receiving root | waiting root => rfl
  | _ => cases drained

theorem Phase.undrained_of_closing {phase : Phase} (closing : phase.closing = true) :
    phase.drained = false := by
  cases phase with
  | clearing | tearing | leaking | dropped => rfl
  | _ => cases closing

/-- No code but that of polls and destructors. -/
def Frame.quiet {Output : Type} : Frame Output → Bool
  | .fire waker | .wake _ waker => waker.scheduled
  | .running code | .call code =>
      match code with
      | .waker _ => false
      | .root | .inner _ | .dropFuture _ | .dropPayload _ | .dropOutput _
      | .dropRoot => true
  | .publish _ _ | .release _ | .grant _ => true

/-- A poll is given the waker of a schedule. -/
def Label.scheduled {Output : Type} : Label Output → Bool
  | .pollJoin _ waker | .timer (.poll _ waker _) => waker.scheduled
  | _ => true

namespace World

open Library
open Time

variable {Output : Type} {world next : World Output} {label : Label Output}
  {clock : Clock} {os : Instant}

/-! Programs whose wakers are those of schedules. -/

/-- No waker of the program is anywhere, and what `process_expired` has left is not
due while it wakes the rest, nor until the receive. -/
structure Quiet (world : World Output) : Prop where
  frames : ∀ frame ∈ world.stack, frame.quiet = true
  stored : ∀ join cell waker, world.joins join = some cell →
    cell.state = .pending (some waker) → waker.scheduled = true
  registered : ∀ id registration,
    world.time.driver.registrations.lookup id = some registration →
    registration.waker.scheduled = true
  expiring : ∀ root, world.executor.phase = .expiring root →
    world.executor.pendingSpawns = [] ∧
      ∀ frame ∈ world.stack, ∃ waker, frame = .fire waker
  ahead : world.executor.phase.drained = true →
    world.clock.isPaused = true → ∀ id registration,
      world.time.driver.registrations.lookup id = some registration →
      world.now < registration.deadline

theorem quiet_initial : (initial clock os : World Output).Quiet where
  frames := by
    intro frame member
    cases member
  stored := by
    intro join cell waker found
    cases found
  registered := by
    intro id registration found
    cases found
  expiring := by
    intro root phase
    cases phase
  ahead := by
    intro phase
    cases phase

theorem Quiet.fires (quiet : world.Quiet) (placed : world.Placed)
    (searching : world.executor.phase.searching = true) {frame : Frame Output}
    {rest : List (Frame Output)} (stack : world.stack = frame :: rest) :
    ∃ waker, frame = .fire waker ∧ ∃ root, world.executor.phase = .expiring root := by
  cases phase : world.executor.phase with
  | expiring root =>
      obtain ⟨waker, isFire⟩ := (quiet.expiring root phase).2 _
        (stack ▸ List.mem_cons_self)
      exact ⟨waker, isFire, root, rfl⟩
  | iterating root | receiving root | waiting root =>
      rw [placed (by rw [phase]; rfl)] at stack
      cases stack
  | _ =>
      rw [phase] at searching
      cases searching

theorem Quiet.still (quiet : world.Quiet) (placed : world.Placed)
    (searching : world.executor.phase.searching = true) :
    world.codeRuns = false := by
  unfold codeRuns
  rw [Bool.and_eq_false_iff]
  right
  split
  · rename_i stack
    obtain ⟨waker, isFire, _⟩ := quiet.fires placed searching stack
    cases isFire
  · rename_i phase
    rw [phase] at searching
    cases searching
  · rename_i phase
    rw [phase] at searching
    cases searching
  · rfl

theorem Wakes.scheduled {stack rest : List (Frame Output)} {waker : Waker}
    {event : ProgramEvent Output} (wakes : Wakes stack waker rest event)
    (frames : ∀ frame ∈ stack, frame.quiet = true) : waker.scheduled = true := by
  cases wakes with
  | fire => exact frames (.fire waker) List.mem_cons_self
  | wake => exact frames (.wake _ waker) List.mem_cons_self

theorem Quiet.frames_step (quiet : world.Quiet)
    (stepped : Stepped world label next) (covered : world.time.driver.Covered) :
    ∀ frame ∈ next.stack, frame.quiet = true := by
  intro frame member
  rcases stepped.pushed member with old | pushed
  · exact quiet.frames frame old
  · cases pushed with
    | called present => exact quiet.frames (.call _) present
    | invoked wakes => cases wakes.scheduled quiet.frames
    | began step phase => split <;> rfl
    | fired step called isWaker =>
        obtain ⟨id, registration, found, rfl⟩ :=
          (Timers.processExpired_spec covered called).1 _ isWaker
        exact quiet.registered id registration found
    | woken found waits stack executor log =>
        exact quiet.stored _ _ _ found waits
    | destructor code =>
        rcases code with ⟨join, rfl | rfl | rfl⟩ <;> rfl
    | completed | granted _ | returned _ _ | caught _ _ | unwound _ | refused _ _
    | discarded _ _ _ | rootDropped _ => rfl

theorem Quiet.stored_step (quiet : world.Quiet)
    (scheduled : label.scheduled = true) (stepped : Stepped world label next)
    {join : JoinRef} {cell : JoinCell Output} {waker : Waker}
    (found : next.joins join = some cell)
    (waits : cell.state = .pending (some waker)) : waker.scheduled = true := by
  rcases stepped.stored_back found waits with ⟨old, before, waited⟩ | ⟨rfl, _⟩
  · exact quiet.stored join old waker before waited
  · exact scheduled

theorem Quiet.registered_step (quiet : world.Quiet)
    (scheduled : label.scheduled = true) (stepped : Stepped world label next)
    {id : TimerId} {registration : TimerRegistration Waker}
    (found : next.time.driver.registrations.lookup id = some registration) :
    registration.waker.scheduled = true := by
  have called : ∀ {call : SleepCall Waker} {time : Timers Waker}
      {reply : SleepReply Waker}, world.time.call call = some (time, reply) →
      time.driver.registrations.lookup id = some registration →
      (∀ sleep now, call = .poll sleep registration.waker now →
        registration.waker.scheduled = true) →
      registration.waker.scheduled = true := by
    intro call time reply called found polled
    rcases Timers.waker_of_call called found with
      ⟨before, old, same⟩ | ⟨sleep, now, isPoll⟩
    · exact same ▸ quiet.registered id before old
    · exact polled sleep now isPoll
  cases stepped with
  | timer runs asked step =>
      apply called step found
      rintro sleep now rfl
      exact scheduled
  | drained step expired => exact called expired found nofun
  | planned phase wait next running => exact called next found nofun
  | jumped phase wait next paused advanced step => exact called next found nofun
  | stuck phase wait next paused failed step => exact called next found nofun
  | _ => exact quiet.registered id registration found

theorem undrained_of_panic {executor after : Executor}
    (moved : executor.step .panic = some after) : after.phase.drained = false := by
  rcases phase_of_panic moved with unwinding | ⟨_, closing⟩
  · rw [unwinding]
    rfl
  · exact Phase.undrained_of_closing closing

theorem expiring_of_moved {executor after : Executor} {move : Move} {root : Nat}
    (moved : Executor.Moved executor move after)
    (phase : after.phase = .expiring root) :
    move = .drain ∧ after.pendingSpawns = [] ∨
      executor.phase = .expiring root ∧
        (move = .spawn ∨ after.pendingSpawns = executor.pendingSpawns) := by
  cases moved with
  | drain before free => exact Or.inl ⟨rfl, rfl⟩
  | submitted runs unclosed change => exact Or.inr ⟨phase, Or.inl rfl⟩
  | remoteWake change | remoteSend change | wake runs change | send change
  | refused runs closed => exact Or.inr ⟨phase, Or.inr rfl⟩
  | cleared before free pending => cases before.symm.trans phase
  | destroyed before free member => cases before.symm.trans phase
  | _ => cases phase

theorem Quiet.expiring_step (quiet : world.Quiet) (placed : world.Placed)
    (stepped : Stepped world label next) {root : Nat}
    (phase : next.executor.phase = .expiring root) :
    next.executor.pendingSpawns = [] ∧
      ∀ frame ∈ next.stack, ∃ waker, frame = .fire waker := by
  have only : world.executor.phase = .expiring root →
      ∀ {frame : Frame Output} {rest : List (Frame Output)},
        world.stack = frame :: rest → ∃ waker, frame = .fire waker := by
    intro before frame rest stack
    exact (quiet.expiring root before).2 frame (stack ▸ List.mem_cons_self)
  have still : world.executor.phase = .expiring root → world.codeRuns = false :=
    fun before => quiet.still placed (by rw [before]; rfl)
  cases stepped with
  | moved permitted step =>
      rcases expiring_of_moved (Executor.moved_of_step step) phase with
        ⟨rfl, _⟩ | ⟨before, rfl | same⟩
      · cases permitted
      · cases permitted
      · exact ⟨same.trans (quiet.expiring root before).1,
          (quiet.expiring root before).2⟩
  | spawned runs unclosed step =>
      rcases expiring_of_moved (Executor.moved_of_step step) phase with
        ⟨other, _⟩ | ⟨before, _⟩
      · cases other
      · rw [still before] at runs
        cases runs
  | wokeTask free wakes unpoisoned step =>
      rcases expiring_of_moved (Executor.moved_of_step step) phase with
        ⟨other, _⟩ | ⟨before, other | same⟩
      · cases other
      · cases other
      · obtain ⟨head, stack⟩ := wakes.ne_nil
        refine ⟨same.trans (quiet.expiring root before).1, ?_⟩
        intro frame member
        exact (quiet.expiring root before).2 frame
          (stack ▸ List.mem_cons_of_mem _ member)
  | drained step called =>
      rcases expiring_of_moved (Executor.moved_of_step step) phase with
        ⟨_, empty⟩ | ⟨before, other | same⟩
      · refine ⟨empty, ?_⟩
        intro frame member
        obtain ⟨waker, _, rfl⟩ := List.mem_map.mp member
        exact ⟨waker, rfl⟩
      · cases other
      · cases Executor.moved_of_step step with
        | drain iterating free => cases before.symm.trans iterating
  | refused runs closed =>
      rw [still phase] at runs
      cases runs
  | awaited runs found handle known pending =>
      rw [still phase] at runs
      cases runs
  | yielded runs found handle ready =>
      rw [still phase] at runs
      cases runs
  | dropped runs found handle =>
      rw [still phase] at runs
      cases runs
  | wokeCode free wakes => cases wakes.scheduled quiet.frames
  | returned _ stack | codeReturned _ stack _ _ | caught _ stack
  | called _ stack | published _ stack _ _ | released _ stack _ _
  | granted _ stack _ =>
      obtain ⟨waker, other⟩ := only phase stack
      cases other
  | suspended _ stack step | rootYielded _ stack step =>
      rcases expiring_of_moved (Executor.moved_of_step step) phase with
        ⟨other, _⟩ | ⟨before, _⟩
      · cases other
      · obtain ⟨waker, other⟩ := only before stack
        cases other
  | finished _ polling _ _ step =>
      rcases expiring_of_moved (Executor.moved_of_step step) phase with
        ⟨other, _⟩ | ⟨before, _⟩
      · cases other
      · cases before.symm.trans polling
  | unwound _ _ _ step | stuck _ _ _ _ _ step =>
      have undrained := undrained_of_panic step
      rw [phase] at undrained
      cases undrained
  | jumped waits wait found paused advanced step =>
      rcases expiring_of_moved (Executor.moved_of_step step) phase with
        ⟨other, _⟩ | ⟨before, _⟩
      · cases other
      · cases before.symm.trans waits
  | received held step =>
      cases Executor.moved_of_step step with
      | received waits change => cases phase
  | timedOut held step =>
      cases Executor.moved_of_step step with
      | retry waits => cases phase
  | began step polling => cases polling.symm.trans phase
  | notBegun step other =>
      cases Executor.moved_of_step step <;> cases phase
  | cleared stack pending step =>
      cases Executor.moved_of_step step with
      | cleared before free waiting => cases before.symm.trans phase
  | destroyed stack found step =>
      cases Executor.moved_of_step step with
      | destroyed before free member => cases before.symm.trans phase
  | timed _ _ | timer _ _ _ | rejected | planned _ _ _ _ =>
      exact quiet.expiring root phase

theorem drained_of_moved {executor after : Executor} {move : Move}
    (moved : Executor.Moved executor move after)
    (drained : after.phase.drained = true) :
    move = .drain ∨ executor.phase.drained = true := by
  cases moved with
  | drain before free => exact Or.inl rfl
  | remoteWake change | remoteSend change | wake runs change | send change
  | refused runs closed | submitted runs unclosed change
  | cleared before free pending | destroyed before free member => exact Or.inr drained
  | settle before free =>
      right
      rw [before]
      rfl
  | foundEmpty before free empty =>
      right
      rw [before]
      rfl
  | _ => cases drained

theorem Quiet.ahead_step (quiet : world.Quiet) (placed : world.Placed)
    (stepped : Stepped world label next) (covered : world.time.driver.Covered)
    (drained : next.executor.phase.drained = true)
    (paused : next.clock.isPaused = true) {id : TimerId}
    {registration : TimerRegistration Waker}
    (found : next.time.driver.registrations.lookup id = some registration) :
    next.now < registration.deadline := by
  have moved : ∀ {move : Move}, world.executor.step move = some next.executor →
      move ≠ .drain → world.executor.phase.drained = true := fun step other =>
    (drained_of_moved (Executor.moved_of_step step) drained).resolve_left other
  cases stepped with
  | moved permitted step =>
      apply quiet.ahead (moved step _) paused id registration found
      rintro rfl
      cases permitted
  | spawned _ _ step | suspended _ _ step | rootYielded _ _ step
  | unwound _ _ _ step | wokeTask _ _ _ step | received _ step | timedOut _ step
  | began step _ | notBegun step _ | finished _ _ _ _ step | cleared _ _ step
  | destroyed _ _ step =>
      exact quiet.ahead (moved step nofun) paused id registration found
  | timed origin later =>
      rcases origin with ⟨_, _, rfl⟩ | ⟨runs, _⟩
      · have before := quiet.ahead drained paused id registration found
        exact (Clock.now_paused paused).trans_lt before
      · rw [quiet.still placed (Phase.searching_of_drained drained)] at runs
        cases runs
  | timer runs asked called =>
      rw [quiet.still placed (Phase.searching_of_drained drained)] at runs
      cases runs
  | drained step called =>
      exact (Timers.processExpired_spec covered called).2 id registration found
  | planned phase wait called running =>
      cases called
      exact quiet.ahead drained paused id registration found
  | jumped phase wait called stopped advanced step =>
      cases Executor.moved_of_step step with
      | retry waits => cases drained
  | stuck phase wait called stopped failed step =>
      rw [undrained_of_panic step] at drained
      cases drained
  | _ => exact quiet.ahead drained paused id registration found

theorem Quiet.step (quiet : world.Quiet) (scheduled : label.scheduled = true)
    (placed : world.Placed) (covered : world.time.driver.Covered)
    (stepped : Stepped world label next) : next.Quiet :=
  ⟨quiet.frames_step stepped covered,
    fun _ _ _ => quiet.stored_step scheduled stepped,
    fun _ _ => quiet.registered_step scheduled stepped,
    fun _ => quiet.expiring_step placed stepped,
    fun drained paused _ _ => quiet.ahead_step placed stepped covered drained paused⟩

end World

end Asyncr
