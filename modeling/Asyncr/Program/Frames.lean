import Asyncr.Program.Projection

namespace Asyncr

def Phase.idle : Phase → Bool
  | .outside | .iterating _ | .receiving _ | .waiting _ | .dispatching _ => true
  | .expiring _ | .polling _ _ _ | .leaving _ | .unwinding | .clearing | .tearing
  | .leaking | .dropped => false

theorem Phase.idle_of_closing {phase : Phase} (closing : phase.closing = true) :
    phase.idle = false := by
  cases phase with
  | clearing | tearing | leaking | dropped => rfl
  | _ => cases closing

theorem Phase.runsCode_of_busy {phase : Phase} (busy : phase.idle = false) :
    phase.runsCode = true := by
  cases phase with
  | outside | iterating | receiving | waiting | dispatching => cases busy
  | _ => rfl

/-- The loop of `block_on` goes on, and nothing of the program runs. -/
def Move.loops : Move → Bool
  | .drain | .recv | .retry | .dispatch => true
  | _ => false

theorem Executor.idle_of_loop {executor after : Executor} {move : Move}
    (step : executor.step move = some after) (loops : move.loops = true) :
    executor.phase.idle = true := by
  cases moved_of_step step with
  | drain phase _ | received phase _ | retry phase | notAdmitted phase _ _ _
  | notBegun phase _ _ _ _ | began phase _ _ _ _ =>
      rw [phase]
      rfl
  | _ => cases loops

namespace World

open Library
open Time

variable {Output : Type} {world next : World Output} {label : Label Output}
  {allowed : World Output → Label Output → Prop} {clock : Clock} {os : Instant}

/-! Between polls the stack is empty. -/

def Placed (world : World Output) : Prop :=
  world.executor.phase.idle = true → world.stack = []

theorem placed_initial : (initial clock os : World Output).Placed :=
  fun _ => rfl

theorem idle_of_moved {executor after : Executor} {move : Move}
    (moved : Executor.Moved executor move after) (idle : after.phase.idle = true)
    (busy : executor.phase.idle = false) :
    move = .settle ∨ move = .leave ∨ move = .unwound ∨
      ∃ result, move = .endPoll result := by
  cases moved with
  | settle phase free => exact Or.inl rfl
  | left phase free => exact Or.inr (Or.inl rfl)
  | unwound phase free => exact Or.inr (Or.inr (Or.inl rfl))
  | notFinished phase fails change | suspended phase finishes change
  | rootReady phase finishes change | taskReady phase notRoot finishes change =>
      exact Or.inr (Or.inr (Or.inr ⟨_, rfl⟩))
  | remoteWake change | remoteSend change | wake runs change | send change
  | refused runs closed | submitted runs unclosed change
  | cleared before free pending | destroyed before free member =>
      exact absurd (busy.symm.trans idle) (by simp)
  | blockOn before change | foundEmpty before free empty | tryReceived before change
  | received before change | retry before =>
      rw [before] at busy
      cases busy
  | _ => cases idle

theorem phase_of_panic {executor after : Executor}
    (moved : executor.step .panic = some after) :
    after.phase = .unwinding ∨
      executor.phase.closing = true ∧ after.phase.closing = true := by
  cases Executor.moved_of_step moved with
  | clearingPanicked phase _ _ | tearingPanicked phase _ _ | droppedPanicked phase _ =>
      exact Or.inr ⟨by rw [phase]; rfl, rfl⟩
  | _ => exact Or.inl rfl

theorem unwinding_of_panic {executor after : Executor}
    (moved : executor.step .panic = some after)
    (opened : executor.phase.closing = false) : after.phase = .unwinding := by
  refine (phase_of_panic moved).resolve_right ?_
  rw [opened]
  exact fun closing => Bool.false_ne_true closing.1

theorem closing_of_panic {executor after : Executor}
    (moved : executor.step .panic = some after)
    (closing : executor.phase.closing = true) : after.phase.closing = true := by
  cases Executor.moved_of_step moved with
  | clearingPanicked | tearingPanicked | droppedPanicked => rfl
  | pollPanicked phase _ | wakerPanicked phase _ | waitPanicked phase _
  | leavingPanicked phase _ =>
      rw [phase] at closing
      cases closing

theorem busy_of_panic {executor after : Executor}
    (moved : executor.step .panic = some after) : after.phase.idle = false := by
  rcases phase_of_panic moved with unwinding | ⟨_, closing⟩
  · rw [unwinding]
    rfl
  · exact Phase.idle_of_closing closing

theorem phase_of_wake {executor after : Executor} {schedule : Nat}
    (moved : executor.step (.wake schedule) = some after) :
    after.phase = executor.phase := by
  cases Executor.moved_of_step moved
  rfl

theorem Placed.busy (placed : world.Placed) {frame : Frame Output}
    {rest : List (Frame Output)} (stack : world.stack = frame :: rest) :
    world.executor.phase.idle = false := by
  cases idle : world.executor.phase.idle with
  | false => rfl
  | true =>
      rw [placed idle] at stack
      cases stack

theorem Placed.empty (placed : world.Placed) {move : Move} {executor : Executor}
    (step : world.executor.step move = some executor) (loops : move.loops = true) :
    world.stack = [] :=
  placed (Executor.idle_of_loop step loops)

theorem Wakes.ne_nil {stack rest : List (Frame Output)} {waker : Waker}
    {event : ProgramEvent Output} (wakes : Wakes stack waker rest event) :
    ∃ frame, stack = frame :: rest := by
  cases wakes with
  | fire => exact ⟨_, rfl⟩
  | wake => exact ⟨_, rfl⟩

theorem unwound_of_idle {executor : Executor} (idle : executor.phase.idle = true) :
    (unwound executor : List (Frame Output)) = [] := by
  apply if_neg
  intro unwinding
  rw [unwinding] at idle
  cases idle

theorem Stepped.placed (stepped : Stepped world label next)
    (closing : world.executor.Closing) (placed : world.Placed) : next.Placed := by
  intro idle
  have busy : ∀ {frame : Frame Output} {rest : List (Frame Output)},
      world.stack = frame :: rest → ¬ world.executor.phase.idle = true := by
    intro frame rest stack now
    rw [placed.busy stack] at now
    cases now
  cases stepped with
  | @moved move executor permitted step =>
      cases before : world.executor.phase.idle with
      | true => exact placed before
      | false =>
          rcases idle_of_moved (Executor.moved_of_step step) idle before with
            rfl | rfl | rfl | ⟨result, rfl⟩
          · exact List.isEmpty_iff.mp permitted
          · exact List.isEmpty_iff.mp permitted
          · exact List.isEmpty_iff.mp permitted
          · cases permitted
  | refused runs closed =>
      have shut := Phase.idle_of_closing (closing.symm.trans closed)
      exact absurd (shut.symm.trans idle) (by simp)
  | spawned runs unclosed step =>
      apply placed
      cases Executor.moved_of_step step <;> exact idle
  | suspended free stack step => exact unwound_of_idle idle
  | @rootYielded result executor free stack step =>
      change executor.phase.idle = true at idle
      dsimp only
      split
      · rename_i phase
        rw [phase] at idle
        cases idle
      · rename_i phase
        rw [phase] at idle
        cases idle
      · rfl
  | unwound free fails unwinds step =>
      rw [busy_of_panic step] at idle
      cases idle
  | returned free stack => exact absurd idle (busy stack)
  | codeReturned free stack notRoot notInner => exact absurd idle (busy stack)
  | caught free stack => exact absurd idle (busy stack)
  | called free stack => exact absurd idle (busy stack)
  | wokeCode free wakes =>
      obtain ⟨frame, stack⟩ := wakes.ne_nil
      exact absurd idle (busy stack)
  | wokeTask free wakes unpoisoned step =>
      obtain ⟨frame, stack⟩ := wakes.ne_nil
      rw [phase_of_wake step] at idle
      exact absurd idle (busy stack)
  | published free stack found pending => exact absurd idle (busy stack)
  | released free stack found front => exact absurd idle (busy stack)
  | granted free stack found => exact absurd idle (busy stack)
  | drained step called =>
      cases Executor.moved_of_step step with
      | drain phase free => cases idle
  | jumped phase wait found paused advanced step =>
      exact placed (by rw [phase]; rfl)
  | stuck phase wait found paused failed step =>
      rw [busy_of_panic step] at idle
      cases idle
  | received held step => exact placed.empty step rfl
  | timedOut held step => exact placed.empty step rfl
  | began step phase =>
      rw [phase] at idle
      cases idle
  | notBegun step other =>
      cases Executor.moved_of_step step with
      | notAdmitted phase taken missing change => cases idle
      | notBegun phase taken found fails change => cases idle
      | began phase taken found begins change => exact absurd rfl (other _ _ _)
  | finished free phase notRoot stack step => exact unwound_of_idle idle
  | cleared stack pending step =>
      cases Executor.moved_of_step step with
      | cleared phase free waiting =>
          change world.executor.phase.idle = true at idle
          rw [phase] at idle
          cases idle
  | destroyed stack found step =>
      cases Executor.moved_of_step step with
      | destroyed phase free member =>
          change world.executor.phase.idle = true at idle
          rw [phase] at idle
          cases idle
  | timed origin later => exact placed idle
  | timer runs asked called => exact placed idle
  | rejected => exact placed idle
  | awaited runs found handle known pending => exact placed idle
  | yielded runs found handle ready => exact placed idle
  | dropped runs found handle => exact placed idle
  | planned phase wait found running => exact placed idle

theorem run_placed (reach : machine.Reach allowed (initial clock os) world) :
    world.Placed := by
  induction reach with
  | refl => exact placed_initial
  | step label before _ step ih =>
      exact (stepped_of_step step).placed (run_steady before).closing ih

/-! Which code of the program may be on the stack. -/

/-- The runtime polls the root and the spawned futures, and calls no other code
while it does. -/
structure Shaped (world : World Output) : Prop where
  calls : ∀ code, .call code ∈ world.stack →
    code ≠ .root ∧ ∀ join, code ≠ .inner join
  inner : ∀ join, .running (.inner join) ∈ world.stack →
    world.stack = [.running (.inner join)] ∧
      ∃ root id target, join = .task target ∧ id ≠ rootTaskId ∧
        world.executor.phase = .polling root id target
  root : .running .root ∈ world.stack →
    world.stack = [.running .root] ∧
      ∃ root target, world.executor.phase = .polling root rootTaskId target

theorem shaped_initial : (initial clock os : World Output).Shaped where
  calls := by
    intro code member
    cases member
  inner := by
    intro join member
    cases member
  root := by
    intro member
    cases member

theorem Shaped.of_calls
    (calls : ∀ code, .call code ∈ world.stack →
      code ≠ .root ∧ ∀ join, code ≠ .inner join)
    (ran : ∀ code, .running code ∈ world.stack →
      code ≠ .root ∧ ∀ join, code ≠ .inner join) : world.Shaped where
  calls := calls
  inner := fun join member => absurd rfl ((ran _ member).2 join)
  root := fun member => absurd rfl (ran _ member).1

theorem Shaped.below (shaped : world.Shaped) {frame : Frame Output}
    {rest : List (Frame Output)} (stack : world.stack = frame :: rest) (code : Code)
    (member : .running code ∈ rest) : code ≠ .root ∧ ∀ join, code ≠ .inner join := by
  have present : .running code ∈ world.stack := by
    rw [stack]
    exact List.mem_cons_of_mem _ member
  refine ⟨?_, ?_⟩
  · rintro rfl
    have alone := (shaped.root present).1
    rw [stack] at alone
    obtain ⟨_, rfl⟩ := List.cons.inj alone
    cases member
  · rintro join rfl
    have alone := (shaped.inner join present).1
    rw [stack] at alone
    obtain ⟨_, rfl⟩ := List.cons.inj alone
    cases member

theorem mem_cleanup {frame : Frame Output} {rest : List (Frame Output)}
    (member : frame ∈ cleanup rest) :
    (∃ code, frame = .call code ∧ .call code ∈ rest) ∨
      (∃ join result, frame = .publish join (.error .cancelled) ∧
        .publish join result ∈ rest) ∨
      ∃ join, frame = .release join := by
  induction rest with
  | nil => cases member
  | cons head rest ih =>
      have later : frame ∈ cleanup rest →
          (∃ code, frame = .call code ∧ .call code ∈ head :: rest) ∨
            (∃ join result, frame = .publish join (.error .cancelled) ∧
              .publish join result ∈ head :: rest) ∨
            ∃ join, frame = .release join := by
        intro inRest
        rcases ih inRest with ⟨code, isCall, origin⟩ | ⟨join, result, same, origin⟩ |
          isRelease
        · exact Or.inl ⟨code, isCall, List.mem_cons_of_mem _ origin⟩
        · exact Or.inr (Or.inl ⟨join, result, same, List.mem_cons_of_mem _ origin⟩)
        · exact Or.inr (Or.inr isRelease)
      cases head with
      | running code => exact later member
      | fire waker => exact later member
      | wake join waker => exact later member
      | grant join => exact later member
      | call code =>
          cases code with
          | dropPayload join => exact later member
          | _ =>
              rcases List.mem_cons.mp member with rfl | inRest
              · exact Or.inl ⟨_, rfl, List.mem_cons_self⟩
              · exact later inRest
      | release join =>
          rcases List.mem_cons.mp member with rfl | inRest
          · exact Or.inr (Or.inr ⟨join, rfl⟩)
          · exact later inRest
      | publish join result =>
          rcases List.mem_cons.mp member with rfl | inRest
          · exact Or.inr (Or.inl ⟨join, result, rfl, List.mem_cons_self⟩)
          · exact later inRest

theorem phase_of_permitted {move : Move} {executor : Executor}
    (permitted : world.permits move = true)
    (moved : world.executor.step move = some executor) (busy : world.stack ≠ []) :
    executor.phase = world.executor.phase := by
  have full : world.stack.isEmpty = false := by
    cases empty : world.stack.isEmpty with
    | false => rfl
    | true => exact absurd (List.isEmpty_iff.mp empty) busy
  cases move with
  | remoteWake schedule | remoteSend schedule | wake schedule | send =>
      cases Executor.moved_of_step moved
      rfl
  | blockOn | settle | tryRecv | unwound | leave | close | tear | release =>
      rw [permits, full] at permitted
      cases permitted
  | _ => cases permitted

theorem Shaped.stays (shaped : world.Shaped) (stack : next.stack = world.stack)
    (phase : world.stack ≠ [] →
      next.executor.phase = world.executor.phase) : next.Shaped where
  calls := by
    rw [stack]
    exact shaped.calls
  inner := by
    rw [stack]
    intro join member
    rw [phase (List.ne_nil_of_mem member)]
    exact shaped.inner join member
  root := by
    rw [stack]
    intro member
    rw [phase (List.ne_nil_of_mem member)]
    exact shaped.root member

theorem Shaped.replaces (shaped : world.Shaped) {frame : Frame Output}
    {rest front : List (Frame Output)} (stack : world.stack = frame :: rest)
    (later : next.stack = front ++ rest)
    (calls : ∀ code, .call code ∈ front →
      code ≠ .root ∧ ∀ join, code ≠ .inner join)
    (ran : ∀ code, .running code ∈ front →
      code ≠ .root ∧ ∀ join, code ≠ .inner join) : next.Shaped := by
  apply Shaped.of_calls
  · intro code member
    rw [later] at member
    rcases List.mem_append.mp member with new | old
    · exact calls code new
    · exact shaped.calls code (stack ▸ List.mem_cons_of_mem _ old)
  · intro code member
    rw [later] at member
    rcases List.mem_append.mp member with new | old
    · exact ran code new
    · exact shaped.below stack code old

theorem Shaped.unwound (shaped : world.Shaped) {rest left : List (Frame Output)}
    (below : ∀ frame ∈ rest, frame ∈ world.stack ∨ ∃ join, frame = .release join)
    (unwinds : Unwinds world rest left) (stack : next.stack = left) :
    next.Shaped := by
  have cleaned : ∀ frame ∈ cleanup rest,
      (∀ code, frame = .call code → code ≠ .root ∧ ∀ join, code ≠ .inner join) ∧
        ∀ code, frame ≠ .running code := by
    intro frame member
    rcases mem_cleanup member with
      ⟨code, rfl, origin⟩ | ⟨join, _, rfl, _⟩ | ⟨join, rfl⟩
    · refine ⟨?_, by simp⟩
      intro other isCall
      cases isCall
      rcases below _ origin with old | ⟨join, isRelease⟩
      · exact shaped.calls code old
      · cases isRelease
    · exact ⟨by simp, by simp⟩
    · exact ⟨by simp, by simp⟩
  have left_clean : ∀ frame ∈ left,
      (∀ code, frame = .call code → code ≠ .root ∧ ∀ join, code ≠ .inner join) ∧
        ∀ code, frame ≠ .running code := by
    intro frame member
    cases unwinds with
    | loop phase =>
        rcases List.mem_append.mp member with inRest | last
        · exact cleaned frame inRest
        · rw [List.mem_singleton.mp last]
          exact ⟨by simp, by simp⟩
    | leaving phase => exact cleaned frame member
    | closing phase => exact cleaned frame member
  apply Shaped.of_calls
  · intro code member
    exact (left_clean _ (stack ▸ member)).1 code rfl
  · intro code member
    exact absurd rfl ((left_clean _ (stack ▸ member)).2 code)

theorem Fails.below {rest : List (Frame Output)} {log : List (ProgramEvent Output)}
    (fails : Fails world label rest log) :
    ∀ frame ∈ rest, frame ∈ world.stack ∨ ∃ join, frame = .release join := by
  intro frame member
  cases fails with
  | code stack outermost =>
      rw [stack]
      exact Or.inl (List.mem_cons_of_mem _ member)
  | poisoned wakes poisoned =>
      obtain ⟨head, stack⟩ := wakes.ne_nil
      rw [stack]
      exact Or.inl (List.mem_cons_of_mem _ member)
  | published stack found twice =>
      rcases List.mem_cons.mp member with rfl | old
      · exact Or.inr ⟨_, rfl⟩
      · rw [stack]
        exact Or.inl (List.mem_cons_of_mem _ old)

theorem mem_unwound {executor : Executor} {frame : Frame Output}
    (member : frame ∈ (unwound executor : List (Frame Output))) :
    frame = .call .dropRoot := by
  unfold World.unwound at member
  split at member
  · exact List.mem_singleton.mp member
  · cases member

theorem mem_dropTask {task : LocalTask} {frame : Frame Output}
    (member : frame ∈ world.dropTask task) :
    frame = .call (.dropFuture (.task task.schedule)) ∨
      frame = .publish (.task task.schedule) (.error .cancelled) := by
  unfold dropTask at member
  split at member
  · split at member
    · simpa [harness] using member
    · cases member
  · cases member

theorem Shaped.of_dropTask {task : LocalTask} (stack : next.stack = world.dropTask task) :
    next.Shaped := by
  apply Shaped.of_calls
  · intro code member
    rw [stack] at member
    rcases mem_dropTask member with isCall | isPublish
    · cases isCall
      exact ⟨by simp, by simp⟩
    · cases isPublish
  · intro code member
    rw [stack] at member
    rcases mem_dropTask member with isCall | isPublish
    · cases isCall
    · cases isPublish

inductive Pushed (world next : World Output) : Frame Output → Prop
  | called {code : Code} :
      .call code ∈ world.stack → Pushed world next (.running code)
  | invoked {code : Nat} {rest : List (Frame Output)} {event : ProgramEvent Output} :
      Wakes world.stack (.custom code) rest event →
      Pushed world next (.running (.waker code))
  | began {root target : Nat} {id : Id} :
      world.executor.step .dispatch = some next.executor →
      next.executor.phase = .polling root id target →
      Pushed world next
        (.running (if id = rootTaskId then .root else .inner (.task target)))
  | fired {time : Timers Waker} {wakers : List Waker} {waker : Waker} :
      world.executor.step .drain = some next.executor →
      world.time.call (.processExpired world.now) = some (time, .woken wakers) →
      waker ∈ wakers → Pushed world next (.fire waker)
  | woken {join : JoinRef} {waker : Waker} {cell : JoinCell Output}
      {result : Except JoinError Output} {rest : List (Frame Output)} :
      world.joins join = some cell → cell.state = .pending (some waker) →
      world.stack = .publish join result :: rest →
      next.executor = world.executor →
      next.log = .published join result (some waker) :: world.log →
      Pushed world next (.wake join waker)
  | completed {join : JoinRef} : Pushed world next (.release join)
  | granted :
      next.joins (.refused world.refused) ≠ none →
      Pushed world next (.grant (.refused world.refused))
  | returned {join : JoinRef} {value : Output} :
      world.stack = [.running (.inner join)] →
      next.log = .returned join value :: world.log →
      Pushed world next (.publish join (.ok value))
  | caught {join : JoinRef} :
      world.stack = [.running (.inner join)] →
      next.log = .panicked join :: world.log →
      Pushed world next (.publish join (.error .panic))
  | unwound {join : JoinRef} {result : Except JoinError Output} :
      .publish join result ∈ world.stack →
      next.executor.phase = .unwinding ∨
        world.executor.phase.closing = true ∧ next.executor.phase.closing = true →
      Pushed world next (.publish join (.error .cancelled))
  | refused :
      world.executor.closed = true → next.log = world.log →
      Pushed world next (.publish (.refused world.refused) (.error .cancelled))
  | discarded {join : JoinRef} :
      world.executor.phase.closing = true → world.stack = [] →
      next.log = world.log →
      Pushed world next (.publish join (.error .cancelled))
  | destructor {code : Code} :
      (∃ join, code = .dropFuture join ∨ code = .dropPayload join ∨
        code = .dropOutput join) →
      Pushed world next (.call code)
  | rootDropped :
      next.executor.phase = .unwinding ∨ (∃ root, next.executor.phase = .leaving root) →
      Pushed world next (.call .dropRoot)

theorem opened_of_loop {executor : Executor}
    (phase : (∃ root id target, executor.phase = .polling root id target) ∨
      ∃ root, executor.phase = .expiring root) : executor.phase.closing = false := by
  rcases phase with ⟨_, _, _, phase⟩ | ⟨_, phase⟩
  · rw [phase]
    rfl
  · rw [phase]
    rfl

theorem pushed_unwound {executor : Executor} {frame : Frame Output}
    (same : next.executor = executor)
    (member : frame ∈ (unwound executor : List (Frame Output))) :
    Pushed world next frame := by
  subst same
  unfold World.unwound at member
  split at member
  · rename_i phase
    cases List.mem_singleton.mp member
    exact .rootDropped (Or.inl phase)
  · cases member

theorem pushed_dropTask {task : LocalTask} {frame : Frame Output}
    (closing : world.executor.phase.closing = true) (empty : world.stack = [])
    (log : next.log = world.log) (member : frame ∈ world.dropTask task) :
    Pushed world next frame := by
  rcases mem_dropTask member with rfl | rfl
  · exact .destructor ⟨_, Or.inl rfl⟩
  · exact .discarded closing empty log

theorem pushed_cleanup {rest : List (Frame Output)} {frame : Frame Output}
    (unwinding : next.executor.phase = .unwinding ∨
      world.executor.phase.closing = true ∧ next.executor.phase.closing = true)
    (below : ∀ frame ∈ rest, frame ∈ world.stack ∨ ∃ join, frame = .release join)
    (member : frame ∈ cleanup rest) : frame ∈ world.stack ∨ Pushed world next frame := by
  rcases mem_cleanup member with
    ⟨code, rfl, inRest⟩ | ⟨join, result, rfl, inRest⟩ | ⟨join, rfl⟩
  · rcases below _ inRest with old | ⟨join, isRelease⟩
    · exact Or.inl old
    · cases isRelease
  · rcases below _ inRest with old | ⟨join, isRelease⟩
    · exact Or.inr (.unwound old unwinding)
    · cases isRelease
  · exact Or.inr .completed

theorem Stepped.pushed (stepped : Stepped world label next) {frame : Frame Output}
    (member : frame ∈ next.stack) : frame ∈ world.stack ∨ Pushed world next frame := by
  have below : ∀ {head : Frame Output} {rest : List (Frame Output)},
      world.stack = head :: rest → frame ∈ rest → frame ∈ world.stack := by
    intro head rest stack inRest
    rw [stack]
    exact List.mem_cons_of_mem _ inRest
  cases stepped with
  | refused runs closed =>
      simp only [List.mem_cons] at member
      rcases member with rfl | rfl | rfl | old
      · exact Or.inr (.destructor ⟨_, Or.inl rfl⟩)
      · exact Or.inr (.refused closed rfl)
      · refine Or.inr (.granted ?_)
        simp [setJoin]
      · exact Or.inl old
  | suspended free stack step => exact Or.inr (pushed_unwound rfl member)
  | finished free phase notRoot stack step => exact Or.inr (pushed_unwound rfl member)
  | returned free stack =>
      simp only [harness, List.mem_cons, List.not_mem_nil, or_false] at member
      rcases member with rfl | rfl
      · exact Or.inr (.destructor ⟨_, Or.inl rfl⟩)
      · exact Or.inr (.returned stack rfl)
  | caught free stack =>
      simp only [List.mem_cons, List.not_mem_nil, or_false] at member
      rcases member with rfl | rfl | rfl
      · exact Or.inr (.destructor ⟨_, Or.inl rfl⟩)
      · exact Or.inr (.destructor ⟨_, Or.inr (Or.inl rfl)⟩)
      · exact Or.inr (.caught stack rfl)
  | @rootYielded result executor free stack step =>
      dsimp only at member
      split at member
      · rename_i root phase
        cases List.mem_singleton.mp member
        exact Or.inr (.rootDropped (Or.inr ⟨root, phase⟩))
      · rename_i phase
        cases List.mem_singleton.mp member
        exact Or.inr (.rootDropped (Or.inl phase))
      · cases member
  | codeReturned free stack notRoot notInner => exact Or.inl (below stack member)
  | granted free stack found => exact Or.inl (below stack member)
  | unwound free fails unwinds step =>
      have unwinding := phase_of_panic step
      cases unwinds with
      | loop phase =>
          rcases List.mem_append.mp member with inRest | last
          · exact pushed_cleanup unwinding fails.below inRest
          · cases List.mem_singleton.mp last
            have unwound := unwinding_of_panic step (opened_of_loop phase)
            exact Or.inr (.rootDropped (Or.inl unwound))
      | leaving phase => exact pushed_cleanup unwinding fails.below member
      | closing phase => exact pushed_cleanup unwinding fails.below member
  | called free stack =>
      rcases List.mem_cons.mp member with rfl | inRest
      · exact Or.inr (.called (stack ▸ List.mem_cons_self))
      · exact Or.inl (below stack inRest)
  | wokeCode free wakes =>
      obtain ⟨head, stack⟩ := wakes.ne_nil
      rcases List.mem_cons.mp member with rfl | inRest
      · exact Or.inr (.invoked wakes)
      · exact Or.inl (below stack inRest)
  | wokeTask free wakes unpoisoned step =>
      obtain ⟨head, stack⟩ := wakes.ne_nil
      exact Or.inl (below stack member)
  | @published join result rest cell stored free stack found pending =>
      rcases List.mem_append.mp member with isWake | later
      · obtain ⟨waker, rfl, rfl⟩ :=
          Option.map_eq_some_iff.mp (Option.mem_toList.mp isWake)
        exact Or.inr (.woken found pending stack rfl rfl)
      · rcases List.mem_cons.mp later with rfl | inRest
        · exact Or.inr .completed
        · exact Or.inl (below stack inRest)
  | released free stack found front =>
      rcases List.mem_append.mp member with isFront | inRest
      · rcases front with rfl | ⟨rfl, _⟩
        · cases isFront
        · cases List.mem_singleton.mp isFront
          exact Or.inr (.destructor ⟨_, Or.inr (Or.inr rfl)⟩)
      · exact Or.inl (below stack inRest)
  | drained step called =>
      obtain ⟨waker, isFired, rfl⟩ := List.mem_map.mp member
      exact Or.inr (.fired step called isFired)
  | stuck phase wait found paused failed step =>
      cases List.mem_singleton.mp member
      have opened : world.executor.phase.closing = false := by
        rw [phase]
        rfl
      exact Or.inr (.rootDropped (Or.inl (unwinding_of_panic step opened)))
  | began step phase =>
      cases List.mem_singleton.mp member
      exact Or.inr (.began step phase)
  | notBegun step other =>
      cases List.mem_singleton.mp member
      cases Executor.moved_of_step step with
      | notAdmitted phase taken missing change => exact Or.inr (.rootDropped (Or.inl rfl))
      | notBegun phase taken found fails change =>
          exact Or.inr (.rootDropped (Or.inl rfl))
      | began phase taken found begins change => exact absurd rfl (other _ _ _)
  | cleared stack pending step =>
      have closing : world.executor.phase.closing = true := by
        cases Executor.moved_of_step step with
        | cleared phase free waiting =>
            rw [phase]
            rfl
      exact Or.inr (pushed_dropTask closing stack rfl member)
  | destroyed stack found step =>
      have closing : world.executor.phase.closing = true := by
        cases Executor.moved_of_step step with
        | destroyed phase free present =>
            rw [phase]
            rfl
      exact Or.inr (pushed_dropTask closing stack rfl member)
  | moved _ _ | timed _ _ | timer _ _ _ | spawned _ _ _ | rejected
  | awaited _ _ _ _ _ | yielded _ _ _ _ | dropped _ _ _ | planned _ _ _ _
  | jumped _ _ _ _ _ _ | received _ _ | timedOut _ _ => exact Or.inl member

theorem Stepped.shaped (stepped : Stepped world label next)
    (closing : world.executor.Closing) (placed : world.Placed)
    (shaped : world.Shaped) : next.Shaped := by
  cases stepped with
  | moved permitted step =>
      exact shaped.stays rfl (phase_of_permitted permitted step)
  | refused runs closed =>
      have shut : world.executor.phase.closing = true := closing.symm.trans closed
      apply Shaped.of_calls
      · intro code member
        simp only [List.mem_cons, Frame.call.injEq, reduceCtorEq,
          false_or] at member
        rcases member with rfl | old
        · exact ⟨by simp, by simp⟩
        · exact shaped.calls code old
      · intro code member
        simp only [List.mem_cons, reduceCtorEq, false_or] at member
        refine ⟨?_, ?_⟩
        · rintro rfl
          obtain ⟨_, root, target, phase⟩ := shaped.root member
          rw [phase] at shut
          cases shut
        · rintro join rfl
          obtain ⟨_, root, id, target, _, _, phase⟩ := shaped.inner join member
          rw [phase] at shut
          cases shut
  | spawned runs unclosed step =>
      refine shaped.stays rfl ?_
      intro _
      cases Executor.moved_of_step step <;> rfl
  | suspended free stack step =>
      apply Shaped.of_calls
      · intro code member
        cases mem_unwound member
        exact ⟨by simp, by simp⟩
      · intro code member
        cases mem_unwound member
  | returned free stack =>
      exact Shaped.of_calls (by simp [harness]) (by simp [harness])
  | rootYielded free stack step =>
      apply Shaped.of_calls
      · intro code member
        dsimp only at member
        split at member <;> simp_all
      · intro code member
        dsimp only at member
        split at member <;> simp_all
  | codeReturned free stack notRoot notInner =>
      exact shaped.replaces stack (List.nil_append _).symm (by simp) (by simp)
  | caught free stack => exact Shaped.of_calls (by simp) (by simp)
  | unwound free fails unwinds step =>
      exact shaped.unwound fails.below unwinds rfl
  | called free stack =>
      have harmless := shaped.calls _ (stack ▸ List.mem_cons_self)
      apply shaped.replaces stack (List.singleton_append).symm (by simp)
      intro code member
      cases List.mem_singleton.mp member
      exact harmless
  | wokeCode free wakes =>
      obtain ⟨frame, stack⟩ := wakes.ne_nil
      exact shaped.replaces stack (List.singleton_append).symm (by simp) (by simp)
  | wokeTask free wakes unpoisoned step =>
      obtain ⟨frame, stack⟩ := wakes.ne_nil
      exact shaped.replaces stack (List.nil_append _).symm (by simp) (by simp)
  | @published join result rest cell waker free stack found pending =>
      have joined : (waker.map (Frame.wake join)).toList ++ .release join :: rest =
          ((waker.map (Frame.wake join)).toList ++ [.release join]) ++ rest := by
        simp
      apply shaped.replaces stack joined
      · cases waker <;> simp
      · cases waker <;> simp
  | released free stack found front =>
      apply shaped.replaces stack rfl
      · rcases front with rfl | ⟨rfl, _⟩ <;> simp
      · rcases front with rfl | ⟨rfl, _⟩ <;> simp
  | granted free stack found =>
      exact shaped.replaces stack (List.nil_append _).symm (by simp) (by simp)
  | drained step called => exact Shaped.of_calls (by simp) (by simp)
  | jumped phase wait found paused advanced step =>
      have empty : world.stack = [] := placed (by rw [phase]; rfl)
      exact shaped.stays rfl fun busy => absurd empty busy
  | stuck phase wait found paused failed step =>
      exact Shaped.of_calls (by simp) (by simp)
  | received held step =>
      exact shaped.stays rfl fun busy => absurd (placed.empty step rfl) busy
  | timedOut held step =>
      exact shaped.stays rfl fun busy => absurd (placed.empty step rfl) busy
  | @began root target id executor step phase =>
      refine ⟨by simp, ?_, ?_⟩
      · intro join member
        cases decEq id rootTaskId with
        | isTrue isRoot => simp [isRoot] at member
        | isFalse notRoot =>
            simp only [notRoot, if_false, List.mem_singleton, Frame.running.injEq,
              Code.inner.injEq] at member
            subst member
            exact ⟨by simp [notRoot], root, id, target, rfl, notRoot, phase⟩
      · intro member
        cases decEq id rootTaskId with
        | isTrue isRoot =>
            subst isRoot
            exact ⟨by simp, root, target, phase⟩
        | isFalse notRoot => simp [notRoot] at member
  | notBegun step other => exact Shaped.of_calls (by simp) (by simp)
  | finished free phase notRoot stack step =>
      apply Shaped.of_calls
      · intro code member
        cases mem_unwound member
        exact ⟨by simp, by simp⟩
      · intro code member
        cases mem_unwound member
  | cleared stack pending step => exact Shaped.of_dropTask rfl
  | destroyed stack found step => exact Shaped.of_dropTask rfl
  | timed _ _ | timer _ _ _ | rejected | awaited _ _ _ _ _ | yielded _ _ _ _
  | dropped _ _ _ | planned _ _ _ _ => exact shaped.stays rfl fun _ => rfl

theorem run_shaped (reach : machine.Reach allowed (initial clock os) world) :
    world.Shaped := by
  induction reach with
  | refl => exact shaped_initial
  | step label before _ step ih =>
      exact (stepped_of_step step).shaped (run_steady before).closing
        (run_placed before) ih

end World

end Asyncr
