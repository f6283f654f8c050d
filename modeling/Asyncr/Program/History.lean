import Asyncr.Program.Harness

namespace Asyncr

def ProgramEvent.ends {Output : Type} (join : JoinRef) :
    ProgramEvent Output → Prop
  | .returned ended _ | .panicked ended => ended = join
  | .polled _ | .fired _ | .published _ _ _ | .woke _ _ | .awaited _ _
  | .yielded _ _ => False

def ProgramEvent.gives {Output : Type} (join : JoinRef)
    (result : Except JoinError Output) : ProgramEvent Output → Prop
  | .returned ended value => ended = join ∧ result = .ok value
  | .panicked ended => ended = join ∧ result = .error .panic
  | .polled _ | .fired _ | .published _ _ _ | .woke _ _ | .awaited _ _
  | .yielded _ _ => False

namespace World

open Library
open Time

variable {Output : Type} {world next : World Output} {label : Label Output}
  {allowed : World Output → Label Output → Prop} {clock : Clock} {os : Instant}

/-! What the history says of the joins. -/

inductive Logged (world next : World Output) : ProgramEvent Output → Prop
  | polled {root target : Nat} {id : Id} :
      world.executor.step .dispatch = some next.executor →
      next.executor.phase = .polling root id target →
      Logged world next (.polled target)
  | returned {join : JoinRef} {value : Output} :
      world.stack = [.running (.inner join)] →
      next.executor = world.executor → next.joins = world.joins →
      next.stack = harness join (.ok value) →
      Logged world next (.returned join value)
  | panicked {join : JoinRef} :
      world.stack = [.running (.inner join)] →
      next.executor = world.executor → next.joins = world.joins →
      next.stack = [.call (.dropFuture join), .call (.dropPayload join),
        .publish join (.error .panic)] →
      Logged world next (.panicked join)
  | woke {waker : Waker} {rest : List (Frame Output)}
      {event : ProgramEvent Output} :
      Wakes world.stack waker rest event → next.joins = world.joins →
      Logged world next event
  | published {join : JoinRef} {result : Except JoinError Output}
      {rest : List (Frame Output)} {cell : JoinCell Output}
      {waker : Option Waker} :
      world.stack = .publish join result :: rest →
      world.joins join = some cell → cell.state = .pending waker →
      next.executor = world.executor →
      next.joins = Function.update world.joins join
        (some { cell with state := .ready result }) →
      next.stack =
        (waker.map (Frame.wake join)).toList ++ .release join :: rest →
      Logged world next (.published join result waker)
  | awaited {join : JoinRef} {waker : Waker} {cell : JoinCell Output} :
      world.joins join = some cell → cell.handle = true →
      next.executor = world.executor →
      next.joins = Function.update world.joins join
        (some { cell with state := .pending (some waker) }) →
      next.stack = world.stack → Logged world next (.awaited join waker)
  | yielded {join : JoinRef} {cell : JoinCell Output}
      {result : Except JoinError Output} :
      world.joins join = some cell → cell.state = .ready result →
      next.executor = world.executor →
      next.joins = Function.update world.joins join
        (some { cell with state := .consumed }) →
      next.stack = world.stack → Logged world next (.yielded join result)

theorem Stepped.logged (stepped : Stepped world label next) :
    next.log = world.log ∨
      ∃ event, next.log = event :: world.log ∧ Logged world next event := by
  cases stepped with
  | awaited runs found handle known pending =>
      exact Or.inr ⟨_, rfl, .awaited found handle rfl rfl rfl⟩
  | yielded runs found handle ready =>
      exact Or.inr ⟨_, rfl, .yielded found ready rfl rfl rfl⟩
  | returned free stack => exact Or.inr ⟨_, rfl, .returned stack rfl rfl rfl⟩
  | caught free stack => exact Or.inr ⟨_, rfl, .panicked stack rfl rfl rfl⟩
  | unwound free fails unwinds step =>
      cases fails with
      | code stack outermost => exact Or.inl rfl
      | poisoned wakes poisoned => exact Or.inr ⟨_, rfl, .woke wakes rfl⟩
      | published stack found twice => exact Or.inl rfl
  | wokeCode free wakes => exact Or.inr ⟨_, rfl, .woke wakes rfl⟩
  | wokeTask free wakes unpoisoned step => exact Or.inr ⟨_, rfl, .woke wakes rfl⟩
  | published free stack found pending =>
      exact Or.inr ⟨_, rfl, .published stack found pending rfl rfl rfl⟩
  | began step phase => exact Or.inr ⟨_, rfl, .polled step phase⟩
  | _ => exact Or.inl rfl

/-! The sender of a join is on the stack only while its task is polled, or is
dropped. -/

theorem Stepped.phase_stays (stepped : Stepped world label next)
    (placed : world.Placed) {frame : Frame Output} {rest : List (Frame Output)}
    (busy : world.stack = frame :: rest) (notRoot : frame ≠ .running .root)
    (notInner : ∀ join, frame ≠ .running (.inner join)) :
    next.executor.phase = world.executor.phase ∨
      next.executor.phase = .unwinding ∨
      world.executor.phase.closing = true ∧ next.executor.phase.closing = true := by
  have present := placed.busy busy
  have idle : world.executor.phase.idle = true → False := by
    intro isIdle
    rw [isIdle] at present
    cases present
  cases stepped with
  | moved permitted step =>
      left
      apply phase_of_permitted permitted step
      rw [busy]
      exact nofun
  | spawned runs unclosed step =>
      left
      cases Executor.moved_of_step step <;> rfl
  | suspended free stack step =>
      rw [busy] at stack
      cases stack
      exact absurd rfl (notInner _)
  | rootYielded free stack step =>
      rw [busy] at stack
      cases stack
      exact absurd rfl notRoot
  | unwound free fails unwinds step => exact Or.inr (phase_of_panic step)
  | wokeTask free wakes unpoisoned step => exact Or.inl (phase_of_wake step)
  | jumped phase wait found paused advanced step
  | stuck phase wait found paused failed step =>
      rw [phase] at present
      cases present
  | drained step _ | received _ step | timedOut _ step | began step _
  | notBegun step _ => exact (idle (Executor.idle_of_loop step rfl)).elim
  | finished _ _ _ stack _ | cleared stack _ _ | destroyed stack _ _ =>
      rw [busy] at stack
      cases stack
  | _ => exact Or.inl rfl

/-- Where the sender of a join may be about to complete it. -/
def Homed (world : World Output) : Prop :=
  ∀ join ∈ publishing world.stack,
    world.executor.phase = .unwinding ∨ world.executor.phase.closing = true ∨
      ∃ root id target, world.executor.phase = .polling root id target ∧
        id ≠ rootTaskId ∧ join = .task target

theorem Shaped.publishing (shaped : world.Shaped) {join : JoinRef}
    (member : join ∈ World.publishing world.stack) :
    ∃ frame rest, world.stack = frame :: rest ∧ frame ≠ .running .root ∧
      ∀ join, frame ≠ .running (.inner join) := by
  cases stack : world.stack with
  | nil =>
      rw [stack] at member
      cases member
  | cons frame rest =>
      refine ⟨frame, rest, rfl, ?_, ?_⟩
      · rintro rfl
        rw [(shaped.root (stack ▸ List.mem_cons_self)).1] at member
        cases member
      · rintro other rfl
        rw [(shaped.inner other (stack ▸ List.mem_cons_self)).1] at member
        cases member

theorem Stepped.homed (stepped : Stepped world label next)
    (orderly : world.Orderly) (after : next.Orderly) (homed : world.Homed) :
    next.Homed := by
  have still : ∀ join ∈ publishing world.stack,
      next.executor.phase = .unwinding ∨ next.executor.phase.closing = true ∨
        ∃ root id target, next.executor.phase = .polling root id target ∧
          id ≠ rootTaskId ∧ join = .task target := by
    intro join member
    obtain ⟨frame, rest, busy, notRoot, notInner⟩ :=
      orderly.shaped.publishing member
    rcases stepped.phase_stays orderly.placed busy notRoot notInner with
      same | unwinding | ⟨_, closing⟩
    · rw [same]
      exact homed join member
    · exact Or.inl unwinding
    · exact Or.inr (Or.inl closing)
  intro join member
  cases orderly.effect stepped with
  | same joins published released => exact still join (published ▸ member)
  | kept before joins sender handled published released =>
      exact still join (published ▸ member)
  | spawned unclosed step joins stack => exact still join (stack ▸ member)
  | refused closed same counted joins published released =>
      right
      left
      rw [same, ← orderly.sound.closing]
      exact closed
  | ended stack joins same published released =>
      rw [published] at member
      cases List.mem_singleton.mp member
      obtain ⟨_, root, id, target, rfl, notRoot, phase⟩ :=
        orderly.shaped.inner _ (stack ▸ List.mem_singleton.mpr rfl)
      rw [same]
      exact Or.inr (Or.inr ⟨root, id, target, phase, notRoot, rfl⟩)
  | discarded empty joins stack closing closed =>
      right
      left
      rw [← after.sound.closing, closed, orderly.sound.closing]
      exact closing
  | published before state joins same stack published released =>
      exact still join (published ▸ List.mem_cons_of_mem _ member)
  | released before joins same published released =>
      exact still join (published ▸ member)

theorem homed_initial : (initial clock os : World Output).Homed := by
  intro join member
  cases member

/-! A spawned future ends once, and is not polled after. -/

theorem Effect.settled_stays (effect : Effect world next) (cells : world.Cells)
    {join : JoinRef} {cell : JoinCell Output}
    (found : world.joins join = some cell)
    (settled : cell.state.isPending = false) :
    ∃ cell, next.joins join = some cell ∧ cell.state.isPending = false := by
  have present : world.joins join ≠ none := by
    rw [found]
    exact nofun
  obtain ⟨later, still⟩ := Option.ne_none_iff_exists'.mp (effect.present present)
  refine ⟨later, still, ?_⟩
  by_contra pending
  rcases effect.pending ⟨later, still, Bool.of_not_eq_false pending⟩ with
    ⟨other, before, isPending⟩ | ⟨isNew, _⟩ | ⟨isNew, _⟩
  · cases found.symm.trans before
    rw [settled] at isPending
    cases isPending
  · cases isNew
    exact present cells.fresh_task
  · cases isNew
    exact present cells.fresh_refused

theorem Effect.concluded (effect : Effect world next) (cells : world.Cells)
    {join : JoinRef} (concluded : world.Over join) : next.Over join := by
  rcases concluded with member | ⟨cell, found, settled⟩
  · rcases effect.publishing_stays member with still | done
    · exact Or.inl still
    · right
      have present := Over.present (Or.inl member) cells
      obtain ⟨later, now⟩ := Option.ne_none_iff_exists'.mp (effect.present present)
      exact ⟨later, now, Bool.eq_false_iff.mpr fun pending =>
        done ⟨later, now, pending⟩⟩
  · exact Or.inr (effect.settled_stays cells found settled)

theorem Orderly.running (orderly : world.Orderly) {join : JoinRef}
    (stack : world.stack = [.running (.inner join)]) : ¬ world.Over join := by
  rintro (member | ⟨cell, found, settled⟩)
  · rw [stack] at member
    cases member
  · obtain ⟨other, before, pending⟩ :=
      orderly.harnessed.inner join (stack ▸ List.mem_singleton.mpr rfl)
    cases found.symm.trans before
    rw [settled] at pending
    cases pending

theorem Orderly.begins (orderly : world.Orderly) {executor : Executor}
    (step : world.executor.step .dispatch = some executor) {root target : Nat}
    {id : Id} (phase : executor.phase = .polling root id target) :
    ¬ world.Over (.task target) := by
  intro concluded
  obtain ⟨dispatching, queued, _⟩ :=
    (Executor.moved_of_step step).polled orderly.sound.coherent phase
  have unclosed : world.executor.closed = false := by
    rw [orderly.sound.closing, dispatching]
    rfl
  rcases orderly.harnessed.busy unclosed target concluded with
    complete | ⟨notified, running⟩
  · rw [queued] at complete
    cases complete
  · rw [queued] at running
    cases running

structure Finished (world : World Output) : Prop where
  concluded : ∀ join event, event ∈ world.log → event.ends join → world.Over join
  once : world.log.Pairwise fun later earlier => ∀ schedule,
    later = .polled schedule ∨ later.ends (.task schedule) →
    ¬ earlier.ends (.task schedule)

theorem finished_initial : (initial clock os : World Output).Finished where
  concluded := by
    intro join event member
    cases member
  once := List.Pairwise.nil

theorem Wakes.event {stack rest : List (Frame Output)} {waker : Waker}
    {event : ProgramEvent Output} (wakes : Wakes stack waker rest event) :
    event = .fired waker ∨ ∃ join, event = .woke join waker := by
  cases wakes with
  | fire => exact Or.inl rfl
  | wake => exact Or.inr ⟨_, rfl⟩

theorem Logged.concluded {event : ProgramEvent Output}
    (logged : Logged world next event) {join : JoinRef} (ends : event.ends join) :
    world.stack = [.running (.inner join)] ∧ next.executor = world.executor ∧
      join ∈ publishing next.stack := by
  cases logged with
  | returned stack same joins after =>
      cases ends
      rw [after]
      exact ⟨stack, same, List.mem_singleton.mpr rfl⟩
  | panicked stack same joins after =>
      cases ends
      rw [after]
      exact ⟨stack, same, List.mem_singleton.mpr rfl⟩
  | woke wakes joins =>
      rcases wakes.event with rfl | ⟨_, rfl⟩ <;> cases ends
  | polled | published | awaited | yielded => cases ends

theorem Finished.step (finished : world.Finished) (orderly : world.Orderly)
    (stepped : Stepped world label next) : next.Finished := by
  have effect := orderly.effect stepped
  have old : ∀ join event, event ∈ world.log → event.ends join →
      next.Over join := fun join event member ends =>
    effect.concluded orderly.cells (finished.concluded join event member ends)
  rcases stepped.logged with same | ⟨event, log, logged⟩
  · refine ⟨?_, same ▸ finished.once⟩
    rw [same]
    exact old
  · refine ⟨?_, ?_⟩
    · intro join later member ends
      rw [log] at member
      rcases List.mem_cons.mp member with rfl | before
      · exact Or.inl (logged.concluded ends).2.2
      · exact old join later before ends
    · rw [log, List.pairwise_cons]
      refine ⟨?_, finished.once⟩
      intro earlier member schedule newer ends
      have concluded := finished.concluded _ earlier member ends
      rcases newer with rfl | again
      · cases logged with
        | polled step phase => exact orderly.begins step phase concluded
        | woke wakes joins =>
            rcases wakes.event with isFired | ⟨_, isWoke⟩
            · cases isFired
            · cases isWoke
      · exact orderly.running (logged.concluded again).1 concluded

/-! From the result of a future to its handle. -/

theorem Effect.ready_back (effect : Effect world next) {join : JoinRef}
    {cell : JoinCell Output} {result : Except JoinError Output}
    (found : next.joins join = some cell) (ready : cell.state = .ready result) :
    (∃ cell, world.joins join = some cell ∧ cell.state = .ready result) ∨
      ∃ rest, world.stack = .publish join result :: rest := by
  cases effect with
  | same joins _ _ | ended _ joins _ _ _ | discarded _ joins _ _ _ =>
      exact Or.inl ⟨cell, joins ▸ found, ready⟩
  | @kept _ before _ old joins sender handled published released =>
      rcases found_updated joins found with ⟨rfl, rfl⟩ | ⟨_, other⟩
      · generalize state : before.state = earlier at handled
        rw [ready] at handled
        cases handled
        exact Or.inl ⟨before, old, state⟩
      · exact Or.inl ⟨cell, other, ready⟩
  | spawned unclosed step joins stack =>
      rcases found_updated joins found with ⟨rfl, rfl⟩ | ⟨_, other⟩
      · cases ready
      · exact Or.inl ⟨cell, other, ready⟩
  | refused closed same counted joins published released =>
      rcases found_updated joins found with ⟨rfl, rfl⟩ | ⟨_, other⟩
      · cases ready
      · exact Or.inl ⟨cell, other, ready⟩
  | published before state joins same stack published released =>
      rcases found_updated joins found with ⟨rfl, rfl⟩ | ⟨_, other⟩
      · cases ready
        exact Or.inr ⟨_, stack⟩
      · exact Or.inl ⟨cell, other, ready⟩
  | released before joins same published released =>
      rcases found_updated joins found with ⟨rfl, rfl⟩ | ⟨_, other⟩
      · exact Or.inl ⟨_, before, ready⟩
      · exact Or.inl ⟨cell, other, ready⟩

theorem Effect.handled (effect : Effect world next) (cells : world.Cells)
    {join : JoinRef} {cell : JoinCell Output}
    (found : world.joins join = some cell)
    (settled : cell.state.isPending = false) :
    ∃ after, next.joins join = some after ∧
      Handled world next join cell.state after.state := by
  have other : ∀ {changed : JoinRef} {after : JoinCell Output},
      next.joins = Function.update world.joins changed (some after) →
      (join = changed → Handled world next join cell.state after.state) →
      ∃ after, next.joins join = some after ∧
        Handled world next join cell.state after.state := by
    intro changed after joins handled
    rcases kept_updated joins found with ⟨same, now⟩ | ⟨_, now⟩
    · exact ⟨after, now, handled same⟩
    · exact ⟨cell, now, .same⟩
  have absent : world.joins join ≠ none := by
    rw [found]
    exact nofun
  cases effect with
  | same joins _ _ | ended _ joins _ _ _ | discarded _ joins _ _ _ =>
      exact ⟨cell, joins ▸ found, .same⟩
  | kept before joins sender handled published released =>
      apply other joins
      rintro rfl
      cases found.symm.trans before
      exact handled
  | spawned unclosed step joins stack =>
      apply other joins
      rintro rfl
      exact absurd cells.fresh_task absent
  | refused closed same counted joins published released =>
      apply other joins
      rintro rfl
      exact absurd cells.fresh_refused absent
  | published before state joins same stack published released =>
      apply other joins
      rintro rfl
      cases found.symm.trans before
      rw [state] at settled
      cases settled
  | released before joins same published released =>
      apply other joins
      rintro rfl
      cases found.symm.trans before
      exact .same

/-- Once the executor is being dropped, whatever is completed is cancelled. -/
def Cancelling (world : World Output) : Prop :=
  world.executor.phase.closing = true → ∀ join result,
    .publish join result ∈ world.stack → result = .error .cancelled

theorem cancelling_initial : (initial clock os : World Output).Cancelling := by
  intro closing
  cases closing

theorem Stepped.publish_back (stepped : Stepped world label next)
    (closing : world.executor.Closing) (cells : world.Cells)
    (cancelling : world.Cancelling) {join : JoinRef}
    {result : Except JoinError Output} (member : .publish join result ∈ next.stack) :
    .publish join result ∈ world.stack ∨
      (∃ value, result = .ok value ∧
        world.stack = [.running (.inner join)] ∧
        next.log = .returned join value :: world.log) ∨
      (result = .error .panic ∧ world.stack = [.running (.inner join)] ∧
        next.log = .panicked join :: world.log) ∨
      result = .error .cancelled ∧ (next.executor.phase = .unwinding ∨
        world.executor.phase.closing = true ∧ next.log = world.log ∧
          join ∉ publishing world.stack) := by
  rcases stepped.pushed member with old | pushed
  · exact Or.inl old
  · cases pushed with
    | returned stack log => exact Or.inr (Or.inl ⟨_, rfl, stack, log⟩)
    | caught stack log => exact Or.inr (Or.inr (Or.inl ⟨rfl, stack, log⟩))
    | @unwound _ result old unwinding =>
        rcases unwinding with unwinding | ⟨closing, _⟩
        · exact Or.inr (Or.inr (Or.inr ⟨rfl, Or.inl unwinding⟩))
        · exact Or.inl (cancelling closing _ result old ▸ old)
    | refused closed log =>
        exact Or.inr (Or.inr (Or.inr ⟨rfl, Or.inr ⟨closing.symm.trans closed, log,
          (cells.absent cells.fresh_refused).1⟩⟩))
    | discarded shut empty log =>
        refine Or.inr (Or.inr (Or.inr ⟨rfl, Or.inr ⟨shut, log, ?_⟩⟩))
        rw [empty]
        exact List.not_mem_nil

theorem Unwinds.cancels {rest left : List (Frame Output)}
    {log : List (ProgramEvent Output)} {join : JoinRef}
    (unwinds : Unwinds world rest left) (cells : world.Cells)
    (closing : world.executor.phase.closing = true)
    (fails : Fails world label rest log)
    (member : .publish join (.error .cancelled) ∈ world.stack) :
    .publish join (.error .cancelled) ∈ left := by
  have below : join ∈ publishing rest := by
    rw [← fails.publishing cells]
    exact mem_publishing.mpr ⟨_, member⟩
  cases unwinds with
  | loop phase =>
      rw [opened_of_loop phase] at closing
      cases closing
  | leaving phase | closing phase => exact cancelled_of_cleanup below

/-- A result stays on its frame until it is published, or a panic unwinds. -/
theorem Stepped.publish_kept (stepped : Stepped world label next)
    (orderly : world.Orderly) (cancelling : world.Cancelling) {join : JoinRef}
    {result : Except JoinError Output} (member : .publish join result ∈ world.stack) :
    .publish join result ∈ next.stack ∨
      (next.executor.phase = .unwinding ∧ ∃ rest log, Fails world label rest log ∧
        Unwinds world rest next.stack) ∨
      ∃ cell, next.joins join = some cell ∧ cell.state = .ready result := by
  have busy : world.executor.phase.idle = false := by
    cases idle : world.executor.phase.idle with
    | false => rfl
    | true =>
        rw [orderly.placed idle] at member
        cases member
  have below : ∀ {frame : Frame Output} {rest : List (Frame Output)},
      world.stack = frame :: rest → frame ≠ .publish join result →
      .publish join result ∈ rest := by
    intro frame rest stack different
    rw [stack] at member
    exact (List.mem_cons.mp member).resolve_left different.symm
  cases stepped with
  | refused runs closed =>
      exact Or.inl (by simp [member])
  | unwound free fails unwinds step =>
      rcases phase_of_panic step with unwinding | ⟨closing, _⟩
      · exact Or.inr (Or.inl ⟨unwinding, _, _, fails, unwinds⟩)
      · left
        obtain rfl := cancelling closing join result member
        exact unwinds.cancels orderly.cells closing fails member
  | codeReturned free stack notRoot notInner => exact Or.inl (below stack nofun)
  | called free stack =>
      exact Or.inl (List.mem_cons_of_mem _ (below stack nofun))
  | wokeCode free wakes =>
      left
      apply List.mem_cons_of_mem
      generalize world.stack = stack at wakes member
      cases wakes with
      | fire => exact (List.mem_cons.mp member).resolve_left nofun
      | wake => exact (List.mem_cons.mp member).resolve_left nofun
  | wokeTask free wakes unpoisoned step =>
      left
      generalize world.stack = stack at wakes member
      cases wakes with
      | fire => exact (List.mem_cons.mp member).resolve_left nofun
      | wake => exact (List.mem_cons.mp member).resolve_left nofun
  | @published other published rest cell waker free stack found pending =>
      rw [stack] at member
      rcases List.mem_cons.mp member with same | old
      · cases same
        exact Or.inr (Or.inr ⟨_, Function.update_self .., rfl⟩)
      · left
        exact List.mem_append_right _ (List.mem_cons_of_mem _ old)
  | released free stack found front =>
      exact Or.inl (List.mem_append_right _ (below stack nofun))
  | granted free stack found => exact Or.inl (below stack nofun)
  | stuck phase wait found paused failed step =>
      rw [phase] at busy
      cases busy
  | drained step _ | began step _ | notBegun step _ =>
      rw [Executor.idle_of_loop step rfl] at busy
      cases busy
  | suspended _ stack _ | returned _ stack | rootYielded _ stack _
  | caught _ stack | finished _ _ _ stack _ | cleared stack _ _
  | destroyed stack _ _ =>
      rw [stack] at member
      simp at member
  | moved _ _ | timed _ _ | timer _ _ _ | spawned _ _ _ | rejected
  | awaited _ _ _ _ _ | yielded _ _ _ _ | dropped _ _ _ | planned _ _ _ _
  | jumped _ _ _ _ _ _ | received _ _ | timedOut _ _ => exact Or.inl member

theorem Stepped.publish_on (stepped : Stepped world label next)
    (orderly : world.Orderly) (cancelling : world.Cancelling) {join : JoinRef}
    {result : Except JoinError Output}
    (member : .publish join result ∈ world.stack) :
    .publish join result ∈ next.stack ∨ next.executor.phase = .unwinding ∨
      ∃ cell, next.joins join = some cell ∧ cell.state = .ready result := by
  rcases stepped.publish_kept orderly cancelling member with kept | ⟨unwinding, _⟩ | ready
  · exact Or.inl kept
  · exact Or.inr (Or.inl unwinding)
  · exact Or.inr (Or.inr ready)

theorem Effect.publishing_nil (effect : Effect world next)
    (orderly : world.Orderly) (unpublished : publishing world.stack = [])
    (unclosed : world.executor.phase.closing = false)
    (unpolled : ∀ join, world.stack ≠ [.running (.inner join)]) :
    publishing next.stack = [] := by
  cases effect with
  | same joins published released => exact published.trans unpublished
  | kept before joins sender handled published released =>
      exact published.trans unpublished
  | spawned _ step joins stack => rw [stack, unpublished]
  | refused closed same counted joins published released =>
      rw [orderly.sound.closing, unclosed] at closed
      cases closed
  | ended stack joins same published released => exact absurd stack (unpolled _)
  | discarded empty joins stack closing closed =>
      rw [unclosed] at closing
      cases closing
  | published before state joins same stack published released =>
      rw [unpublished] at published
      cases published
  | released before joins same published released =>
      exact published.trans unpublished

theorem Stepped.closes (stepped : Stepped world label next)
    (closing : next.executor.phase.closing = true) :
    world.executor.phase.closing = true ∨ world.stack = [] := by
  rcases stepped.takes with same | ⟨move, takes, step⟩
  · exact Or.inl (same ▸ closing)
  · rcases (Executor.moved_of_step step).closes closing with before | rfl
    · exact Or.inl before
    · cases takes with
      | permitted permitted => exact Or.inr (List.isEmpty_iff.mp permitted)

theorem Cancelling.step (cancelling : world.Cancelling)
    (stepped : Stepped world label next) (orderly : world.Orderly) :
    next.Cancelling := by
  intro closing join result member
  have unpolled : world.stack ≠ [.running (.inner join)] := by
    intro stack
    rcases stepped.closes closing with before | empty
    · obtain ⟨_, _, _, _, _, _, phase⟩ :=
        orderly.shaped.inner join (stack ▸ List.mem_singleton.mpr rfl)
      rw [phase] at before
      cases before
    · rw [empty] at stack
      cases stack
  rcases stepped.publish_back orderly.sound.closing orderly.cells cancelling member with
    old | ⟨_, _, stack, _⟩ | ⟨_, stack, _⟩ | ⟨cancelled, _⟩
  · rcases stepped.closes closing with before | empty
    · exact cancelling before join result old
    · rw [empty] at old
      cases old
  · exact absurd stack unpolled
  · exact absurd stack unpolled
  · exact cancelled

end World

end Asyncr
