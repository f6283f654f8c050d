import Asyncr.Executor.Ownership
import Asyncr.Program.Joins

namespace Asyncr

namespace World

open Library
open Time

variable {Output : Type} {world next : World Output} {label : Label Output}
  {allowed : World Output → Label Output → Prop} {clock : Clock} {os : Instant}

/-! A spawned future and its sender stay in one harness until the join is
completed. -/

theorem Stepped.owned (stepped : Stepped world label next)
    (sound : world.executor.Sound) (shaped : world.Shaped) {schedule : Nat}
    (owned : world.executor.Owned schedule) :
    next.executor.Owned schedule ∨
      (∃ task : LocalTask, task.schedule = schedule ∧ world.stack = [] ∧
        next.stack = world.dropTask task) ∨
      ∃ root id, id ≠ rootTaskId ∧ world.stack = [] ∧
        world.executor.phase = .polling root id schedule := by
  have kept : ∀ {move : Move} {executor : Executor},
      world.executor.step move = some executor → move ≠ .clear →
      (∀ id, move ≠ .destroy id) → move ≠ .endPoll (.ready ()) →
      executor.Owned schedule := by
    intro move executor step notClear notDestroy notReady
    rcases (Executor.moved_of_step step).owned sound owned with
      still | ⟨_, _, rfl, _⟩ | ⟨id, _, rfl, _⟩ | ⟨_, _, rfl, _⟩
    · exact still
    · exact absurd rfl notClear
    · exact absurd rfl (notDestroy id)
    · exact absurd rfl notReady
  cases stepped with
  | @moved move executor permitted step =>
      left
      apply kept step
      · rintro rfl
        cases permitted
      · rintro id rfl
        cases permitted
      · rintro rfl
        cases permitted
  | spawned runs unclosed step => exact Or.inl (kept step nofun nofun nofun)
  | suspended free stack step => exact Or.inl (kept step nofun nofun nofun)
  | unwound free fails unwinds step => exact Or.inl (kept step nofun nofun nofun)
  | wokeTask free wakes unpoisoned step => exact Or.inl (kept step nofun nofun nofun)
  | drained step called => exact Or.inl (kept step nofun nofun nofun)
  | jumped phase wait found paused advanced step =>
      exact Or.inl (kept step nofun nofun nofun)
  | stuck phase wait found paused failed step =>
      exact Or.inl (kept step nofun nofun nofun)
  | received held step => exact Or.inl (kept step nofun nofun nofun)
  | timedOut held step => exact Or.inl (kept step nofun nofun nofun)
  | began step phase => exact Or.inl (kept step nofun nofun nofun)
  | notBegun step other => exact Or.inl (kept step nofun nofun nofun)
  | rootYielded free stack step =>
      rcases (Executor.moved_of_step step).owned sound owned with
        still | ⟨_, _, isClear, _⟩ | ⟨_, _, isDestroy, _⟩ | ⟨_, _, _, notRoot, phase⟩
      · exact Or.inl still
      · cases isClear
      · cases isDestroy
      · obtain ⟨_, _, _, rootPhase⟩ := shaped.root (stack ▸ List.mem_singleton.mpr rfl)
        rw [phase] at rootPhase
        cases rootPhase
        exact absurd rfl notRoot
  | finished free phase notRoot stack step =>
      rcases (Executor.moved_of_step step).owned sound owned with
        still | ⟨_, _, isClear, _⟩ | ⟨_, _, isDestroy, _⟩ |
          ⟨root, id, _, isTask, polled⟩
      · exact Or.inl still
      · cases isClear
      · cases isDestroy
      · exact Or.inr (Or.inr ⟨root, id, isTask, stack, polled⟩)
  | cleared stack pending step =>
      rcases (Executor.moved_of_step step).owned sound owned with
        still | ⟨task, _, _, waiting, isTask⟩ | ⟨_, _, isDestroy, _⟩ |
          ⟨_, _, isEnd, _⟩
      · exact Or.inl still
      · rw [pending] at waiting
        obtain ⟨rfl, _⟩ := List.cons.inj waiting
        exact Or.inr (Or.inl ⟨_, isTask, stack, rfl⟩)
      · cases isDestroy
      · cases isEnd
  | destroyed stack found step =>
      rcases (Executor.moved_of_step step).owned sound owned with
        still | ⟨_, _, isClear, _⟩ | ⟨id, task, isDestroy, present, isTask⟩ |
          ⟨_, _, isEnd, _⟩
      · exact Or.inl still
      · cases isClear
      · cases isDestroy
        cases found.symm.trans present
        exact Or.inr (Or.inl ⟨_, isTask, stack, rfl⟩)
      · cases isEnd
  | _ => exact Or.inl owned

/-! What a step leaves of the joins that there were. -/

theorem found_updated {joins after : JoinRef → Option (JoinCell Output)}
    {join other : JoinRef} {changed cell : JoinCell Output}
    (updated : after = Function.update joins join (some changed))
    (found : after other = some cell) :
    other = join ∧ cell = changed ∨ other ≠ join ∧ joins other = some cell := by
  subst updated
  cases decEq other join with
  | isTrue same =>
      subst same
      rw [Function.update_self] at found
      exact Or.inl ⟨rfl, (Option.some.inj found).symm⟩
  | isFalse different =>
      rw [Function.update_of_ne different] at found
      exact Or.inr ⟨different, found⟩

theorem kept_updated {joins after : JoinRef → Option (JoinCell Output)}
    {join other : JoinRef} {changed cell : JoinCell Output}
    (updated : after = Function.update joins join (some changed))
    (found : joins other = some cell) :
    other = join ∧ after other = some changed ∨
      other ≠ join ∧ after other = some cell := by
  subst updated
  cases decEq other join with
  | isTrue same =>
      subst same
      exact Or.inl ⟨rfl, Function.update_self ..⟩
  | isFalse different =>
      exact Or.inr ⟨different, (Function.update_of_ne different ..).trans found⟩

theorem Stepped.stored_back (stepped : Stepped world label next) {join : JoinRef}
    {cell : JoinCell Output} {waker : Waker} (found : next.joins join = some cell)
    (waits : cell.state = .pending (some waker)) :
    (∃ old, world.joins join = some old ∧ old.state = .pending (some waker)) ∨
      label = .pollJoin join waker ∧
        waker.known world.executor.scheduling.created = true := by
  cases stepped with
  | refused runs closed =>
      rcases found_updated rfl found with ⟨_, rfl⟩ | ⟨_, old⟩
      · cases waits
      · exact Or.inl ⟨cell, old, waits⟩
  | spawned runs unclosed step =>
      rcases found_updated rfl found with ⟨_, rfl⟩ | ⟨_, old⟩
      · cases waits
      · exact Or.inl ⟨cell, old, waits⟩
  | awaited runs before handle known pending =>
      rcases found_updated rfl found with ⟨rfl, rfl⟩ | ⟨_, old⟩
      · cases waits
        exact Or.inr ⟨rfl, known⟩
      · exact Or.inl ⟨cell, old, waits⟩
  | yielded runs before handle ready =>
      rcases found_updated rfl found with ⟨_, rfl⟩ | ⟨_, old⟩
      · cases waits
      · exact Or.inl ⟨cell, old, waits⟩
  | @dropped _ before runs present handle =>
      rcases found_updated rfl found with ⟨_, rfl⟩ | ⟨_, old⟩
      · cases state : before.state with
        | pending stored => simp [state, JoinState.abandon] at waits
        | ready result => simp [state, JoinState.abandon] at waits
        | consumed => simp [state, JoinState.abandon] at waits
      · exact Or.inl ⟨cell, old, waits⟩
  | published free stack before pending =>
      rcases found_updated rfl found with ⟨_, rfl⟩ | ⟨_, old⟩
      · cases waits
      · exact Or.inl ⟨cell, old, waits⟩
  | released free stack before front =>
      rcases found_updated rfl found with ⟨rfl, rfl⟩ | ⟨_, old⟩
      · exact Or.inl ⟨_, before, waits⟩
      · exact Or.inl ⟨cell, old, waits⟩
  | granted free stack before =>
      rcases found_updated rfl found with ⟨rfl, rfl⟩ | ⟨_, old⟩
      · exact Or.inl ⟨_, before, waits⟩
      · exact Or.inl ⟨cell, old, waits⟩
  | _ => exact Or.inl ⟨cell, found, waits⟩

theorem Effect.pending (effect : Effect world next) {join : JoinRef}
    (pending : next.Pending join) :
    world.Pending join ∨
      (join = .task world.executor.scheduling.created ∧
        world.executor.closed = false ∧
        world.executor.step .spawn = some next.executor) ∨
      join = .refused world.refused ∧ join ∈ World.publishing next.stack := by
  obtain ⟨cell, found, isPending⟩ := pending
  cases effect with
  | same joins published released => exact Or.inl ⟨cell, joins ▸ found, isPending⟩
  | ended stack joins same published released =>
      exact Or.inl ⟨cell, joins ▸ found, isPending⟩
  | discarded empty joins stack closing closed =>
      exact Or.inl ⟨cell, joins ▸ found, isPending⟩
  | kept before joins sender handled published released =>
      rcases found_updated joins found with ⟨rfl, rfl⟩ | ⟨_, old⟩
      · exact Or.inl ⟨_, before, handled.isPending ▸ isPending⟩
      · exact Or.inl ⟨cell, old, isPending⟩
  | spawned unclosed step joins stack =>
      rcases found_updated joins found with ⟨rfl, _⟩ | ⟨_, old⟩
      · exact Or.inr (Or.inl ⟨rfl, unclosed, step⟩)
      · exact Or.inl ⟨cell, old, isPending⟩
  | refused closed same counted joins published released =>
      rcases found_updated joins found with ⟨rfl, _⟩ | ⟨_, old⟩
      · exact Or.inr (Or.inr ⟨rfl, published ▸ List.mem_cons_self⟩)
      · exact Or.inl ⟨cell, old, isPending⟩
  | published before state joins same stack published released =>
      rcases found_updated joins found with ⟨rfl, rfl⟩ | ⟨_, old⟩
      · cases isPending
      · exact Or.inl ⟨cell, old, isPending⟩
  | released before joins same published released =>
      rcases found_updated joins found with ⟨rfl, rfl⟩ | ⟨_, old⟩
      · exact Or.inl ⟨_, before, isPending⟩
      · exact Or.inl ⟨cell, old, isPending⟩

theorem Effect.settled (effect : Effect world next) {join : JoinRef}
    {cell : JoinCell Output} (found : next.joins join = some cell)
    (settled : cell.state.isPending = false) :
    join ∈ World.publishing world.stack ∨
      ∃ cell, world.joins join = some cell ∧ cell.state.isPending = false := by
  cases effect with
  | same joins published released =>
      exact Or.inr ⟨cell, joins ▸ found, settled⟩
  | ended stack joins same published released =>
      exact Or.inr ⟨cell, joins ▸ found, settled⟩
  | discarded empty joins stack closing closed =>
      exact Or.inr ⟨cell, joins ▸ found, settled⟩
  | kept before joins sender handled published released =>
      rcases found_updated joins found with ⟨rfl, rfl⟩ | ⟨_, old⟩
      · exact Or.inr ⟨_, before, handled.isPending ▸ settled⟩
      · exact Or.inr ⟨cell, old, settled⟩
  | spawned unclosed step joins stack =>
      rcases found_updated joins found with ⟨rfl, rfl⟩ | ⟨_, old⟩
      · cases settled
      · exact Or.inr ⟨cell, old, settled⟩
  | refused closed same counted joins published released =>
      rcases found_updated joins found with ⟨rfl, rfl⟩ | ⟨_, old⟩
      · cases settled
      · exact Or.inr ⟨cell, old, settled⟩
  | published before state joins same stack published released =>
      rcases found_updated joins found with ⟨rfl, rfl⟩ | ⟨_, old⟩
      · exact Or.inl (published ▸ List.mem_cons_self)
      · exact Or.inr ⟨cell, old, settled⟩
  | released before joins same published released =>
      rcases found_updated joins found with ⟨rfl, rfl⟩ | ⟨_, old⟩
      · exact Or.inr ⟨_, before, settled⟩
      · exact Or.inr ⟨cell, old, settled⟩

theorem Effect.present (effect : Effect world next) {join : JoinRef}
    (present : world.joins join ≠ none) : next.joins join ≠ none := by
  have updated : ∀ {changed : JoinRef} {cell : JoinCell Output},
      next.joins = Function.update world.joins changed (some cell) →
      next.joins join ≠ none := by
    intro changed cell joins
    rw [joins]
    cases decEq join changed with
    | isTrue same => simp [same]
    | isFalse different =>
        rw [Function.update_of_ne different]
        exact present
  cases effect with
  | same joins _ _ | ended _ joins _ _ _ | discarded _ joins _ _ _ =>
      rw [joins]
      exact present
  | kept _ joins _ _ _ _ | spawned _ _ joins _ | refused _ _ _ joins _ _
  | published _ _ joins _ _ _ _ | released _ joins _ _ _ => exact updated joins

theorem Effect.publishing_stays (effect : Effect world next) {join : JoinRef}
    (member : join ∈ World.publishing world.stack) :
    join ∈ World.publishing next.stack ∨ ¬ next.Pending join := by
  cases effect with
  | same joins published released => exact Or.inl (published ▸ member)
  | kept before joins sender handled published released =>
      exact Or.inl (published ▸ member)
  | spawned unclosed step joins stack => exact Or.inl (stack ▸ member)
  | refused closed same counted joins published released =>
      exact Or.inl (published ▸ List.mem_cons_of_mem _ member)
  | ended stack joins same published released =>
      rw [stack] at member
      cases member
  | discarded empty joins stack closing closed =>
      rw [empty] at member
      cases member
  | released before joins same published released =>
      exact Or.inl (published ▸ member)
  | published before state joins same stack published released =>
      rw [published] at member
      rcases List.mem_cons.mp member with rfl | later
      · right
        rintro ⟨cell, found, pending⟩
        rcases found_updated joins found with ⟨_, rfl⟩ | ⟨different, _⟩
        · cases pending
        · exact different rfl
      · exact Or.inl later

/-- Who is about to complete the join of a task was so before, or its future has
ended, or the executor is being dropped. -/
theorem Effect.publishing_back (effect : Effect world next) {schedule : Nat}
    (member : .task schedule ∈ World.publishing next.stack) :
    .task schedule ∈ World.publishing world.stack ∨
      (world.stack = [.running (.inner (.task schedule))] ∧
        next.executor = world.executor) ∨
      world.executor.phase.closing = true ∧
        next.executor.closed = world.executor.closed := by
  cases effect with
  | same joins published released => exact Or.inl (published ▸ member)
  | kept before joins sender handled published released =>
      exact Or.inl (published ▸ member)
  | spawned unclosed step joins stack => exact Or.inl (stack ▸ member)
  | refused closed same counted joins published released =>
      rw [published] at member
      rcases List.mem_cons.mp member with isRefused | old
      · cases isRefused
      · exact Or.inl old
  | ended stack joins same published released =>
      rw [published] at member
      cases List.mem_singleton.mp member
      exact Or.inr (Or.inl ⟨stack, same⟩)
  | discarded empty joins stack closing closed =>
      exact Or.inr (Or.inr ⟨closing, closed⟩)
  | released before joins same published released =>
      exact Or.inl (published ▸ member)
  | published before state joins same stack published released =>
      exact Or.inl (published ▸ List.mem_cons_of_mem _ member)

theorem Effect.pending_stays (effect : Effect world next) {join : JoinRef}
    (pending : world.Pending join)
    (unpublished : join ∉ World.publishing world.stack) : next.Pending join := by
  obtain ⟨cell, found, isPending⟩ := pending
  have other : ∀ {changed : JoinRef} {after : JoinCell Output},
      next.joins = Function.update world.joins changed (some after) →
      (join = changed → after.state.isPending = true) → next.Pending join := by
    intro changed after joins still
    rcases kept_updated joins found with ⟨same, now⟩ | ⟨_, now⟩
    · exact ⟨after, now, still same⟩
    · exact ⟨cell, now, isPending⟩
  cases effect with
  | same joins _ _ | ended _ joins _ _ _ | discarded _ joins _ _ _ =>
      exact ⟨cell, joins ▸ found, isPending⟩
  | kept before joins sender handled published released =>
      apply other joins
      rintro rfl
      cases found.symm.trans before
      exact handled.isPending.trans isPending
  | spawned unclosed step joins stack => exact other joins fun _ => rfl
  | refused closed same counted joins published released =>
      exact other joins fun _ => rfl
  | published before state joins same stack published released =>
      apply other joins
      rintro rfl
      exact absurd (published ▸ List.mem_cons_self) unpublished
  | released before joins same published released =>
      apply other joins
      rintro rfl
      cases found.symm.trans before
      exact isPending

theorem Effect.origin (effect : Effect world next) (cells : world.Cells)
    {join : JoinRef} (present : next.joins join ≠ none) :
    world.joins join ≠ none ∨
      join = .task world.executor.scheduling.created ∨
      join = .refused world.refused := by
  have found : ∀ {join : JoinRef}, world.Pending join →
      world.joins join ≠ none := by
    rintro join ⟨cell, found, _⟩
    rw [found]
    exact nofun
  obtain ⟨cell, now⟩ := Option.ne_none_iff_exists'.mp present
  cases pending : cell.state.isPending with
  | true =>
      rcases effect.pending ⟨cell, now, pending⟩ with
        before | ⟨isTask, _⟩ | ⟨isRefused, _⟩
      · exact Or.inl (found before)
      · exact Or.inr (Or.inl isTask)
      · exact Or.inr (Or.inr isRefused)
  | false =>
      rcases effect.settled now pending with member | ⟨old, before, _⟩
      · exact Or.inl (found (cells.publishing join member))
      · left
        rw [before]
        exact nofun

/-- The future of a join has ended: the join is about to be completed, or was. -/
def Over (world : World Output) (join : JoinRef) : Prop :=
  join ∈ publishing world.stack ∨
    ∃ cell, world.joins join = some cell ∧ cell.state.isPending = false

theorem Over.present {join : JoinRef} (concluded : world.Over join)
    (cells : world.Cells) : world.joins join ≠ none := by
  rcases concluded with member | ⟨cell, found, _⟩
  · obtain ⟨cell, found, _⟩ := cells.publishing _ member
    rw [found]
    exact nofun
  · rw [found]
    exact nofun

/-! Where the harness of each join is. -/

structure Harnessed (world : World Output) : Prop where
  owner : ∀ schedule, world.Pending (.task schedule) →
    .task schedule ∈ publishing world.stack ∨ world.executor.Owned schedule
  refusing : ∀ number, world.Pending (.refused number) →
    .refused number ∈ publishing world.stack
  inner : ∀ join, .running (.inner join) ∈ world.stack → world.Pending join
  polled : ∀ root id schedule, world.executor.phase = .polling root id schedule →
    id ≠ rootTaskId → world.Pending (.task schedule) →
    world.stack = [.running (.inner (.task schedule))] ∨
      .task schedule ∈ publishing world.stack
  busy : world.executor.closed = false → ∀ schedule,
    world.Over (.task schedule) → world.executor.Busy schedule
  joined : ∀ schedule, schedule < world.executor.scheduling.created →
    ((world.executor.scheduling.schedules schedule).id ≠ rootTaskId ↔
      world.joins (.task schedule) ≠ none)

theorem harnessed_initial : (initial clock os : World Output).Harnessed where
  owner := by
    intro schedule pending
    obtain ⟨cell, found, _⟩ := pending
    cases found
  refusing := by
    intro number pending
    obtain ⟨cell, found, _⟩ := pending
    cases found
  inner := by
    intro join member
    cases member
  polled := by
    intro root id schedule phase
    cases phase
  busy := by
    intro _ schedule origin
    rcases origin with member | ⟨cell, found, _⟩
    · cases member
    · cases found
  joined := by
    intro schedule below
    cases below

theorem Stepped.inner_back (stepped : Stepped world label next)
    (shaped : world.Shaped) {join : JoinRef}
    (member : .running (.inner join) ∈ next.stack) :
    .running (.inner join) ∈ world.stack ∨
      world.executor.step .dispatch = some next.executor := by
  rcases stepped.pushed member with old | pushed
  · exact Or.inl old
  · generalize same : Frame.running (.inner join) = frame at pushed
    cases pushed with
    | called present =>
        cases same
        exact absurd rfl ((shaped.calls _ present).2 join)
    | began step phase => exact Or.inr step
    | _ => cases same

theorem Stepped.polled_on (stepped : Stepped world label next)
    (closing : world.executor.Closing) (placed : world.Placed) {join : JoinRef}
    (polls : world.stack = [.running (.inner join)])
    {root schedule : Nat} {id : Id}
    (polled : next.executor.phase = .polling root id schedule) :
    next.stack = world.stack ∨ publishing next.stack = [join] := by
  have busy := placed.busy polls
  cases stepped with
  | refused runs closed =>
      change world.executor.phase = _ at polled
      have shut := closing.symm.trans closed
      rw [polled] at shut
      cases shut
  | suspended free stack step =>
      cases Executor.moved_of_step step <;> cases polled
  | returned free stack =>
      rw [polls] at stack
      cases stack
      exact Or.inr rfl
  | caught free stack =>
      rw [polls] at stack
      cases stack
      exact Or.inr rfl
  | codeReturned free stack notRoot notInner =>
      rw [polls] at stack
      cases stack
      exact absurd rfl (notInner join)
  | unwound free fails unwinds step =>
      rcases phase_of_panic step with unwinding | ⟨_, shut⟩
      · cases unwinding.symm.trans polled
      · rw [polled] at shut
        cases shut
  | wokeCode free wakes =>
      rw [polls] at wakes
      cases wakes
  | wokeTask free wakes unpoisoned step =>
      rw [polls] at wakes
      cases wakes
  | drained step called =>
      rw [Executor.idle_of_loop step rfl] at busy
      cases busy
  | stuck phase wait found paused failed step =>
      rw [phase] at busy
      cases busy
  | began step phase =>
      rw [Executor.idle_of_loop step rfl] at busy
      cases busy
  | notBegun step other => exact absurd polled (other _ _ _)
  | rootYielded _ stack _ | called _ stack | published _ stack _ _
  | released _ stack _ _ | granted _ stack _ | finished _ _ _ stack _
  | cleared stack _ _ | destroyed stack _ _ =>
      rw [polls] at stack
      cases stack
  | moved _ _ | timed _ _ | timer _ _ _ | spawned _ _ _ | rejected
  | awaited _ _ _ _ _ | yielded _ _ _ _ | dropped _ _ _ | planned _ _ _ _
  | jumped _ _ _ _ _ _ | received _ _ | timedOut _ _ => exact Or.inl rfl

theorem Stepped.polled_back (stepped : Stepped world label next)
    {root schedule : Nat} {id : Id}
    (polled : next.executor.phase = .polling root id schedule) :
    world.executor.phase = .polling root id schedule ∨
      next.stack =
        [.running (if id = rootTaskId then .root else .inner (.task schedule))] := by
  rcases stepped.takes with same | ⟨move, takes, step⟩
  · exact Or.inl (same ▸ polled)
  · rcases (Executor.moved_of_step step).polls polled with before | rfl
    · exact Or.inl before
    · cases takes with
      | permitted permitted => cases permitted
      | dispatched =>
          cases stepped with
          | timed origin later =>
              rcases origin with ⟨_, isTick, _⟩ | ⟨_, _, isClock⟩
              · cases isTick
              · cases isClock
          | unwound free fails unwinds moved => cases fails
          | began moved phase =>
              cases phase.symm.trans polled
              exact Or.inr rfl
          | notBegun moved other => exact absurd polled (other _ _ _)

theorem Stepped.closed_stays (stepped : Stepped world label next)
    (closed : world.executor.closed = true) : next.executor.closed = true := by
  rcases stepped.takes with same | ⟨move, _, step⟩
  · rw [same]
    exact closed
  · exact (Executor.moved_of_step step).closed_stays closed

theorem Stepped.ids (stepped : Stepped world label next) {schedule : Nat}
    (below : schedule < world.executor.scheduling.created) :
    (next.executor.scheduling.schedules schedule).id =
      (world.executor.scheduling.schedules schedule).id := by
  rcases stepped.takes with same | ⟨move, _, step⟩
  · rw [same]
  · exact (Executor.moved_of_step step).ids.2 schedule below

theorem Stepped.joined (stepped : Stepped world label next)
    (effect : Effect world next) (sound : world.executor.Sound)
    (cells : world.Cells) (harnessed : world.Harnessed) {schedule : Nat}
    (below : schedule < next.executor.scheduling.created) :
    (next.executor.scheduling.schedules schedule).id ≠ rootTaskId ↔
      next.joins (.task schedule) ≠ none := by
  rcases Nat.lt_or_ge schedule world.executor.scheduling.created with old | fresh
  · rw [stepped.ids old]
    refine (harnessed.joined schedule old).trans ⟨effect.present, ?_⟩
    intro present
    rcases effect.origin cells present with before | isNew | isRefused
    · exact before
    · cases isNew
      exact absurd old (Nat.lt_irrefl _)
    · cases isRefused
  · have created : ∀ {move : Move} {executor : Executor},
        world.executor.step move = some executor →
        schedule < executor.scheduling.created →
        (move = .spawn ∧ schedule = world.executor.scheduling.created ∧
          (executor.scheduling.schedules schedule).id ≠ rootTaskId) ∨
        move = .blockOn ∧ schedule = world.executor.scheduling.created ∧
          (executor.scheduling.schedules schedule).id = rootTaskId := by
      intro move executor step later
      refine ((Executor.moved_of_step step).created sound.coherent later).resolve_left ?_
      exact Nat.not_lt.mpr fresh
    have none : ∀ {move : Move} {executor : Executor},
        world.executor.step move = some executor →
        schedule < executor.scheduling.created → move ≠ .spawn →
        move ≠ .blockOn → False := by
      intro move executor step later notSpawn notBlockOn
      rcases created step later with ⟨isSpawn, _⟩ | ⟨isBlockOn, _⟩
      · exact notSpawn isSpawn
      · exact notBlockOn isBlockOn
    cases stepped with
    | moved permitted step =>
        rcases created step below with ⟨rfl, _⟩ | ⟨rfl, rfl, isRoot⟩
        · cases permitted
        · constructor
          · exact fun notRoot => absurd isRoot notRoot
          · exact fun present => absurd cells.fresh_task present
    | spawned runs unclosed step =>
        rcases created step below with ⟨_, rfl, notRoot⟩ | ⟨isBlockOn, _⟩
        · refine ⟨fun _ => ?_, fun _ => notRoot⟩
          change Function.update _ _ _ _ ≠ _
          rw [Function.update_self]
          exact nofun
        · cases isBlockOn
    | suspended _ _ step | rootYielded _ _ step | unwound _ _ _ step
    | wokeTask _ _ _ step | drained step _ | jumped _ _ _ _ _ step
    | stuck _ _ _ _ _ step | received _ step | timedOut _ step | began step _
    | notBegun step _ | finished _ _ _ _ step | cleared _ _ step
    | destroyed _ _ step => exact absurd (none step below nofun nofun) id
    | _ => exact absurd below (Nat.not_lt.mpr fresh)

theorem Stepped.busy (stepped : Stepped world label next)
    (sound : world.executor.Sound) (shaped : world.Shaped)
    (harnessed : world.Harnessed) (cells : world.Cells) {schedule : Nat}
    (ended : world.Over (.task schedule))
    (busy : world.executor.Busy schedule) : next.executor.Busy schedule := by
  rcases stepped.takes with same | ⟨move, takes, step⟩
  · rw [same]
    exact busy
  · apply (Executor.moved_of_step step).busy sound busy
    rintro rfl root id phase
    cases takes with
    | permitted permitted => cases permitted
    | suspended stack =>
        have member : .running (.inner _) ∈ world.stack :=
          stack ▸ List.mem_singleton.mpr rfl
        obtain ⟨_, _, _, target, rfl, _, polled⟩ := shaped.inner _ member
        cases phase.symm.trans polled
        obtain ⟨cell, found, pending⟩ := harnessed.inner _ member
        rcases ended with publishes | ⟨other, again, settled⟩
        · rw [stack] at publishes
          cases publishes
        · cases found.symm.trans again
          rw [pending] at settled
          cases settled
    | rootYielded stack =>
        obtain ⟨_, _, target, polled⟩ :=
          shaped.root (stack ▸ List.mem_singleton.mpr rfl)
        cases phase.symm.trans polled
        obtain ⟨below, isRoot, _⟩ := sound.coherent.polled _ _ _ phase
        exact (harnessed.joined _ below).mpr (ended.present cells) isRoot

theorem dropTask_pending (cells : world.Cells) {task : LocalTask}
    (pending : world.Pending (.task task.schedule)) :
    publishing (world.dropTask task) = [.task task.schedule] := by
  obtain ⟨cell, found, isPending⟩ := pending
  have sender := cells.held _ cell found isPending
  simp [dropTask, found, sender, harness, publishing]

theorem Stepped.harnessed (stepped : Stepped world label next)
    (sound : world.executor.Sound) (placed : world.Placed)
    (shaped : world.Shaped) (after : next.Shaped) (cells : world.Cells)
    (harnessed : world.Harnessed) : next.Harnessed := by
  have effect := stepped.effect placed cells
  have alone : ∀ {join : JoinRef}, .running (.inner join) ∈ world.stack →
      publishing world.stack = [] := by
    intro join member
    rw [(shaped.inner join member).1]
    rfl
  refine ⟨?_, ?_, ?_, ?_, ?_, ?_⟩
  · intro schedule pending
    rcases effect.pending pending with before | ⟨isNew, unclosed, step⟩ | ⟨isRefused, _⟩
    · rcases harnessed.owner schedule before with member | owned
      · left
        exact (effect.publishing_stays member).resolve_right (absurd pending)
      · rcases stepped.owned sound shaped owned with
          still | ⟨task, rfl, empty, stack⟩ | ⟨root, id, notRoot, empty, phase⟩
        · exact Or.inr still
        · left
          rw [stack, dropTask_pending cells before]
          exact List.mem_singleton.mpr rfl
        · rcases harnessed.polled root id schedule phase notRoot before with
            stack | member
          · rw [empty] at stack
            cases stack
          · rw [empty] at member
            cases member
    · cases isNew
      exact Or.inr (Executor.owned_of_spawn step unclosed)
    · cases isRefused
  · intro number pending
    rcases effect.pending pending with before | ⟨isNew, _⟩ | ⟨isRefused, member⟩
    · have member := harnessed.refusing number before
      exact (effect.publishing_stays member).resolve_right (absurd pending)
    · cases isNew
    · exact isRefused ▸ member
  · intro join member
    rcases stepped.inner_back shaped member with old | step
    · apply effect.pending_stays (harnessed.inner join old)
      rw [alone old]
      exact List.not_mem_nil
    · obtain ⟨_, root, id, target, rfl, notRoot, phase⟩ := after.inner join member
      obtain ⟨dispatching, queued, below, isId⟩ :=
        (Executor.moved_of_step step).polled sound.coherent phase
      have empty : world.stack = [] := placed (by rw [dispatching]; rfl)
      have present := (harnessed.joined target below).mp (isId ▸ notRoot)
      obtain ⟨cell, found⟩ := Option.ne_none_iff_exists'.mp present
      apply effect.pending_stays
      · refine ⟨cell, found, ?_⟩
        by_contra settled
        have unclosed : world.executor.closed = false := by
          rw [sound.closing, dispatching]
          rfl
        rcases harnessed.busy unclosed target
          (Or.inr ⟨cell, found, Bool.eq_false_iff.mpr settled⟩) with
          complete | ⟨notified, running⟩
        · rw [queued] at complete
          cases complete
        · rw [queued] at running
          cases running
      · rw [empty]
        exact List.not_mem_nil
  · intro root id schedule phase notRoot pending
    rcases stepped.polled_back phase with before | stack
    · have polled := sound.coherent.polled root id schedule before
      have old : world.Pending (.task schedule) := by
        rcases effect.pending pending with still | ⟨isNew, _⟩ | ⟨isRefused, _⟩
        · exact still
        · cases isNew
          exact absurd polled.1 (Nat.lt_irrefl _)
        · cases isRefused
      rcases harnessed.polled root id schedule before notRoot old with
        polls | member
      · rcases stepped.polled_on sound.closing placed polls phase with
          stack | publishes
        · exact Or.inl (stack.trans polls)
        · exact Or.inr (publishes ▸ List.mem_singleton.mpr rfl)
      · exact Or.inr
          ((effect.publishing_stays member).resolve_right (absurd pending))
    · left
      rw [if_neg notRoot] at stack
      exact stack
  · intro unclosed schedule ended
    have before : world.executor.closed = false := by
      by_contra closed
      rw [stepped.closed_stays (Bool.of_not_eq_false closed)] at unclosed
      cases unclosed
    have old : world.Over (.task schedule) ∨
        world.stack = [.running (.inner (.task schedule))] ∧
          next.executor = world.executor := by
      rcases ended with member | ⟨cell, found, settled⟩
      · rcases effect.publishing_back member with still | polls | ⟨shut, _⟩
        · exact Or.inl (Or.inl still)
        · exact Or.inr polls
        · rw [← sound.closing, before] at shut
          cases shut
      · exact Or.inl (effect.settled found settled)
    rcases old with already | ⟨polls, same⟩
    · exact stepped.busy sound shaped harnessed cells already
        (harnessed.busy before schedule already)
    · obtain ⟨_, root, id, target, isTask, _, phase⟩ :=
        shaped.inner _ (polls ▸ List.mem_singleton.mpr rfl)
      cases isTask
      rw [same]
      exact Or.inr (sound.polling.running root id _ phase)
  · intro schedule below
    exact stepped.joined effect sound cells harnessed below

/-! What holds in every run with fewer than `2 ^ 64 - 1` spawns. -/

structure Orderly (world : World Output) : Prop where
  sound : world.executor.Sound
  placed : world.Placed
  shaped : world.Shaped
  cells : world.Cells
  harnessed : world.Harnessed

theorem orderly_initial : (initial clock os : World Output).Orderly :=
  ⟨Executor.sound_initial, placed_initial, shaped_initial, cells_initial,
    harnessed_initial⟩

theorem Stepped.spawned_le (stepped : Stepped world label next) :
    world.executor.spawned ≤ next.executor.spawned := by
  rcases stepped.takes with same | ⟨move, _, step⟩
  · rw [same]
  · exact (Executor.moved_of_step step).spawned_le

theorem Orderly.effect (orderly : world.Orderly)
    (stepped : Stepped world label next) : Effect world next :=
  stepped.effect orderly.placed orderly.cells

theorem Stepped.orderly (stepped : Stepped world label next)
    (orderly : world.Orderly) (few : next.executor.spawned < 2 ^ 64 - 1) :
    next.Orderly := by
  obtain ⟨sound, placed, shaped, cells, harnessed⟩ := orderly
  have after := stepped.shaped sound.closing placed shaped
  refine ⟨?_, stepped.placed sound.closing placed, after, ?_,
    stepped.harnessed sound placed shaped after cells harnessed⟩
  · rcases stepped.takes with same | ⟨move, _, step⟩
    · rw [same]
      exact sound
    · exact (Executor.moved_of_step step).sound sound few
  · apply (stepped.effect placed cells).cells cells _ stepped.created_le
      stepped.refused_le
    intro join stack
    exact harnessed.inner join (stack ▸ List.mem_singleton.mpr rfl)

theorem run_invariant {start : World Output}
    (reach : machine.Reach allowed start world)
    (few : world.executor.spawned < 2 ^ 64 - 1) (orderly : start.Orderly)
    {holds : World Output → Prop} (initially : holds start)
    (preserved : ∀ world label next, world.Orderly → holds world →
      allowed world label → Stepped world label next → next.Orderly →
      holds next) : world.Orderly ∧ holds world := by
  induction reach with
  | refl => exact ⟨orderly, initially⟩
  | step label _ accepted step ih =>
      have stepped := stepped_of_step step
      obtain ⟨before, held⟩ := ih (Nat.lt_of_le_of_lt stepped.spawned_le few)
      have after := stepped.orderly before few
      exact ⟨after, preserved _ _ _ before held accepted stepped after⟩

end World

end Asyncr
