import Asyncr.Program.Frames

namespace Asyncr

namespace World

open Library
open Time

variable {Output : Type} {world next : World Output} {label : Label Output}
  {allowed : World Output → Label Output → Prop} {clock : Clock} {os : Instant}

/-! The joins: each is completed once, by the sender that its harness owns. -/

def publishing : List (Frame Output) → List JoinRef
  | [] => []
  | .publish join _ :: rest => join :: publishing rest
  | .running _ :: rest | .call _ :: rest | .fire _ :: rest | .wake _ _ :: rest
  | .release _ :: rest | .grant _ :: rest => publishing rest

/-- The joins that were completed and whose senders are still there. -/
def releasing : List (Frame Output) → List JoinRef
  | [] => []
  | .release join :: rest => join :: releasing rest
  | .running _ :: rest | .call _ :: rest | .fire _ :: rest | .wake _ _ :: rest
  | .publish _ _ :: rest | .grant _ :: rest => releasing rest

theorem publishing_append (front rest : List (Frame Output)) :
    publishing (front ++ rest) = publishing front ++ publishing rest := by
  induction front with
  | nil => rfl
  | cons frame front ih => cases frame <;> simp [publishing, ih]

theorem releasing_append (front rest : List (Frame Output)) :
    releasing (front ++ rest) = releasing front ++ releasing rest := by
  induction front with
  | nil => rfl
  | cons frame front ih => cases frame <;> simp [releasing, ih]

theorem publishing_cleanup (rest : List (Frame Output)) :
    publishing (cleanup rest) = publishing rest := by
  induction rest with
  | nil => rfl
  | cons frame rest ih =>
      cases frame with
      | call code => cases code <;> simp [cleanup, publishing, ih]
      | _ => simp [cleanup, publishing, ih]

theorem releasing_cleanup (rest : List (Frame Output)) :
    releasing (cleanup rest) = releasing rest := by
  induction rest with
  | nil => rfl
  | cons frame rest ih =>
      cases frame with
      | call code => cases code <;> simp [cleanup, releasing, ih]
      | _ => simp [cleanup, releasing, ih]

theorem cancelled_of_cleanup {join : JoinRef} {rest : List (Frame Output)}
    (member : join ∈ publishing rest) :
    .publish join (.error .cancelled) ∈ cleanup rest := by
  induction rest with
  | nil => cases member
  | cons frame rest ih =>
      cases frame with
      | publish other result =>
          rcases List.mem_cons.mp member with rfl | later
          · exact List.mem_cons_self
          · exact List.mem_cons_of_mem _ (ih later)
      | call code =>
          cases code with
          | dropPayload join => exact ih member
          | _ => exact List.mem_cons_of_mem _ (ih member)
      | release other => exact List.mem_cons_of_mem _ (ih member)
      | _ => exact ih member

theorem mem_publishing {join : JoinRef} {stack : List (Frame Output)} :
    join ∈ publishing stack ↔ ∃ result, .publish join result ∈ stack := by
  induction stack with
  | nil => simp [publishing]
  | cons frame rest ih =>
      cases frame with
      | publish other result =>
          simp [publishing, ih, exists_or]
      | _ => simp [publishing, ih]

theorem mem_releasing {join : JoinRef} {stack : List (Frame Output)} :
    join ∈ releasing stack ↔ .release join ∈ stack := by
  induction stack with
  | nil => simp [releasing]
  | cons frame rest ih => cases frame <;> simp [releasing, ih]

theorem publishing_fire (wakers : List Waker) :
    publishing (wakers.map (Frame.fire : Waker → Frame Output)) = [] := by
  induction wakers with
  | nil => rfl
  | cons waker rest ih => exact ih

theorem releasing_fire (wakers : List Waker) :
    releasing (wakers.map (Frame.fire : Waker → Frame Output)) = [] := by
  induction wakers with
  | nil => rfl
  | cons waker rest ih => exact ih

theorem publishing_unwound (executor : Executor) :
    publishing (unwound executor : List (Frame Output)) = [] := by
  unfold unwound
  split <;> rfl

theorem releasing_unwound (executor : Executor) :
    releasing (unwound executor : List (Frame Output)) = [] := by
  unfold unwound
  split <;> rfl

theorem releasing_dropTask (task : LocalTask) :
    releasing (world.dropTask task) = [] := by
  unfold dropTask
  split
  · split <;> rfl
  · rfl

def Pending (world : World Output) (join : JoinRef) : Prop :=
  ∃ cell, world.joins join = some cell ∧ cell.state.isPending = true

/-- Who may complete each join. -/
structure Cells (world : World Output) : Prop where
  publishing : ∀ join ∈ publishing world.stack, world.Pending join
  once : (World.publishing world.stack).Nodup
  releasing : ∀ join ∈ releasing world.stack, ∃ cell,
    world.joins join = some cell ∧ cell.state.isPending = false
  held : ∀ join cell, world.joins join = some cell →
    cell.state.isPending = true → cell.sender = true
  gone : ∀ join cell, world.joins join = some cell →
    cell.state.isPending = false → cell.sender = true →
    join ∈ World.releasing world.stack
  created : ∀ schedule, world.joins (.task schedule) ≠ none →
    schedule < world.executor.scheduling.created
  refused : ∀ number, world.joins (.refused number) ≠ none →
    number < world.refused

theorem cells_initial : (initial clock os : World Output).Cells where
  publishing := by
    intro join member
    cases member
  once := List.nodup_nil
  releasing := by
    intro join member
    cases member
  held := by
    intro join cell found
    cases found
  gone := by
    intro join cell found
    cases found
  created := by
    intro schedule present
    exact absurd rfl present
  refused := by
    intro number present
    exact absurd rfl present

/-- What the holder of a handle does to the state that the handle shares. -/
inductive Handled (world next : World Output) (join : JoinRef) :
    JoinState Output → JoinState Output → Prop
  | same {state : JoinState Output} : Handled world next join state state
  | waiting {old new : Option Waker} :
      Handled world next join (.pending old) (.pending new)
  | yielded {result : Except JoinError Output} :
      next.log = .yielded join result :: world.log →
      Handled world next join (.ready result) .consumed

theorem Handled.isPending {join : JoinRef} {before after : JoinState Output}
    (handled : Handled world next join before after) :
    after.isPending = before.isPending := by
  cases handled <;> rfl

/-- What a step does to the joins, and to the frames that concern them. -/
inductive Effect (world next : World Output) : Prop
  | same : next.joins = world.joins →
      publishing next.stack = publishing world.stack →
      releasing next.stack = releasing world.stack → Effect world next
  | kept {join : JoinRef} {cell changed : JoinCell Output} :
      world.joins join = some cell →
      next.joins = Function.update world.joins join (some changed) →
      changed.sender = cell.sender →
      Handled world next join cell.state changed.state →
      publishing next.stack = publishing world.stack →
      releasing next.stack = releasing world.stack → Effect world next
  | spawned : world.executor.closed = false →
      world.executor.step .spawn = some next.executor →
      next.joins = Function.update world.joins
        (.task world.executor.scheduling.created) (some (JoinCell.new true)) →
      next.stack = world.stack → Effect world next
  | refused : world.executor.closed = true →
      next.executor = world.executor →
      next.refused = world.refused + 1 →
      next.joins = Function.update world.joins (.refused world.refused)
        (some (JoinCell.new false)) →
      publishing next.stack = .refused world.refused :: publishing world.stack →
      releasing next.stack = releasing world.stack → Effect world next
  | ended {join : JoinRef} : world.stack = [.running (.inner join)] →
      next.joins = world.joins → next.executor = world.executor →
      publishing next.stack = [join] → releasing next.stack = [] →
      Effect world next
  | discarded {task : LocalTask} : world.stack = [] →
      next.joins = world.joins → next.stack = world.dropTask task →
      world.executor.phase.closing = true →
      next.executor.closed = world.executor.closed → Effect world next
  | published {join : JoinRef} {cell : JoinCell Output} {waker : Option Waker}
      {result : Except JoinError Output} {rest : List (Frame Output)} :
      world.joins join = some cell → cell.state = .pending waker →
      next.joins = Function.update world.joins join
        (some { cell with state := .ready result }) →
      next.executor = world.executor →
      world.stack = .publish join result :: rest →
      publishing world.stack = join :: publishing next.stack →
      releasing next.stack = join :: releasing world.stack → Effect world next
  | released {join : JoinRef} {cell : JoinCell Output} :
      world.joins join = some cell →
      next.joins = Function.update world.joins join
        (some { cell with sender := false }) →
      next.executor = world.executor →
      publishing next.stack = publishing world.stack →
      releasing world.stack = join :: releasing next.stack → Effect world next

theorem publishing_wakes {rest : List (Frame Output)} {waker : Waker}
    {event : ProgramEvent Output} (wakes : Wakes world.stack waker rest event) :
    publishing world.stack = publishing rest := by
  generalize world.stack = stack at wakes ⊢
  cases wakes with
  | fire => rfl
  | wake => rfl

theorem releasing_wakes {rest : List (Frame Output)} {waker : Waker}
    {event : ProgramEvent Output} (wakes : Wakes world.stack waker rest event) :
    releasing world.stack = releasing rest := by
  generalize world.stack = stack at wakes ⊢
  cases wakes with
  | fire => rfl
  | wake => rfl

theorem publishing_unwinds {rest left : List (Frame Output)}
    (unwinds : Unwinds world rest left) : publishing left = publishing rest := by
  cases unwinds with
  | loop phase => simp [publishing_append, publishing_cleanup, publishing]
  | leaving phase => exact publishing_cleanup rest
  | closing phase => exact publishing_cleanup rest

theorem releasing_unwinds {rest left : List (Frame Output)}
    (unwinds : Unwinds world rest left) : releasing left = releasing rest := by
  cases unwinds with
  | loop phase => simp [releasing_append, releasing_cleanup, releasing]
  | leaving phase => exact releasing_cleanup rest
  | closing phase => exact releasing_cleanup rest

/-- A sender never completes its join a second time. -/
theorem Cells.completes (cells : world.Cells) {join : JoinRef}
    {result : Except JoinError Output} {rest : List (Frame Output)}
    (stack : world.stack = .publish join result :: rest)
    {cell : JoinCell Output} (found : world.joins join = some cell) :
    ∃ completed, cell.state.complete result = .ok completed := by
  obtain ⟨other, present, pending⟩ := cells.publishing join (by
    rw [stack]
    exact List.mem_cons_self)
  cases found.symm.trans present
  cases state : cell.state with
  | pending waker => exact ⟨_, rfl⟩
  | ready other =>
      rw [state] at pending
      cases pending
  | consumed =>
      rw [state] at pending
      cases pending

/-- Nothing that was to be published is lost with the frames that a panic leaves. -/
theorem Fails.publishing {rest : List (Frame Output)}
    {log : List (ProgramEvent Output)} (fails : Fails world label rest log)
    (cells : world.Cells) : World.publishing world.stack = World.publishing rest := by
  cases fails with
  | code stack outermost =>
      rw [stack]
      rfl
  | poisoned wakes poisoned => exact publishing_wakes wakes
  | published stack found twice =>
      obtain ⟨completed, completes⟩ := cells.completes stack found
      rw [twice] at completes
      cases completes

theorem Stepped.effect (stepped : Stepped world label next)
    (placed : world.Placed) (cells : world.Cells) : Effect world next := by
  cases stepped with
  | refused runs closed => exact .refused closed rfl rfl rfl rfl rfl
  | spawned runs unclosed step => exact .spawned unclosed step rfl rfl
  | awaited runs found handle known pending =>
      exact .kept found rfl rfl (by rw [pending]; exact .waiting) rfl rfl
  | yielded runs found handle ready =>
      exact .kept found rfl rfl (by rw [ready]; exact .yielded rfl) rfl rfl
  | @dropped join cell runs found handle =>
      refine .kept found rfl rfl ?_ rfl rfl
      cases state : cell.state with
      | pending waker => exact .waiting
      | ready result => exact .same
      | consumed => exact .same
  | suspended free stack step =>
      refine .same rfl ?_ ?_
      · rw [stack]
        exact publishing_unwound _
      · rw [stack]
        exact releasing_unwound _
  | returned free stack => exact .ended stack rfl rfl rfl rfl
  | rootYielded free stack step =>
      refine .same rfl ?_ ?_
      · rw [stack]
        dsimp only
        split <;> rfl
      · rw [stack]
        dsimp only
        split <;> rfl
  | caught free stack => exact .ended stack rfl rfl rfl rfl
  | unwound free fails unwinds step =>
      refine .same rfl ?_ ?_
      · exact (publishing_unwinds unwinds).trans (fails.publishing cells).symm
      · rw [show releasing _ = _ from releasing_unwinds unwinds]
        cases fails with
        | code stack outermost =>
            rw [stack]
            rfl
        | poisoned wakes poisoned => exact (releasing_wakes wakes).symm
        | published stack found twice =>
            obtain ⟨completed, completes⟩ := cells.completes stack found
            rw [twice] at completes
            cases completes
  | codeReturned free stack notRoot notInner =>
      exact .same rfl (by rw [stack]; rfl) (by rw [stack]; rfl)
  | called free stack => exact .same rfl (by rw [stack]; rfl) (by rw [stack]; rfl)
  | wokeCode free wakes =>
      exact .same rfl (publishing_wakes wakes).symm (releasing_wakes wakes).symm
  | wokeTask free wakes unpoisoned step =>
      exact .same rfl (publishing_wakes wakes).symm (releasing_wakes wakes).symm
  | @published join result rest cell waker free stack found pending =>
      refine .published found pending rfl rfl stack ?_ ?_
      · rw [stack]
        cases waker <;> rfl
      · rw [stack]
        cases waker <;> rfl
  | released free stack found front =>
      refine .released found rfl rfl ?_ ?_
      · rw [stack]
        rcases front with rfl | ⟨rfl, _⟩ <;> rfl
      · rw [stack]
        rcases front with rfl | ⟨rfl, _⟩ <;> rfl
  | granted free stack found =>
      exact .kept found rfl rfl .same (by rw [stack]; rfl) (by rw [stack]; rfl)
  | drained step called =>
      have empty := placed.empty step rfl
      exact .same rfl (by rw [empty]; exact publishing_fire _)
        (by rw [empty]; exact releasing_fire _)
  | stuck phase wait found paused failed step =>
      have empty : world.stack = [] := placed (by rw [phase]; rfl)
      exact .same rfl (by rw [empty]; rfl) (by rw [empty]; rfl)
  | began step phase =>
      have empty := placed.empty step rfl
      exact .same rfl (by rw [empty]; rfl) (by rw [empty]; rfl)
  | notBegun step other =>
      have empty := placed.empty step rfl
      exact .same rfl (by rw [empty]; rfl) (by rw [empty]; rfl)
  | finished free phase notRoot stack step =>
      refine .same rfl ?_ ?_
      · rw [stack]
        exact publishing_unwound _
      · rw [stack]
        exact releasing_unwound _
  | cleared stack pending step =>
      cases Executor.moved_of_step step with
      | cleared phase free waiting =>
          exact .discarded stack rfl rfl (by rw [phase]; rfl) rfl
  | destroyed stack found step =>
      cases Executor.moved_of_step step with
      | destroyed phase free member =>
          exact .discarded stack rfl rfl (by rw [phase]; rfl) rfl
  | moved _ _ | timed _ _ | timer _ _ _ | rejected | planned _ _ _ _
  | jumped _ _ _ _ _ _ | received _ _ | timedOut _ _ => exact .same rfl rfl rfl

theorem publishing_dropTask (task : LocalTask) :
    publishing (world.dropTask task) = [] ∨
      publishing (world.dropTask task) = [.task task.schedule] ∧
        ∃ cell, world.joins (.task task.schedule) = some cell ∧
          cell.sender = true := by
  unfold dropTask
  split
  · rename_i cell found
    split
    · rename_i sender
      exact Or.inr ⟨rfl, cell, found, sender⟩
    · exact Or.inl rfl
  · exact Or.inl rfl

theorem Cells.pending_of_sender (cells : world.Cells) (empty : world.stack = [])
    {join : JoinRef} {cell : JoinCell Output}
    (found : world.joins join = some cell) (sender : cell.sender = true) :
    cell.state.isPending = true := by
  cases pending : cell.state.isPending with
  | true => rfl
  | false =>
      have member := cells.gone join cell found pending sender
      rw [empty] at member
      cases member

theorem Stepped.created_le (stepped : Stepped world label next) :
    world.executor.scheduling.created ≤ next.executor.scheduling.created := by
  rcases stepped.takes with same | ⟨move, _, moved⟩
  · rw [same]
  · exact (Executor.moved_of_step moved).ids.1

theorem Stepped.refused_le (stepped : Stepped world label next) :
    world.refused ≤ next.refused := by
  cases stepped with
  | refused runs closed => exact Nat.le_succ _
  | _ => exact Nat.le_refl _

theorem Cells.transfer (cells : world.Cells) (joins : next.joins = world.joins)
    (published : World.publishing next.stack = World.publishing world.stack)
    (released : World.releasing next.stack = World.releasing world.stack)
    (created : world.executor.scheduling.created ≤
      next.executor.scheduling.created)
    (refused : world.refused ≤ next.refused) : next.Cells where
  publishing := by
    unfold Pending
    rw [joins, published]
    exact cells.publishing
  once := published ▸ cells.once
  releasing := by
    rw [joins, released]
    exact cells.releasing
  held := by
    rw [joins]
    exact cells.held
  gone := by
    rw [joins, released]
    exact cells.gone
  created := by
    rw [joins]
    exact fun schedule present =>
      Nat.lt_of_lt_of_le (cells.created schedule present) created
  refused := by
    rw [joins]
    exact fun number present =>
      Nat.lt_of_lt_of_le (cells.refused number present) refused

theorem Cells.restacked (cells : world.Cells) (joins : next.joins = world.joins)
    (unreleased : World.releasing world.stack = [])
    (released : World.releasing next.stack = [])
    (once : (World.publishing next.stack).Nodup)
    (pending : ∀ join ∈ World.publishing next.stack, world.Pending join)
    (created : world.executor.scheduling.created ≤
      next.executor.scheduling.created)
    (refused : world.refused ≤ next.refused) : next.Cells where
  publishing := by
    unfold Pending
    rw [joins]
    exact pending
  once := once
  releasing := by
    rw [released]
    intro join member
    cases member
  held := by
    rw [joins]
    exact cells.held
  gone := by
    rw [joins]
    intro join cell found settled sender
    have member := cells.gone join cell found settled sender
    rw [unreleased] at member
    cases member
  created := by
    rw [joins]
    exact fun schedule present =>
      Nat.lt_of_lt_of_le (cells.created schedule present) created
  refused := by
    rw [joins]
    exact fun number present =>
      Nat.lt_of_lt_of_le (cells.refused number present) refused

theorem Cells.change (cells : world.Cells) {join : JoinRef}
    {changed : JoinCell Output}
    (joins : next.joins = Function.update world.joins join (some changed))
    (publishing : ∀ other ∈ World.publishing next.stack,
      (other ≠ join → other ∈ World.publishing world.stack) ∧
        (other = join → changed.state.isPending = true))
    (once : (World.publishing next.stack).Nodup)
    (releasing : ∀ other ∈ World.releasing next.stack,
      (other ≠ join → other ∈ World.releasing world.stack) ∧
        (other = join → changed.state.isPending = false))
    (kept : ∀ other, other ≠ join → other ∈ World.releasing world.stack →
      other ∈ World.releasing next.stack)
    (held : changed.state.isPending = true → changed.sender = true)
    (gone : changed.state.isPending = false → changed.sender = true →
      join ∈ World.releasing next.stack)
    (created : world.executor.scheduling.created ≤
      next.executor.scheduling.created)
    (refused : world.refused ≤ next.refused)
    (isTask : ∀ schedule, join = .task schedule →
      schedule < next.executor.scheduling.created)
    (isRefused : ∀ number, join = .refused number → number < next.refused) :
    next.Cells := by
  have self : next.joins join = some changed := by
    rw [joins]
    exact Function.update_self ..
  have others : ∀ other, other ≠ join → next.joins other = world.joins other := by
    intro other different
    rw [joins]
    exact Function.update_of_ne different ..
  refine ⟨?_, once, ?_, ?_, ?_, ?_, ?_⟩
  · intro other member
    obtain ⟨old, still⟩ := publishing other member
    cases decEq other join with
    | isTrue same =>
        subst same
        exact ⟨changed, self, still rfl⟩
    | isFalse different =>
        unfold Pending
        rw [others other different]
        exact cells.publishing other (old different)
  · intro other member
    obtain ⟨old, settled⟩ := releasing other member
    cases decEq other join with
    | isTrue same =>
        subst same
        exact ⟨changed, self, settled rfl⟩
    | isFalse different =>
        rw [others other different]
        exact cells.releasing other (old different)
  · intro other cell found pending
    cases decEq other join with
    | isTrue same =>
        subst same
        cases self.symm.trans found
        exact held pending
    | isFalse different =>
        rw [others other different] at found
        exact cells.held other cell found pending
  · intro other cell found settled sender
    cases decEq other join with
    | isTrue same =>
        subst same
        cases self.symm.trans found
        exact gone settled sender
    | isFalse different =>
        rw [others other different] at found
        exact kept other different (cells.gone other cell found settled sender)
  · intro schedule present
    cases decEq (.task schedule) join with
    | isTrue same => exact isTask schedule same.symm
    | isFalse different =>
        rw [others _ different] at present
        exact Nat.lt_of_lt_of_le (cells.created schedule present) created
  · intro number present
    cases decEq (.refused number) join with
    | isTrue same => exact isRefused number same.symm
    | isFalse different =>
        rw [others _ different] at present
        exact Nat.lt_of_lt_of_le (cells.refused number present) refused

theorem Cells.absent (cells : world.Cells) {join : JoinRef}
    (missing : world.joins join = none) :
    join ∉ World.publishing world.stack ∧
      join ∉ World.releasing world.stack := by
  refine ⟨?_, ?_⟩
  · intro member
    obtain ⟨cell, found, _⟩ := cells.publishing join member
    rw [missing] at found
    cases found
  · intro member
    obtain ⟨cell, found, _⟩ := cells.releasing join member
    rw [missing] at found
    cases found

theorem Cells.fresh_task (cells : world.Cells) :
    world.joins (.task world.executor.scheduling.created) = none := by
  by_contra present
  exact Nat.lt_irrefl _ (cells.created _ present)

theorem Cells.fresh_refused (cells : world.Cells) :
    world.joins (.refused world.refused) = none := by
  by_contra present
  exact Nat.lt_irrefl _ (cells.refused _ present)

theorem created_of_spawn {executor after : Executor}
    (step : executor.step .spawn = some after) (unclosed : executor.closed = false) :
    executor.scheduling.created < after.scheduling.created := by
  cases Executor.moved_of_step step with
  | refused runs closed =>
      rw [unclosed] at closed
      cases closed
  | submitted runs _ change =>
      rw [Scheduling.step_create change]
      exact Nat.lt_succ_self _

theorem Effect.cells (effect : Effect world next) (cells : world.Cells)
    (inner : ∀ join, world.stack = [.running (.inner join)] → world.Pending join)
    (created : world.executor.scheduling.created ≤
      next.executor.scheduling.created)
    (refused : world.refused ≤ next.refused) : next.Cells := by
  have below : ∀ {join : JoinRef} {cell : JoinCell Output},
      world.joins join = some cell →
      (∀ schedule, join = .task schedule →
        schedule < next.executor.scheduling.created) ∧
      ∀ number, join = .refused number → number < next.refused := by
    intro join cell found
    have present : world.joins join ≠ none := by
      rw [found]
      exact nofun
    refine ⟨?_, ?_⟩
    · rintro schedule rfl
      exact Nat.lt_of_lt_of_le (cells.created schedule present) created
    · rintro number rfl
      exact Nat.lt_of_lt_of_le (cells.refused number present) refused
  cases effect with
  | same joins published released =>
      exact cells.transfer joins published released created refused
  | @kept join cell changed found joins sender handled published released =>
      have pending := handled.isPending
      obtain ⟨isTask, isRefused⟩ := below found
      refine cells.change joins ?_ (published ▸ cells.once) ?_ ?_ ?_ ?_ created
        refused isTask isRefused
      · intro other member
        rw [published] at member
        refine ⟨fun _ => member, ?_⟩
        rintro rfl
        obtain ⟨same, present, still⟩ := cells.publishing other member
        cases found.symm.trans present
        exact pending.trans still
      · intro other member
        rw [released] at member
        refine ⟨fun _ => member, ?_⟩
        rintro rfl
        obtain ⟨same, present, settled⟩ := cells.releasing other member
        cases found.symm.trans present
        exact pending.trans settled
      · intro other _ member
        exact released ▸ member
      · intro now
        rw [sender]
        exact cells.held join cell found (pending.symm.trans now)
      · intro now holds
        rw [released]
        exact cells.gone join cell found (pending.symm.trans now)
          (sender.symm.trans holds)
  | spawned unclosed step joins stack =>
      obtain ⟨unpublished, unreleased⟩ := cells.absent cells.fresh_task
      refine cells.change joins ?_ ?_ ?_ ?_ (fun _ => rfl) nofun created refused ?_
        nofun
      · intro other member
        rw [stack] at member
        exact ⟨fun _ => member, fun _ => rfl⟩
      · rw [stack]
        exact cells.once
      · intro other member
        rw [stack] at member
        refine ⟨fun _ => member, ?_⟩
        rintro rfl
        exact absurd member unreleased
      · intro other _ member
        rw [stack]
        exact member
      · rintro schedule ⟨⟩
        exact created_of_spawn step unclosed
  | refused closed same counted joins published released =>
      obtain ⟨unpublished, unreleased⟩ := cells.absent cells.fresh_refused
      refine cells.change joins ?_ ?_ ?_ ?_ (fun _ => rfl) nofun created refused
        nofun ?_
      · intro other member
        rw [published] at member
        refine ⟨fun different => ?_, fun _ => rfl⟩
        exact (List.mem_cons.mp member).resolve_left different
      · rw [published]
        exact List.nodup_cons.mpr ⟨unpublished, cells.once⟩
      · intro other member
        rw [released] at member
        refine ⟨fun _ => member, ?_⟩
        rintro rfl
        exact absurd member unreleased
      · intro other _ member
        exact released ▸ member
      · rintro number ⟨⟩
        omega
  | @ended join stack joins same published released =>
      apply cells.restacked joins (by rw [stack]; rfl) released ?_ ?_ created refused
      · rw [published]
        exact List.nodup_singleton join
      · intro other member
        rw [published] at member
        cases List.mem_singleton.mp member
        exact inner join stack
  | @discarded task empty joins stack closing closed =>
      apply cells.restacked joins (by rw [empty]; rfl)
        (by rw [stack, releasing_dropTask]) ?_ ?_ created refused
      · rw [stack]
        rcases (publishing_dropTask task : publishing (world.dropTask task) = [] ∨ _) with
          none | ⟨only, _⟩
        · rw [none]
          exact List.nodup_nil
        · rw [only]
          exact List.nodup_singleton _
      · intro other member
        rw [stack] at member
        rcases (publishing_dropTask task : publishing (world.dropTask task) = [] ∨ _) with
          none | ⟨only, cell, found, sender⟩
        · rw [none] at member
          cases member
        · rw [only] at member
          cases List.mem_singleton.mp member
          exact ⟨cell, found, cells.pending_of_sender empty found sender⟩
  | @published join cell waker result rest found pending joins same stack published
      released =>
      obtain ⟨isTask, isRefused⟩ := below found
      have once := cells.once
      rw [published, List.nodup_cons] at once
      refine cells.change joins ?_ once.2 ?_ ?_ nofun ?_ created refused isTask
        isRefused
      · intro other member
        refine ⟨fun _ => published ▸ List.mem_cons_of_mem _ member, ?_⟩
        rintro rfl
        exact absurd member once.1
      · intro other member
        rw [released] at member
        refine ⟨fun different => ?_, fun _ => rfl⟩
        exact (List.mem_cons.mp member).resolve_left different
      · intro other _ member
        exact released ▸ List.mem_cons_of_mem _ member
      · intro _ _
        exact released ▸ List.mem_cons_self
  | @released join cell found joins same published released =>
      obtain ⟨isTask, isRefused⟩ := below found
      have done : join ∈ releasing world.stack := released ▸ List.mem_cons_self
      obtain ⟨other, present, settled⟩ := cells.releasing join done
      cases found.symm.trans present
      refine cells.change joins ?_ (published ▸ cells.once) ?_ ?_ ?_ nofun created
        refused isTask isRefused
      · intro other member
        rw [published] at member
        refine ⟨fun _ => member, ?_⟩
        rintro rfl
        obtain ⟨same, again, pending⟩ := cells.publishing other member
        cases found.symm.trans again
        exact pending
      · intro other member
        exact ⟨fun _ => released ▸ List.mem_cons_of_mem _ member,
          fun _ => settled⟩
      · intro other different member
        rw [released] at member
        exact (List.mem_cons.mp member).resolve_left different
      · intro pending
        exact absurd (settled.symm.trans pending) (by simp)

end World

end Asyncr
