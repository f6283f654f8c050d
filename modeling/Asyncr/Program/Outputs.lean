import Asyncr.Program.Destructors
import Asyncr.Program.Shutdown

namespace Asyncr

namespace World

open Library
open Time

variable {Output : Type} {world next : World Output} {label : Label Output}
  {allowed : World Output → Label Output → Prop} {clock : Clock} {os : Instant}

/-! Where the outputs are, in every run. -/

/-- Results are published as they came, and the sender is there until it is
released. -/
structure Traced (world : World Output) : Prop where
  frames : ∀ join value, .publish join (.ok value) ∈ world.stack →
    .returned join value ∈ world.log
  panics : ∀ join, .publish join (.error .panic) ∈ world.stack →
    .panicked join ∈ world.log
  ready : ∀ join cell value, world.joins join = some cell →
    cell.state = .ready (.ok value) → .returned join value ∈ world.log
  yielded : ∀ join result, .yielded join result ∈ world.log →
    ∃ cell, world.joins join = some cell ∧ cell.state = .consumed
  published : ∀ join result waker, .published join result waker ∈ world.log →
    (∃ cell, world.joins join = some cell ∧ cell.state.isPending = false) ∧
      (result = .error .panic → .panicked join ∈ world.log)
  tasks : ∀ join value, .returned join value ∈ world.log →
    ∃ schedule, join = .task schedule
  releasing : ∀ join ∈ releasing world.stack, ∃ cell,
    world.joins join = some cell ∧ cell.sender = true
  once : (World.releasing world.stack).Nodup

theorem traced_initial : (initial clock os : World Output).Traced where
  frames := by
    intro join value member
    cases member
  panics := by
    intro join member
    cases member
  ready := by
    intro join cell value found
    cases found
  yielded := by
    intro join result member
    cases member
  published := by
    intro join result waker member
    cases member
  tasks := by
    intro join value member
    cases member
  releasing := by
    intro join member
    cases member
  once := List.nodup_nil

theorem Traced.releases (traced : world.Traced) (effect : Effect world next)
    (cells : world.Cells) :
    (∀ join ∈ World.releasing next.stack, ∃ cell,
      next.joins join = some cell ∧ cell.sender = true) ∧
      (World.releasing next.stack).Nodup := by
  have updated : ∀ {join : JoinRef} {changed : JoinCell Output},
      next.joins = Function.update world.joins join (some changed) →
      (join ∈ World.releasing world.stack → changed.sender = true) →
      ∀ other ∈ World.releasing world.stack, ∃ cell,
        next.joins other = some cell ∧ cell.sender = true := by
    intro join changed joins still other member
    obtain ⟨cell, found, sender⟩ := traced.releasing other member
    rcases kept_updated joins found with ⟨rfl, now⟩ | ⟨_, now⟩
    · exact ⟨changed, now, still member⟩
    · exact ⟨cell, now, sender⟩
  cases effect with
  | same joins published released =>
      rw [released, joins]
      exact ⟨traced.releasing, traced.once⟩
  | kept found joins sender handled published released =>
      rw [released]
      refine ⟨updated joins fun member => ?_, traced.once⟩
      obtain ⟨cell, present, still⟩ := traced.releasing _ member
      cases found.symm.trans present
      exact sender.trans still
  | spawned unclosed step joins stack =>
      rw [stack]
      exact ⟨updated joins fun _ => rfl, traced.once⟩
  | refused closed same counted joins published released =>
      rw [released]
      exact ⟨updated joins fun _ => rfl, traced.once⟩
  | ended stack joins same published released =>
      rw [released]
      refine ⟨?_, List.nodup_nil⟩
      intro join member
      cases member
  | discarded empty joins stack closing closed =>
      rw [stack, releasing_dropTask]
      refine ⟨?_, List.nodup_nil⟩
      intro join member
      cases member
  | @published join cell waker result rest found pending joins same stack published
      released =>
      have held : cell.sender = true :=
        cells.held join cell found (by rw [pending]; rfl)
      rw [released]
      refine ⟨?_, List.nodup_cons.mpr ⟨?_, traced.once⟩⟩
      · intro other member
        rcases List.mem_cons.mp member with rfl | later
        · rw [joins]
          exact ⟨_, Function.update_self .., held⟩
        · exact updated joins (fun _ => held) other later
      · intro member
        obtain ⟨other, present, settled⟩ := cells.releasing join member
        cases found.symm.trans present
        rw [pending] at settled
        cases settled
  | @released join cell found joins same published released =>
      have once := traced.once
      rw [released, List.nodup_cons] at once
      refine ⟨?_, once.2⟩
      intro other member
      have different : other ≠ join := by
        rintro rfl
        exact once.1 member
      obtain ⟨cell, present, sender⟩ :=
        traced.releasing other (released ▸ List.mem_cons_of_mem _ member)
      refine ⟨cell, ?_, sender⟩
      rw [joins]
      exact (Function.update_of_ne different ..).trans present

theorem Traced.consumed (traced : world.Traced) (effect : Effect world next)
    (cells : world.Cells) {join : JoinRef} {result : Except JoinError Output}
    (member : .yielded join result ∈ world.log) :
    ∃ cell, next.joins join = some cell ∧ cell.state = .consumed := by
  obtain ⟨cell, found, consumed⟩ := traced.yielded join result member
  obtain ⟨later, now, handled⟩ := effect.handled cells found (by rw [consumed]; rfl)
  refine ⟨later, now, ?_⟩
  generalize later.state = state at handled ⊢
  rw [consumed] at handled
  cases handled
  rfl

theorem Traced.step (traced : world.Traced) (stepped : Stepped world label next)
    (orderly : world.Orderly) (cancelling : world.Cancelling) : next.Traced := by
  have effect := orderly.effect stepped
  obtain ⟨released, once⟩ := traced.releases effect orderly.cells
  refine ⟨?_, ?_, ?_, ?_, ?_, ?_, released, once⟩
  · intro join value member
    rcases stepped.publish_back orderly.sound.closing orderly.cells cancelling member with
      old | ⟨other, same, _, log⟩ | ⟨isPanic, _⟩ | ⟨isCancelled, _⟩
    · exact stepped.log_stays (traced.frames join value old)
    · cases same
      rw [log]
      exact List.mem_cons_self
    · cases isPanic
    · cases isCancelled
  · intro join member
    rcases stepped.publish_back orderly.sound.closing orderly.cells cancelling member with
      old | ⟨other, isValue, _⟩ | ⟨_, _, log⟩ | ⟨isCancelled, _⟩
    · exact stepped.log_stays (traced.panics join old)
    · cases isValue
    · rw [log]
      exact List.mem_cons_self
    · cases isCancelled
  · intro join cell value found ready
    apply stepped.log_stays
    rcases effect.ready_back found ready with ⟨old, was, wasReady⟩ | ⟨rest, stack⟩
    · exact traced.ready join old value was wasReady
    · exact traced.frames join value (stack ▸ List.mem_cons_self)
  · intro join result member
    rcases stepped.logged with same | ⟨event, log, logged⟩
    · exact traced.consumed effect orderly.cells (same ▸ member)
    · rw [log] at member
      rcases List.mem_cons.mp member with rfl | old
      · cases logged with
        | woke wakes joins =>
            rcases wakes.event with isFired | ⟨_, isWoke⟩
            · cases isFired
            · cases isWoke
        | @yielded _ cell _ found ready same joins stack =>
            exact ⟨_, by rw [joins]; exact Function.update_self .., rfl⟩
      · exact traced.consumed effect orderly.cells old
  · intro join result waker member
    have kept : .published join result waker ∈ world.log →
        (∃ cell, next.joins join = some cell ∧ cell.state.isPending = false) ∧
          (result = .error .panic → .panicked join ∈ next.log) := by
      intro old
      obtain ⟨⟨cell, found, settled⟩, panicked⟩ :=
        traced.published join result waker old
      exact ⟨effect.settled_stays orderly.cells found settled,
        fun isPanic => stepped.log_stays (panicked isPanic)⟩
    rcases stepped.logged with same | ⟨event, log, logged⟩
    · exact kept (same ▸ member)
    · rw [log] at member
      rcases List.mem_cons.mp member with rfl | old
      · cases logged with
        | woke wakes joins =>
            rcases wakes.event with isFired | ⟨_, isWoke⟩
            · cases isFired
            · cases isWoke
        | published stack found state same joins after =>
            refine ⟨⟨_, by rw [joins]; exact Function.update_self .., rfl⟩, ?_⟩
            rintro rfl
            exact stepped.log_stays (traced.panics join (stack ▸ List.mem_cons_self))
      · exact kept old
  · intro join value member
    rcases stepped.logged with same | ⟨event, log, logged⟩
    · exact traced.tasks join value (same ▸ member)
    · rw [log] at member
      rcases List.mem_cons.mp member with rfl | old
      · obtain ⟨stack, _⟩ :=
          logged.concluded (show ProgramEvent.ends join (.returned join value) from rfl)
        obtain ⟨_, root, id, target, isTask, _⟩ :=
          orderly.shaped.inner join (stack ▸ List.mem_singleton.mpr rfl)
        exact ⟨target, isTask⟩
      · exact traced.tasks join value old

/-- An output that the runtime drops, or has dropped: nobody else can have it. -/
structure Spent (world : World Output) (join : JoinRef) : Prop where
  returned : ∃ value, .returned join value ∈ world.log
  completed : world.Resolved join
  unpublished : ∀ value, .publish join (.ok value) ∉ world.stack
  untaken : ∀ value, .yielded join (.ok value) ∉ world.log
  unclaimed : ∀ cell value, world.joins join = some cell →
    cell.state = .ready (.ok value) → cell.handle = false ∧ cell.sender = false

theorem Stepped.yields (stepped : Stepped world label next) {join : JoinRef}
    {result : Except JoinError Output}
    (log : next.log = .yielded join result :: world.log) :
    ∃ cell, world.joins join = some cell ∧ cell.handle = true ∧
      cell.state = .ready result := by
  have woken : ∀ {waker : Waker} {rest : List (Frame Output)}
      {event : ProgramEvent Output}, Wakes world.stack waker rest event →
      event ≠ .yielded join result := by
    intro waker rest event wakes
    rcases wakes.event with rfl | ⟨_, rfl⟩
    · exact nofun
    · exact nofun
  cases stepped with
  | yielded runs found handle ready =>
      cases log
      exact ⟨_, found, handle, ready⟩
  | unwound free fails unwinds step =>
      cases fails with
      | poisoned wakes poisoned => exact absurd (List.cons.inj log).1 (woken wakes)
      | _ => exact absurd log.symm (List.cons_ne_self _ _)
  | wokeCode free wakes => exact absurd (List.cons.inj log).1 (woken wakes)
  | wokeTask free wakes unpoisoned step =>
      exact absurd (List.cons.inj log).1 (woken wakes)
  | awaited _ _ _ _ _ | returned _ _ | caught _ _ | published _ _ _ _ | began _ _ =>
      cases log
  | _ => exact absurd log.symm (List.cons_ne_self _ _)

theorem Stepped.ready_on (stepped : Stepped world label next) (stacked : world.Stacked)
    {join : JoinRef} (isTask : ∃ schedule, join = .task schedule)
    {cell : JoinCell Output} {result : Except JoinError Output}
    (found : next.joins join = some cell) (ready : cell.state = .ready result) :
    (∃ rest, world.stack = .publish join result :: rest) ∨
      ∃ old, world.joins join = some old ∧ old.state = .ready result ∧
        (old.handle = false → cell.handle = false) ∧
        (old.sender = false → cell.sender = false) := by
  cases stepped with
  | refused runs closed =>
      rcases found_updated rfl found with ⟨_, rfl⟩ | ⟨_, old⟩
      · cases ready
      · exact Or.inr ⟨cell, old, ready, id, id⟩
  | spawned runs unclosed step =>
      rcases found_updated rfl found with ⟨_, rfl⟩ | ⟨_, old⟩
      · cases ready
      · exact Or.inr ⟨cell, old, ready, id, id⟩
  | awaited runs before handle known pending =>
      rcases found_updated rfl found with ⟨_, rfl⟩ | ⟨_, old⟩
      · cases ready
      · exact Or.inr ⟨cell, old, ready, id, id⟩
  | yielded runs before handle was =>
      rcases found_updated rfl found with ⟨_, rfl⟩ | ⟨_, old⟩
      · cases ready
      · exact Or.inr ⟨cell, old, ready, id, id⟩
  | @dropped _ before runs present handle =>
      rcases found_updated rfl found with ⟨same, rfl⟩ | ⟨_, old⟩
      · subst same
        refine Or.inr ⟨before, present, ?_, fun _ => rfl, id⟩
        cases state : before.state with
        | pending stored => simp [state, JoinState.abandon] at ready
        | ready other =>
            simp only [state, JoinState.abandon] at ready
            exact ready
        | consumed => simp [state, JoinState.abandon] at ready
      · exact Or.inr ⟨cell, old, ready, id, id⟩
  | published free stack before pending =>
      rcases found_updated rfl found with ⟨same, rfl⟩ | ⟨_, old⟩
      · subst same
        cases ready
        exact Or.inl ⟨_, stack⟩
      · exact Or.inr ⟨cell, old, ready, id, id⟩
  | released free stack before front =>
      rcases found_updated rfl found with ⟨same, rfl⟩ | ⟨_, old⟩
      · subst same
        exact Or.inr ⟨_, before, ready, id, fun _ => rfl⟩
      · exact Or.inr ⟨cell, old, ready, id, id⟩
  | granted free stack before =>
      rcases found_updated rfl found with ⟨rfl, _⟩ | ⟨_, old⟩
      · obtain ⟨number, isRefused⟩ :=
          stacked.granting _ (stack ▸ List.mem_cons_self)
        obtain ⟨schedule, isTask⟩ := isTask
        rw [isTask] at isRefused
        cases isRefused
      · exact Or.inr ⟨cell, old, ready, id, id⟩
  | _ => exact Or.inr ⟨cell, found, ready, id, id⟩

theorem Spent.step {join : JoinRef} (spent : world.Spent join)
    (stepped : Stepped world label next) (orderly : world.Orderly)
    (stacked : world.Stacked) (cancelling : world.Cancelling) (traced : world.Traced)
    (finished : world.Finished) : next.Spent join := by
  obtain ⟨value, returned⟩ := spent.returned
  have isOver : world.Over join := finished.concluded join _ returned rfl
  obtain ⟨schedule, rfl⟩ := traced.tasks join value returned
  refine ⟨⟨value, stepped.log_stays returned⟩, ?_, ?_, ?_, ?_⟩
  · obtain ⟨cell, found, settled⟩ := spent.completed
    exact (orderly.effect stepped).settled_stays orderly.cells found settled
  · intro other member
    rcases stepped.publish_back orderly.sound.closing orderly.cells cancelling member with
      old | ⟨_, _, stack, _⟩ | ⟨isPanic, _⟩ | ⟨isCancelled, _⟩
    · exact spent.unpublished other old
    · exact orderly.running stack isOver
    · cases isPanic
    · cases isCancelled
  · intro other member
    rcases stepped.logged with same | ⟨event, log, logged⟩
    · exact spent.untaken other (same ▸ member)
    · rw [log] at member
      rcases List.mem_cons.mp member with rfl | old
      · obtain ⟨cell, found, handle, ready⟩ := stepped.yields log
        rw [(spent.unclaimed cell other found ready).1] at handle
        cases handle
      · exact spent.untaken other old
  · intro cell other found ready
    rcases stepped.ready_on stacked ⟨schedule, rfl⟩ found ready with
      ⟨rest, stack⟩ | ⟨old, was, wasReady, handle, sender⟩
    · exact absurd (stack ▸ List.mem_cons_self) (spent.unpublished other)
    · obtain ⟨noHandle, noSender⟩ := spent.unclaimed old other was wasReady
      exact ⟨handle noHandle, sender noSender⟩

/-- A join whose future's destructor has panicked is cancelled: what the poll of the
future has left is leaked. -/
structure Forfeited (world : World Output) (join : JoinRef) : Prop where
  finished : world.Over join
  frames : ∀ result, .publish join result ∈ world.stack → result = .error .cancelled
  published : ∀ result waker, .published join result waker ∈ world.log →
    result = .error .cancelled
  unready : ∀ cell value, world.joins join = some cell →
    cell.state ≠ .ready (.ok value)
  untaken : ∀ value, .yielded join (.ok value) ∉ world.log

theorem Forfeited.step {join : JoinRef} (forfeited : world.Forfeited join)
    (stepped : Stepped world label next) (orderly : world.Orderly)
    (cancelling : world.Cancelling) : next.Forfeited join := by
  have effect := orderly.effect stepped
  refine ⟨effect.concluded orderly.cells forfeited.finished, ?_, ?_, ?_, ?_⟩
  · intro result member
    rcases stepped.publish_back orderly.sound.closing orderly.cells cancelling member with
      old | ⟨_, _, stack, _⟩ | ⟨_, stack, _⟩ | ⟨isCancelled, _⟩
    · exact forfeited.frames result old
    · exact absurd forfeited.finished (orderly.running stack)
    · exact absurd forfeited.finished (orderly.running stack)
    · exact isCancelled
  · intro result waker member
    rcases stepped.logged with same | ⟨event, log, logged⟩
    · exact forfeited.published result waker (same ▸ member)
    · rw [log] at member
      rcases List.mem_cons.mp member with rfl | old
      · cases logged with
        | woke wakes joins =>
            rcases wakes.event with isFired | ⟨_, isWoke⟩
            · cases isFired
            · cases isWoke
        | published stack found state same joins after =>
            exact forfeited.frames result (stack ▸ List.mem_cons_self)
      · exact forfeited.published result waker old
  · intro cell value found ready
    rcases effect.ready_back found ready with ⟨old, was, wasReady⟩ | ⟨rest, stack⟩
    · exact forfeited.unready old value was wasReady
    · cases forfeited.frames _ (stack ▸ List.mem_cons_self)
  · intro value member
    rcases stepped.logged with same | ⟨event, log, logged⟩
    · exact forfeited.untaken value (same ▸ member)
    · rw [log] at member
      rcases List.mem_cons.mp member with rfl | old
      · obtain ⟨cell, found, _, ready⟩ := stepped.yields log
        exact forfeited.unready cell value found ready
      · exact forfeited.untaken value old

def Held (world : World Output) (join : JoinRef) (value : Output) : Prop :=
  ∃ cell, world.joins join = some cell ∧ cell.state = .ready (.ok value) ∧
    (cell.handle = true ∨ cell.sender = true)

/-- An output that is held goes on being held, is taken, or is destroyed. -/
theorem held_on (orderly : world.Orderly)
    (step : machine.step world label = some next) {join : JoinRef} {value : Output}
    (held : world.Held join value) :
    next.Held join value ∨ next.log = .yielded join (.ok value) :: world.log ∨
      .dropOutput join ∈ world.calls label ++ destructors next.stack := by
  obtain ⟨cell, found, ready, holder⟩ := held
  have still : ∀ {other : JoinRef} {changed : JoinCell Output},
      next.joins = Function.update world.joins other (some changed) →
      (join = other → changed.state = .ready (.ok value) ∧
        (changed.handle = true ∨ changed.sender = true)) → next.Held join value := by
    intro other changed joins kept
    rcases kept_updated joins found with ⟨same, now⟩ | ⟨_, now⟩
    · exact ⟨changed, now, kept same⟩
    · exact ⟨cell, now, ready, holder⟩
  cases stepped_of_step step with
  | refused runs closed =>
      refine Or.inl (still rfl ?_)
      rintro rfl
      rw [orderly.cells.fresh_refused] at found
      cases found
  | spawned runs unclosed moved =>
      refine Or.inl (still rfl ?_)
      rintro rfl
      rw [orderly.cells.fresh_task] at found
      cases found
  | awaited runs before handle known pending =>
      refine Or.inl (still rfl ?_)
      rintro rfl
      cases found.symm.trans before
      cases ready.symm.trans pending
  | @yielded other waker before result runs present handle was =>
      cases decEq join other with
      | isFalse different =>
          exact Or.inl (still rfl fun same => absurd same different)
      | isTrue same =>
          subst same
          cases found.symm.trans present
          cases ready.symm.trans was
          exact Or.inr (Or.inl rfl)
  | @dropped other before runs present handle =>
      cases decEq join other with
      | isFalse different =>
          exact Or.inl (still rfl fun same => absurd same different)
      | isTrue same =>
          subst same
          cases found.symm.trans present
          cases sender : cell.sender with
          | true =>
              exact Or.inl (still rfl fun _ =>
                ⟨by simp [JoinState.abandon, ready], Or.inr sender⟩)
          | false =>
              have frees : { cell with handle := false }.freesOutput = true :=
                JoinCell.freesOutput_iff.mpr ⟨rfl, sender, value, ready⟩
              right
              right
              simp [calls, found, frees]
  | published free stack before pending =>
      refine Or.inl (still rfl ?_)
      rintro rfl
      cases found.symm.trans before
      cases ready.symm.trans pending
  | @released other rest front before free stack present handed =>
      cases decEq join other with
      | isFalse different =>
          exact Or.inl (still rfl fun same => absurd same different)
      | isTrue same =>
          subst same
          cases found.symm.trans present
          by_cases handle : cell.handle = true
          · exact Or.inl (still rfl fun _ => ⟨ready, Or.inl handle⟩)
          · have frees : { cell with sender := false }.freesOutput = true :=
              JoinCell.freesOutput_iff.mpr
                ⟨Bool.eq_false_iff.mpr handle, rfl, value, ready⟩
            right
            right
            exact List.mem_append_right _ (release_owes stack found frees step)
  | granted free stack before =>
      refine Or.inl (still rfl ?_)
      rintro rfl
      cases found.symm.trans before
      exact ⟨ready, Or.inl rfl⟩
  | _ => exact Or.inl ⟨cell, found, ready, holder⟩

end World

end Asyncr
