import Asyncr.Program.Closing

namespace Asyncr

/-- What the runtime keeps in a `RefCell`. -/
inductive SharedCell where
  | pendingSpawns
  | timers
  | join (join : JoinRef)
  deriving DecidableEq, Repr

def ProgramEvent.takes {Output : Type} (join : JoinRef) :
    ProgramEvent Output → Option Waker
  | .published other _ waker => if other = join then waker else none
  | .polled _ | .returned _ _ | .panicked _ | .fired _ | .woke _ _
  | .awaited _ _ | .yielded _ _ => none

def ProgramEvent.wakes {Output : Type} (join : JoinRef) :
    ProgramEvent Output → Option Waker
  | .woke other waker => if other = join then some waker else none
  | .polled _ | .returned _ _ | .panicked _ | .fired _ | .published _ _ _
  | .awaited _ _ | .yielded _ _ => none

def Frame.wakes {Output : Type} (join : JoinRef) : Frame Output → Option Waker
  | .wake other waker => if other = join then some waker else none
  | .running _ | .call _ | .fire _ | .publish _ _ | .release _ | .grant _ => none

/-- Nobody receives what is sent. -/
def Scheduling.Unheard (scheduling : Scheduling) : Prop :=
  scheduling.connected = false ∧ scheduling.ready = []

theorem Scheduling.unheard_sendReady {scheduling : Scheduling}
    (unheard : scheduling.Unheard) (schedule : Nat) :
    (scheduling.sendReady schedule).Unheard := by
  unfold sendReady
  rw [if_neg (by simp [unheard.1])]
  exact unheard

theorem Scheduling.unheard_wakeSection {scheduling : Scheduling}
    (unheard : scheduling.Unheard) (schedule : Nat) :
    (scheduling.wakeSection schedule).1.Unheard :=
  ⟨(wakeSection_connected ..).trans unheard.1, (wakeSection_ready ..).trans unheard.2⟩

namespace Executor

variable {executor next : Executor} {move : Move}

/-- A dropped executor has given up its tasks, first those not admitted. -/
structure Emptied (executor : Executor) : Prop where
  pending : executor.phase.closing = true → executor.phase ≠ .clearing →
    executor.pendingSpawns = []
  tasks : executor.phase = .dropped → executor.failing = false → executor.tasks = ∅
  unheard : executor.phase = .dropped → executor.scheduling.Unheard
  calm : executor.phase.closing = false → executor.failing = false
  leaking : executor.phase = .leaking → executor.failing = true

theorem Emptied.of_opened (opened : executor.phase.closing = false)
    (calm : executor.failing = false) : executor.Emptied := by
  have unclosed : ∀ {phase : Phase}, executor.phase = phase →
      phase.closing = true → False := by
    rintro phase rfl closing
    rw [opened] at closing
    cases closing
  exact ⟨fun closing _ => (unclosed rfl closing).elim,
    fun dropped _ => (unclosed dropped rfl).elim,
    fun dropped => (unclosed dropped rfl).elim,
    fun _ => calm, fun leaking => (unclosed leaking rfl).elim⟩

theorem Emptied.of_clearing (clearing : executor.phase = .clearing) :
    executor.Emptied where
  pending := fun _ other => absurd clearing other
  tasks := by simp [clearing]
  unheard := by simp [clearing]
  calm := by simp [clearing, Phase.closing]
  leaking := by simp [clearing]

theorem Moved.emptied (moved : Moved executor move next)
    (closing : executor.Closing) (emptied : executor.Emptied) : next.Emptied := by
  obtain ⟨pending, tasks, unheard, calm, leaking⟩ := emptied
  have opened : ∀ {phase : Phase}, executor.phase = phase → phase.closing = false →
      executor.failing = false := by
    rintro phase rfl
    exact calm
  cases moved with
  | refused runs closed => exact ⟨pending, tasks, unheard, calm, leaking⟩
  | remoteWake change =>
      refine ⟨pending, tasks, fun dropped => ?_, calm, leaking⟩
      simp only [Scheduling.step, Option.ite_none_right_eq_some,
        Option.some.injEq] at change
      obtain ⟨_, rfl⟩ := change
      exact Scheduling.unheard_wakeSection (unheard dropped) _
  | remoteSend change =>
      refine ⟨pending, tasks, fun dropped => ?_, calm, leaking⟩
      simp only [Scheduling.step, Option.ite_none_right_eq_some,
        Option.some.injEq] at change
      obtain ⟨_, rfl⟩ := change
      exact Scheduling.unheard_sendReady (unheard dropped) _
  | wake runs change =>
      refine ⟨pending, tasks, fun dropped => ?_, calm, leaking⟩
      simp only [Scheduling.step, Option.ite_none_right_eq_some,
        Option.some.injEq] at change
      obtain ⟨_, rfl⟩ := change
      exact Scheduling.unheard_wakeSection (unheard dropped) _
  | send change =>
      refine ⟨pending, tasks, fun dropped => ?_, calm, leaking⟩
      simp only [Scheduling.step] at change
      split at change
      · cases change
        exact Scheduling.unheard_sendReady (unheard dropped) _
      · cases change
  | submitted runs unclosed change =>
      have alive := closing.symm.trans unclosed
      exact .of_opened alive (calm alive)
  | closed before free => exact .of_clearing rfl
  | cleared before free waiting => exact .of_clearing before
  | clearingPanicked before free unfailing => exact .of_clearing rfl
  | torn before free empty =>
      exact ⟨fun _ _ => empty, by simp, by simp, by simp [Phase.closing], by simp⟩
  | destroyed before free member =>
      refine ⟨pending, ?_, ?_, calm, leaking⟩
      · intro dropped
        cases before.symm.trans dropped
      · intro dropped
        cases before.symm.trans dropped
  | tearingPanicked before free unfailing =>
      have drained := pending (by rw [before]; rfl) (by simp [before])
      exact ⟨fun _ _ => drained, by simp, by simp, by simp [Phase.closing], fun _ => rfl⟩
  | droppedPanicked before free =>
      rw [before] at pending tasks unheard
      exact ⟨pending, tasks, unheard, by simp [Phase.closing], by simp⟩
  | released before empty change =>
      simp only [Scheduling.step, Option.ite_none_right_eq_some,
        Option.some.injEq] at change
      obtain ⟨_, rfl⟩ := change
      have drained := pending (by rw [before]; rfl) (by simp [before])
      exact ⟨fun _ _ => drained, fun _ _ => empty, fun _ => ⟨rfl, rfl⟩,
        by simp [Phase.closing], by simp⟩
  | leaked before change =>
      simp only [Scheduling.step, Option.ite_none_right_eq_some,
        Option.some.injEq] at change
      obtain ⟨_, rfl⟩ := change
      have drained := pending (by rw [before]; rfl) (by simp [before])
      refine ⟨fun _ _ => drained, fun _ unfailing => ?_, fun _ => ⟨rfl, rfl⟩,
        by simp [Phase.closing], by simp⟩
      cases (leaking before).symm.trans unfailing
  | blockOn before _ | drain before _ | settle before _ | foundEmpty before _ _
  | tryReceived before _ | received before _ | retry before | notAdmitted before _ _ _
  | notBegun before _ _ _ _ | began before _ _ _ _ | notFinished before _ _
  | suspended before _ _ | rootReady before _ _ | taskReady before _ _ _
  | pollPanicked before _ | wakerPanicked before _ | waitPanicked before _
  | leavingPanicked before _ | unwound before _ | left before _ =>
      exact .of_opened rfl (opened before rfl)

theorem Moved.failing (moved : Moved executor move next) :
    next.failing = executor.failing ∨ move = .panic := by
  cases moved with
  | clearingPanicked | tearingPanicked => exact Or.inr rfl
  | _ => exact Or.inl rfl

theorem Moved.spawned_stays (moved : Moved executor move next)
    (closed : executor.closed = true) : next.spawned = executor.spawned := by
  cases moved with
  | submitted runs unclosed change =>
      rw [closed] at unclosed
      cases unclosed
  | _ => rfl

theorem emptied_initial : initial.Emptied :=
  Emptied.of_opened rfl rfl

end Executor

namespace World

open Library
open Time

variable {Output : Type} {world next : World Output} {label : Label Output}
  {clock : Clock} {os : Instant}

/-- The wakers that were taken out of the join, the latest first. -/
def takenWakers (join : JoinRef) (log : List (ProgramEvent Output)) : List Waker :=
  log.filterMap (ProgramEvent.takes join)

def wokenWakers (join : JoinRef) (log : List (ProgramEvent Output)) : List Waker :=
  log.filterMap (ProgramEvent.wakes join)

def wakingWakers (join : JoinRef) (stack : List (Frame Output)) : List Waker :=
  stack.filterMap (Frame.wakes join)

@[simp] theorem takenWakers_cons (join : JoinRef) (event : ProgramEvent Output)
    (log : List (ProgramEvent Output)) :
    takenWakers join (event :: log) =
      (event.takes join).toList ++ takenWakers join log := by
  cases takes : event.takes join <;> simp [takenWakers, takes]

@[simp] theorem wokenWakers_cons (join : JoinRef) (event : ProgramEvent Output)
    (log : List (ProgramEvent Output)) :
    wokenWakers join (event :: log) =
      (event.wakes join).toList ++ wokenWakers join log := by
  cases wakes : event.wakes join <;> simp [wokenWakers, wakes]

@[simp] theorem wakingWakers_cons (join : JoinRef) (frame : Frame Output)
    (rest : List (Frame Output)) :
    wakingWakers join (frame :: rest) =
      (frame.wakes join).toList ++ wakingWakers join rest := by
  cases wakes : frame.wakes join <;> simp [wakingWakers, wakes]

@[simp] theorem takenWakers_nil (join : JoinRef) :
    takenWakers join ([] : List (ProgramEvent Output)) = [] := rfl

@[simp] theorem wokenWakers_nil (join : JoinRef) :
    wokenWakers join ([] : List (ProgramEvent Output)) = [] := rfl

theorem Stacked.waking_tail (stacked : world.Stacked) {frame : Frame Output}
    {rest : List (Frame Output)} (stack : world.stack = frame :: rest)
    (join : JoinRef) : wakingWakers join rest = [] := by
  apply List.filterMap_eq_nil_iff.mpr
  intro below member
  have unwaking := stacked.waking join
  rw [stack] at unwaking
  cases below with
  | wake other waker =>
      apply if_neg
      rintro rfl
      exact unwaking waker member
  | _ => rfl

theorem wakingWakers_dropTask (task : LocalTask) (join : JoinRef) :
    wakingWakers join (world.dropTask task) = [] := by
  unfold dropTask
  split
  · split <;> rfl
  · rfl

theorem wakingWakers_cleanup (join : JoinRef) (rest : List (Frame Output)) :
    wakingWakers join (cleanup rest) = [] := by
  apply List.filterMap_eq_nil_iff.mpr
  intro frame member
  rcases mem_cleanup member with ⟨_, rfl, _⟩ | ⟨_, _, rfl, _⟩ | ⟨_, rfl⟩
  · rfl
  · rfl
  · rfl

/-- What a step adds to the history of a join: a waker that it takes out is about to
be woken, and one that was about to be woken still is, or has been. -/
structure Delivers (world next : World Output) (new : List (ProgramEvent Output)) :
    Prop where
  logged : next.log = new ++ world.log
  unpolled : ∀ schedule, .polled schedule ∉ new
  delivered : ∀ join, wakingWakers join next.stack ++ wokenWakers join new =
    takenWakers join new ++ wakingWakers join world.stack
  once : ∀ join, takenWakers join new = [] ∨
    ∃ waker, takenWakers join new = [waker] ∧ world.Pending join ∧ ¬ next.Pending join

theorem Delivers.of_same (log : next.log = world.log)
    (same : ∀ join, wakingWakers join next.stack = wakingWakers join world.stack) :
    Delivers world next [] where
  logged := log
  unpolled := by simp
  delivered := by
    intro join
    rw [same join]
    simp [takenWakers, wokenWakers]
  once := fun _ => Or.inl rfl

theorem Wakes.wakes {stack rest : List (Frame Output)} {waker : Waker}
    {event : ProgramEvent Output} (wakes : Wakes stack waker rest event)
    (join : JoinRef) :
    event.takes join = none ∧ (∀ schedule, event ≠ .polled schedule) ∧
      wakingWakers join stack = (event.wakes join).toList ++ wakingWakers join rest := by
  cases wakes with
  | fire => exact ⟨rfl, by simp, rfl⟩
  | wake => exact ⟨rfl, by simp, wakingWakers_cons _ _ _⟩

theorem Stacked.delivers (stacked : world.Stacked) {rest : List (Frame Output)}
    {waker : Waker} {event : ProgramEvent Output}
    (wakes : Wakes world.stack waker rest event)
    (log : next.log = event :: world.log)
    (silent : ∀ join, wakingWakers join next.stack = wakingWakers join rest) :
    Delivers world next [event] where
  logged := log
  unpolled := by
    intro schedule member
    exact (wakes.wakes (.task schedule)).2.1 schedule
      (List.mem_singleton.mp member).symm
  delivered := by
    intro join
    obtain ⟨takes, _, woken⟩ := wakes.wakes join
    obtain ⟨frame, stack⟩ := wakes.ne_nil
    rw [silent join, woken, stacked.waking_tail stack join]
    simp [takes]
  once := by
    intro join
    left
    simp [(wakes.wakes join).1]

theorem Closes.delivers (closes : Closes world label next)
    (stacked : world.Stacked) : ∃ new, Delivers world next new := by
  cases closes with
  | moved _ _ | timed _ | timer _ | rejected | dropped _ _ | refused _ =>
      exact ⟨[], .of_same rfl fun _ => rfl⟩
  | @awaited join waker _ _ runs found pending =>
      refine ⟨[.awaited join waker], rfl, by simp, ?_, fun _ => Or.inl rfl⟩
      intro other
      simp [ProgramEvent.takes, ProgramEvent.wakes, setJoin]
  | @yielded join _ _ result runs found ready =>
      refine ⟨[.yielded join result], rfl, by simp, ?_, fun _ => Or.inl rfl⟩
      intro other
      simp [ProgramEvent.takes, ProgramEvent.wakes, setJoin]
  | unwound fails step =>
      have silent : ∀ {frame : Frame Output} {rest : List (Frame Output)},
          world.stack = frame :: rest → ∀ join,
          wakingWakers join (cleanup rest) = wakingWakers join rest := by
        intro frame rest stack join
        rw [wakingWakers_cleanup, stacked.waking_tail stack]
      cases fails with
      | code stack outermost =>
          refine ⟨[], .of_same rfl ?_⟩
          intro join
          rw [stack]
          exact silent stack join
      | poisoned wakes poisoned =>
          obtain ⟨frame, stack⟩ := wakes.ne_nil
          exact ⟨_, stacked.delivers wakes rfl (silent stack)⟩
      | published stack found twice =>
          refine ⟨[], .of_same rfl ?_⟩
          intro join
          rw [stack]
          exact silent stack join
  | codeReturned stack | called stack | granted stack found =>
      refine ⟨[], .of_same rfl ?_⟩
      intro join
      rw [stack]
      rfl
  | wokeCode wakes => exact ⟨_, stacked.delivers wakes rfl fun _ => rfl⟩
  | wokeTask wakes step => exact ⟨_, stacked.delivers wakes rfl fun _ => rfl⟩
  | @published join result rest cell waker stack found pending =>
      refine ⟨[.published join result waker], rfl, by simp, ?_, ?_⟩
      · intro other
        have silent := stacked.waking_tail stack other
        rw [stack]
        cases waker with
        | none => simp [ProgramEvent.takes, ProgramEvent.wakes, Frame.wakes]
        | some waker =>
            simp [ProgramEvent.takes, ProgramEvent.wakes, Frame.wakes, silent]
      · intro other
        simp only [takenWakers_cons, takenWakers_nil, List.append_nil, ProgramEvent.takes]
        cases decEq join other with
        | isFalse different => exact Or.inl (by simp [different])
        | isTrue same =>
            subst same
            rw [if_pos rfl]
            cases waker with
            | none => exact Or.inl rfl
            | some waker =>
                right
                refine ⟨waker, rfl, ⟨cell, found, by rw [pending]; rfl⟩, ?_⟩
                rintro ⟨after, now, waits⟩
                rcases found_updated rfl now with ⟨_, rfl⟩ | ⟨different, _⟩
                · cases waits
                · exact different rfl
  | @released join rest front cell stack found front =>
      refine ⟨[], .of_same rfl ?_⟩
      intro other
      rw [stack]
      rcases front with rfl | rfl <;> rfl
  | cleared stack step | destroyed stack step =>
      refine ⟨[], .of_same rfl ?_⟩
      intro join
      rw [stack]
      exact wakingWakers_dropTask _ join

/-! What becomes of the joins. -/

def Resolved (world : World Output) (join : JoinRef) : Prop :=
  ∃ cell, world.joins join = some cell ∧ cell.state.isPending = false

/-- The state is still there, unless its result was given to the handle since. -/
inductive Kept (join : JoinRef) (recent : List (ProgramEvent Output)) :
    JoinState Output → JoinState Output → Prop
  | same {state : JoinState Output} : Kept join recent state state
  | yielded {result : Except JoinError Output} :
      .yielded join result ∈ recent → Kept join recent (.ready result) .consumed

theorem Kept.isPending {join : JoinRef} {recent : List (ProgramEvent Output)}
    {before after : JoinState Output} (kept : Kept join recent before after) :
    after.isPending = before.isPending := by
  cases kept with
  | same => rfl
  | yielded member => rfl

theorem Kept.step {join : JoinRef} {recent new : List (ProgramEvent Output)}
    {before state after : JoinState Output} (kept : Kept join recent before state)
    (settled : state.isPending = false)
    (handled : Handled world next join state after)
    (logged : next.log = new ++ world.log) :
    Kept join (new ++ recent) before after := by
  have later : Kept join (new ++ recent) before state := by
    cases kept with
    | same => exact .same
    | yielded member => exact .yielded (List.mem_append_right new member)
  cases handled with
  | same => exact later
  | waiting => cases settled
  | yielded log =>
      have isNew : new = [.yielded join _] :=
        List.append_cancel_right (logged.symm.trans log)
      cases kept with
      | same =>
          apply Kept.yielded
          rw [isNew]
          exact List.mem_cons_self

theorem Resolved.unpending {join : JoinRef} (settled : world.Resolved join) :
    ¬ world.Pending join := by
  obtain ⟨cell, found, isSettled⟩ := settled
  rintro ⟨other, again, isPending⟩
  cases found.symm.trans again
  rw [isSettled] at isPending
  cases isPending

theorem resolved_or_pending {join : JoinRef} (present : world.joins join ≠ none) :
    world.Resolved join ∨ world.Pending join := by
  obtain ⟨cell, found⟩ := Option.ne_none_iff_exists'.mp present
  cases isPending : cell.state.isPending with
  | false => exact Or.inl ⟨cell, found, isPending⟩
  | true => exact Or.inr ⟨cell, found, isPending⟩

theorem Effect.completes (effect : Effect world next) {join : JoinRef}
    {cell : JoinCell Output} (found : next.joins join = some cell)
    (settled : cell.state.isPending = false) (unsettled : ¬ world.Resolved join) :
    ∃ result rest, world.stack = .publish join result :: rest ∧
      cell.state = .ready result := by
  have old : ∀ {before : JoinCell Output}, world.joins join = some before →
      before.state.isPending = false → False :=
    fun before isSettled => unsettled ⟨_, before, isSettled⟩
  cases effect with
  | same joins _ _ | ended _ joins _ _ _ | discarded _ joins _ _ _ =>
      exact (old (joins ▸ found) settled).elim
  | kept before joins sender handled published released =>
      rcases found_updated joins found with ⟨rfl, rfl⟩ | ⟨_, same⟩
      · exact (old before (handled.isPending ▸ settled)).elim
      · exact (old same settled).elim
  | spawned unclosed step joins stack =>
      rcases found_updated joins found with ⟨_, rfl⟩ | ⟨_, same⟩
      · cases settled
      · exact (old same settled).elim
  | refused closed same counted joins published released =>
      rcases found_updated joins found with ⟨_, rfl⟩ | ⟨_, same⟩
      · cases settled
      · exact (old same settled).elim
  | published before state joins same stack published released =>
      rcases found_updated joins found with ⟨rfl, rfl⟩ | ⟨_, same⟩
      · exact ⟨_, _, stack, rfl⟩
      · exact (old same settled).elim
  | released before joins same published released =>
      rcases found_updated joins found with ⟨rfl, rfl⟩ | ⟨_, same⟩
      · exact (old before settled).elim
      · exact (old same settled).elim

/-! What has happened since the executor began to be dropped. -/

structure Shutting (before : World Output) (recent : List (ProgramEvent Output))
    (world : World Output) : Prop where
  logged : world.log = recent ++ before.log
  unpolled : ∀ schedule, .polled schedule ∉ recent
  delivered : ∀ join, wakingWakers join world.stack ++ wokenWakers join recent =
    takenWakers join recent
  once : ∀ join, takenWakers join recent = [] ∨
    (∃ waker, takenWakers join recent = [waker]) ∧ world.Resolved join
  kept : ∀ join old, before.joins join = some old → old.state.isPending = false →
    ∃ cell, world.joins join = some cell ∧ Kept join recent old.state cell.state
  cancelled : ∀ join cell, world.joins join = some cell →
    cell.state.isPending = false → ¬ before.Resolved join →
    Kept join recent (.ready (.error .cancelled)) cell.state

theorem Shutting.step {before : World Output} {recent : List (ProgramEvent Output)}
    (shutting : Shutting before recent world) (closes : Closes world label next)
    (effect : Effect world next) (cells : world.Cells) (stacked : world.Stacked)
    (cancelling : world.Cancelling) (closing : world.executor.phase.closing = true) :
    ∃ recent, Shutting before recent next := by
  obtain ⟨new, delivers⟩ := closes.delivers stacked
  refine ⟨new ++ recent, ?_, ?_, ?_, ?_, ?_, ?_⟩
  · rw [delivers.logged, shutting.logged, List.append_assoc]
  · intro schedule member
    rcases List.mem_append.mp member with isNew | old
    · exact delivers.unpolled schedule isNew
    · exact shutting.unpolled schedule old
  · intro join
    calc wakingWakers join next.stack ++ wokenWakers join (new ++ recent)
        = (wakingWakers join next.stack ++ wokenWakers join new) ++
            wokenWakers join recent := by
          rw [wokenWakers, List.filterMap_append, ← List.append_assoc]
          rfl
      _ = takenWakers join new ++
            (wakingWakers join world.stack ++ wokenWakers join recent) := by
          rw [delivers.delivered, List.append_assoc]
      _ = takenWakers join (new ++ recent) := by
          rw [shutting.delivered, takenWakers, takenWakers, takenWakers,
            List.filterMap_append]
  · intro join
    have joined : takenWakers join (new ++ recent) =
        takenWakers join new ++ takenWakers join recent := List.filterMap_append
    rcases delivers.once join with none | ⟨waker, taken, pending, completed⟩
    · rw [joined, none, List.nil_append]
      refine (shutting.once join).imp_right ?_
      rintro ⟨taken, cell, found, settled⟩
      exact ⟨taken, effect.settled_stays cells found settled⟩
    · right
      have unset : takenWakers join recent = [] :=
        (shutting.once join).resolve_right fun done => done.2.unpending pending
      obtain ⟨cell, found, _⟩ := pending
      have present : world.joins join ≠ none := by
        rw [found]
        exact nofun
      rw [joined, taken, unset]
      exact ⟨⟨waker, rfl⟩,
        (resolved_or_pending (effect.present present)).resolve_right completed⟩
  · intro join old found settled
    obtain ⟨cell, now, kept⟩ := shutting.kept join old found settled
    have isSettled := kept.isPending.trans settled
    obtain ⟨after, later, handled⟩ := effect.handled cells now isSettled
    exact ⟨after, later, kept.step isSettled handled delivers.logged⟩
  · intro join cell found settled unsettled
    by_cases already : world.Resolved join
    · obtain ⟨earlier, now, isSettled⟩ := already
      have kept := shutting.cancelled join earlier now isSettled unsettled
      obtain ⟨after, later, handled⟩ := effect.handled cells now isSettled
      cases found.symm.trans later
      exact kept.step isSettled handled delivers.logged
    · obtain ⟨result, rest, stack, ready⟩ := effect.completes found settled already
      rw [ready, cancelling closing join result (stack ▸ List.mem_cons_self)]
      exact .same

/-- What holds of an executor that is being dropped, or was. -/
structure Closed (world : World Output) : Prop where
  closed : world.executor.closed = true
  stacked : world.Stacked
  acquainted : world.Acquainted
  cancelling : world.Cancelling
  emptied : world.executor.Emptied
  unfired : ∀ waker, .fire waker ∉ world.stack
  granted : ∀ join, .grant join ∈ world.stack → world.joins join ≠ none
  unpoisoned : ∀ schedule,
    (world.executor.scheduling.schedules schedule).poisoned = false

theorem Closed.phase (shut : world.Closed) (orderly : world.Orderly) :
    world.executor.phase.closing = true :=
  orderly.sound.closing.symm.trans shut.closed

theorem Closed.step (shut : world.Closed) (stepped : Stepped world label next)
    (orderly : world.Orderly) : next.Closed := by
  have effect := orderly.effect stepped
  have phase := shut.phase orderly
  refine ⟨stepped.closed_stays shut.closed, stepped.stacked shut.stacked,
    shut.acquainted.step stepped, shut.cancelling.step stepped orderly, ?_, ?_, ?_, ?_⟩
  · rcases stepped.takes with same | ⟨move, _, step⟩
    · rw [same]
      exact shut.emptied
    · exact (Executor.moved_of_step step).emptied orderly.sound.closing shut.emptied
  · intro waker member
    rcases stepped.pushed member with old | pushed
    · exact shut.unfired waker old
    · cases pushed with
      | fired step called isWaker =>
          have busy := Phase.idle_of_closing phase
          rw [Executor.idle_of_loop step rfl] at busy
          cases busy
  · intro join member
    rcases stepped.pushed member with old | pushed
    · exact effect.present (shut.granted join old)
    · cases pushed with
      | granted present => exact present
  · intro schedule
    rcases stepped.takes with same | ⟨move, _, step⟩
    · rw [same]
      exact shut.unpoisoned schedule
    · apply (Executor.moved_of_step step).unpoisoned orderly.sound.polling
        (shut.unpoisoned schedule)
      intro _ root entry dispatching
      rw [dispatching] at phase
      cases phase

/-! From the drop on. -/

/-- What a program knows of its executor before it drops it. -/
structure Droppable (world : World Output) : Prop where
  stacked : world.Stacked
  acquainted : world.Acquainted
  emptied : world.executor.Emptied

theorem run_droppable {allowed : World Output → Label Output → Prop}
    (reach : machine.Reach allowed (initial clock os) world)
    (few : world.executor.spawned < 2 ^ 64 - 1) : world.Orderly ∧ world.Droppable := by
  apply run_invariant reach few orderly_initial
  · exact ⟨stacked_initial, acquainted_initial, Executor.emptied_initial⟩
  · intro world label next orderly droppable _ stepped _
    refine ⟨stepped.stacked droppable.stacked, droppable.acquainted.step stepped, ?_⟩
    rcases stepped.takes with same | ⟨move, _, step⟩
    · rw [same]
      exact droppable.emptied
    · exact (Executor.moved_of_step step).emptied orderly.sound.closing
        droppable.emptied

theorem close_spec {before start : World Output}
    (step : machine.step before (.executor .close) = some start) :
    before.stack = [] ∧ before.executor.phase = .outside ∧
      before.executor.scheduling.own = none ∧
      start = { before with
        executor := { before.executor with closed := true, phase := .clearing } } := by
  change (if before.permits .close then _ else _) = _ at step
  simp only [Option.ite_none_right_eq_some, Option.map_eq_some_iff] at step
  obtain ⟨permitted, executor, moved, rfl⟩ := step
  have empty := List.isEmpty_iff.mp permitted
  cases Executor.moved_of_step moved with
  | closed phase free => exact ⟨empty, phase, free, rfl⟩

theorem Droppable.close {before start : World Output} (droppable : before.Droppable)
    (unpoisoned : ∀ schedule,
      (before.executor.scheduling.schedules schedule).poisoned = false)
    (step : machine.step before (.executor .close) = some start) :
    start.Closed ∧ Shutting before [] start := by
  obtain ⟨empty, phase, free, rfl⟩ := close_spec step
  have absent : ∀ frame, frame ∉ before.stack := by
    intro frame
    rw [empty]
    exact List.not_mem_nil
  refine ⟨⟨rfl, ?_, ?_, ?_, ?_, ?_, ?_, unpoisoned⟩, ?_⟩
  · exact droppable.stacked.same rfl
  · exact ⟨droppable.acquainted.stored, fun _ _ member => absurd member (absent _)⟩
  · exact fun _ join result member => absurd member (absent _)
  · exact .of_clearing rfl
  · exact fun waker => absent _
  · exact fun join member => absurd member (absent _)
  · refine ⟨rfl, by simp, ?_, fun _ => Or.inl rfl, ?_, ?_⟩
    · intro join
      change wakingWakers join before.stack ++ _ = _
      rw [empty]
      rfl
    · intro join old found settled
      exact ⟨old, found, .same⟩
    · intro join cell found settled unsettled
      exact absurd ⟨cell, found, settled⟩ unsettled

theorem run_spawned {start : World Output}
    (reach : machine.Reach Machine.Any start world)
    (closed : start.executor.closed = true) :
    world.executor.closed = true ∧
      world.executor.spawned = start.executor.spawned := by
  induction reach with
  | refl => exact ⟨closed, rfl⟩
  | step label _ _ step ih =>
      obtain ⟨before, same⟩ := ih
      have stepped := stepped_of_step step
      refine ⟨stepped.closed_stays before, ?_⟩
      rw [← same]
      rcases stepped.takes with equal | ⟨move, _, moved⟩
      · rw [equal]
      · exact (Executor.moved_of_step moved).spawned_stays before

theorem run_shutting {before start : World Output} (orderly : before.Orderly)
    (droppable : before.Droppable) (few : before.executor.spawned < 2 ^ 64 - 1)
    (unpoisoned : ∀ schedule,
      (before.executor.scheduling.schedules schedule).poisoned = false)
    (step : machine.step before (.executor .close) = some start)
    (reach : machine.Reach Machine.Any start world) :
    world.Orderly ∧ world.Closed ∧ ∃ recent, Shutting before recent world := by
  obtain ⟨closed, shutting⟩ := droppable.close unpoisoned step
  obtain ⟨_, _, _, same⟩ := close_spec step
  have spawned : world.executor.spawned = before.executor.spawned := by
    rw [(run_spawned reach closed.closed).2, same]
  apply run_invariant reach (by omega)
    ((stepped_of_step step).orderly orderly (by rw [same]; exact few))
  · exact ⟨closed, [], shutting⟩
  · rintro world label next orderly ⟨closed, recent, shutting⟩ _ stepped _
    exact ⟨closed.step stepped orderly,
      shutting.step (stepped.closing orderly closed.closed) (orderly.effect stepped)
        orderly.cells closed.stacked closed.cancelling (closed.phase orderly)⟩

end World

end Asyncr
