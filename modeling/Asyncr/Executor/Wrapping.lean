import Mathlib.Data.Nat.ModEq
import Asyncr.Executor.Ownership

namespace Asyncr

namespace Executor

open Library
open Scheduling

variable {executor next : Executor}

/-! The id counter over runs of any length. -/

/-- How many ids there are besides the root's. -/
def idCount : Nat := 2 ^ 64 - 1

def live (executor : Executor) : List LocalTask :=
  executor.pendingSpawns ++ executor.tasks.entries.map Sigma.snd

def spawnsBelow (executor : Executor) (schedule : Nat) : Nat :=
  (List.range schedule).countP fun earlier =>
    decide ((executor.scheduling.schedules earlier).id ≠ rootTaskId)

/-- A task is spawned only if each one still live is among the last `2 ^ 64 - 2`
that were. -/
def recent (executor : Executor) : Move → Bool
  | .spawn =>
      executor.closed || executor.live.all fun task =>
        decide (executor.spawned < executor.spawnsBelow task.schedule + idCount)
  | _ => true

def Recent (executor : Executor) (move : Move) : Prop :=
  executor.recent move = true

instance (executor : Executor) (move : Move) : Decidable (executor.Recent move) :=
  inferInstanceAs (Decidable (_ = true))

theorem mem_live (coherent : executor.Coherent) {task : LocalTask} :
    task ∈ executor.live ↔ task ∈ executor.pendingSpawns ∨
      executor.tasks.lookup task.id = some task := by
  unfold live
  rw [List.mem_append, List.mem_map]
  apply or_congr_right
  constructor
  · rintro ⟨⟨id, other⟩, member, rfl⟩
    have found : executor.tasks.lookup id = some other :=
      AList.mem_lookup_iff.mpr member
    rw [(coherent.tasks id other found).1]
    exact found
  · intro found
    exact ⟨⟨task.id, task⟩, AList.mem_lookup_iff.mp found, rfl⟩

theorem sends_of_live (coherent : executor.Coherent) {task : LocalTask}
    (member : task ∈ executor.live) : Sends executor.scheduling task := by
  rcases (mem_live coherent).mp member with pending | found
  · exact coherent.pending task pending
  · exact (coherent.tasks _ task found).2

/-- The ids follow the spawns round the counter. -/
structure Wrapping (executor : Executor) : Prop where
  counter : (takeNextId executor.nextId).1.val.toNat =
    executor.spawned % idCount + 1
  spawns : executor.spawnsBelow executor.scheduling.created = executor.spawned
  given : ∀ schedule, schedule < executor.scheduling.created →
    (executor.scheduling.schedules schedule).id ≠ rootTaskId →
    (executor.scheduling.schedules schedule).id.val.toNat =
      executor.spawnsBelow schedule % idCount + 1

theorem wrapping_initial : initial.Wrapping where
  counter := rfl
  spawns := rfl
  given := by
    intro schedule below
    cases below

theorem spawnsBelow_congr {schedule : Nat}
    (ids : ∀ earlier, earlier < schedule →
      (next.scheduling.schedules earlier).id =
        (executor.scheduling.schedules earlier).id) :
    next.spawnsBelow schedule = executor.spawnsBelow schedule := by
  unfold spawnsBelow
  apply List.countP_congr
  intro earlier member
  rw [ids earlier (List.mem_range.mp member)]

theorem spawnsBelow_succ (schedule : Nat) :
    executor.spawnsBelow (schedule + 1) = executor.spawnsBelow schedule +
      if (executor.scheduling.schedules schedule).id = rootTaskId then 0
        else 1 := by
  unfold spawnsBelow
  rw [List.range_succ, List.countP_append, List.countP_singleton]
  simp

theorem spawnsBelow_lt {schedule created : Nat} (below : schedule < created)
    (notRoot : (executor.scheduling.schedules schedule).id ≠ rootTaskId) :
    executor.spawnsBelow schedule < executor.spawnsBelow created := by
  induction created with
  | zero => cases below
  | succ created ih =>
      rw [spawnsBelow_succ]
      rcases Nat.lt_succ_iff_lt_or_eq.mp below with earlier | rfl
      · have before := ih earlier
        omega
      · rw [if_neg notRoot]
        omega

theorem takeNextId_succ (nextId : UInt64) {spawned : Nat}
    (counter : (takeNextId nextId).1.val.toNat = spawned % idCount + 1) :
    (takeNextId (takeNextId nextId).2).1.val.toNat =
      (spawned + 1) % idCount + 1 := by
  have next : (takeNextId nextId).2 = (takeNextId nextId).1.val + 1 := by
    unfold takeNextId
    split
    · rename_i zero
      subst zero
      rfl
    · rfl
  rw [next]
  generalize (takeNextId nextId).1.val = id at counter ⊢
  have bound : spawned % idCount < idCount := Nat.mod_lt _ (by decide)
  have successor : (id + 1).toNat = (id.toNat + 1) % 2 ^ 64 := UInt64.toNat_add id 1
  by_cases last : id.toNat = idCount
  · have wrapped : id + 1 = 0 := by
      apply UInt64.toNat_inj.mp
      rw [successor, last]
      rfl
    rw [wrapped]
    change 1 = (spawned + 1) % idCount + 1
    unfold idCount at *
    omega
  · have grown : (id + 1).toNat = id.toNat + 1 := by
      rw [successor]
      apply Nat.mod_eq_of_lt
      unfold idCount at *
      omega
    have nonzero : id + 1 ≠ 0 := by
      intro zero
      rw [zero] at grown
      cases grown
    rw [takeNextId_of_ne_zero nonzero]
    change (id + 1).toNat = _
    rw [grown, counter]
    unfold idCount at *
    omega

theorem Wrapping.transfer (wrapping : executor.Wrapping)
    (created : next.scheduling.created = executor.scheduling.created)
    (ids : ∀ schedule, schedule < executor.scheduling.created →
      (next.scheduling.schedules schedule).id =
        (executor.scheduling.schedules schedule).id)
    (nextId : next.nextId = executor.nextId)
    (spawned : next.spawned = executor.spawned) : next.Wrapping where
  counter := by
    rw [nextId, spawned]
    exact wrapping.counter
  spawns := by
    rw [created, spawned, spawnsBelow_congr ids]
    exact wrapping.spawns
  given := by
    intro schedule below
    rw [created] at below
    rw [ids schedule below, spawnsBelow_congr fun earlier lower =>
      ids earlier (Nat.lt_trans lower below)]
    exact wrapping.given schedule below

theorem Wrapping.created (wrapping : executor.Wrapping)
    (coherent : executor.Coherent) {id : Id}
    (stepped : executor.scheduling.step (.create id) = some next.scheduling)
    (counter : (takeNextId next.nextId).1.val.toNat = next.spawned % idCount + 1)
    (spawned : next.spawned =
      executor.spawned + if id = rootTaskId then 0 else 1)
    (isNext : id ≠ rootTaskId → id = (takeNextId executor.nextId).1) :
    next.Wrapping := by
  obtain ⟨_, grown, newId, ids⟩ := coherent.created stepped
  have counts : ∀ schedule, schedule ≤ executor.scheduling.created →
      next.spawnsBelow schedule = executor.spawnsBelow schedule := by
    intro schedule bound
    apply spawnsBelow_congr
    intro earlier lower
    exact ids earlier (Nat.lt_of_lt_of_le lower bound)
  refine ⟨counter, ?_, ?_⟩
  · rw [grown, spawnsBelow_succ, counts _ (Nat.le_refl _), newId, spawned,
      wrapping.spawns]
  · intro schedule below notRoot
    rw [grown] at below
    rcases Nat.lt_succ_iff_lt_or_eq.mp below with old | rfl
    · rw [ids schedule old] at notRoot ⊢
      rw [counts schedule (Nat.le_of_lt old)]
      exact wrapping.given schedule old notRoot
    · rw [newId] at notRoot ⊢
      rw [counts _ (Nat.le_refl _), wrapping.spawns, isNext notRoot]
      exact wrapping.counter

theorem Moved.wrapping {move : Move} (moved : Moved executor move next)
    (coherent : executor.Coherent) (wrapping : executor.Wrapping) :
    next.Wrapping := by
  have stepped : ∀ {change : ScheduleStep} {after : Executor},
      executor.scheduling.step change = some after.scheduling →
      Scheduling.created? change = none → after.nextId = executor.nextId →
      after.spawned = executor.spawned → after.Wrapping := by
    intro change after step old nextId spawned
    obtain ⟨created, ids⟩ := Scheduling.step_ids old step
    exact wrapping.transfer created (fun schedule _ => ids schedule) nextId spawned
  cases moved with
  | submitted runs unclosed change =>
      apply wrapping.created coherent change
      · exact takeNextId_succ executor.nextId wrapping.counter
      · rw [if_neg (takeNextId_ne_root executor.nextId)]
      · exact fun _ => rfl
  | blockOn outside change =>
      apply wrapping.created coherent change
      · exact wrapping.counter
      · rw [if_pos rfl]
        rfl
      · exact fun notRoot => absurd rfl notRoot
  | remoteWake change | remoteSend change | wake _ change | send change
  | tryReceived _ change | received _ change | notAdmitted _ _ _ change
  | notBegun _ _ _ _ change | began _ _ _ _ change | notFinished _ _ change
  | suspended _ _ change | rootReady _ _ change | taskReady _ _ _ change
  | pollPanicked _ change | released _ _ change | leaked _ change =>
      exact stepped change rfl rfl rfl
  | refused _ _ | drain _ _ | settle _ _ | foundEmpty _ _ _ | retry _
  | wakerPanicked _ _ | waitPanicked _ _ | leavingPanicked _ _ | clearingPanicked _ _ _
  | tearingPanicked _ _ _ | droppedPanicked _ _ | unwound _ _ | left _ _ | closed _ _
  | cleared _ _ _ | torn _ _ _ | destroyed _ _ _ =>
      exact wrapping.transfer rfl (fun _ _ => rfl) rfl rfl

/-! While the tasks live short enough, no two of them have one id. -/

structure Distinct (executor : Executor) : Prop where
  waiting : (executor.pendingSpawns.map LocalTask.id).Nodup
  apart : ∀ task ∈ executor.pendingSpawns, task.id ∉ executor.tasks
  aged : executor.closed = false → ∀ task ∈ executor.live,
    executor.spawned ≤ executor.spawnsBelow task.schedule + idCount

theorem distinct_initial : initial.Distinct where
  waiting := List.nodup_nil
  apart := by
    intro task member
    cases member
  aged := by
    intro unclosed task member
    cases member

/-- The next id is that of a live task exactly if the counter has gone round once
since that task was spawned. -/
theorem Wrapping.collides_iff (wrapping : executor.Wrapping)
    (coherent : executor.Coherent) {task : LocalTask}
    (member : task ∈ executor.live)
    (aged : executor.spawned ≤ executor.spawnsBelow task.schedule + idCount) :
    task.id = (takeNextId executor.nextId).1 ↔
      executor.spawned = executor.spawnsBelow task.schedule + idCount := by
  have sends := sends_of_live coherent member
  have notRoot : (executor.scheduling.schedules task.schedule).id ≠ rootTaskId := by
    rw [sends.id]
    exact sends.notRoot
  have given := wrapping.given task.schedule sends.created notRoot
  rw [sends.id] at given
  have earlier := spawnsBelow_lt sends.created notRoot
  rw [wrapping.spawns] at earlier
  have counter := wrapping.counter
  unfold idCount at *
  constructor
  · intro same
    rw [same, counter] at given
    omega
  · intro round
    have equal : task.id.val = (takeNextId executor.nextId).1.val := by
      apply UInt64.toNat_inj.mp
      rw [given, counter]
      omega
    exact congrArg Id.mk equal

theorem recent_spawn_iff (unclosed : executor.closed = false) :
    executor.Recent .spawn ↔ ∀ task ∈ executor.live,
      executor.spawned < executor.spawnsBelow task.schedule + idCount := by
  simp [Recent, recent, unclosed]

theorem Distinct.fresh_iff (distinct : executor.Distinct)
    (wrapping : executor.Wrapping) (coherent : executor.Coherent)
    (unclosed : executor.closed = false) :
    (∀ task ∈ executor.live, task.id ≠ (takeNextId executor.nextId).1) ↔
      executor.Recent .spawn := by
  rw [recent_spawn_iff unclosed]
  apply forall₂_congr
  intro task member
  have aged := distinct.aged unclosed task member
  rw [Ne, wrapping.collides_iff coherent member aged]
  omega

theorem Moved.live_back {move : Move} (moved : Moved executor move next)
    (before : executor.Coherent) (after : next.Coherent) {task : LocalTask}
    (member : task ∈ next.live) :
    task ∈ executor.live ∨ move = .spawn ∧ executor.closed = false ∧
      next.spawned = executor.spawned + 1 ∧
      task = ⟨(takeNextId executor.nextId).1, executor.scheduling.created⟩ := by
  rw [mem_live after] at member
  rw [mem_live before]
  cases moved with
  | submitted runs unclosed change =>
      rcases member with waiting | found
      · rcases List.mem_append.mp waiting with old | new
        · exact Or.inl (Or.inl old)
        · exact Or.inr ⟨rfl, unclosed, rfl, List.mem_singleton.mp new⟩
      · exact Or.inl (Or.inr found)
  | drain phase free =>
      left
      rcases member with waiting | found
      · cases waiting
      · rcases lookup_drainPendingSpawns found with admitted | ⟨_, pending⟩
        · exact Or.inr admitted
        · exact Or.inl pending
  | taskReady phase notRoot finishes change =>
      exact Or.inl (member.imp_right fun found => (lookup_erased found).2)
  | destroyed phase free present =>
      exact Or.inl (member.imp_right fun found => (lookup_erased found).2)
  | cleared phase free pending =>
      left
      apply member.imp_left
      intro waiting
      rw [pending]
      exact List.mem_cons_of_mem _ waiting
  | _ => exact Or.inl member

theorem Moved.aged {move : Move} (moved : Moved executor move next)
    (before : executor.Coherent) (after : next.Coherent)
    (wrapping : executor.Wrapping)
    (distinct : executor.Distinct) (recent : executor.Recent move)
    (unclosed : next.closed = false) {task : LocalTask}
    (member : task ∈ next.live) :
    next.spawned ≤ next.spawnsBelow task.schedule + idCount := by
  have open_before : executor.closed = false := by
    cases closed : executor.closed with
    | false => rfl
    | true =>
        rw [moved.closed_stays closed] at unclosed
        cases unclosed
  rcases moved.live_back before after member with old | ⟨rfl, _, grown, rfl⟩
  · have below := (sends_of_live before old).created
    have same : next.spawnsBelow task.schedule =
        executor.spawnsBelow task.schedule := by
      apply spawnsBelow_congr
      intro earlier lower
      exact moved.ids.2 earlier (Nat.lt_trans lower below)
    rw [same]
    have aged := distinct.aged open_before task old
    cases moved with
    | submitted runs _ change =>
        exact (recent_spawn_iff open_before).mp recent task old
    | _ => exact aged
  · have counted : next.spawnsBelow executor.scheduling.created =
        executor.spawned := by
      rw [← wrapping.spawns]
      apply spawnsBelow_congr
      exact moved.ids.2
    dsimp only
    rw [grown, counted]
    unfold idCount
    omega

theorem Moved.distinct {move : Move} (moved : Moved executor move next)
    (before : executor.Coherent) (after : next.Coherent)
    (wrapping : executor.Wrapping) (distinct : executor.Distinct)
    (recent : executor.Recent move) : next.Distinct := by
  have aged := fun unclosed task (member : task ∈ next.live) =>
    moved.aged before after wrapping distinct recent unclosed member
  cases moved with
  | submitted runs unclosed change =>
      have fresh := (distinct.fresh_iff wrapping before unclosed).mpr recent
      refine ⟨?_, ?_, aged⟩
      · dsimp only
        rw [List.map_append, List.nodup_append]
        refine ⟨distinct.waiting, List.nodup_singleton _, ?_⟩
        intro id member other isNew same
        obtain ⟨task, waiting, rfl⟩ := List.mem_map.mp member
        apply fresh task ((mem_live before).mpr (Or.inl waiting))
        rw [same]
        exact List.mem_singleton.mp isNew
      · intro task member present
        rcases List.mem_append.mp member with old | new
        · exact distinct.apart task old present
        · cases List.mem_singleton.mp new
          obtain ⟨other, found⟩ :=
            Option.isSome_iff_exists.mp (AList.lookup_isSome.mpr present)
          have isId := (before.tasks _ other found).1
          apply fresh other ((mem_live before).mpr (Or.inr ?_)) isId
          rw [isId]
          exact found
  | drain phase free => exact ⟨List.nodup_nil, nofun, aged⟩
  | taskReady phase notRoot finishes change =>
      refine ⟨distinct.waiting, ?_, aged⟩
      intro task member present
      exact distinct.apart task member (AList.mem_erase.mp present).2
  | destroyed phase free member =>
      refine ⟨distinct.waiting, ?_, aged⟩
      intro task waiting present
      exact distinct.apart task waiting (AList.mem_erase.mp present).2
  | cleared phase free pending =>
      have waiting := distinct.waiting
      rw [pending] at waiting
      refine ⟨(List.nodup_cons.mp waiting).2, ?_, aged⟩
      intro task member
      exact distinct.apart task (pending ▸ List.mem_cons_of_mem _ member)
  | _ => exact ⟨distinct.waiting, distinct.apart, aged⟩

theorem run_distinct (reach : machine.Reach Recent initial executor) :
    executor.Wrapping ∧ executor.Distinct := by
  induction reach with
  | refl => exact ⟨wrapping_initial, distinct_initial⟩
  | @step middle finish move before recent step ih =>
      have moved := moved_of_step step
      have coherent := (run_steady before).coherent
      exact ⟨moved.wrapping coherent ih.1,
        moved.distinct coherent (moved.coherent coherent) ih.1 ih.2 recent⟩

theorem Distinct.nodup (distinct : executor.Distinct)
    (coherent : executor.Coherent) :
    (executor.live.map LocalTask.id).Nodup := by
  have keys : (executor.tasks.entries.map Sigma.snd).map LocalTask.id =
      executor.tasks.keys := by
    rw [List.map_map]
    apply List.map_congr_left
    intro entry member
    exact (coherent.tasks entry.1 entry.2 (AList.mem_lookup_iff.mpr member)).1
  unfold live
  rw [List.map_append, keys, List.nodup_append]
  refine ⟨distinct.waiting, executor.tasks.keys_nodup, ?_⟩
  intro id waiting other admitted same
  obtain ⟨task, member, rfl⟩ := List.mem_map.mp waiting
  apply distinct.apart task member
  rw [same]
  exact admitted

theorem Distinct.drains (distinct : executor.Distinct)
    (coherent : executor.Coherent) {task : LocalTask}
    (member : task ∈ executor.live) :
    executor.drainPendingSpawns.tasks.lookup task.id = some task := by
  rw [mem_live coherent] at member
  have present : task.id ∈ executor.drainPendingSpawns.tasks := by
    apply mem_drainPendingSpawns.mpr
    rcases member with pending | found
    · exact Or.inr ⟨task, pending, rfl⟩
    · exact Or.inl (AList.lookup_isSome.mp (by rw [found]; rfl))
  obtain ⟨other, found⟩ :=
    Option.isSome_iff_exists.mp (AList.lookup_isSome.mpr present)
  rw [found]
  have admitted : ∀ {task : LocalTask}, executor.tasks.lookup task.id = some task →
      task.id ∈ executor.tasks := fun present =>
    AList.lookup_isSome.mp (by rw [present]; rfl)
  rcases lookup_drainPendingSpawns found with old | ⟨same, pending⟩
  · rcases member with waiting | before
    · exact absurd (AList.lookup_isSome.mp (by rw [old]; rfl))
        (distinct.apart task waiting)
    · exact old.symm.trans before
  · rcases member with waiting | before
    · rw [List.inj_on_of_nodup_map distinct.waiting pending waiting same]
    · exact absurd (same ▸ admitted before) (distinct.apart other pending)

/-- In a run in which no task is live while `2 ^ 64 - 1` others are spawned after
it, no two live tasks have one id, and none is lost when others are admitted.  At the
next spawn its id is new exactly if the condition holds there; it is never the
root's. -/
theorem live_ids_unique (reach : machine.Reach Recent initial executor) :
    (executor.live.map LocalTask.id).Nodup ∧
      (∀ next, machine.step executor .drain = some next →
        ∀ task ∈ executor.live, task ∈ next.live) ∧
      ∀ next, machine.step executor .spawn = some next →
        executor.closed = false →
        ∃ task, next.pendingSpawns = executor.pendingSpawns ++ [task] ∧
          task.id ≠ rootTaskId ∧
          ((∀ other ∈ executor.live, other.id ≠ task.id) ↔
            executor.Recent .spawn) := by
  have coherent := (run_steady reach).coherent
  obtain ⟨wrapping, distinct⟩ := run_distinct reach
  refine ⟨distinct.nodup coherent, ?_, ?_⟩
  · intro next step task member
    have moved : Moved executor .drain next := moved_of_step step
    have after := moved.coherent coherent
    rw [mem_live after]
    right
    cases moved with
    | drain phase free => exact distinct.drains coherent member
  · intro next step unclosed
    have moved : Moved executor .spawn next := moved_of_step step
    cases moved with
    | refused runs closed =>
        rw [closed] at unclosed
        cases unclosed
    | submitted runs _ change =>
        exact ⟨_, rfl, takeNextId_ne_root executor.nextId,
          distinct.fresh_iff wrapping coherent unclosed⟩

/-- A task is spawned and polled, and waits; then the root spawns another. -/
def longLivedMoves : List Move :=
  [.spawn, .send, .blockOn, .send, .drain, .settle, .tryRecv, .dispatch,
    .endPoll .pending, .drain, .settle, .tryRecv, .dispatch, .spawn, .send,
    .endPoll .pending, .drain, .settle, .tryRecv, .dispatch]

def longLived : Executor :=
  (machine.run Recent initial longLivedMoves).getD initial

theorem live_ids_unique_longLived :
    (longLived.live.map LocalTask.id).Nodup ∧ longLived.live.length = 2 := by
  have ran : machine.run Recent initial longLivedMoves = some longLived := rfl
  exact ⟨(live_ids_unique (Machine.reach_of_run ran)).1, rfl⟩

/-! A chain of tasks, each of which spawns the next one and returns, goes on until
the counter comes round to the id of the task that waits. -/

/-- The first task of all waits, and no other but those of the chain is live. -/
structure Waits (executor : Executor) : Prop where
  first : executor.tasks.lookup ⟨1⟩ = some ⟨⟨1⟩, 0⟩
  idle : executor.scheduling.schedules 0 = ⟨⟨1⟩, .idle, false⟩
  unclosed : executor.closed = false
  own : executor.scheduling.own = none
  taken : executor.scheduling.taken = none
  connected : executor.scheduling.connected = true

/-- A task of the chain is polled. -/
structure Chained (executor : Executor) : Prop extends Waits executor where
  polled : ∃ id target, executor.phase = .polling 1 id target ∧ id ≠ ⟨1⟩ ∧
    id ≠ rootTaskId ∧ target < executor.scheduling.created ∧
    executor.scheduling.schedules target = ⟨id, .running false, false⟩
  pending : executor.pendingSpawns = []
  ready : executor.scheduling.ready = []

/-- A task of the chain has spawned the next one and returned. -/
structure Handed (executor : Executor) (task : LocalTask) : Prop
    extends Waits executor where
  iterating : executor.phase = .iterating 1
  pending : executor.pendingSpawns = [task]
  ready : executor.scheduling.ready = [⟨task.id, task.schedule⟩]
  above : 0 < task.schedule
  below : task.schedule < executor.scheduling.created
  queued : executor.scheduling.schedules task.schedule =
    ⟨task.id, .queued, false⟩

theorem chained_longLived : longLived.Chained where
  first := rfl
  idle := rfl
  unclosed := rfl
  own := rfl
  taken := rfl
  connected := rfl
  polled := ⟨⟨2⟩, 2, rfl, by decide, by decide, by decide, rfl⟩
  pending := rfl
  ready := rfl

theorem step_submit (runs : executor.phase.runsCode = true)
    (unclosed : executor.closed = false) (own : executor.scheduling.own = none) :
    machine.step executor .spawn = some { executor with
      scheduling :=
        { executor.scheduling.setSchedule executor.scheduling.created
            ⟨(takeNextId executor.nextId).1, .queued, false⟩ with
          created := executor.scheduling.created + 1
          own := some executor.scheduling.created
          log := .woken executor.scheduling.created :: executor.scheduling.log }
      pendingSpawns := executor.pendingSpawns ++
        [⟨(takeNextId executor.nextId).1, executor.scheduling.created⟩]
      nextId := (takeNextId executor.nextId).2
      spawned := executor.spawned + 1 } := by
  simp [machine, step, runs, free, own, submit, unclosed, andThen, Scheduling.step,
    Scheduling.create, thenSend, wakeSection, setSchedule, TaskSchedule.new,
    TaskSchedule.wake, ScheduleState.wake]

theorem step_deliver {schedule : Nat}
    (own : executor.scheduling.own = some schedule)
    (connected : executor.scheduling.connected = true) :
    machine.step executor .send = some { executor with
      scheduling := { executor.scheduling with
        ready := executor.scheduling.ready ++
          [⟨(executor.scheduling.schedules schedule).id, schedule⟩]
        own := none
        log := .sent ⟨(executor.scheduling.schedules schedule).id, schedule⟩ ::
          executor.scheduling.log } } := by
  simp [machine, step, andThen, Scheduling.step, own, sendReady, connected]

theorem step_finish {root target : Nat} {id : Id} {notified : Bool}
    (phase : executor.phase = .polling root id target) (notRoot : id ≠ rootTaskId)
    (running : executor.scheduling.schedules target =
      ⟨id, .running notified, false⟩) (own : executor.scheduling.own = none) :
    machine.step executor (.endPoll (.ready ())) = some { executor with
      scheduling := { executor.scheduling.setSchedule target
        ⟨id, .complete, false⟩ with own := none }
      tasks := executor.tasks.erase id
      phase := .iterating root } := by
  simp [machine, step, andThen, Scheduling.step, phase, endPoll, own, running, notRoot,
    TaskSchedule.finishPoll, ScheduleState.finishPoll, Scheduling.finishPoll,
    thenSend]

theorem Chained.spawns (chained : executor.Chained) :
    ∃ spawned, machine.step executor .spawn = some spawned ∧
      spawned.pendingSpawns =
        [⟨(takeNextId executor.nextId).1, executor.scheduling.created⟩] := by
  obtain ⟨id, target, phase, _⟩ := chained.polled
  refine ⟨_, step_submit (by rw [phase]; rfl) chained.unclosed chained.own, ?_⟩
  dsimp only
  rw [chained.pending, List.nil_append]

theorem Chained.hands (chained : executor.Chained) :
    ∃ next, machine.Reach Machine.Any executor next ∧
      next.Handed ⟨(takeNextId executor.nextId).1,
        executor.scheduling.created⟩ ∧
      next.spawned = executor.spawned + 1 := by
  obtain ⟨id, target, phase, notFirst, notRoot, below, running⟩ := chained.polled
  have other : target ≠ executor.scheduling.created := Nat.ne_of_lt below
  have notIdle : 0 ≠ target := by
    rintro rfl
    cases chained.idle.symm.trans running
  have spawns := step_submit (by rw [phase]; rfl) chained.unclosed chained.own
  have begins : machine.Reach Machine.Any executor _ :=
    .single .spawn trivial spawns
  have sends : machine.Reach Machine.Any executor _ :=
    .step .send begins trivial (step_deliver rfl chained.connected)
  have still := (Function.update_of_ne other
    (⟨(takeNextId executor.nextId).1, .queued, false⟩ : TaskSchedule)
    executor.scheduling.schedules).trans running
  refine ⟨_, .step (.endPoll (.ready ())) sends trivial
    (step_finish phase notRoot still rfl), ?_, rfl⟩
  · refine ⟨⟨?_, ?_, chained.unclosed, rfl, chained.taken, chained.connected⟩,
      rfl, ?_, ?_, ?_, ?_, ?_⟩
    · exact (AList.lookup_erase_ne notFirst.symm).trans chained.first
    · have notNew : 0 ≠ executor.scheduling.created := by omega
      simp [setSchedule, notIdle, notNew, chained.idle]
    · simp [chained.pending]
    · simp [chained.ready, setSchedule]
    · dsimp only
      omega
    · exact Nat.lt_succ_self _
    · simp [setSchedule, other.symm]

theorem Handed.admits {task : LocalTask} (handed : executor.Handed task) :
    machine.step executor .drain = some { executor with
      tasks := executor.tasks.insert task.id task
      pendingSpawns := []
      phase := .expiring 1 } := by
  simp [machine, step, handed.iterating, free, handed.own, drainPendingSpawns,
    handed.pending]

theorem Handed.polls {task : LocalTask} (handed : executor.Handed task)
    (notFirst : task.id ≠ ⟨1⟩) (notRoot : task.id ≠ rootTaskId) :
    ∃ next, machine.Reach Machine.Any executor next ∧ next.Chained ∧
      next.spawned = executor.spawned := by
  have settled : machine.Reach Machine.Any executor { executor with
      tasks := executor.tasks.insert task.id task
      pendingSpawns := []
      phase := .receiving 1 } := by
    apply Machine.Reach.step .settle (.single .drain trivial handed.admits) trivial
    simp [machine, step, free, handed.own]
  have took : machine.Reach Machine.Any executor { executor with
      scheduling := { executor.scheduling with
        ready := []
        taken := some ⟨task.id, task.schedule⟩ }
      tasks := executor.tasks.insert task.id task
      pendingSpawns := []
      phase := .dispatching 1 } := by
    apply Machine.Reach.step .tryRecv settled trivial
    simp [machine, step, free, handed.own, handed.ready, handed.taken, andThen,
      Scheduling.step, setPhase]
  refine ⟨{ executor with
    scheduling := { executor.scheduling.setSchedule task.schedule
        ⟨task.id, .running false, false⟩ with
      ready := []
      taken := none
      log := .began task.schedule ⟨task.id, task.schedule⟩ ::
        executor.scheduling.log }
    tasks := executor.tasks.insert task.id task
    pendingSpawns := []
    phase := .polling 1 task.id task.schedule },
    .step .dispatch took trivial ?_, ?_, rfl⟩
  · simp [machine, step, dispatch, target?, notRoot, andThen,
      Scheduling.step, handed.queued, TaskSchedule.beginPoll, setSchedule,
      ScheduleState.beginPoll, Scheduling.beginPoll, handed.own, setPhase]
  · refine ⟨⟨?_, ?_, handed.unclosed, handed.own, rfl, handed.connected⟩,
      ⟨task.id, task.schedule, rfl, notFirst, notRoot, handed.below, ?_⟩, rfl,
      rfl⟩
    · exact (AList.lookup_insert_ne notFirst.symm).trans handed.first
    · have other : 0 ≠ task.schedule := Nat.ne_of_lt handed.above
      simp [setSchedule, other, handed.idle]
    · simp [setSchedule]

theorem run_wrapping {allowed : Executor → Move → Prop}
    (reach : machine.Reach allowed initial executor) : executor.Wrapping := by
  induction reach with
  | refl => exact wrapping_initial
  | step move before _ step ih =>
      exact (moved_of_step step).wrapping (run_steady before).coherent ih

/-- The chain reaches any number of spawns up to the one that brings the first id
again. -/
theorem chain (rounds : Nat) (few : rounds + 2 ≤ idCount) :
    ∃ executor, machine.Reach Machine.Any initial executor ∧
      executor.Chained ∧ executor.spawned = rounds + 2 := by
  induction rounds with
  | zero =>
      have ran : machine.run Recent initial longLivedMoves = some longLived := rfl
      exact ⟨longLived, (Machine.reach_of_run ran).weaken fun _ _ _ => trivial,
        chained_longLived, rfl⟩
  | succ rounds ih =>
      obtain ⟨executor, reach, chained, spawned⟩ := ih (by omega)
      obtain ⟨handing, hands, handed, grown⟩ := chained.hands
      have notFirst : (takeNextId executor.nextId).1 ≠ ⟨1⟩ := by
        intro same
        have counter := (run_wrapping reach).counter
        rw [same, spawned, Nat.mod_eq_of_lt (by omega)] at counter
        change 1 = _ at counter
        omega
      obtain ⟨next, polls, again, same⟩ :=
        handed.polls notFirst (takeNextId_ne_root executor.nextId)
      exact ⟨next, (reach.trans hands).trans polls, again, by omega⟩

/-- The first task waits while a chain of `2 ^ 64 - 2` others is run: the next spawn
gets the id of the first task, and takes its place when it is admitted. -/
theorem live_id_reused :
    ∃ executor spawned drained, machine.Reach Machine.Any initial executor ∧
      ⟨⟨1⟩, 0⟩ ∈ executor.live ∧ machine.step executor .spawn = some spawned ∧
      (∃ task ∈ spawned.pendingSpawns, task.id = ⟨1⟩ ∧ task.schedule ≠ 0) ∧
      machine.Reach Machine.Any executor drained ∧
      drained.scheduling.state 0 = .idle ∧ ¬ drained.Owned 0 := by
  obtain ⟨executor, reach, chained, spawned⟩ := chain (idCount - 2) (by decide)
  obtain ⟨after, spawns, pending⟩ := chained.spawns
  obtain ⟨handing, hands, handed, _⟩ := chained.hands
  have reused : (takeNextId executor.nextId).1 = ⟨1⟩ := by
    have counter := (run_wrapping reach).counter
    rw [spawned] at counter
    exact congrArg Id.mk (UInt64.toNat_inj.mp counter)
  have above := handed.above
  rw [reused] at pending handed
  have coherent := (run_steady (reach.trans hands)).coherent
  refine ⟨executor, after, _, reach, ?_, spawns, ?_,
    .step .drain hands trivial handed.admits, ?_, ?_⟩
  · exact (mem_live (run_steady reach).coherent).mpr (Or.inr chained.first)
  · rw [pending]
    exact ⟨_, List.mem_cons_self, rfl, Nat.ne_of_gt above⟩
  · exact congrArg TaskSchedule.state handed.idle
  · rintro (⟨task, waiting, _⟩ | ⟨id, task, found, isFirst⟩)
    · cases waiting
    · cases decEq id ⟨1⟩ with
      | isTrue same =>
          subst same
          rw [AList.lookup_insert] at found
          cases found
          exact absurd isFirst (Nat.ne_of_gt above)
      | isFalse different =>
          rw [AList.lookup_insert_ne different] at found
          obtain ⟨isId, sends⟩ := coherent.tasks id task found
          have sent := sends.id
          rw [isFirst, handed.idle, isId] at sent
          exact different sent.symm

end Executor

end Asyncr
