import Mathlib.Algebra.BigOperators.Group.Finset.Basic
import Asyncr.Program.ScriptWakes

namespace Asyncr

open Library
open Time

/-! How many steps the blocks of a program have left. -/

namespace Script

variable {Output : Type}

/-- How much a block has to do, with what it spawns, if `results` is what its handles
come to. -/
def cost : Script Output → List (Except JoinError Output) → Nat
  | .ret _, results | .panic, results => results.length + 1
  | .spawn child rest, results =>
      child.cost [] + rest.cost (child.eval [] :: results) + 1
  | .join index rest, results =>
      match results[index]? with
      | some result => (rest result).cost (results.eraseIdx index) + 1
      | none => results.length + 1
  | .sleepUntil _ rest, results => rest.cost results + 1

theorem cost_of_result? {script : Script Output} {handles : List Nat}
    {result : Except JoinError Output} (comes : script.result? handles = some result)
    (meaning : Nat → Except JoinError Output) :
    script.cost (handles.map meaning) = handles.length + 1 := by
  cases script with
  | ret value | panic => simp [cost]
  | spawn child rest | sleepUntil deadline rest => cases comes
  | join index rest =>
      cases found : handles[index]? with
      | some handle => simp [result?, found] at comes
      | none => simp [cost, found]

end Script

def Stage.weight : Stage → Nat
  | .fresh => 2
  | .pending => 1
  | .suspended => 0

namespace Future

variable {Output : Type} {world : World Output} {schedule : Nat} {root : Bool}
  {future : Future Output} {turn : Turn Output}

/-- The sleep that it has, or is about to make. -/
def timing (future : Future Output) : Nat :=
  match future.sleep, future.script with
  | some _, _ => 1
  | none, .sleepUntil _ _ => 2
  | none, _ => 0

def weight (future : Future Output) (meaning : Nat → Except JoinError Output) : Nat :=
  10 * future.script.cost (future.handles.map meaning) + future.spent.toList.length +
    future.stage.weight + future.timing

theorem timing_le (future : Future Output) : future.timing ≤ 2 := by
  unfold timing
  split <;> omega

theorem timing_slept {sleep : Nat} (slept : future.sleep = some sleep) :
    future.timing = 1 := by
  simp [timing, slept]

theorem weight_new_le (script : Script Output) (meaning : Nat → Except JoinError Output) :
    (new script).weight meaning ≤ 10 * script.cost [] + 4 := by
  have timing := timing_le (new script)
  simp only [weight, new, List.map_nil, Option.toList_none, List.length_nil, Stage.weight]
  simp only [new] at timing
  omega

end Future

def Block.weight {Output : Type} (block : Block Output)
    (meaning : Nat → Except JoinError Output) : Nat :=
  match block with
  | .going future => future.weight meaning
  | .ended _ => 0

def Turn.spawns {Output : Type} (turn : Turn Output)
    (meaning : Nat → Except JoinError Output) : Nat :=
  match turn.child with
  | some child => (Future.new child).weight meaning
  | none => 0

namespace Future

variable {Output : Type} {world next : World Output} {schedule : Nat} {root : Bool}
  {future : Future Output} {turn : Turn Output}

theorem Turned.lighter (turned : future.Turned world schedule root turn)
    {meaning : Nat → Except JoinError Output}
    (spawned : ∀ child, turn.child = some child →
      meaning world.executor.scheduling.created = child.eval [])
    (given : ∀ handle ∈ future.handles, ∀ cell result,
      world.joins (.task handle) = some cell → cell.state = .ready result →
      result = meaning handle)
    (arrived : future.stage = .suspended →
      ∃ resource, future.Awaits resource ∧ world.Offers resource)
    (step : World.machine.step world turn.label = some next) :
    turn.left.weight meaning + turn.spawns meaning < future.weight meaning := by
  -- a block that has not returned `Pending` yet does so once
  have pends : ∀ {after : Future Output}, turn.left = .going after →
      future.Runs → after.stage = .pending → 2 ≤ future.stage.weight := by
    intro after left runs pending
    cases stage : future.stage with
    | fresh => exact Nat.le_refl 2
    | pending => exact absurd stage runs.2
    | suspended =>
        obtain ⟨resource, awaits, offers⟩ := arrived stage
        obtain ⟨other, same, fresh⟩ := turned.goes_on stage awaits offers step
        cases left.symm.trans same
        cases pending.symm.trans fresh
  cases turned with
  | freed spent => simp [Block.weight, Turn.spawns, weight, spent, timing]
  | suspended unspent pending =>
      simp [Block.weight, Turn.spawns, weight, pending, timing, Stage.weight]
  | @spawned child rest runs script =>
      have means := spawned child rfl
      have light := weight_new_le child meaning
      have timing := timing_le { future with
        script := rest
        handles := world.executor.scheduling.created :: future.handles
        stage := .fresh }
      simp only [Block.weight, Turn.spawns, weight, script, Script.cost, List.map_cons,
        means, Stage.weight] at light timing ⊢
      omega
  | @joined index handle rest cell result runs script found present ready =>
      have means := given handle (List.mem_of_getElem? found) cell result present ready
      have timing := timing_le {
        script := rest result
        handles := future.handles.eraseIdx index
        sleep := future.sleep
        stage := .fresh
        spent := some (.handle handle) }
      simp only [Block.weight, Turn.spawns, weight, script, Script.cost,
        List.getElem?_map, found, Option.map_some, List.eraseIdx_map, ← means,
        Option.toList_some, List.length_singleton, Stage.weight] at timing ⊢
      omega
  | awaited runs script found unready | dozed runs script sleeps unready =>
      have fresh := pends rfl runs rfl
      have pending : Stage.pending.weight = 1 := rfl
      simp only [Block.weight, Turn.spawns, weight, timing, pending]
      omega
  | timed runs script unslept =>
      simp [Block.weight, Turn.spawns, weight, timing, unslept, script]
  | @slept deadline rest sleep time runs script sleeps called =>
      have timing := timing_le {
        script := rest
        handles := future.handles
        sleep := none
        stage := .fresh
        spent := some (.timer sleep) }
      simp only [Block.weight, Turn.spawns, weight, script, Script.cost,
        Option.toList_some, List.length_singleton, Stage.weight] at timing ⊢
      omega
  | @dropped handle rest result runs comes handles =>
      have before := Script.cost_of_result? comes meaning
      have after := comes
      rw [handles] at before after
      have less := Script.cost_of_result? (Script.result?_tail after) meaning
      simp only [Block.weight, Turn.spawns, weight, timing, before, less, handles,
        List.length_cons]
      omega
  | cancelled runs comes handles sleeps =>
      have slept := timing_slept sleeps
      have unslept : { future with sleep := none }.timing = 0 := by
        unfold timing
        split
        · rename_i same
          cases same
        · rename_i script
          rw [show future.script = _ from script] at comes
          cases comes
        · rfl
      simp only [Block.weight, Turn.spawns, weight, slept, unslept]
      omega
  | ended runs comes handles unslept =>
      have before := Script.cost_of_result? comes meaning
      simp only [Block.weight, Turn.spawns, weight, before]
      omega

theorem weight_congr {meaning other : Nat → Except JoinError Output}
    (same : ∀ handle ∈ future.handles, meaning handle = other handle) :
    future.weight meaning = future.weight other := by
  unfold weight
  rw [List.map_congr_left same]

end Future

namespace Executor

variable {executor next : Executor} {move : Move}

theorem Moved.created_eq (moved : Moved executor move next) (unspawned : move ≠ .spawn)
    (uncalled : move ≠ .blockOn) :
    next.scheduling.created = executor.scheduling.created := by
  cases moved with
  | submitted | blockOn => contradiction
  | remoteWake change | remoteSend change | wake _ change | send change
  | tryReceived _ change | received _ change | notAdmitted _ _ _ change
  | notBegun _ _ _ _ change | began _ _ _ _ change | notFinished _ _ change
  | suspended _ _ change | rootReady _ _ change | taskReady _ _ _ change
  | pollPanicked _ change | released _ _ change | leaked _ change =>
      exact (Scheduling.step_ids rfl change).1
  | _ => rfl

end Executor

namespace World

variable {Output : Type} {world next : World Output} {label : Label Output}

theorem Stepped.created_eq (stepped : Stepped world label next)
    (unspawned : label ≠ .spawn) (unmoved : ∀ move, label ≠ .executor move) :
    next.executor.scheduling.created = world.executor.scheduling.created := by
  rcases stepped.takes with same | ⟨move, takes, step⟩
  · rw [same]
  · apply (Executor.moved_of_step step).created_eq
    · rintro rfl
      cases takes with
      | permitted permitted => exact unmoved _ rfl
      | spawn runs => exact unspawned rfl
    · rintro rfl
      cases takes with
      | permitted permitted => exact unmoved _ rfl

theorem Stepped.created_spawn (stepped : Stepped world .spawn next)
    (unclosed : world.executor.closed = false) :
    next.executor.scheduling.created = world.executor.scheduling.created + 1 := by
  cases stepped with
  | timed cause later => rcases cause with ⟨_, other, _⟩ | ⟨_, _, other⟩ <;> cases other
  | unwound free fails unwinds step => cases fails
  | refused runs closed => cases unclosed.symm.trans closed
  | spawned runs _ step =>
      cases Executor.moved_of_step step with
      | refused _ closed => cases unclosed.symm.trans closed
      | submitted _ _ change =>
          rw [Scheduling.step_create change]

end World

namespace Scripted

variable {Output : Type} {state : Scripted Output} {schedule : Nat}
  {main : Nat → Script Output} {root : Bool} {future : Future Output}
  {turn : Turn Output} {world : World Output}

def weight (state : Scripted Output) : Nat :=
  ∑ schedule ∈ Finset.range state.world.executor.scheduling.created,
    (state.blocks schedule).weight state.meaning

theorem sum_lt_of_one {bound added : Nat} {after before : Nat → Nat}
    (below : schedule < bound)
    (others : ∀ other < bound, other ≠ schedule → after other = before other)
    (less : after schedule + added < before schedule) :
    ∑ other ∈ Finset.range bound, after other + added <
      ∑ other ∈ Finset.range bound, before other := by
  have member := Finset.mem_range.mpr below
  have same : ∑ other ∈ (Finset.range bound).erase schedule, after other =
      ∑ other ∈ (Finset.range bound).erase schedule, before other := by
    apply Finset.sum_congr rfl
    intro other inside
    obtain ⟨different, inRange⟩ := Finset.mem_erase.mp inside
    exact others other (Finset.mem_range.mp inRange) different
  rw [← Finset.add_sum_erase _ after member, ← Finset.add_sum_erase _ before member, same]
  omega

theorem weight_take (turned : future.Turned state.world schedule root turn)
    (unclosed : state.world.executor.closed = false)
    (below : schedule < state.world.executor.scheduling.created)
    (stepped : World.Stepped state.world turn.label world) :
    (state.take schedule turn world).weight =
      ∑ other ∈ Finset.range state.world.executor.scheduling.created,
        ((state.take schedule turn world).blocks other).weight
          (state.take schedule turn world).meaning +
      turn.spawns (state.take schedule turn world).meaning := by
  unfold weight
  rw [take_world]
  cases spawns : turn.child with
  | none =>
      have unspawned : turn.label ≠ .spawn := by
        intro isSpawn
        cases turned with
        | spawned => cases spawns
        | @freed other => cases other <;> cases isSpawn
        | suspended => cases root <;> cases isSpawn
        | @ended result => cases result <;> cases root <;> cases isSpawn
        | _ => cases isSpawn
      rw [stepped.created_eq unspawned turned.abroad.2, Turn.spawns, spawns]
      rfl
  | some child =>
      have isSpawn := turned.spawns spawns
      rw [isSpawn] at stepped
      rw [stepped.created_spawn unclosed, Finset.sum_range_succ]
      have different := Nat.ne_of_gt below
      simp [Turn.spawns, spawns, take, Function.update_of_ne different, Block.weight]

theorem Running.lighter (runs : state.Running schedule future)
    (faithful : state.Faithful main) (managed : state.Managed) (tidy : state.world.Tidy)
    (below : schedule < state.world.executor.scheduling.created)
    (turned : future.Turned state.world schedule root turn)
    (step : World.machine.step state.world turn.label = some world) :
    (state.take schedule turn world).weight < state.weight := by
  have kept : ∀ {other : Nat} {before : Future Output},
      state.blocks other = .going before → ∀ handle ∈ before.handles,
      (state.take schedule turn world).meaning handle = state.meaning handle := by
    intro other before going handle member
    exact take_meaning (managed.handles_below going member)
  rw [weight_take turned managed.unclosed below (World.stepped_of_step step), weight]
  apply sum_lt_of_one below
  · intro other inside different
    rcases take_other state turn world different with ⟨same, _⟩ | ⟨rfl, _⟩
    · rw [same]
      cases block : state.blocks other with
      | ended result => rfl
      | going before => exact Future.weight_congr (kept block)
    · exact absurd inside (Nat.lt_irrefl _)
  · rw [take_self, runs.going]
    change _ < future.weight state.meaning
    rw [← Future.weight_congr (kept runs.going)]
    apply turned.lighter ?_ ?_ runs.arrived step
    · intro child spawns
      exact take_meaning_child spawns
    · intro handle member cell result present ready
      rw [kept runs.going handle member]
      exact faithful.earned managed.unclosed
        (tidy.recorded.ready _ cell result present ready)

end Scripted

end Asyncr
