import Asyncr.Program.Structured

namespace Asyncr

open Library
open Time

/-! Programs that are written with `spawn`, `sleep_until` and `await`, and what they
mean without a runtime. -/

/-- What an `async` block does.  It awaits the handles of the tasks that it has spawned;
the latest comes first. -/
inductive Script (Output : Type) where
  | ret (value : Output)
  | panic
  | spawn (child rest : Script Output)
  | join (index : Nat) (rest : Except JoinError Output → Script Output)
  | sleepUntil (deadline : Instant) (rest : Script Output)

namespace Script

variable {Output : Type}

/-- What the block comes to if every task runs to its end where it is spawned. -/
def eval : Script Output → List (Except JoinError Output) →
    Except JoinError Output
  | .ret value, _ => .ok value
  | .panic, _ => .error .panic
  | .spawn child rest, results => rest.eval (child.eval [] :: results)
  | .join index rest, results =>
      match results[index]? with
      | some result => (rest result).eval (results.eraseIdx index)
      | none => .error .panic
  | .sleepUntil _ rest, results => rest.eval results

/-- What the block has come to, if nothing is left of it; awaiting a handle that is not
there panics. -/
def result? (script : Script Output) (handles : List Nat) :
    Option (Except JoinError Output) :=
  match script with
  | .ret value => some (.ok value)
  | .panic => some (.error .panic)
  | .join index _ =>
      match handles[index]? with
      | some _ => none
      | none => some (.error .panic)
  | .spawn _ _ | .sleepUntil _ _ => none

theorem eval_of_result? {script : Script Output} {handles : List Nat}
    {result : Except JoinError Output} (comes : script.result? handles = some result)
    (meaning : Nat → Except JoinError Output) :
    script.eval (handles.map meaning) = result := by
  cases script with
  | ret value | panic =>
      cases comes
      rfl
  | spawn child rest | sleepUntil deadline rest => cases comes
  | join index rest =>
      cases found : handles[index]? with
      | some handle => simp [result?, found] at comes
      | none =>
          simp only [result?, found, Option.some.injEq] at comes
          simp [eval, found, comes]

end Script

/-! The state machine that is polled for a block. -/

inductive Stage where
  | fresh
  /-- The poll returns `Pending`. -/
  | pending
  /-- The poll has returned `Pending`. -/
  | suspended
  deriving DecidableEq, Repr

inductive Resource where
  | handle (target : Nat)
  | timer (sleep : Nat)
  deriving DecidableEq, Repr

def Resource.drop {Output : Type} : Resource → Label Output
  | .handle target => .dropJoin (.task target)
  | .timer sleep => .timer (.drop sleep)

structure Future (Output : Type) where
  script : Script Output
  handles : List Nat
  /-- The sleep that it awaits. -/
  sleep : Option Nat
  stage : Stage
  /-- What it has awaited to the end and has not dropped yet. -/
  spent : Option Resource

inductive Block (Output : Type) where
  | going (future : Future Output)
  | ended (result : Except JoinError Output)

/-- A step of a block: the call that it makes, what is left of it, and what it spawns. -/
structure Turn (Output : Type) where
  label : Label Output
  left : Block Output
  child : Option (Script Output)

namespace Future

variable {Output : Type}

def new (script : Script Output) : Future Output where
  script := script
  handles := []
  sleep := none
  stage := .fresh
  spent := none

def owned (future : Future Output) : List Resource :=
  future.spent.toList ++ future.handles.map .handle ++ future.sleep.toList.map .timer

/-- The end of the poll that ends the block. -/
def last (root : Bool) : Except JoinError Output → Label Output
  | .ok value => if root then .rootYield (.ready ()) else .yield (.ready value)
  | .error _ => .panic

/-- What is owned is dropped before the block returns, or as its panic unwinds. -/
def ends (future : Future Output) (root : Bool) (result : Except JoinError Output) :
    Turn Output :=
  match future.handles, future.sleep with
  | handle :: rest, _ =>
      ⟨(Resource.handle handle).drop, .going { future with handles := rest }, none⟩
  | [], some sleep =>
      ⟨(Resource.timer sleep).drop, .going { future with sleep := none }, none⟩
  | [], none => ⟨last root result, .ended result, none⟩

def awaits (future : Future Output) (world : World Output) (schedule index : Nat)
    (handle : Nat) (rest : Except JoinError Output → Script Output) : Turn Output :=
  let label : Label Output := .pollJoin (.task handle) (.task schedule)
  let reply : Option (Except Panic (Poll (Except JoinError Output))) :=
    (world.joins (.task handle)).map fun cell =>
      (cell.state.poll (.task schedule)).2
  match reply with
  | some (.ok (.ready result)) =>
      ⟨label, .going {
        script := rest result
        handles := future.handles.eraseIdx index
        sleep := future.sleep
        stage := .fresh
        spent := some (.handle handle) }, none⟩
  | _ => ⟨label, .going { future with stage := .pending }, none⟩

def sleeps (future : Future Output) (world : World Output) (schedule sleep : Nat)
    (rest : Script Output) : Turn Output :=
  let call := .poll sleep (.task schedule) world.now
  match world.time.call call with
  | some (_, .polled (.ok (.ready ()))) =>
      ⟨.timer call, .going {
        script := rest
        handles := future.handles
        sleep := none
        stage := .fresh
        spent := some (.timer sleep) }, none⟩
  | _ => ⟨.timer call, .going { future with stage := .pending }, none⟩

/-- The next step of the poll of a block, which is the root or a spawned one. -/
def turn (future : Future Output) (world : World Output) (schedule : Nat)
    (root : Bool) : Turn Output :=
  match future.spent, future.stage with
  | some resource, _ => ⟨resource.drop, .going { future with spent := none }, none⟩
  | none, .pending =>
      ⟨if root then .rootYield .pending else .yield .pending,
        .going { future with stage := .suspended }, none⟩
  | none, _ =>
      match future.script.result? future.handles with
      | some result => future.ends root result
      | none =>
          match future.script with
          | .spawn child rest =>
              ⟨.spawn, .going { future with
                script := rest
                handles := world.executor.scheduling.created :: future.handles
                stage := .fresh }, some child⟩
          | .join index rest =>
              match future.handles[index]? with
              | some handle => future.awaits world schedule index handle rest
              | none => future.ends root (.error .panic)
          | .sleepUntil deadline rest =>
              match future.sleep with
              | some sleep => future.sleeps world schedule sleep rest
              | none =>
                  ⟨.timer (.new deadline), .going { future with
                    sleep := some world.time.created }, none⟩
          | .ret value => future.ends root (.ok value)
          | .panic => future.ends root (.error .panic)

end Future

/-! A program of blocks on the runtime. -/

structure Scripted (Output : Type) where
  world : World Output
  blocks : Nat → Block Output
  /-- History: the block that each schedule began with. -/
  scripts : Nat → Script Output

/-- A step of the runtime itself or of the clock, while its executor is not dropped. -/
def Label.home {Output : Type} : Label Output → Bool
  | .executor move =>
      match move with
      | .send | .blockOn | .settle | .tryRecv | .unwound | .leave => true
      | _ => false
  | .tick _ | .proceed | .drain | .plan | .recv | .timeout | .dispatch | .finish => true
  | _ => false

inductive Choice (Output : Type) where
  | runtime (label : Label Output)
  /-- The code that runs takes its next step. -/
  | code

namespace Scripted

variable {Output : Type}

/-- The root of a call of `block_on` is `main` of its schedule. -/
def start (main : Nat → Script Output) (clock : Clock) (os : Instant) :
    Scripted Output where
  world := World.initial clock os
  blocks := fun schedule => .going (Future.new (main schedule))
  scripts := main

def take (state : Scripted Output) (schedule : Nat) (turn : Turn Output)
    (world : World Output) : Scripted Output :=
  let created := state.world.executor.scheduling.created
  match turn.child with
  | some child =>
      { world := world
        blocks := Function.update (Function.update state.blocks created
          (.going (Future.new child))) schedule turn.left
        scripts := Function.update state.scripts created child }
  | none =>
      { state with
        world := world
        blocks := Function.update state.blocks schedule turn.left }

/-- The block that is polled takes its turn. -/
def codeStep (state : Scripted Output) (schedule : Nat) (root : Bool) :
    Option (Scripted Output) :=
  match state.blocks schedule with
  | .going future =>
      let turn := future.turn state.world schedule root
      (state.world.step turn.label).map (state.take schedule turn)
  | .ended _ => none

/-- Nothing is left for a destructor to do. -/
def step (state : Scripted Output) : Choice Output → Option (Scripted Output)
  | .runtime label =>
      if label.home then
        (state.world.step label).map fun world => { state with world := world }
      else
        none
  | .code =>
      match state.world.executor.phase.polled?, state.world.stack with
      | some schedule, .running .root :: _ => state.codeStep schedule true
      | some schedule, .running (.inner _) :: _ => state.codeStep schedule false
      | _, .running _ :: _ =>
          (state.world.step .codeReturns).map fun world => { state with world := world }
      | _, _ => none

def machine : Machine (Scripted Output) (Choice Output) where
  step := step

end Scripted

end Asyncr
