import Asyncr.Program.ScriptRuns

namespace Asyncr

open Library
open Time

/-! However it is scheduled, a program of blocks computes what it means. -/

namespace Script

variable {Output : Type}

theorem result?_tail {script : Script Output} {handle : Nat} {rest : List Nat}
    {result : Except JoinError Output}
    (comes : script.result? (handle :: rest) = some result) :
    script.result? rest = some result := by
  cases script with
  | ret value | panic => exact comes
  | spawn child next | sleepUntil deadline next => cases comes
  | join index next =>
      cases index with
      | zero => simp [result?] at comes
      | succ index =>
          cases found : rest[index]? with
          | some other => simp [result?, found] at comes
          | none =>
              have missing : rest[index + 1]? = none :=
                List.getElem?_eq_none
                  (Nat.le_succ_of_le (List.getElem?_eq_none_iff.mp found))
              simpa [result?, found, missing] using comes

theorem panic_of_result? {script : Script Output} {handles : List Nat} {error : JoinError}
    (comes : script.result? handles = some (.error error)) : error = .panic := by
  cases script with
  | ret value | spawn child rest | sleepUntil deadline rest => cases comes
  | panic =>
      cases comes
      rfl
  | join index rest =>
      cases found : handles[index]? with
      | some handle => simp [result?, found] at comes
      | none =>
          simp only [result?, found, Option.some.injEq, Except.error.injEq] at comes
          exact comes.symm

end Script

namespace World

variable {Output : Type} {world next : World Output} {label : Label Output}

theorem Stepped.spawned_on (stepped : Stepped world label next) {schedule : Nat}
    (spawned : schedule < world.executor.scheduling.created ∧
      (world.executor.scheduling.schedules schedule).id ≠ rootTaskId) :
    schedule < next.executor.scheduling.created ∧
      (next.executor.scheduling.schedules schedule).id ≠ rootTaskId :=
  ⟨Nat.lt_of_lt_of_le spawned.1 stepped.created_le, stepped.ids spawned.1 ▸ spawned.2⟩

theorem Stepped.gives_back (stepped : Stepped world label next) {join : JoinRef}
    {result : Except JoinError Output} {event : ProgramEvent Output}
    (member : event ∈ next.log) (gives : event.gives join result) :
    event ∈ world.log ∨ world.stack = [.running (.inner join)] ∧
      (label = .panic ∧ result = .error .panic ∨
        ∃ value, label = .yield (.ready value) ∧ result = .ok value) := by
  have silent : ∀ {newer : ProgramEvent Output}, ¬ newer.gives join result →
      event ∈ newer :: world.log → event ∈ world.log := by
    intro newer mute member
    refine (List.mem_cons.mp member).resolve_left ?_
    rintro rfl
    exact mute gives
  have wakes : ∀ {waker : Waker} {rest : List (Frame Output)}
      {newer : ProgramEvent Output}, Wakes world.stack waker rest newer →
      ¬ newer.gives join result := by
    intro waker rest newer wakes
    rcases wakes.event with rfl | ⟨other, rfl⟩ <;> exact id
  cases stepped with
  | returned free stack =>
      rcases List.mem_cons.mp member with rfl | old
      · obtain ⟨rfl, rfl⟩ := gives
        exact Or.inr ⟨stack, Or.inr ⟨_, rfl, rfl⟩⟩
      · exact Or.inl old
  | caught free stack =>
      rcases List.mem_cons.mp member with rfl | old
      · obtain ⟨rfl, rfl⟩ := gives
        exact Or.inr ⟨stack, Or.inl ⟨rfl, rfl⟩⟩
      · exact Or.inl old
  | unwound free fails unwinds step =>
      cases fails with
      | code stack outermost | published stack found twice => exact Or.inl member
      | poisoned woken poisoned => exact Or.inl (silent (wakes woken) member)
  | wokeCode free woken | wokeTask free woken unpoisoned step =>
      exact Or.inl (silent (wakes woken) member)
  | awaited | yielded | published | began => exact Or.inl (silent id member)
  | _ => exact Or.inl member

end World

namespace Future

variable {Output : Type} {world : World Output} {schedule : Nat} {root : Bool}
  {future : Future Output} {turn : Turn Output}

/-- The poll of a block returns `Ready`, or panics, with what its script has come to. -/
theorem Turned.comes (turned : future.Turned world schedule root turn) :
    (turn.label = .panic →
      future.script.result? future.handles = some (.error .panic)) ∧
    ∀ value, turn.label = .yield (.ready value) →
      future.script.result? future.handles = some (.ok value) := by
  cases turned with
  | @freed resource spent =>
      cases resource <;> exact ⟨nofun, nofun⟩
  | suspended => cases root <;> exact ⟨nofun, nofun⟩
  | @ended result runs comes handles unslept =>
      cases result with
      | ok value =>
          cases root with
          | true => exact ⟨nofun, nofun⟩
          | false =>
              refine ⟨nofun, ?_⟩
              rintro other ⟨⟩
              exact comes
      | error error =>
          cases Script.panic_of_result? comes
          exact ⟨fun _ => comes, nofun⟩
  | _ => exact ⟨nofun, nofun⟩

theorem Turned.spawns (turned : future.Turned world schedule root turn)
    {child : Script Output} (spawns : turn.child = some child) : turn.label = .spawn := by
  cases turned with
  | spawned => rfl
  | _ => cases spawns

end Future

namespace Scripted

variable {Output : Type} {state next : Scripted Output} {schedule : Nat}
  {main : Nat → Script Output} {root : Bool} {future : Future Output}
  {turn : Turn Output} {world : World Output} {choice : Choice Output}
  {clock : Clock} {os : Instant} {allowed : Scripted Output → Choice Output → Prop}

def meaning (state : Scripted Output) (schedule : Nat) : Except JoinError Output :=
  (state.scripts schedule).eval []

/-- What is left of each block means what the block means, and so does what it gave. -/
structure Faithful (main : Nat → Script Output) (state : Scripted Output) : Prop where
  going : ∀ schedule future, state.blocks schedule = .going future →
    future.script.eval (future.handles.map state.meaning) = state.meaning schedule
  ended : ∀ schedule result, state.blocks schedule = .ended result →
    result = state.meaning schedule
  given : ∀ schedule event result, event ∈ state.world.log →
    event.gives (.task schedule) result →
    schedule < state.world.executor.scheduling.created ∧ result = state.meaning schedule
  mains : ∀ schedule, state.scripts schedule = main schedule ∨
    schedule < state.world.executor.scheduling.created ∧
      (state.world.executor.scheduling.schedules schedule).id ≠ rootTaskId

theorem faithful_start : (start main clock os).Faithful main where
  going := by
    intro schedule future going
    cases going
    rfl
  ended := by
    intro schedule result ended
    cases ended
  given := by
    intro schedule event result member
    cases member
  mains := fun schedule => Or.inl rfl

theorem Faithful.earned (faithful : state.Faithful main)
    (unclosed : state.world.executor.closed = false) {result : Except JoinError Output}
    (earned : state.world.Earned (.task schedule) result) :
    result = state.meaning schedule := by
  match result with
  | .ok value => exact (faithful.given schedule _ _ earned ⟨rfl, rfl⟩).2
  | .error .panic => exact (faithful.given schedule _ _ earned ⟨rfl, rfl⟩).2
  | .error .cancelled => cases unclosed.symm.trans earned.1

theorem Faithful.silent (faithful : state.Faithful main) {label : Label Output}
    (stepped : World.Stepped state.world label next.world)
    (blocks : next.blocks = state.blocks) (scripts : next.scripts = state.scripts)
    (panics : label ≠ .panic) (yields : ∀ value, label ≠ .yield (.ready value)) :
    next.Faithful main := by
  have meaning : next.meaning = state.meaning := by
    funext schedule
    rw [Scripted.meaning, scripts]
    rfl
  refine ⟨?_, ?_, ?_, ?_⟩
  · rw [blocks, meaning]
    exact faithful.going
  · rw [blocks, meaning]
    exact faithful.ended
  · intro schedule event result member gives
    rw [meaning]
    rcases stepped.gives_back member gives with old | ⟨_, panicked | ⟨value, yielded, _⟩⟩
    · obtain ⟨below, same⟩ := faithful.given schedule event result old gives
      exact ⟨Nat.lt_of_lt_of_le below stepped.created_le, same⟩
    · exact absurd panicked.1 panics
    · exact absurd yielded (yields value)
  · intro schedule
    rw [scripts]
    exact (faithful.mains schedule).imp_right stepped.spawned_on

theorem take_meaning {other : Nat}
    (below : other < state.world.executor.scheduling.created) :
    (state.take schedule turn world).meaning other = state.meaning other := by
  unfold meaning take
  split
  · dsimp only
    rw [Function.update_of_ne (Nat.ne_of_lt below)]
  · rfl

theorem take_meaning_child {child : Script Output} (spawns : turn.child = some child) :
    (state.take schedule turn world).meaning
      state.world.executor.scheduling.created = child.eval [] := by
  unfold meaning take
  rw [spawns]
  simp

theorem Managed.handles_below (managed : state.Managed)
    (going : state.blocks schedule = .going future) {handle : Nat}
    (member : handle ∈ future.handles) :
    handle < state.world.executor.scheduling.created := by
  have owned : Resource.handle handle ∈ future.owned :=
    Future.mem_owned.mpr (Or.inr (Or.inl ⟨handle, member, rfl⟩))
  obtain ⟨cell, found, _⟩ := managed.owning.handles schedule handle ⟨future, going, owned⟩
  exact managed.orderly.cells.created handle (by simp [found])

theorem Faithful.turned (faithful : state.Faithful main) (managed : state.Managed)
    (tidy : state.world.Tidy) (going : state.blocks schedule = .going future)
    (turned : future.Turned state.world schedule root turn) (world : World Output) :
    match turn.left with
    | .going after =>
        after.script.eval (after.handles.map (state.take schedule turn world).meaning) =
          state.meaning schedule
    | .ended result => result = state.meaning schedule := by
  have means : future.script.eval
      (future.handles.map (state.take schedule turn world).meaning) =
        state.meaning schedule := by
    rw [← faithful.going schedule future going]
    congr 1
    exact List.map_congr_left fun handle member =>
      take_meaning (managed.handles_below going member)
  cases turned with
  | freed | suspended | awaited | timed | dozed | cancelled => exact means
  | @spawned child rest runs script =>
      rw [script] at means
      rw [← means]
      simp only [List.map_cons, Script.eval]
      congr 2
      exact take_meaning_child rfl
  | @joined index handle rest cell result runs script found present ready =>
      have same : result = state.meaning handle :=
        faithful.earned managed.unclosed (tidy.recorded.ready _ cell result present ready)
      have member := List.mem_of_getElem? found
      rw [script] at means
      rw [← means]
      simp only [Script.eval, List.getElem?_map, found, Option.map_some,
        take_meaning (managed.handles_below going member), same, List.eraseIdx_map]
  | slept runs script sleeps called =>
      rw [script] at means
      exact means
  | @dropped handle rest result runs comes handles =>
      rw [Script.eval_of_result? comes] at means
      rw [handles] at comes
      rw [← means]
      exact Script.eval_of_result? (Script.result?_tail comes) _
  | ended runs comes handles unslept =>
      rw [← means]
      exact (Script.eval_of_result? comes _).symm

theorem Faithful.polled (faithful : state.Faithful main) (managed : state.Managed)
    (tidy : state.world.Tidy)
    (polled : state.world.executor.phase.polled? = some schedule)
    (going : state.blocks schedule = .going future)
    (turned : future.Turned state.world schedule root turn)
    (step : World.machine.step state.world turn.label = some world)
    (after : world.Orderly) : (state.take schedule turn world).Faithful main := by
  obtain ⟨_, _, phase⟩ := Phase.polled?_eq_some.mp polled
  have below := (managed.orderly.sound.coherent.polled _ _ _ phase).1
  have stepped := World.stepped_of_step step
  have left := faithful.turned managed tidy going turned world
  have means := faithful.going schedule future going
  refine ⟨?_, ?_, ?_, ?_⟩
  · intro other after going
    cases decEq other schedule with
    | isTrue same =>
        subst same
        rw [take_self] at going
        rw [going] at left
        rw [take_meaning below]
        exact left
    | isFalse different =>
        rcases take_other state turn world different with
          ⟨unchanged, scripts⟩ | ⟨rfl, child, spawns, new, _⟩
        · have same : (state.take schedule turn world).meaning other =
              state.meaning other := by
            rw [meaning, scripts]
            rfl
          rw [unchanged] at going
          rw [same, ← faithful.going other after going]
          congr 1
          exact List.map_congr_left fun handle member =>
            take_meaning (managed.handles_below going member)
        · cases new.symm.trans going
          rw [take_meaning_child spawns]
          rfl
  · intro other result ended
    cases decEq other schedule with
    | isTrue same =>
        subst same
        rw [take_self] at ended
        rw [ended] at left
        rw [take_meaning below]
        exact left
    | isFalse different =>
        rcases take_other state turn world different with
          ⟨unchanged, scripts⟩ | ⟨rfl, child, spawns, new, _⟩
        · rw [unchanged] at ended
          rw [meaning, scripts]
          exact faithful.ended other result ended
        · cases new.symm.trans ended
  · intro other event result member gives
    rw [take_world] at member
    have given : other < state.world.executor.scheduling.created ∧
        result = state.meaning other := by
      rcases stepped.gives_back member gives with old | ⟨stack, ends⟩
      · exact faithful.given other event result old gives
      · obtain ⟨_, _, _, target, isTask, _, again⟩ :=
          managed.orderly.shaped.inner _ (stack ▸ List.mem_singleton.mpr rfl)
        cases isTask
        cases phase.symm.trans again
        refine ⟨below, ?_⟩
        rw [← means]
        rcases ends with ⟨panics, rfl⟩ | ⟨value, yields, rfl⟩
        · exact (Script.eval_of_result? (turned.comes.1 panics) _).symm
        · exact (Script.eval_of_result? (turned.comes.2 value yields) _).symm
    rw [take_world, take_meaning given.1]
    exact ⟨Nat.lt_of_lt_of_le given.1 stepped.created_le, given.2⟩
  · intro other
    rw [take_world]
    cases decEq other schedule with
    | isTrue same =>
        subst same
        have scripts :
            (state.take other turn world).scripts other = state.scripts other := by
          unfold take
          split
          · exact Function.update_of_ne (Nat.ne_of_lt below) ..
          · rfl
        rw [scripts]
        exact (faithful.mains other).imp_right stepped.spawned_on
    | isFalse different =>
        rcases take_other state turn world different with
          ⟨_, scripts⟩ | ⟨rfl, child, spawns, _⟩
        · rw [scripts]
          exact (faithful.mains other).imp_right stepped.spawned_on
        · right
          rw [turned.spawns spawns] at stepped
          have made := spawned_of_unclosed stepped managed.unclosed
          have present :
              world.joins (.task state.world.executor.scheduling.created) ≠ none :=
            by simp [made]
          have created := after.cells.created _ present
          exact ⟨created, (after.harnessed.joined _ created).mpr present⟩

theorem Faithful.step (faithful : state.Faithful main) (managed : state.Managed)
    (tidy : state.world.Tidy) (advanced : Advanced state choice next)
    (after : next.world.Orderly) : next.Faithful main := by
  cases advanced with
  | @runtime label world home step =>
      have panics : label ≠ .panic := by
        rintro rfl
        cases home
      have yields : ∀ value, label ≠ .yield (.ready value) := by
        rintro value rfl
        cases home
      exact faithful.silent (World.stepped_of_step step) rfl rfl panics yields
  | returned step =>
      exact faithful.silent (World.stepped_of_step step) rfl rfl nofun nofun
  | polled polled stack isPoll going turned step =>
      rw [take_world] at after
      exact faithful.polled managed tidy polled going turned step after

theorem run_faithful (reach : machine.Reach allowed (start main clock os) state)
    (few : state.world.executor.spawned < 2 ^ 64 - 1)
    (timed : state.world.time.registered < 2 ^ 64) : state.Faithful main := by
  apply run_invariant reach few timed faithful_start
  intro state choice next managed _ tidy faithful advanced after
  exact faithful.step managed tidy advanced after

/-- However a program of blocks is scheduled, each block that ends and each handle that
is awaited to the end gives what its script means if every task runs where it is spawned;
and the program only does what its tasks expect. -/
theorem programs_evaluate (reach : machine.Reach allowed (start main clock os) state)
    (few : state.world.executor.spawned < 2 ^ 64 - 1)
    (timed : state.world.time.registered < 2 ^ 64) :
    (∀ schedule result, state.blocks schedule = .ended result →
      result = (state.scripts schedule).eval []) ∧
    (∀ schedule result, .yielded (.task schedule) result ∈ state.world.log →
      result = (state.scripts schedule).eval []) ∧
    (∀ root, state.world.executor.phase.root? = some root →
      state.scripts root = main root) ∧
    World.machine.Reach World.Structured (World.initial clock os) state.world := by
  have faithful := run_faithful reach few timed
  obtain ⟨ran, managed, _⟩ := run_managed reach few timed
  have structured := run_structured ran
  have tidy := World.run_tidy (structured.weaken fun _ _ structured => structured.1) few
  refine ⟨faithful.ended, ?_, ?_, structured⟩
  · intro schedule result member
    exact faithful.earned managed.unclosed (tidy.recorded.yielded _ result member).1
  · intro root active
    refine (faithful.mains root).resolve_right ?_
    rintro ⟨_, spawned⟩
    exact spawned (managed.orderly.sound.coherent.root root active).2

/-- It spawns a task that sleeps, and adds to what the task returns. -/
def adding : Script Nat :=
  .spawn (.sleepUntil 5 (.ret 3)) (.join 0 fun
    | .ok value => .ret (value + 1)
    | .error _ => .panic)

def addingChoices : List (Choice Nat) :=
  [.runtime (.executor .blockOn), .runtime (.executor .send), .runtime .drain,
    .runtime (.executor .settle), .runtime (.executor .tryRecv), .runtime .dispatch,
    .code, .runtime (.executor .send), .code, .code, .runtime .drain,
    .runtime (.executor .settle), .runtime (.executor .tryRecv), .runtime .dispatch,
    .code, .code, .code, .runtime .drain, .runtime (.executor .settle),
    .runtime (.executor .tryRecv), .runtime .plan, .runtime (.tick 7),
    .runtime .timeout, .runtime .drain, .runtime .proceed, .runtime (.executor .send),
    .runtime (.executor .settle), .runtime (.executor .tryRecv), .runtime .dispatch,
    .code, .code, .code, .runtime .proceed, .code, .runtime .proceed, .runtime .proceed,
    .runtime (.executor .send), .runtime .proceed, .runtime .finish, .runtime .drain,
    .runtime (.executor .settle), .runtime (.executor .tryRecv), .runtime .dispatch,
    .code, .code, .code]

def added : Scripted Nat :=
  (machine.run Machine.Any (start (fun _ => adding) (Clock.new 0) 0) addingChoices).getD
    (start (fun _ => adding) (Clock.new 0) 0)

theorem programs_evaluate_added :
    adding.eval [] = .ok 4 ∧ added.world.executor.phase = .leaving 0 := by
  have ran : machine.run Machine.Any (start (fun _ => adding) (Clock.new 0) 0)
    addingChoices = some added := rfl
  have ended : added.blocks 0 = .ended (.ok 4) := rfl
  have phase : added.world.executor.phase = .leaving 0 := rfl
  obtain ⟨results, _, mains, _⟩ :=
    programs_evaluate (Machine.reach_of_run ran) (by decide) (by decide)
  refine ⟨?_, phase⟩
  have main : added.scripts 0 = adding := mains 0 (by rw [phase]; rfl)
  rw [← main]
  exact (results 0 _ ended).symm

end Scripted

end Asyncr
