import Asyncr.Program.Context
import Asyncr.Program.Frames

namespace Asyncr

open Library
open Time

def Phase.blocking : Phase → Bool
  | .iterating _ | .expiring _ | .receiving _ | .waiting _ | .dispatching _
  | .polling _ _ _ | .leaving _ | .unwinding => true
  | .outside | .clearing | .tearing | .leaking | .dropped => false

def Frame.dropsRoot {Output : Type} : Frame Output → Bool
  | .running .dropRoot | .call .dropRoot => true
  | _ => false

def Code.hosted : Code → Bool
  | .root | .inner _ | .dropRoot => true
  | .waker _ | .dropFuture _ | .dropPayload _ | .dropOutput _ => false

theorem Executor.blocking_of_moved {executor after : Executor} {move : Move}
    (moved : Executor.Moved executor move after)
    (blocking : after.phase.blocking = true) :
    executor.phase.blocking = true ∨ move = .blockOn := by
  cases moved with
  | blockOn before change => exact Or.inr rfl
  | remoteWake change | remoteSend change | wake runs change | send change
  | refused runs closed | submitted runs unclosed change
  | cleared before free pending | destroyed before free member =>
      exact Or.inl blocking
  | clearingPanicked before free unfailing | tearingPanicked before free unfailing
  | droppedPanicked before free | unwound before free | left before free
  | closed before free | torn before free pending | released before empty change
  | leaked before change => cases blocking
  | drain before free | settle before free | foundEmpty before free empty
  | tryReceived before change | received before change | retry before
  | notAdmitted before taken missing change
  | notBegun before taken found fails change
  | began before taken found begins change | notFinished before fails change
  | suspended before finishes change | rootReady before finishes change
  | taskReady before notRoot finishes change | pollPanicked before change
  | wakerPanicked before free | waitPanicked before free
  | leavingPanicked before free =>
      rw [before]
      exact Or.inl rfl

theorem Executor.blocking_stays {executor after : Executor} {move : Move}
    (moved : Executor.Moved executor move after)
    (blocking : executor.phase.blocking = true) :
    after.phase.blocking = true ∨ move = .leave ∨ move = .unwound := by
  cases moved with
  | unwound before free => exact Or.inr (Or.inr rfl)
  | left before free => exact Or.inr (Or.inl rfl)
  | remoteWake change | remoteSend change | wake runs change | send change
  | refused runs closed | submitted runs unclosed change
  | cleared before free pending | destroyed before free member =>
      exact Or.inl blocking
  | clearingPanicked before free unfailing | tearingPanicked before free unfailing
  | droppedPanicked before free | closed before free | torn before free pending
  | released before empty change | leaked before change =>
      rw [before] at blocking
      cases blocking
  | _ => exact Or.inl rfl

namespace World

variable {Output : Type} {world next : World Output} {label : Label Output}
  {allowed : World Output → Label Output → Prop} {clock : Clock} {os : Instant}

/-! The root is dropped before `block_on` ends. -/

def Rooted (world : World Output) : Prop :=
  ∀ frame ∈ world.stack, frame.dropsRoot = true →
    world.executor.phase.blocking = true

theorem Stepped.blocking_back (stepped : Stepped world label next)
    (other : label ≠ .executor .blockOn)
    (blocking : next.executor.phase.blocking = true) :
    world.executor.phase.blocking = true := by
  rcases stepped.takes with same | ⟨move, takes, moved⟩
  · rw [← same]
    exact blocking
  · rcases Executor.blocking_of_moved (Executor.moved_of_step moved) blocking with
      before | rfl
    · exact before
    · cases takes
      exact absurd rfl other

theorem Stepped.blocking_on (stepped : Stepped world label next)
    (busy : world.stack ≠ []) (blocking : world.executor.phase.blocking = true) :
    next.executor.phase.blocking = true := by
  rcases stepped.takes with same | ⟨move, takes, moved⟩
  · rw [same]
    exact blocking
  · rcases Executor.blocking_stays (Executor.moved_of_step moved) blocking with
      after | rfl | rfl
    · exact after
    · cases takes with
      | permitted permitted => exact absurd (List.isEmpty_iff.mp permitted) busy
    · cases takes with
      | permitted permitted => exact absurd (List.isEmpty_iff.mp permitted) busy

theorem Stepped.dropsRoot_back (stepped : Stepped world label next)
    {frame : Frame Output} (member : frame ∈ next.stack)
    (drops : frame.dropsRoot = true) :
    (∃ before ∈ world.stack, before.dropsRoot = true) ∨
      next.executor.phase.blocking = true := by
  rcases stepped.pushed member with old | pushed
  · exact Or.inl ⟨frame, old, drops⟩
  · cases pushed with
    | @called code present =>
        refine Or.inl ⟨.call code, present, ?_⟩
        cases code with
        | dropRoot => rfl
        | _ => cases drops
    | began step phase =>
        right
        rw [phase]
        rfl
    | rootDropped phase =>
        right
        rcases phase with phase | ⟨root, phase⟩
        · rw [phase]
          rfl
        · rw [phase]
          rfl
    | destructor code =>
        rcases code with ⟨join, rfl | rfl | rfl⟩ <;> cases drops
    | _ => cases drops

theorem Stepped.rooted (stepped : Stepped world label next)
    (rooted : world.Rooted) : next.Rooted := by
  intro frame member drops
  rcases stepped.dropsRoot_back member drops with ⟨before, present, wasRoot⟩ | after
  · exact stepped.blocking_on (List.ne_nil_of_mem present)
      (rooted before present wasRoot)
  · exact after

theorem run_rooted (reach : machine.Reach allowed (initial clock os) world) :
    world.Rooted := by
  induction reach with
  | refl =>
      intro frame member
      cases member
  | step label before _ step ih => exact (stepped_of_step step).rooted ih

theorem blocking_of_hosted
    (reach : machine.Reach allowed (initial clock os) world) {code : Code}
    (member : .running code ∈ world.stack) (hosted : code.hosted = true) :
    world.executor.phase.blocking = true := by
  cases code with
  | root =>
      obtain ⟨_, root, target, phase⟩ := (run_shaped reach).root member
      rw [phase]
      rfl
  | inner join =>
      obtain ⟨_, root, id, target, _, _, phase⟩ :=
        (run_shaped reach).inner join member
      rw [phase]
      rfl
  | dropRoot => exact run_rooted reach _ member rfl
  | waker code | dropFuture join | dropPayload join | dropOutput join =>
      cases hosted

end World

namespace OnThread

variable {Output : Type} {thread : Thread Output}

/-! What each function does when it runs. -/

theorem run_enter (handle : Handle) :
    (enter handle).run thread =
      match thread.context with
      | some _ => .error .alreadyEntered thread
      | none => .ok ⟨thread.entered, handle⟩
          { thread with
            context := some handle
            guards := ⟨thread.entered, handle⟩ :: thread.guards
            entered := thread.entered + 1 } := by
  cases thread with
  | mk context runtimes created guards calls entered =>
      cases context with
      | none => rfl
      | some outer => rfl

theorem run_blockOn (handle : Handle) (begun : World Output) :
    (blockOn handle begun).run thread =
      match thread.context with
      | some _ => .error .alreadyEntered thread
      | none => .ok ()
          { thread with
            context := some handle
            runtimes := Function.update thread.runtimes handle (some begun)
            guards := ⟨thread.entered, handle⟩ :: thread.guards
            calls := ⟨thread.entered, handle⟩ :: thread.calls
            entered := thread.entered + 1 } := by
  cases thread with
  | mk context runtimes created guards calls entered =>
      cases context with
      | none => rfl
      | some outer => rfl

theorem run_current :
    (current : OnThread Output Handle).run thread =
      match thread.context with
      | some handle => .ok handle thread
      | none => .error .notEntered thread := by
  cases thread with
  | mk context runtimes created guards calls entered =>
      cases context with
      | none => rfl
      | some outer => rfl

end OnThread

namespace Thread

variable {Output : Type} {thread next : Thread Output}

/-! At most one guard is alive, and the context is its handle. -/

/-- The guards that are alive, and those that calls of `block_on` hold. -/
inductive Guarded : Option Handle → List EnterGuard → List EnterGuard → Prop
  | outside : Guarded none [] []
  | entered (guard : EnterGuard) : Guarded (some guard.handle) [guard] []
  | blocking (guard : EnterGuard) : Guarded (some guard.handle) [guard] [guard]

structure Sound (thread : Thread Output) : Prop where
  guarded : Guarded thread.context thread.guards thread.calls
  /-- A runtime is inside `block_on` only if a call of it is active. -/
  called : ∀ handle world, thread.runtimes handle = some world →
    world.executor.phase.blocking = true →
    ∃ guard ∈ thread.calls, guard.handle = handle
  ran : ∀ handle world, thread.runtimes handle = some world →
    ∃ clock os, World.machine.Reach Machine.Any (World.initial clock os) world

theorem sound_initial : (initial : Thread Output).Sound where
  guarded := .outside
  called := by
    intro handle world found
    cases found
  ran := by
    intro handle world found
    cases found

theorem Sound.updates (sound : thread.Sound) {handle : Handle}
    {world : World Output}
    (called : world.executor.phase.blocking = true →
      ∃ guard ∈ thread.calls, guard.handle = handle)
    (ran : ∃ clock os,
      World.machine.Reach Machine.Any (World.initial clock os) world)
    (guarded : Guarded next.context next.guards next.calls)
    (calls : next.calls = thread.calls)
    (runtimes : next.runtimes =
      Function.update thread.runtimes handle (some world)) : next.Sound where
  guarded := guarded
  called := by
    intro other found present blocking
    rw [calls]
    rw [runtimes] at present
    by_cases same : other = handle
    · subst same
      rw [Function.update_self] at present
      cases present
      exact called blocking
    · rw [Function.update_of_ne same] at present
      exact sound.called other found present blocking
  ran := by
    intro other found present
    rw [runtimes] at present
    by_cases same : other = handle
    · subst same
      rw [Function.update_self] at present
      cases present
      exact ran
    · rw [Function.update_of_ne same] at present
      exact sound.ran other found present

/-- `step` as a relation: what each thing that a thread does comes to. -/
inductive Stepped (thread : Thread Output) :
    ThreadLabel Output → Thread Output → Prop
  | created {clock : Clock} {os : Instant} :
      Stepped thread (.create clock os)
        { thread with
          runtimes := Function.update thread.runtimes thread.created
            (some (World.initial clock os))
          created := thread.created + 1 }
  | entered {handle : Handle} {world : World Output} :
      thread.runtimes handle = some world → thread.context = none →
      Stepped thread (.enter handle)
        { thread with
          context := some handle
          guards := ⟨thread.entered, handle⟩ :: thread.guards
          entered := thread.entered + 1 }
  | enterRejected {handle outer : Handle} : thread.context = some outer →
      Stepped thread (.enter handle) thread
  | guardDropped {guard : EnterGuard} :
      guard ∈ thread.guards → guard ∉ thread.calls →
      Stepped thread (.dropGuard guard)
        { thread with context := none, guards := thread.guards.erase guard }
  | began {handle : Handle} {world begun : World Output} :
      thread.runtimes handle = some world →
      World.machine.step world (.executor .blockOn) = some begun →
      thread.context = none →
      Stepped thread (.blockOn handle)
        { thread with
          context := some handle
          runtimes := Function.update thread.runtimes handle (some begun)
          guards := ⟨thread.entered, handle⟩ :: thread.guards
          calls := ⟨thread.entered, handle⟩ :: thread.calls
          entered := thread.entered + 1 }
  | beginRejected {handle outer : Handle} : thread.context = some outer →
      Stepped thread (.blockOn handle) thread
  | ended {guard : EnterGuard} {rest : List EnterGuard} {world : World Output} :
      thread.calls = guard :: rest →
      thread.runtimes guard.handle = some world →
      world.executor.phase = .outside →
      Stepped thread .ends
        { thread with
          context := none
          guards := thread.guards.erase guard
          calls := thread.calls.erase guard }
  | stepped {handle : Handle} {world after : World Output}
      {label : Label Output} :
      thread.permits handle label = true → thread.runtimes handle = some world →
      World.machine.step world label = some after →
      Stepped thread (.world handle label)
        { thread with
          runtimes := Function.update thread.runtimes handle (some after) }

theorem stepped_of_step {label : ThreadLabel Output}
    (step : machine.step thread label = some next) :
    Stepped thread label next := by
  change thread.step label = some next at step
  cases label with
  | create clock os =>
      cases step
      exact .created
  | enter handle =>
      simp only [Thread.step, Option.ite_none_right_eq_some, Option.some.injEq,
        after, OnThread.run_enter] at step
      obtain ⟨present, rfl⟩ := step
      obtain ⟨world, found⟩ := Option.isSome_iff_exists.mp present
      cases context : thread.context with
      | none => exact .entered found context
      | some outer => exact .enterRejected context
  | dropGuard guard =>
      simp only [Thread.step, Option.ite_none_right_eq_some,
        Option.some.injEq] at step
      obtain ⟨⟨alive, free⟩, rfl⟩ := step
      exact .guardDropped alive free
  | blockOn handle =>
      simp only [Thread.step, Option.ite_none_right_eq_some,
        Option.map_eq_some_iff, Option.bind_eq_some_iff, after,
        OnThread.run_blockOn] at step
      obtain ⟨_, begun, ⟨world, found, begins⟩, rfl⟩ := step
      cases context : thread.context with
      | none => exact .began found begins context
      | some outer => exact .beginRejected context
  | ends =>
      simp only [Thread.step] at step
      split at step
      · rename_i guard rest calls
        split at step
        · rename_i world found
          simp only [Option.ite_none_right_eq_some, Option.some.injEq] at step
          obtain ⟨outside, rfl⟩ := step
          exact .ended calls found outside
        · cases step
      · cases step
  | world handle label =>
      simp only [Thread.step, Option.ite_none_right_eq_some,
        Option.map_eq_some_iff, Option.bind_eq_some_iff] at step
      obtain ⟨permitted, after, ⟨world, found, steps⟩, rfl⟩ := step
      exact .stepped permitted found steps

theorem Guarded.of_none {guards calls : List EnterGuard}
    (guarded : Guarded none guards calls) : guards = [] ∧ calls = [] := by
  cases guarded
  exact ⟨rfl, rfl⟩

theorem Guarded.erase {context : Option Handle} {guards calls : List EnterGuard}
    (guarded : Guarded context guards calls) {guard : EnterGuard}
    (alive : guard ∈ guards) : guards.erase guard = [] := by
  cases guarded with
  | outside => cases alive
  | entered only | blocking only =>
      rw [List.mem_singleton.mp alive]
      exact List.erase_cons_head only []

theorem Guarded.held {context : Option Handle} {guards calls : List EnterGuard}
    (guarded : Guarded context guards calls) {guard : EnterGuard}
    {rest : List EnterGuard} (stack : calls = guard :: rest) :
    context = some guard.handle ∧ guards = [guard] ∧ calls = [guard] := by
  cases guarded with
  | outside | entered only => cases stack
  | blocking only =>
      cases stack
      exact ⟨rfl, rfl, rfl⟩

theorem Guarded.unheld {context : Option Handle} {guards calls : List EnterGuard}
    (guarded : Guarded context guards calls) {guard : EnterGuard}
    (alive : guard ∈ guards) (free : guard ∉ calls) : calls = [] := by
  cases guarded with
  | outside | entered only => rfl
  | blocking only => exact absurd alive free

theorem Stepped.sound {label : ThreadLabel Output}
    (stepped : Stepped thread label next) (sound : thread.Sound) : next.Sound := by
  cases stepped with
  | @created clock os =>
      refine sound.updates ?_ ⟨clock, os, .refl⟩ sound.guarded rfl rfl
      intro blocking
      cases blocking
  | @entered handle world found free =>
      have guarded := sound.guarded
      rw [free] at guarded
      obtain ⟨noGuard, noCall⟩ := guarded.of_none
      refine ⟨?_, sound.called, sound.ran⟩
      dsimp only
      rw [noGuard, noCall]
      exact .entered ⟨thread.entered, handle⟩
  | enterRejected taken => exact sound
  | guardDropped alive free =>
      have noCall : thread.calls = [] := sound.guarded.unheld alive free
      refine ⟨?_, sound.called, sound.ran⟩
      dsimp only
      rw [noCall, sound.guarded.erase alive]
      exact .outside
  | @began handle world begun found begins free =>
      have guarded := sound.guarded
      rw [free] at guarded
      obtain ⟨noGuard, noCall⟩ := guarded.of_none
      obtain ⟨clock, os, reach⟩ := sound.ran handle world found
      refine ⟨?_, ?_, ?_⟩
      · dsimp only
        rw [noGuard, noCall]
        exact .blocking ⟨thread.entered, handle⟩
      · intro other present found blocking
        dsimp only at found
        by_cases same : other = handle
        · exact ⟨_, List.mem_cons_self, same.symm⟩
        · rw [Function.update_of_ne same] at found
          obtain ⟨guard, called, _⟩ := sound.called other present found blocking
          rw [noCall] at called
          cases called
      · intro other present found
        dsimp only at found
        by_cases same : other = handle
        · subst same
          rw [Function.update_self] at found
          cases found
          exact ⟨clock, os, .step _ reach trivial begins⟩
        · rw [Function.update_of_ne same] at found
          exact sound.ran other present found
  | beginRejected taken => exact sound
  | @ended guard rest world calls found outside =>
      obtain ⟨_, only, alone⟩ := sound.guarded.held calls
      refine ⟨?_, ?_, sound.ran⟩
      · dsimp only
        rw [only, alone, List.erase_cons_head]
        exact .outside
      · intro other present there blocking
        obtain ⟨holder, called, isHolder⟩ :=
          sound.called other present there blocking
        rw [alone] at called
        cases List.mem_singleton.mp called
        subst isHolder
        cases found.symm.trans there
        rw [outside] at blocking
        cases blocking
  | @stepped handle world after label permitted found step =>
      obtain ⟨clock, os, reach⟩ := sound.ran handle world found
      refine sound.updates ?_ ⟨clock, os, .step _ reach trivial step⟩
        sound.guarded rfl rfl
      intro blocking
      apply sound.called handle world found
      apply (World.stepped_of_step step).blocking_back ?_ blocking
      rintro rfl
      cases permitted

theorem run_sound {allowed : Thread Output → ThreadLabel Output → Prop}
    (reach : machine.Reach allowed initial thread) : thread.Sound := by
  induction reach with
  | refl => exact sound_initial
  | step label _ _ step ih => exact (stepped_of_step step).sound ih

theorem Guarded.length_le {context : Option Handle} {guards calls : List EnterGuard}
    (guarded : Guarded context guards calls) : guards.length ≤ 1 := by
  cases guarded with
  | outside => exact Nat.zero_le 1
  | entered only | blocking only => exact Nat.le_refl 1

theorem Guarded.context_iff {context : Option Handle}
    {guards calls : List EnterGuard} (guarded : Guarded context guards calls)
    (handle : Handle) :
    context = some handle ↔ ∃ guard ∈ guards, guard.handle = handle := by
  cases guarded with
  | outside => simp
  | entered only | blocking only => simp

theorem Guarded.guards_ne_nil {context : Option Handle}
    {guards calls : List EnterGuard} (guarded : Guarded context guards calls)
    {handle : Handle} (current : context = some handle) : guards ≠ [] := by
  obtain ⟨guard, alive, _⟩ := (guarded.context_iff handle).mp current
  exact List.ne_nil_of_mem alive

theorem rejected_enter {handle : Handle} {raised : Panic}
    (rejected : (OnThread.enter handle).run thread = .error raised next) :
    next = thread ∧ ∃ outer, thread.context = some outer := by
  rw [OnThread.run_enter] at rejected
  cases context : thread.context with
  | none =>
      rw [context] at rejected
      cases rejected
  | some outer =>
      rw [context] at rejected
      cases rejected
      exact ⟨rfl, outer, rfl⟩

theorem rejected_blockOn {handle : Handle} {begun : World Output} {raised : Panic}
    (rejected : (OnThread.blockOn handle begun).run thread = .error raised next) :
    next = thread ∧ ∃ outer, thread.context = some outer := by
  rw [OnThread.run_blockOn] at rejected
  cases context : thread.context with
  | none =>
      rw [context] at rejected
      cases rejected
  | some outer =>
      rw [context] at rejected
      cases rejected
      exact ⟨rfl, outer, rfl⟩

/-- A guard that is alive rejects every other one, and nothing else changes. -/
theorem Stepped.rejected {label : ThreadLabel Output}
    (stepped : Stepped thread label next) {handle : Handle}
    (enters : label = .enter handle ∨ label = .blockOn handle) {outer : Handle}
    (context : thread.context = some outer) : next = thread := by
  cases stepped with
  | entered found free | began found begins free =>
      rw [context] at free
      cases free
  | enterRejected taken | beginRejected taken => rfl
  | created | guardDropped alive held | ended calls found outside
  | stepped permitted found step =>
      rcases enters with isEnter | isBlockOn
      · cases isEnter
      · cases isBlockOn

theorem Sound.current (sound : thread.Sound) {handle : Handle}
    {world : World Output} (found : thread.runtimes handle = some world)
    {code : Code} (member : .running code ∈ world.stack)
    (hosted : code.hosted = true) : thread.context = some handle := by
  obtain ⟨clock, os, reach⟩ := sound.ran handle world found
  obtain ⟨guard, called, isHandle⟩ := sound.called handle world found
    (World.blocking_of_hosted reach member hosted)
  cases calls : thread.calls with
  | nil =>
      rw [calls] at called
      cases called
  | cons first rest =>
      obtain ⟨context, _, alone⟩ := sound.guarded.held calls
      rw [alone] at called
      rw [context, ← isHandle, List.mem_singleton.mp called]

/-- The context of a thread is the handle of the one guard that is alive.  While a
guard is alive, entering is rejected and changes nothing; the polls of the root and of
tasks, and the drop of the root, find the handle of their own runtime; and a call of
`block_on` leaves no context behind. -/
theorem context_follows_guard (reach : machine.Reach Machine.Any initial thread) :
    thread.guards.length ≤ 1 ∧
      (∀ handle, thread.context = some handle ↔
        ∃ guard ∈ thread.guards, guard.handle = handle) ∧
      (∀ handle begun raised next,
        (OnThread.enter handle).run thread = .error raised next ∨
          (OnThread.blockOn handle begun).run thread = .error raised next →
        next = thread ∧ thread.guards ≠ []) ∧
      (∀ handle label next, label = .enter handle ∨ label = .blockOn handle →
        thread.guards ≠ [] → machine.step thread label = some next →
        next = thread) ∧
      (∀ handle world code, thread.runtimes handle = some world →
        .running code ∈ world.stack → code.hosted = true →
        OnThread.current.run thread = .ok handle thread) ∧
      ∀ next, machine.step thread .ends = some next →
        next.guards = [] ∧ next.context = none := by
  have sound := run_sound reach
  refine ⟨sound.guarded.length_le, sound.guarded.context_iff, ?_, ?_, ?_, ?_⟩
  · intro handle begun raised next rejected
    have unchanged : next = thread ∧ ∃ outer, thread.context = some outer := by
      rcases rejected with enter | blockOn
      · exact rejected_enter enter
      · exact rejected_blockOn blockOn
    obtain ⟨same, outer, context⟩ := unchanged
    exact ⟨same, sound.guarded.guards_ne_nil context⟩
  · intro handle label next enters alive step
    obtain ⟨guard, member⟩ := List.exists_mem_of_ne_nil _ alive
    have context : thread.context = some guard.handle :=
      (sound.guarded.context_iff guard.handle).mpr ⟨guard, member, rfl⟩
    exact (stepped_of_step step).rejected enters context
  · intro handle world code found member hosted
    rw [OnThread.run_current, sound.current found member hosted]
  · intro next step
    cases stepped_of_step step with
    | ended calls found outside =>
        obtain ⟨_, only, _⟩ := sound.guarded.held calls
        refine ⟨?_, rfl⟩
        dsimp only
        rw [only, List.erase_cons_head]

/-- Inside the root of the first of two runtimes, `block_on` on the second is
attempted; the root panics and is dropped. -/
def nestedLabels : List (ThreadLabel Nat) :=
  [.create (Clock.new 0) 0, .create (Clock.new 0) 0, .blockOn 0,
    .world 0 (.executor .send), .world 0 .drain, .world 0 (.executor .settle),
    .world 0 (.executor .tryRecv), .world 0 .dispatch, .blockOn 1,
    .world 0 .panic, .world 0 .proceed]

def nested : Thread Nat :=
  (machine.run Machine.Any initial nestedLabels).getD initial

theorem context_follows_guard_nested :
    OnThread.current.run nested = .ok 0 nested ∧ nested.guards.length ≤ 1 := by
  have ran : machine.run Machine.Any initial nestedLabels = some nested := rfl
  obtain ⟨one, _, _, _, polled, _⟩ :=
    context_follows_guard (Machine.reach_of_run ran)
  exact ⟨polled 0 _ .dropRoot rfl List.mem_cons_self rfl, one⟩

end Thread

end Asyncr
