import Asyncr.Program.ScriptTurns

namespace Asyncr

open Library
open Time

/-! What the blocks of a program own. -/

namespace World

variable {Output : Type} {world next : World Output} {label : Label Output}
  {schedule : Nat}

theorem Stepped.handle_on (stepped : Stepped world label next) (cells : world.Cells)
    {join : JoinRef} {cell : JoinCell Output} (found : world.joins join = some cell)
    (handle : cell.handle = true) (undropped : label ≠ .dropJoin join) :
    ∃ after, next.joins join = some after ∧ after.handle = true ∧
      (after.state = .consumed → cell.state = .consumed ∨
        (∃ waker, label = .pollJoin join waker) ∧
          ∃ result, cell.state = .ready result) := by
  have kept : ∀ {other : JoinRef} {before changed : JoinCell Output},
      world.joins other = some before →
      next.joins = Function.update world.joins other (some changed) →
      (other = join → cell = before → changed.handle = true ∧
        (changed.state = .consumed → before.state = .consumed ∨
          (∃ waker, label = .pollJoin join waker) ∧
            ∃ result, before.state = .ready result)) →
      ∃ after, next.joins join = some after ∧ after.handle = true ∧
        (after.state = .consumed → cell.state = .consumed ∨
          (∃ waker, label = .pollJoin join waker) ∧
            ∃ result, cell.state = .ready result) := by
    intro other before changed present joins outcome
    rcases kept_updated joins found with ⟨rfl, now⟩ | ⟨_, now⟩
    · cases found.symm.trans present
      exact ⟨changed, now, outcome rfl rfl⟩
    · exact ⟨cell, now, handle, Or.inl⟩
  have fresh : ∀ {other : JoinRef} {changed : JoinCell Output},
      world.joins other = none →
      next.joins = Function.update world.joins other (some changed) →
      ∃ after, next.joins join = some after ∧ after.handle = true ∧
        (after.state = .consumed → cell.state = .consumed ∨
          (∃ waker, label = .pollJoin join waker) ∧
            ∃ result, cell.state = .ready result) := by
    intro other changed absent joins
    rcases kept_updated joins found with ⟨rfl, _⟩ | ⟨_, now⟩
    · cases absent.symm.trans found
    · exact ⟨cell, now, handle, Or.inl⟩
  cases stepped with
  | refused runs closed => exact fresh cells.fresh_refused rfl
  | spawned runs unclosed step => exact fresh cells.fresh_task rfl
  | awaited runs present alive known pending =>
      apply kept present rfl
      rintro rfl rfl
      exact ⟨handle, nofun⟩
  | yielded runs present alive ready =>
      apply kept present rfl
      rintro rfl rfl
      exact ⟨handle, fun _ => Or.inr ⟨⟨_, rfl⟩, _, ready⟩⟩
  | dropped runs present alive =>
      apply kept present rfl
      rintro rfl _
      exact absurd rfl undropped
  | published free stack present pending =>
      apply kept present rfl
      rintro rfl rfl
      exact ⟨handle, nofun⟩
  | released free stack present front =>
      apply kept present rfl
      rintro rfl rfl
      exact ⟨handle, Or.inl⟩
  | granted free stack present =>
      apply kept present rfl
      rintro rfl rfl
      exact ⟨rfl, Or.inl⟩
  | _ => exact ⟨cell, found, handle, Or.inl⟩

theorem Stepped.joiner_back (stepped : Stepped world label next) {join : JoinRef}
    (joined : next.joiner? join = some schedule) :
    world.joiner? join = some schedule ∨ label = .pollJoin join (.task schedule) := by
  obtain ⟨cell, found, waits⟩ := joiner?_eq_some.mp joined
  rcases stepped.stored_back found waits with ⟨old, before, state⟩ | ⟨polls, _⟩
  · exact Or.inl (joiner?_eq_some.mpr ⟨old, before, state⟩)
  · exact Or.inr polls

theorem Stepped.unjoined (stepped : Stepped world label next) {join : JoinRef}
    (drops : label = .dropJoin join) : next.joiner? join = none := by
  subst drops
  cases stepped with
  | timed cause later => rcases cause with ⟨_, other, _⟩ | ⟨_, _, other⟩ <;> cases other
  | unwound free fails unwinds step => cases fails
  | @dropped _ cell runs present alive =>
      have now : (world.dropJoin join cell).joins join =
          some { cell with state := cell.state.abandon, handle := false } :=
        Function.update_self ..
      unfold joiner?
      rw [now, Option.bind_some]
      cases cell.state <;> rfl

theorem Stepped.timer_call (stepped : Stepped world label next) :
    next.time = world.time ∨ ∃ call reply,
      world.time.call call = some (next.time, reply) ∧
        (label = .timer call ∨ call = .processExpired world.now ∨
          call = .nextDeadline) := by
  cases stepped with
  | timer runs asked called => exact Or.inr ⟨_, _, called, Or.inl rfl⟩
  | drained step called => exact Or.inr ⟨_, _, called, Or.inr (Or.inl rfl)⟩
  | planned phase wait called running =>
      exact Or.inr ⟨_, _, called, Or.inr (Or.inr rfl)⟩
  | jumped phase wait called paused advanced step =>
      exact Or.inr ⟨_, _, called, Or.inr (Or.inr rfl)⟩
  | stuck phase wait called paused failed step =>
      exact Or.inr ⟨_, _, called, Or.inr (Or.inr rfl)⟩
  | _ => exact Or.inl rfl

theorem Stepped.timer_called {call : SleepCall Waker}
    (stepped : Stepped world (.timer call) next) :
    ∃ reply, world.time.call call = some (next.time, reply) := by
  cases stepped with
  | timer runs asked called => exact ⟨_, called⟩
  | timed cause later => rcases cause with ⟨_, other, _⟩ | ⟨_, _, other⟩ <;> cases other
  | unwound free fails unwinds step => cases fails

theorem Stepped.sleep_made {deadline : Instant}
    (stepped : Stepped world (.timer (.new deadline)) next) :
    next.time.sleeps world.time.created ≠ none := by
  obtain ⟨reply, called⟩ := stepped.timer_called
  generalize next.time = time at called ⊢
  cases called
  exact fun gone => nomatch (Function.update_self ..).symm.trans gone

theorem Stepped.sleep_gone {sleep : Nat}
    (stepped : Stepped world (.timer (.drop sleep)) next)
    (coupled : world.time.Coupled) : next.time.sleeps sleep = none := by
  obtain ⟨reply, called⟩ := stepped.timer_called
  generalize next.time = time at called ⊢
  cases coupled.outcome called with
  | dropped live => exact Function.update_self ..

theorem Stepped.sleep_waker_back (stepped : Stepped world label next)
    (coupled : world.time.Coupled) {sleep : Nat} {waker : Waker}
    (waits : next.time.waker? sleep = some waker) :
    world.time.waker? sleep = some waker ∨
      ∃ now, label = .timer (.poll sleep waker now) := by
  rcases stepped.timer_call with same | ⟨call, reply, called, origin⟩
  · exact Or.inl (same ▸ waits)
  · refine ((coupled.outcome called).waker_back called coupled waits).imp_right ?_
    rintro ⟨now, rfl⟩
    rcases origin with polls | other | other
    · exact ⟨now, polls⟩
    · cases other
    · cases other

end World

namespace Scripted

variable {Output : Type} {state next : Scripted Output} {schedule : Nat}

def polls (root : Bool) : Code → Prop
  | .root => root = true
  | .inner _ => root = false
  | _ => False

inductive Advanced (state : Scripted Output) : Choice Output → Scripted Output → Prop
  | runtime {label : Label Output} {world : World Output} :
      label.home = true → World.machine.step state.world label = some world →
      Advanced state (.runtime label) { state with world := world }
  | returned {world : World Output} :
      World.machine.step state.world .codeReturns = some world →
      Advanced state .code { state with world := world }
  | polled {schedule : Nat} {root : Bool} {code : Code} {rest : List (Frame Output)}
      {future : Future Output} {turn : Turn Output} {world : World Output} :
      state.world.executor.phase.polled? = some schedule →
      state.world.stack = .running code :: rest → polls root code →
      state.blocks schedule = .going future →
      future.Turned state.world schedule root turn →
      World.machine.step state.world turn.label = some world →
      Advanced state .code (state.take schedule turn world)

theorem advanced_codeStep {root : Bool} {code : Code} {rest : List (Frame Output)}
    (polled : state.world.executor.phase.polled? = some schedule)
    (stack : state.world.stack = .running code :: rest) (isPoll : polls root code)
    (stepped : state.codeStep schedule root = some next) :
    Advanced state .code next := by
  unfold codeStep at stepped
  split at stepped
  · rename_i future going
    obtain ⟨world, step, rfl⟩ := Option.map_eq_some_iff.mp stepped
    exact .polled polled stack isPoll going (future.turned _ _ _) step
  · cases stepped

theorem advanced_of_step {choice : Choice Output}
    (stepped : state.step choice = some next) :
    Advanced state choice next := by
  cases choice with
  | runtime label =>
      simp only [step, Option.ite_none_right_eq_some] at stepped
      obtain ⟨home, moved⟩ := stepped
      obtain ⟨world, step, rfl⟩ := Option.map_eq_some_iff.mp moved
      exact .runtime home step
  | code =>
      simp only [step] at stepped
      split at stepped
      · rename_i polled stack
        exact advanced_codeStep polled stack rfl stepped
      · rename_i join rest polled stack
        exact advanced_codeStep polled stack rfl stepped
      · obtain ⟨world, step, rfl⟩ := Option.map_eq_some_iff.mp stepped
        exact .returned step
      · cases stepped

@[simp] theorem take_world (state : Scripted Output) (schedule : Nat)
    (turn : Turn Output) (world : World Output) :
    (state.take schedule turn world).world = world := by
  unfold take
  split <;> rfl

theorem take_self (state : Scripted Output) (schedule : Nat) (turn : Turn Output)
    (world : World Output) :
    (state.take schedule turn world).blocks schedule = turn.left := by
  unfold take
  split <;> exact Function.update_self ..

theorem take_other (state : Scripted Output) {schedule other : Nat} (turn : Turn Output)
    (world : World Output) (different : other ≠ schedule) :
    ((state.take schedule turn world).blocks other = state.blocks other ∧
        (state.take schedule turn world).scripts other = state.scripts other) ∨
      other = state.world.executor.scheduling.created ∧ ∃ child,
        turn.child = some child ∧
        (state.take schedule turn world).blocks other = .going (Future.new child) ∧
        (state.take schedule turn world).scripts other = child := by
  unfold take
  split
  · rename_i child spawns
    dsimp only
    rw [Function.update_of_ne different]
    cases decEq other state.world.executor.scheduling.created with
    | isTrue same =>
        subst same
        exact Or.inr ⟨rfl, child, spawns, Function.update_self .., Function.update_self ..⟩
    | isFalse old =>
        exact Or.inl ⟨Function.update_of_ne old .., Function.update_of_ne old ..⟩
  · exact Or.inl ⟨Function.update_of_ne different .., rfl⟩

theorem Advanced.stepped {choice : Choice Output} (advanced : Advanced state choice next) :
    ∃ label, World.Stepped state.world label next.world := by
  cases advanced with
  | @runtime label world home step => exact ⟨label, World.stepped_of_step step⟩
  | returned step => exact ⟨.codeReturns, World.stepped_of_step step⟩
  | @polled _ _ _ _ _ turn world polled stack isPoll going turned step =>
      refine ⟨turn.label, ?_⟩
      rw [take_world]
      exact World.stepped_of_step step

def Owns (state : Scripted Output) (schedule : Nat) (resource : Resource) : Prop :=
  ∃ future, state.blocks schedule = .going future ∧ resource ∈ future.owned

/-- What the step of a block gives to it. -/
inductive Gains (world : World Output) : Label Output → Resource → Prop
  | spawned : Gains world .spawn (.handle world.executor.scheduling.created)
  | timed {deadline : Instant} :
      Gains world (.timer (.new deadline)) (.timer world.time.created)

/-- Each resource has one owner, who alone waits for it. -/
structure Owning (state : Scripted Output) : Prop where
  uncreated : ∀ schedule, state.world.executor.scheduling.created ≤ schedule →
    ∃ script, state.blocks schedule = .going (Future.new script)
  once : ∀ first second resource, state.Owns first resource →
    state.Owns second resource → first = second
  nodup : ∀ schedule future, state.blocks schedule = .going future →
    future.owned.Nodup
  handles : ∀ schedule target, state.Owns schedule (.handle target) →
    ∃ cell, state.world.joins (.task target) = some cell ∧ cell.handle = true
  unconsumed : ∀ schedule future target cell, state.blocks schedule = .going future →
    target ∈ future.handles → state.world.joins (.task target) = some cell →
    cell.state ≠ .consumed
  timers : ∀ schedule sleep, state.Owns schedule (.timer sleep) →
    state.world.time.sleeps sleep ≠ none
  joiners : ∀ schedule target,
    state.world.joiner? (.task target) = some schedule →
    state.Owns schedule (.handle target)
  sleepers : ∀ schedule sleep, state.world.time.waker? sleep = some (.task schedule) →
    state.Owns schedule (.timer sleep)

variable {label : Label Output}

theorem Owning.fresh (owning : state.Owning) (cells : state.world.Cells)
    (coupled : state.world.time.Coupled) {resource : Resource}
    (gains : Gains state.world label resource) : ¬ state.Owns schedule resource := by
  intro owns
  cases gains with
  | spawned =>
      obtain ⟨cell, found, _⟩ := owning.handles schedule _ owns
      cases cells.fresh_task.symm.trans found
  | timed =>
      exact owning.timers schedule _ owns (coupled.uncreated _ (Nat.le_refl _))

/-- What a step does to the owners, `schedule` being the one that runs. -/
structure Passes (state next : Scripted Output) (schedule : Nat) (label : Label Output) :
    Prop where
  back : ∀ other resource, next.Owns other resource →
    state.Owns other resource ∨ other = schedule ∧ Gains state.world label resource
  stays : ∀ other resource, state.Owns other resource →
    next.Owns other resource ∨ label = resource.drop
  gone : ∀ other resource, label = resource.drop → ¬ next.Owns other resource
  joins : ∀ join waker, label = .pollJoin join waker →
    ∃ target, join = .task target ∧ waker = .task schedule ∧
      state.Owns schedule (.handle target)
  sleeps : ∀ sleep waker now, label = .timer (.poll sleep waker now) →
    waker = .task schedule ∧ state.Owns schedule (.timer sleep)
  handles : ∀ other future target, next.blocks other = .going future →
    target ∈ future.handles →
    Gains state.world label (.handle target) ∨
      (∃ earlier, state.blocks other = .going earlier ∧ target ∈ earlier.handles) ∧
        ∀ waker cell result, label = .pollJoin (.task target) waker →
          state.world.joins (.task target) = some cell → cell.state ≠ .ready result

theorem Owning.step (owning : state.Owning) (passes : Passes state next schedule label)
    (stepped : World.Stepped state.world label next.world)
    (cells : state.world.Cells) (coupled : state.world.time.Coupled)
    (uncreated : ∀ other, next.world.executor.scheduling.created ≤ other →
      ∃ script, next.blocks other = .going (Future.new script))
    (nodup : ∀ other future, next.blocks other = .going future → future.owned.Nodup)
    (spawns : label = .spawn → ∃ cell,
      next.world.joins (.task state.world.executor.scheduling.created) = some cell ∧
        cell.handle = true ∧ cell.state ≠ .consumed) : next.Owning where
  uncreated := uncreated
  nodup := nodup
  once := by
    intro first second resource ownsFirst ownsSecond
    rcases passes.back first resource ownsFirst with old | ⟨rfl, gains⟩
    · rcases passes.back second resource ownsSecond with again | ⟨rfl, gains⟩
      · exact owning.once first second resource old again
      · exact absurd old (owning.fresh cells coupled gains)
    · rcases passes.back second resource ownsSecond with again | ⟨rfl, _⟩
      · exact absurd again (owning.fresh cells coupled gains)
      · rfl
  handles := by
    intro other target owns
    rcases passes.back other _ owns with old | ⟨_, gains⟩
    · obtain ⟨cell, found, handle⟩ := owning.handles other target old
      obtain ⟨later, now, alive, _⟩ := stepped.handle_on cells found handle
        fun drops => passes.gone other (.handle target) drops owns
      exact ⟨later, now, alive⟩
    · cases gains with
      | spawned =>
          obtain ⟨cell, found, handle, _⟩ := spawns rfl
          exact ⟨cell, found, handle⟩
  unconsumed := by
    intro other future target cell going member now consumed
    rcases passes.handles other future target going member with
      gains | ⟨⟨earlier, before, old⟩, unready⟩
    · cases gains with
      | spawned =>
          obtain ⟨other, found, _, fresh⟩ := spawns rfl
          cases found.symm.trans now
          exact fresh consumed
    · have owns : state.Owns other (.handle target) :=
        ⟨earlier, before, Future.mem_owned.mpr (Or.inr (Or.inl ⟨target, old, rfl⟩))⟩
      obtain ⟨was, found, handle⟩ := owning.handles other target owns
      have still : next.Owns other (.handle target) :=
        ⟨future, going, Future.mem_owned.mpr (Or.inr (Or.inl ⟨target, member, rfl⟩))⟩
      obtain ⟨later, again, _, consumes⟩ := stepped.handle_on cells found handle
        fun drops => passes.gone other (.handle target) drops still
      cases now.symm.trans again
      rcases consumes consumed with already | ⟨⟨waker, polls⟩, result, ready⟩
      · exact owning.unconsumed other earlier target was before old found already
      · exact unready waker was result polls found ready
  timers := by
    intro other sleep owns
    rcases passes.back other _ owns with old | ⟨_, gains⟩
    · have present := owning.timers other sleep old
      rcases stepped.timer_call with same | ⟨call, reply, called, origin⟩
      · rw [same]
        exact present
      · refine (coupled.outcome called).present_on coupled ?_ present
        rintro rfl
        rcases origin with drops | other | other
        · exact passes.gone _ (.timer sleep) drops owns
        · cases other
        · cases other
    · cases gains with
      | timed => exact stepped.sleep_made
  joiners := by
    intro waiter target joined
    have unjoined : label ≠ .dropJoin (.task target) := by
      intro drops
      rw [stepped.unjoined drops] at joined
      cases joined
    rcases stepped.joiner_back joined with before | polls
    · exact (passes.stays waiter _ (owning.joiners waiter target before)).resolve_right
        unjoined
    · obtain ⟨_, same, isWaiter, owns⟩ := passes.joins _ _ polls
      cases same
      cases isWaiter
      exact (passes.stays _ _ owns).resolve_right unjoined
  sleepers := by
    intro waiter sleep waits
    have undropped : label ≠ .timer (.drop sleep) := by
      rintro rfl
      obtain ⟨_, _, ⟨_, present, _⟩, _⟩ := Timers.waker?_eq_some.mp waits
      cases (stepped.sleep_gone coupled).symm.trans present
    rcases stepped.sleep_waker_back coupled waits with before | ⟨now, polls⟩
    · exact (passes.stays waiter _ (owning.sleepers waiter sleep before)).resolve_right
        undropped
    · obtain ⟨isWaiter, owns⟩ := passes.sleeps _ _ _ polls
      cases isWaiter
      exact (passes.stays _ _ owns).resolve_right undropped

def asks : Label Output → Bool
  | .spawn | .pollJoin _ _ | .dropJoin _ | .timer _ => true
  | .executor _ | .tick _ | .clock _ | .yield _ | .rootYield _ | .codeReturns | .panic
  | .proceed | .drain | .plan | .recv | .timeout | .dispatch | .finish | .clear
  | .destroy _ => false

theorem asks_drop (resource : Resource) : asks (resource.drop : Label Output) = true := by
  cases resource <;> rfl

theorem asks_home (home : label.home = true) : asks label = false := by
  cases label with
  | spawn | pollJoin _ _ | dropJoin _ | timer _ => cases home
  | _ => rfl

theorem Passes.of_silent (blocks : next.blocks = state.blocks)
    (silent : asks label = false) : Passes state next schedule label where
  back := by
    intro other resource owns
    unfold Owns at owns ⊢
    rw [blocks] at owns
    exact Or.inl owns
  stays := by
    intro other resource owns
    unfold Owns at owns ⊢
    rw [blocks]
    exact Or.inl owns
  gone := by
    rintro other resource rfl
    cases silent.symm.trans (asks_drop resource)
  joins := by
    rintro join waker rfl
    cases silent
  sleeps := by
    rintro sleep waker now rfl
    cases silent
  handles := by
    intro other future target going member
    rw [blocks] at going
    refine Or.inr ⟨⟨future, going, member⟩, ?_⟩
    rintro waker cell result rfl
    cases silent

theorem not_owns_new {script : Script Output} {resource : Resource}
    (going : state.blocks schedule = .going (Future.new script)) :
    ¬ state.Owns schedule resource := by
  rintro ⟨future, same, owned⟩
  cases going.symm.trans same
  cases owned

section

variable {root : Bool} {future : Future Output} {turn : Turn Output}
  {world : World Output}

theorem Owning.owns_other (owning : state.Owning) {other : Nat}
    (different : other ≠ schedule) {resource : Resource} :
    (state.take schedule turn world).Owns other resource ↔ state.Owns other resource := by
  rcases take_other state turn world different with ⟨same, _⟩ | ⟨rfl, child, _, going, _⟩
  · unfold Owns
    rw [same]
  · obtain ⟨script, fresh⟩ := owning.uncreated _ (Nat.le_refl _)
    exact iff_of_false (not_owns_new going) (not_owns_new fresh)

theorem Owning.passes (owning : state.Owning)
    (going : state.blocks schedule = .going future)
    (turned : future.Turned state.world schedule root turn) :
    Passes state (state.take schedule turn world) schedule turn.label := by
  have nodup := owning.nodup schedule future going
  have back : ∀ other resource, (state.take schedule turn world).Owns other resource →
      state.Owns other resource ∨
        other = schedule ∧ Gains state.world turn.label resource := by
    intro other resource owns
    cases decEq other schedule with
    | isFalse different => exact Or.inl ((owning.owns_other different).mp owns)
    | isTrue same =>
        subst same
        obtain ⟨after, left, owned⟩ := owns
        rw [take_self] at left
        rcases turned.owned_back left owned with
          old | ⟨spawns, rfl⟩ | ⟨⟨deadline, makes⟩, rfl⟩
        · exact Or.inl ⟨future, going, old⟩
        · exact Or.inr ⟨rfl, spawns ▸ .spawned⟩
        · exact Or.inr ⟨rfl, makes ▸ .timed⟩
  refine ⟨back, ?_, ?_, ?_, ?_, ?_⟩
  · intro other resource owns
    cases decEq other schedule with
    | isFalse different => exact Or.inl ((owning.owns_other different).mpr owns)
    | isTrue same =>
        subst same
        obtain ⟨before, was, owned⟩ := owns
        cases going.symm.trans was
        refine (turned.owned_on owned).imp_left ?_
        rintro ⟨after, left, still⟩
        exact ⟨after, (take_self ..).trans left, still⟩
  · intro other resource drops owns
    obtain ⟨owned, lost⟩ := turned.gone nodup drops
    rcases back other resource owns with old | ⟨_, gains⟩
    · cases owning.once other schedule resource old ⟨future, going, owned⟩
      obtain ⟨after, left, still⟩ := owns
      exact lost after ((take_self ..).symm.trans left) still
    · rw [drops] at gains
      cases resource <;> cases gains
  · intro join waker polls
    obtain ⟨handle, member, rfl, rfl⟩ := turned.polls_own.1 join waker polls
    exact ⟨handle, rfl, rfl, future, going,
      Future.mem_owned.mpr (Or.inr (Or.inl ⟨handle, member, rfl⟩))⟩
  · intro sleep waker now polls
    obtain ⟨held, rfl, _⟩ := turned.polls_own.2 sleep waker now polls
    exact ⟨rfl, future, going, Future.mem_owned.mpr (Or.inr (Or.inr ⟨sleep, held, rfl⟩))⟩
  · intro other after target left member
    cases decEq other schedule with
    | isTrue same =>
        subst same
        rw [take_self] at left
        rcases turned.handles_back nodup left member with ⟨spawns, rfl⟩ | ⟨old, unready⟩
        · exact Or.inl (spawns ▸ .spawned)
        · exact Or.inr ⟨⟨future, going, old⟩, unready⟩
    | isFalse different =>
        right
        rcases take_other state turn world different with
          ⟨same, _⟩ | ⟨_, child, _, fresh, _⟩
        · rw [same] at left
          refine ⟨⟨after, left, member⟩, ?_⟩
          intro waker cell result polls found ready
          obtain ⟨_, held, isTask, _⟩ := turned.polls_own.1 _ _ polls
          cases isTask
          exact different (owning.once other schedule (.handle target)
            ⟨after, left, Future.mem_owned.mpr (Or.inr (Or.inl ⟨target, member, rfl⟩))⟩
            ⟨future, going, Future.mem_owned.mpr (Or.inr (Or.inl ⟨target, held, rfl⟩))⟩)
        · cases fresh.symm.trans left
          cases member

end

/-- What holds of the world and of the owners in a run. -/
structure Managed (state : Scripted Output) : Prop where
  orderly : state.world.Orderly
  coupled : state.world.time.Coupled
  unclosed : state.world.executor.closed = false
  owning : state.Owning

variable {root : Bool} {future : Future Output} {turn : Turn Output}
  {world : World Output}

theorem Managed.silent (managed : state.Managed)
    (stepped : World.Stepped state.world label next.world)
    (blocks : next.blocks = state.blocks) (silent : asks label = false) :
    next.Owning := by
  have passes : Passes state next 0 label := .of_silent blocks silent
  apply managed.owning.step passes stepped managed.orderly.cells managed.coupled
  · intro other uncreated
    rw [blocks]
    exact managed.owning.uncreated other (Nat.le_trans stepped.created_le uncreated)
  · intro other future going
    rw [blocks] at going
    exact managed.owning.nodup other future going
  · rintro rfl
    cases silent

theorem spawned_of_unclosed (stepped : World.Stepped state.world .spawn world)
    (unclosed : state.world.executor.closed = false) :
    world.joins (.task state.world.executor.scheduling.created) =
      some (JoinCell.new true) := by
  cases stepped with
  | timed cause later => rcases cause with ⟨_, other, _⟩ | ⟨_, _, other⟩ <;> cases other
  | unwound free fails unwinds step => cases fails
  | refused runs closed => cases unclosed.symm.trans closed
  | spawned runs _ step => exact Function.update_self ..

theorem Managed.polled (managed : state.Managed)
    (going : state.blocks schedule = .going future)
    (below : schedule < state.world.executor.scheduling.created)
    (turned : future.Turned state.world schedule root turn)
    (stepped : World.Stepped state.world turn.label world) :
    (state.take schedule turn world).Owning := by
  have owning := managed.owning
  have fresh : ∀ {made : Label Output} {resource : Resource},
      Gains state.world made resource → resource ∉ future.owned := by
    intro made resource gains owned
    exact owning.fresh managed.orderly.cells managed.coupled gains ⟨future, going, owned⟩
  have nodup := owning.nodup schedule future going
  apply owning.step (owning.passes going turned) (by rwa [take_world])
    managed.orderly.cells managed.coupled
  · intro other uncreated
    rw [take_world] at uncreated
    have old := Nat.le_trans stepped.created_le uncreated
    have different : other ≠ schedule := by
      rintro rfl
      exact absurd below (Nat.not_lt.mpr old)
    rcases take_other state turn world different with ⟨same, _⟩ | ⟨_, child, _, new, _⟩
    · rw [same]
      exact owning.uncreated other old
    · exact ⟨child, new⟩
  · intro other later left
    cases decEq other schedule with
    | isTrue same =>
        subst same
        rw [take_self] at left
        exact turned.nodup left nodup ⟨fresh .spawned, fresh (@Gains.timed _ _ 0)⟩
    | isFalse different =>
        rcases take_other state turn world different with ⟨same, _⟩ | ⟨_, child, _, new, _⟩
        · rw [same] at left
          exact owning.nodup other later left
        · cases new.symm.trans left
          exact List.nodup_nil
  · intro spawns
    rw [take_world]
    rw [spawns] at stepped
    exact ⟨_, spawned_of_unclosed stepped managed.unclosed, rfl, nofun⟩

end Scripted

end Asyncr
