import Asyncr.Program.Endings

namespace Asyncr

/-- Code that destroys a spawned future, the payload of its panic or its output. -/
def Code.destroys : Code → Bool
  | .dropFuture _ | .dropPayload _ | .dropOutput _ => true
  | .root | .inner _ | .waker _ | .dropRoot => false

/-- The destructor that the frame will call. -/
def Frame.destructor? {Output : Type} : Frame Output → Option Code
  | .call code => if code.destroys then some code else none
  | .running _ | .fire _ | .wake _ _ | .publish _ _ | .release _ | .grant _ => none

/-- The destructor that runs in the frame. -/
def Frame.executing? {Output : Type} : Frame Output → Option Code
  | .running code => if code.destroys then some code else none
  | .call _ | .fire _ | .wake _ _ | .publish _ _ | .release _ | .grant _ => none

theorem Frame.destructor?_eq_some {Output : Type} {frame : Frame Output} {code : Code} :
    frame.destructor? = some code ↔ code.destroys = true ∧ frame = .call code := by
  cases frame with
  | call other =>
      simp only [Frame.destructor?, Option.ite_none_right_eq_some, Option.some.injEq,
        Frame.call.injEq]
      constructor
      · rintro ⟨destroys, rfl⟩
        exact ⟨destroys, rfl⟩
      · rintro ⟨destroys, rfl⟩
        exact ⟨destroys, rfl⟩
  | _ => simp [Frame.destructor?]

theorem Frame.executing?_eq_some {Output : Type} {frame : Frame Output} {code : Code} :
    frame.executing? = some code ↔ code.destroys = true ∧ frame = .running code := by
  cases frame with
  | running other =>
      simp only [Frame.executing?, Option.ite_none_right_eq_some, Option.some.injEq,
        Frame.running.injEq]
      constructor
      · rintro ⟨destroys, rfl⟩
        exact ⟨destroys, rfl⟩
      · rintro ⟨destroys, rfl⟩
        exact ⟨destroys, rfl⟩
  | _ => simp [Frame.executing?]

namespace World

open Library
open Time

variable {Output : Type} {world next : World Output} {label : Label Output}

/-! The destructors that the runtime owes to the futures it was given, and to what
they left. -/

def destructors (stack : List (Frame Output)) : List Code :=
  stack.filterMap Frame.destructor?

def executing (stack : List (Frame Output)) : List Code :=
  stack.filterMap Frame.executing?

/-- The destructor that a step calls; code that drops a handle calls that of an output
which is freed with it. -/
def calls (world : World Output) : Label Output → List Code
  | .proceed => destructors (world.stack.take 1)
  | .dropJoin join =>
      match world.joins join with
      | some cell =>
          if { cell with handle := false }.freesOutput then [.dropOutput join] else []
      | none => []
  | _ => []

/-- The destructor that a step ends with a panic. -/
def fails (world : World Output) : Label Output → List Code
  | .panic => executing (world.stack.take 1)
  | _ => []

theorem mem_destructors {code : Code} {stack : List (Frame Output)} :
    code ∈ destructors stack ↔ code.destroys = true ∧ .call code ∈ stack := by
  simp only [destructors, List.mem_filterMap, Frame.destructor?_eq_some]
  constructor
  · rintro ⟨_, member, destroys, rfl⟩
    exact ⟨destroys, member⟩
  · rintro ⟨destroys, member⟩
    exact ⟨_, member, destroys, rfl⟩

theorem mem_executing {code : Code} {stack : List (Frame Output)} :
    code ∈ executing stack ↔ code.destroys = true ∧ .running code ∈ stack := by
  simp only [executing, List.mem_filterMap, Frame.executing?_eq_some]
  constructor
  · rintro ⟨_, member, destroys, rfl⟩
    exact ⟨destroys, member⟩
  · rintro ⟨destroys, member⟩
    exact ⟨_, member, destroys, rfl⟩

theorem destructors_cons (frame : Frame Output) (rest : List (Frame Output)) :
    destructors (frame :: rest) = frame.destructor?.toList ++ destructors rest := by
  cases called : frame.destructor? with
  | none => simp [destructors, called]
  | some code => simp [destructors, called]

theorem executing_cons (frame : Frame Output) (rest : List (Frame Output)) :
    executing (frame :: rest) = frame.executing?.toList ++ executing rest := by
  cases runs : frame.executing? with
  | none => simp [executing, runs]
  | some code => simp [executing, runs]

theorem destructors_append (front rest : List (Frame Output)) :
    destructors (front ++ rest) = destructors front ++ destructors rest :=
  List.filterMap_append

theorem executing_append (front rest : List (Frame Output)) :
    executing (front ++ rest) = executing front ++ executing rest :=
  List.filterMap_append

theorem destructors_fire (wakers : List Waker) :
    destructors (wakers.map (Frame.fire : Waker → Frame Output)) = [] := by
  simp [destructors, Frame.destructor?, Function.comp_def]

theorem executing_fire (wakers : List Waker) :
    executing (wakers.map (Frame.fire : Waker → Frame Output)) = [] := by
  simp [executing, Frame.executing?, Function.comp_def]

theorem destructors_unwound (executor : Executor) :
    destructors (unwound executor : List (Frame Output)) = [] := by
  unfold unwound
  split <;> rfl

theorem destructors_wakes {rest : List (Frame Output)} {waker : Waker}
    {event : ProgramEvent Output} (wakes : Wakes world.stack waker rest event) :
    destructors world.stack = destructors rest ∧ world.calls .proceed = [] := by
  unfold calls
  generalize world.stack = stack at wakes ⊢
  cases wakes with
  | fire => exact ⟨rfl, rfl⟩
  | wake => exact ⟨rfl, rfl⟩

theorem destructors_cleanup {rest : List (Frame Output)}
    (unpaid : ∀ join, .call (.dropPayload join) ∉ rest) :
    destructors (cleanup rest) = destructors rest := by
  induction rest with
  | nil => rfl
  | cons frame rest ih =>
      have later := ih fun join member => unpaid join (List.mem_cons_of_mem _ member)
      cases frame with
      | call code =>
          cases code with
          | dropPayload join => exact absurd List.mem_cons_self (unpaid join)
          | _ => simp only [cleanup, destructors_cons, later]
      | _ => exact later

theorem executing_cleanup (rest : List (Frame Output)) :
    executing (cleanup rest) = [] := by
  induction rest with
  | nil => rfl
  | cons frame rest ih =>
      cases frame with
      | call code => cases code <;> exact ih
      | _ => exact ih

/-! What a step makes of the destructors that are owed. -/

/-- Which destructors a step puts on the stack, or calls at once, and why. -/
inductive Adds (world next : World Output) : List Code → Prop
  | nothing : publishing next.stack ⊆ publishing world.stack → Adds world next []
  /-- The future of a join has ended, or is dropped unfinished. -/
  | harnessed {join : JoinRef} {payload : List Code} :
      ¬ world.Over join → publishing next.stack = join :: publishing world.stack →
      payload = [] ∨
        payload = [.dropPayload join] ∧ next.log = .panicked join :: world.log →
      Adds world next (.dropFuture join :: payload)
  /-- The last reference to a result that nobody has taken goes. -/
  | unclaimed {join : JoinRef} {cell : JoinCell Output} {value : Output} :
      world.joins join = some cell → cell.state = .ready (.ok value) →
      cell.handle = true ∨ .release join ∈ world.stack →
      next.joins = Function.update world.joins join
        (some { cell with handle := false, sender := false }) →
      publishing next.stack = publishing world.stack →
      Adds world next [.dropOutput join]

/-- Which destructors are called no more: that of a panic's payload, where that of the
future panics before. -/
inductive Loses (world : World Output) : Label Output → List Code → Prop
  | nothing {label : Label Output} : Loses world label []
  | payload {join : JoinRef} :
      world.stack = [.running (.dropFuture join), .call (.dropPayload join),
        .publish join (.error .panic)] → Loses world .panic [.dropPayload join]

/-- A step calls the topmost destructor, or puts others on the stack. -/
structure Owes (world next : World Output) (label : Label Output)
    (added lost : List Code) : Prop where
  adds : Adds world next added
  loses : Loses world label lost
  moved : (world.calls label ++ destructors next.stack ++ lost).Perm
    (added ++ destructors world.stack)

theorem Owes.of_same (published : publishing next.stack ⊆ publishing world.stack)
    (owed : world.calls label ++ destructors next.stack = destructors world.stack) :
    Owes world next label [] [] where
  adds := .nothing published
  loses := .nothing
  moved := by
    rw [List.append_nil, owed]
    exact .refl _

theorem Owes.of_added {added : List Code} (adds : Adds world next added)
    (owed : world.calls label ++ destructors next.stack =
      added ++ destructors world.stack) : Owes world next label added [] where
  adds := adds
  loses := .nothing
  moved := by
    rw [List.append_nil, owed]

theorem Orderly.discards (orderly : world.Orderly) (empty : world.stack = [])
    {task : LocalTask} (stack : next.stack = world.dropTask task)
    (quiet : world.calls label = []) :
    ∃ added lost, Owes world next label added lost := by
  cases found : world.joins (.task task.schedule) with
  | none =>
      refine ⟨[], [], .of_same ?_ ?_⟩
      · rw [stack]
        simp [dropTask, found, publishing]
      · rw [quiet, stack, empty]
        simp [dropTask, found, destructors]
  | some cell =>
      cases sender : cell.sender with
      | false =>
          refine ⟨[], [], .of_same ?_ ?_⟩
          · rw [stack]
            simp [dropTask, found, sender, publishing]
          · rw [quiet, stack, empty]
            simp [dropTask, found, sender, destructors]
      | true =>
          have pending := orderly.cells.pending_of_sender empty found sender
          refine ⟨[.dropFuture (.task task.schedule)], [],
            .of_added (.harnessed ?_ ?_ (Or.inl rfl)) ?_⟩
          · rintro (member | ⟨other, present, settled⟩)
            · rw [empty] at member
              cases member
            · cases found.symm.trans present
              rw [pending] at settled
              cases settled
          · rw [stack, empty]
            simp [dropTask, found, sender, harness, publishing]
          · rw [quiet, stack, empty]
            simp [dropTask, found, sender, harness, destructors, Frame.destructor?,
              Code.destroys]

theorem release_owes {join : JoinRef} {rest : List (Frame Output)}
    (stack : world.stack = .release join :: rest)
    {cell : JoinCell Output} (found : world.joins join = some cell)
    (frees : { cell with sender := false }.freesOutput = true)
    (step : machine.step world .proceed = some next) :
    .dropOutput join ∈ destructors next.stack := by
  change (if world.executor.free then world.proceed else none) = some next at step
  rw [Option.ite_none_right_eq_some] at step
  obtain ⟨_, step⟩ := step
  unfold proceed at step
  rw [stack] at step
  simp only [release, found] at step
  rw [if_pos frees] at step
  cases step
  exact List.mem_cons_self

theorem release_frees {join : JoinRef} {rest : List (Frame Output)}
    (stack : world.stack = .release join :: rest)
    {cell : JoinCell Output} (found : world.joins join = some cell)
    (step : machine.step world .proceed = some next) :
    next.stack = rest ∨ { cell with sender := false }.freesOutput = true := by
  change (if world.executor.free then world.proceed else none) = some next at step
  rw [Option.ite_none_right_eq_some] at step
  obtain ⟨_, step⟩ := step
  unfold proceed at step
  rw [stack] at step
  simp only [release, found] at step
  split at step
  · rename_i frees
    exact Or.inr frees
  · cases step
    exact Or.inl rfl

theorem Fails.owes {rest left : List (Frame Output)} {log : List (ProgramEvent Output)}
    (fails : Fails world label rest log) (unwinds : Unwinds world rest left)
    (cells : world.Cells) (ending : Ending world.stack) (stack : next.stack = left) :
    ∃ lost, Owes world next label [] lost := by
  have published : World.publishing next.stack ⊆ World.publishing world.stack := by
    rw [stack, publishing_unwinds unwinds, fails.publishing cells]
    exact List.Subset.refl _
  have cleaned : destructors left = destructors (cleanup rest) := by
    obtain ⟨last, rfl, origin⟩ := unwinds.left
    rw [destructors_append]
    rcases origin with rfl | rfl
    · exact List.append_nil _
    · exact List.append_nil _
  cases fails with
  | @code code rest top outermost =>
      by_cases lost : ∃ join, .call (.dropPayload join) ∈ rest
      · obtain ⟨join, member⟩ := lost
        rw [top] at ending
        obtain ⟨front, same, destroyer⟩ :=
          ending.payload join (List.mem_cons_of_mem _ member)
        rcases destroyer with rfl | rfl | rfl
        · cases same
        · cases same
        · cases same
          refine ⟨_, .nothing published, .payload top, ?_⟩
          rw [stack, cleaned, top]
          exact .refl _
      · have unpaid : ∀ join, .call (.dropPayload join) ∉ rest :=
          fun join member => lost ⟨join, member⟩
        refine ⟨[], .of_same published ?_⟩
        rw [stack, cleaned, destructors_cleanup unpaid, top]
        rfl
  | poisoned wakes poisoned =>
      obtain ⟨owed, none⟩ := destructors_wakes wakes
      have unpaid : ∀ join, .call (.dropPayload join) ∉ rest := by
        generalize world.stack = stack at wakes ending
        cases wakes with
        | fire | wake => exact (ending.unended (by simp [Destroying])).2
      refine ⟨[], .of_same published ?_⟩
      rw [stack, cleaned, destructors_cleanup unpaid, none, owed]
      rfl
  | published top found twice =>
      obtain ⟨completed, completes⟩ := cells.completes top found
      rw [twice] at completes
      cases completes

/-- What each step makes of the destructors: none is lost but the payload of a panic
whose future's destructor panics too. -/
theorem destroys (orderly : world.Orderly) (ending : Ending world.stack)
    (step : machine.step world label = some next) :
    ∃ added lost, Owes world next label added lost := by
  have same : publishing next.stack = publishing world.stack →
      world.calls label ++ destructors next.stack = destructors world.stack →
      ∃ added lost, Owes world next label added lost := by
    intro published owed
    refine ⟨[], [], .of_same ?_ owed⟩
    rw [published]
    exact List.Subset.refl _
  cases stepped_of_step step with
  | moved permitted moved => exact same rfl rfl
  | timed origin later =>
      rcases origin with ⟨reading, rfl, rfl⟩ | ⟨_, call, rfl⟩
      · exact same rfl rfl
      · exact same rfl rfl
  | refused runs closed =>
      refine ⟨[_], [], .of_added (.harnessed ?_ rfl (Or.inl rfl)) rfl⟩
      exact fun isOver => isOver.present orderly.cells orderly.cells.fresh_refused
  | @dropped join cell runs found handle =>
      cases frees : { cell with handle := false }.freesOutput with
      | false =>
          refine same rfl ?_
          simp [calls, found, frees, dropJoin, setJoin]
      | true =>
          obtain ⟨_, sender, value, state⟩ := JoinCell.freesOutput_iff.mp frees
          refine ⟨[.dropOutput join], [],
            .of_added (.unclaimed found state (Or.inl handle) ?_ rfl) ?_⟩
          · replace sender : cell.sender = false := sender
            replace state : cell.state = .ready (.ok value) := state
            simp [dropJoin, setJoin, JoinState.abandon, state, sender]
          · simp [calls, found, frees, dropJoin, setJoin]
  | suspended free stack moved =>
      apply same
      · rw [stack]
        exact publishing_unwound _
      · rw [stack]
        exact destructors_unwound _
  | returned free stack =>
      refine ⟨[_], [], .of_added (.harnessed (orderly.running stack) ?_ (Or.inl rfl)) ?_⟩
      · rw [stack]
        rfl
      · rw [stack]
        rfl
  | rootYielded free stack moved =>
      apply same
      · rw [stack]
        dsimp only
        split <;> rfl
      · rw [stack]
        dsimp only [calls]
        split <;> rfl
  | codeReturned free stack notRoot notInner =>
      apply same
      · rw [stack]
        rfl
      · rw [stack]
        rfl
  | caught free stack =>
      refine ⟨_, [],
        .of_added (.harnessed (orderly.running stack) ?_ (Or.inr ⟨rfl, rfl⟩)) ?_⟩
      · rw [stack]
        rfl
      · rw [stack]
        rfl
  | unwound free fails unwinds moved =>
      exact ⟨[], fails.owes unwinds orderly.cells ending rfl⟩
  | called free stack =>
      apply same
      · rw [stack]
        rfl
      · unfold calls
        rw [stack]
        exact (destructors_append [_] _).symm
  | wokeCode free wakes =>
      obtain ⟨owed, none⟩ := destructors_wakes wakes
      exact same (publishing_wakes wakes).symm (by rw [none, owed]; rfl)
  | wokeTask free wakes unpoisoned moved =>
      obtain ⟨owed, none⟩ := destructors_wakes wakes
      exact same (publishing_wakes wakes).symm (by rw [none, owed]; rfl)
  | @published join result rest cell waker free stack found pending =>
      refine ⟨[], [], .of_same ?_ ?_⟩
      · rw [stack]
        cases waker with
        | none => exact List.subset_cons_self _ _
        | some waker => exact List.subset_cons_self _ _
      · unfold calls
        rw [stack]
        cases waker with
        | none => rfl
        | some waker => rfl
  | @released join rest front cell free stack found handed =>
      have quiet : world.calls .proceed = [] := by
        unfold calls
        rw [stack]
        rfl
      rcases handed with rfl | ⟨rfl, handle⟩
      · exact same (by rw [stack]; rfl) (by rw [quiet, stack]; rfl)
      · rcases release_frees stack found step with left | frees
        · exact absurd left (by simp)
        · obtain ⟨_, _, value, state⟩ := JoinCell.freesOutput_iff.mp frees
          have released : .release join ∈ world.stack := stack ▸ List.mem_cons_self
          refine ⟨[.dropOutput join], [],
            .of_added (.unclaimed found state (Or.inr released) ?_ ?_) ?_⟩
          · simp [setJoin, handle]
          · rw [stack]
            rfl
          · rw [quiet, stack]
            rfl
  | granted free stack found =>
      apply same
      · rw [stack]
        rfl
      · unfold calls
        rw [stack]
        rfl
  | drained moved called =>
      have empty := orderly.placed.empty moved rfl
      exact same (by rw [empty]; exact publishing_fire _)
        (by rw [empty]; exact destructors_fire _)
  | stuck phase wait found paused failed moved =>
      have empty : world.stack = [] := orderly.placed (by rw [phase]; rfl)
      exact same (by rw [empty]; rfl) (by rw [empty]; rfl)
  | began moved phase =>
      have empty := orderly.placed.empty moved rfl
      exact same (by rw [empty]; rfl) (by rw [empty]; rfl)
  | notBegun moved other =>
      have empty := orderly.placed.empty moved rfl
      exact same (by rw [empty]; rfl) (by rw [empty]; rfl)
  | finished free phase notRoot stack moved =>
      apply same
      · rw [stack]
        exact publishing_unwound _
      · rw [stack]
        exact destructors_unwound _
  | cleared stack pending moved => exact orderly.discards stack rfl rfl
  | destroyed stack found moved => exact orderly.discards stack rfl rfl
  | timer _ _ _ | spawned _ _ _ | rejected | awaited _ _ _ _ _ | yielded _ _ _ _
  | planned _ _ _ _ | jumped _ _ _ _ _ _ | received _ _ | timedOut _ _ =>
      exact same rfl rfl

/-! The destructors that run: each was called, and none runs after its end. -/

/-- The destructor of an output may be called at once, any other is on the stack. -/
theorem mem_calls {code : Code} (member : code ∈ world.calls label)
    (other : ∀ join, code ≠ .dropOutput join) : .call code ∈ world.stack := by
  cases label with
  | proceed =>
      have top := (mem_destructors.mp member).2
      exact List.mem_of_mem_take top
  | dropJoin join =>
      simp only [calls] at member
      split at member
      · split at member
        · exact absurd (List.mem_singleton.mp member) (other join)
        · cases member
      · cases member
  | _ => cases member

theorem executing_unwound (executor : Executor) :
    executing (unwound executor : List (Frame Output)) = [] := by
  unfold unwound
  split <;> rfl

theorem executing_dropTask (world : World Output) (task : LocalTask) :
    executing (world.dropTask task) = [] := by
  unfold dropTask
  split
  · split <;> rfl
  · rfl

theorem executing_wakes {rest : List (Frame Output)} {waker : Waker}
    {event : ProgramEvent Output} (wakes : Wakes world.stack waker rest event) :
    executing world.stack = executing rest := by
  generalize world.stack = stack at wakes ⊢
  cases wakes with
  | fire => rfl
  | wake => rfl

theorem Stepped.executes (stepped : Stepped world label next) :
    (executing next.stack ++ world.fails label).Subperm
      (world.calls label ++ executing world.stack) := by
  have fewer : world.fails label = [] →
      (executing next.stack).Sublist (executing world.stack) →
      (executing next.stack ++ world.fails label).Subperm
        (world.calls label ++ executing world.stack) := by
    intro none sublist
    rw [none, List.append_nil]
    exact (sublist.trans (List.sublist_append_right _ _)).subperm
  have idle : world.fails label = [] → executing next.stack = [] →
      (executing next.stack ++ world.fails label).Subperm
        (world.calls label ++ executing world.stack) := by
    intro none empty
    apply fewer none
    rw [empty]
    exact List.nil_sublist _
  cases stepped with
  | timed origin later =>
      rcases origin with ⟨reading, rfl, rfl⟩ | ⟨_, call, rfl⟩
      · exact fewer rfl (List.Sublist.refl _)
      · exact fewer rfl (List.Sublist.refl _)
  | suspended free stack moved => exact idle rfl (executing_unwound _)
  | finished free phase notRoot stack moved => exact idle rfl (executing_unwound _)
  | rootYielded free stack moved =>
      apply idle rfl
      dsimp only
      split <;> rfl
  | codeReturned free stack notRoot notInner =>
      apply fewer rfl
      rw [stack]
      exact executing_append [_] _ ▸ List.sublist_append_right _ _
  | caught free stack =>
      apply idle ?_ rfl
      unfold fails
      rw [stack]
      rfl
  | @unwound label rest left log executor free fails unwinds moved =>
      have none : executing left = [] := by
        obtain ⟨last, rfl, origin⟩ := unwinds.left
        rw [executing_append, executing_cleanup]
        rcases origin with rfl | rfl
        · rfl
        · rfl
      rw [none, List.nil_append]
      cases fails with
      | code stack outermost =>
          unfold World.fails
          rw [stack]
          change (executing [_]).Subperm (executing ([_] ++ _))
          rw [executing_append]
          exact (List.sublist_append_left _ _).subperm
      | poisoned wakes poisoned => exact List.nil_subperm
      | published stack found twice => exact List.nil_subperm
  | @called code rest free stack =>
      have moved : executing (.running code :: rest) =
          world.calls .proceed ++ executing world.stack := by
        unfold calls
        rw [stack, List.take_succ_cons, List.take_zero, executing_cons, destructors_cons]
        exact congrArg (· ++ executing rest) (List.append_nil _).symm
      rw [moved]
      exact (List.append_nil _).symm ▸ List.Subperm.refl _
  | wokeCode free wakes =>
      apply fewer rfl
      rw [executing_wakes wakes]
      exact List.Sublist.refl _
  | wokeTask free wakes unpoisoned moved =>
      apply fewer rfl
      rw [executing_wakes wakes]
  | @published join result rest cell waker free stack found pending =>
      apply fewer rfl
      rw [stack]
      cases waker with
      | none => exact List.Sublist.refl _
      | some waker => exact List.Sublist.refl _
  | released free stack found front =>
      apply fewer rfl
      rw [stack]
      rcases front with rfl | ⟨rfl, _⟩
      · exact List.Sublist.refl _
      · exact List.Sublist.refl _
  | granted free stack found =>
      apply fewer rfl
      rw [stack]
      exact List.Sublist.refl _
  | drained moved called => exact idle rfl (executing_fire _)
  | @began root target id executor moved phase =>
      apply idle rfl
      cases decEq id rootTaskId with
      | isTrue isRoot => simp [executing, Frame.executing?, isRoot, Code.destroys]
      | isFalse notRoot => simp [executing, Frame.executing?, notRoot, Code.destroys]
  | returned _ _ | stuck _ _ _ _ _ _ | notBegun _ _ => exact idle rfl rfl
  | cleared stack pending moved => exact idle rfl (executing_dropTask world _)
  | destroyed stack found moved => exact idle rfl (executing_dropTask world _)
  | moved _ _ | timer _ _ _ | refused _ _ | spawned _ _ _ | rejected
  | awaited _ _ _ _ _ | yielded _ _ _ _ | dropped _ _ _ | planned _ _ _ _
  | jumped _ _ _ _ _ _ | received _ _ | timedOut _ _ =>
      exact fewer rfl (List.Sublist.refl _)

end World

end Asyncr
