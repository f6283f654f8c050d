import Asyncr.Program.History

namespace Asyncr

namespace World

open Library
open Time

variable {Output : Type} {world next : World Output} {label : Label Output}

/-! What is left of a harness is published when the destructors that come first have
run.  Where its future has ended in a poll, it is alone on the stack. -/

theorem publish_cleanup {join : JoinRef} {result : Except JoinError Output}
    {rest : List (Frame Output)} (member : .publish join result ∈ cleanup rest) :
    result = .error .cancelled := by
  rcases mem_cleanup member with ⟨code, isCall, _⟩ | ⟨other, _, isCancelled, _⟩ |
    ⟨other, isRelease⟩
  · cases isCall
  · cases isCancelled
    rfl
  · cases isRelease

theorem Unwinds.left {rest left : List (Frame Output)}
    (unwinds : Unwinds world rest left) :
    ∃ last, left = cleanup rest ++ last ∧ (last = [] ∨ last = [.call .dropRoot]) := by
  cases unwinds with
  | loop phase => exact ⟨_, rfl, Or.inr rfl⟩
  | leaving phase | closing phase => exact ⟨[], (List.append_nil _).symm, Or.inl rfl⟩

/-- The destructor of the future is running, or about to be called. -/
def Destroying (stack : List (Frame Output)) (join : JoinRef) : Prop :=
  .call (.dropFuture join) ∈ stack ∨ .running (.dropFuture join) ∈ stack

/-- What the frame publishes does not wait for a destructor below it. -/
def Precedes (above below : Frame Output) : Prop :=
  ∀ join result, above = .publish join result →
    ¬ Destroying [below] join ∧ below ≠ .call (.dropPayload join)

def Layered (stack : List (Frame Output)) : Prop :=
  stack.Pairwise Precedes

def Destroyer (join : JoinRef) (front : List (Frame Output)) : Prop :=
  front = [] ∨ front = [.call (.dropFuture join)] ∨
    front = [.running (.dropFuture join)]

structure Ending (stack : List (Frame Output)) : Prop where
  publishes : ∀ join, Destroying stack join → join ∈ publishing stack
  layered : Layered stack
  output : ∀ join value, .publish join (.ok value) ∈ stack →
    ∃ front, stack = front ++ [.publish join (.ok value)] ∧ Destroyer join front
  payload : ∀ join, .call (.dropPayload join) ∈ stack →
    ∃ front, stack = front ++ [.call (.dropPayload join), .publish join (.error .panic)] ∧
      Destroyer join front

/-- No poll has ended whose result is on the stack. -/
def Unended (stack : List (Frame Output)) : Prop :=
  (∀ join value, .publish join (.ok value) ∉ stack) ∧
    ∀ join, .call (.dropPayload join) ∉ stack

theorem Destroying.cons {frame : Frame Output} {rest : List (Frame Output)}
    {join : JoinRef} (destroying : Destroying (frame :: rest) join) :
    Destroying [frame] join ∨ Destroying rest join := by
  rcases destroying with called | running
  · rcases List.mem_cons.mp called with same | later
    · exact Or.inl (Or.inl (List.mem_singleton.mpr same))
    · exact Or.inr (Or.inl later)
  · rcases List.mem_cons.mp running with same | later
    · exact Or.inl (Or.inr (List.mem_singleton.mpr same))
    · exact Or.inr (Or.inr later)

theorem Destroying.mono {stack other : List (Frame Output)} {join : JoinRef}
    (within : stack ⊆ other) (destroying : Destroying stack join) :
    Destroying other join :=
  destroying.imp (fun called => within called) (fun running => within running)

theorem Destroyer.cons {join : JoinRef} {frame : Frame Output}
    {rest front last : List (Frame Output)} (destroyer : Destroyer join front)
    (stack : frame :: rest = front ++ last) :
    front = [] ∨ rest = last ∧ Destroying [frame] join := by
  rcases destroyer with rfl | rfl | rfl
  · exact Or.inl rfl
  · cases stack
    exact Or.inr ⟨rfl, Or.inl List.mem_cons_self⟩
  · cases stack
    exact Or.inr ⟨rfl, Or.inr List.mem_cons_self⟩

theorem Layered.plain {frame : Frame Output} {rest : List (Frame Output)}
    (layered : Layered rest) (plain : ∀ join result, frame ≠ .publish join result) :
    Layered (frame :: rest) :=
  List.pairwise_cons.mpr
    ⟨fun _ _ join result same => absurd same (plain join result), layered⟩

theorem Layered.cleanup {rest : List (Frame Output)} (layered : Layered rest) :
    Layered (cleanup rest) := by
  induction rest with
  | nil => exact List.Pairwise.nil
  | cons frame rest ih =>
      obtain ⟨first, tail⟩ := List.pairwise_cons.mp layered
      have later := ih tail
      cases frame with
      | publish join result =>
          refine List.pairwise_cons.mpr ⟨?_, later⟩
          intro below member other error same
          cases same
          rcases mem_cleanup member with ⟨code, rfl, origin⟩ | ⟨_, _, rfl, _⟩ | ⟨_, rfl⟩
          · exact first _ origin join result rfl
          · exact ⟨by simp [Destroying], nofun⟩
          · exact ⟨by simp [Destroying], nofun⟩
      | call code =>
          cases code with
          | dropPayload join => exact later
          | _ => exact later.plain nofun
      | release join => exact later.plain nofun
      | _ => exact later

theorem Ending.nil : Ending ([] : List (Frame Output)) where
  publishes := by
    intro join destroying
    rcases destroying with called | running
    · cases called
    · cases running
  layered := List.Pairwise.nil
  output := by
    intro join value member
    cases member
  payload := by
    intro join member
    cases member

theorem Ending.tail {frame : Frame Output} {rest : List (Frame Output)}
    (ending : Ending (frame :: rest)) : Ending rest := by
  obtain ⟨first, layered⟩ := List.pairwise_cons.mp ending.layered
  refine ⟨?_, layered, ?_, ?_⟩
  · intro join destroying
    have published := ending.publishes join (destroying.mono (List.subset_cons_self _ _))
    cases frame with
    | publish other result =>
        refine (List.mem_cons.mp published).resolve_left ?_
        rintro rfl
        rcases destroying with called | running
        · exact (first _ called join result rfl).1 (Or.inl List.mem_cons_self)
        · exact (first _ running join result rfl).1 (Or.inr List.mem_cons_self)
    | _ => exact published
  · intro join value member
    obtain ⟨front, stack, destroyer⟩ :=
      ending.output join value (List.mem_cons_of_mem _ member)
    rcases destroyer.cons stack with rfl | ⟨rfl, _⟩
    · cases stack
      cases member
    · exact ⟨[], rfl, Or.inl rfl⟩
  · intro join member
    obtain ⟨front, stack, destroyer⟩ :=
      ending.payload join (List.mem_cons_of_mem _ member)
    rcases destroyer.cons stack with rfl | ⟨rfl, _⟩
    · cases stack
      simp at member
    · exact ⟨[], rfl, Or.inl rfl⟩

theorem Ending.push {frame : Frame Output} {rest : List (Frame Output)}
    (ending : Ending rest) (unended : Unended rest)
    (plain : ∀ join, frame ≠ .call (.dropPayload join) ∧ ¬ Destroying [frame] join ∧
      ∀ result, frame ≠ .publish join result) : Ending (frame :: rest) where
  publishes := by
    intro join destroying
    have below := destroying.cons.resolve_left (plain join).2.1
    have published := ending.publishes join below
    cases frame with
    | publish other result => exact List.mem_cons_of_mem _ published
    | _ => exact published
  layered := ending.layered.plain fun join => (plain join).2.2
  output := by
    intro join value member
    rcases List.mem_cons.mp member with same | below
    · exact absurd same.symm ((plain join).2.2 _)
    · exact absurd below (unended.1 join value)
  payload := by
    intro join member
    rcases List.mem_cons.mp member with same | below
    · exact absurd same.symm (plain join).1
    · exact absurd below (unended.2 join)

theorem Ending.unended {frame : Frame Output} {rest : List (Frame Output)}
    (ending : Ending (frame :: rest)) (plain : ∀ join, ¬ Destroying [frame] join) :
    Unended rest := by
  have undestroyed : ∀ {join : JoinRef} {front last : List (Frame Output)},
      frame :: rest = front ++ last → Destroyer join front → front = [] := by
    intro join front last stack destroyer
    exact (destroyer.cons stack).resolve_right fun below => plain join below.2
  refine ⟨?_, ?_⟩
  · intro join value member
    obtain ⟨front, stack, destroyer⟩ :=
      ending.output join value (List.mem_cons_of_mem _ member)
    cases undestroyed stack destroyer
    cases stack
    cases member
  · intro join member
    obtain ⟨front, stack, destroyer⟩ :=
      ending.payload join (List.mem_cons_of_mem _ member)
    cases undestroyed stack destroyer
    cases stack
    simp at member

theorem Unended.cleanup (rest : List (Frame Output)) : Unended (cleanup rest) := by
  refine ⟨?_, ?_⟩
  · intro join value member
    cases publish_cleanup member
  · intro join member
    induction rest with
    | nil => cases member
    | cons frame rest ih =>
        cases frame with
        | call code =>
            cases code with
            | dropPayload other => exact ih member
            | _ => exact ih ((List.mem_cons.mp member).resolve_left nofun)
        | publish _ _ | release _ =>
            exact ih ((List.mem_cons.mp member).resolve_left nofun)
        | _ => exact ih member

theorem Unwinds.mem {rest left : List (Frame Output)} (unwinds : Unwinds world rest left)
    {frame : Frame Output} (member : frame ∈ left) :
    frame ∈ cleanup rest ∨ frame = .call .dropRoot := by
  obtain ⟨last, rfl, origin⟩ := unwinds.left
  refine (List.mem_append.mp member).imp_right fun inLast => ?_
  rcases origin with rfl | rfl
  · cases inLast
  · exact List.mem_singleton.mp inLast

theorem Unwinds.unended {rest left : List (Frame Output)}
    (unwinds : Unwinds world rest left) : Unended left := by
  refine ⟨?_, ?_⟩
  · intro join value member
    exact (Unended.cleanup rest).1 join value ((unwinds.mem member).resolve_right nofun)
  · intro join member
    refine (Unended.cleanup rest).2 join ((unwinds.mem member).resolve_right ?_)
    intro same
    cases same

theorem Ending.unwinds {rest left : List (Frame Output)} (ending : Ending rest)
    (unwinds : Unwinds world rest left) : Ending left where
  publishes := by
    intro join destroying
    rw [publishing_unwinds unwinds]
    apply ending.publishes join
    have cleaned : .call (.dropFuture join) ∈ World.cleanup rest := by
      rcases destroying with called | running
      · exact (unwinds.mem called).resolve_right (by simp)
      · rcases mem_cleanup ((unwinds.mem running).resolve_right nofun) with
          ⟨_, isCall, _⟩ | ⟨_, _, isPublish, _⟩ | ⟨_, isRelease⟩
        · cases isCall
        · cases isPublish
        · cases isRelease
    rcases mem_cleanup cleaned with ⟨code, same, origin⟩ | ⟨_, _, isPublish, _⟩ |
      ⟨_, isRelease⟩
    · exact Or.inl (same ▸ origin)
    · cases isPublish
    · cases isRelease
  layered := by
    obtain ⟨last, rfl, origin⟩ := unwinds.left
    refine List.pairwise_append.mpr ⟨ending.layered.cleanup, ?_, ?_⟩
    · rcases origin with rfl | rfl
      · exact List.Pairwise.nil
      · exact List.pairwise_singleton ..
    · intro above _ frame member join result _
      rcases origin with rfl | rfl
      · cases member
      · cases List.mem_singleton.mp member
        exact ⟨by simp [Destroying], by simp⟩
  output := fun join value member => absurd member (unwinds.unended.1 join value)
  payload := fun join member => absurd member (unwinds.unended.2 join)

theorem Ending.of_plain {stack : List (Frame Output)}
    (plain : ∀ frame ∈ stack, ∀ join, frame ≠ .call (.dropPayload join) ∧
      ¬ Destroying [frame] join ∧ ∀ result, frame ≠ .publish join result) :
    Ending stack := by
  induction stack with
  | nil => exact Ending.nil
  | cons frame rest ih =>
      have below := fun other member => plain other (List.mem_cons_of_mem _ member)
      refine (ih below).push ⟨?_, ?_⟩ (plain frame List.mem_cons_self)
      · intro join value member
        exact (below _ member join).2.2 _ rfl
      · intro join member
        exact (below _ member join).1 rfl

theorem ending_harness (join : JoinRef) (result : Except JoinError Output) :
    Ending (harness join result) where
  publishes := by
    intro other destroying
    rcases destroying with called | running
    · cases (List.mem_cons.mp called).resolve_right (by simp)
      exact List.mem_cons_self
    · simp [harness] at running
  layered := Layered.plain (List.pairwise_singleton ..) nofun
  output := by
    intro other value member
    simp only [harness, List.mem_cons, reduceCtorEq, Frame.publish.injEq, List.not_mem_nil,
      or_false, false_or] at member
    obtain ⟨rfl, rfl⟩ := member
    exact ⟨_, rfl, Or.inr (Or.inl rfl)⟩
  payload := by
    intro other member
    simp [harness] at member

theorem ending_caught (join : JoinRef) :
    Ending [.call (.dropFuture join), .call (.dropPayload join),
      (.publish join (.error .panic) : Frame Output)] where
  publishes := by
    intro other destroying
    rcases destroying with called | running
    · simp only [List.mem_cons, Frame.call.injEq, Code.dropFuture.injEq, reduceCtorEq,
        List.not_mem_nil, or_false] at called
      exact List.mem_singleton.mpr called
    · simp at running
  layered := Layered.plain (Layered.plain (List.pairwise_singleton ..) nofun) nofun
  output := by
    intro other value member
    simp at member
  payload := by
    intro other member
    simp only [List.mem_cons, Frame.call.injEq, Code.dropPayload.injEq, reduceCtorEq,
      List.not_mem_nil, or_false, false_or] at member
    subst member
    exact ⟨_, rfl, Or.inr (Or.inl rfl)⟩

theorem ending_dropTask (world : World Output) (task : LocalTask) :
    Ending (world.dropTask task) := by
  unfold dropTask
  split
  · split
    · exact ending_harness _ _
    · exact Ending.nil
  · exact Ending.nil

theorem Ending.called {code : Code} {rest : List (Frame Output)}
    (ending : Ending (.call code :: rest)) : Ending (.running code :: rest) := by
  by_cases isFuture : ∃ join, code = .dropFuture join
  · obtain ⟨join, rfl⟩ := isFuture
    refine ⟨?_, ending.tail.layered.plain nofun, ?_, ?_⟩
    · intro other destroying
      apply ending.publishes other
      rcases destroying.cons with top | below
      · rcases top with called | running
        · simp at called
        · simp only [List.mem_singleton, Frame.running.injEq,
            Code.dropFuture.injEq] at running
          subst running
          exact Or.inl List.mem_cons_self
      · exact below.mono (List.subset_cons_self _ _)
    · intro other value member
      have below := (List.mem_cons.mp member).resolve_left nofun
      obtain ⟨front, stack, destroyer⟩ :=
        ending.output other value (List.mem_cons_of_mem _ below)
      rcases destroyer with rfl | rfl | rfl
      · cases stack
      · cases stack
        exact ⟨_, rfl, Or.inr (Or.inr rfl)⟩
      · cases stack
    · intro other member
      have below := (List.mem_cons.mp member).resolve_left nofun
      obtain ⟨front, stack, destroyer⟩ :=
        ending.payload other (List.mem_cons_of_mem _ below)
      rcases destroyer with rfl | rfl | rfl
      · cases stack
      · cases stack
        exact ⟨_, rfl, Or.inr (Or.inr rfl)⟩
      · cases stack
  · have other : ∀ join, code ≠ .dropFuture join := fun join same => isFuture ⟨join, same⟩
    refine ending.tail.push (ending.unended ?_) ?_
    · intro join destroying
      rcases destroying with called | running
      · simp only [List.mem_singleton, Frame.call.injEq] at called
        exact other join called.symm
      · simp at running
    · intro join
      refine ⟨nofun, ?_, nofun⟩
      intro destroying
      rcases destroying with called | running
      · simp at called
      · simp only [List.mem_singleton, Frame.running.injEq] at running
        exact other join running.symm

theorem Ending.cancelling {stack : List (Frame Output)} (ending : Ending stack)
    (cancelling : ∀ join result, .publish join result ∈ stack →
      result = .error .cancelled) : Unended stack := by
  refine ⟨?_, ?_⟩
  · intro join value member
    cases cancelling join _ member
  · intro join member
    obtain ⟨front, same, _⟩ := ending.payload join member
    have published : .publish join (.error .panic) ∈ stack := by
      rw [same]
      simp
    cases cancelling join _ published

theorem Stepped.ending (stepped : Stepped world label next) (orderly : world.Orderly)
    (cancelling : world.Cancelling) (ending : Ending world.stack) :
    Ending next.stack := by
  have below : ∀ {frame : Frame Output} {rest : List (Frame Output)},
      world.stack = frame :: rest → Ending rest := by
    intro frame rest stack
    rw [stack] at ending
    exact ending.tail
  have woken : ∀ {waker : Waker} {rest : List (Frame Output)}
      {event : ProgramEvent Output}, Wakes world.stack waker rest event →
      Ending rest ∧ Unended rest := by
    intro waker rest event wakes
    generalize world.stack = stack at wakes ending
    cases wakes with
    | fire | wake => exact ⟨ending.tail, ending.unended (by simp [Destroying])⟩
  cases stepped with
  | refused runs closed =>
      have unended : Unended world.stack := by
        apply ending.cancelling
        exact cancelling (orderly.sound.closing.symm.trans closed)
      have fresh : .refused world.refused ∉ publishing world.stack := by
        intro member
        obtain ⟨cell, found, _⟩ := orderly.cells.publishing _ member
        rw [orderly.cells.fresh_refused] at found
        cases found
      have granted : Ending (.grant (.refused world.refused) :: world.stack) :=
        ending.push unended (by simp [Destroying])
      refine ⟨?_, ?_, ?_, ?_⟩
      · intro join destroying
        rcases destroying.cons with top | later
        · simp only [Destroying, List.mem_singleton, Frame.call.injEq,
            Code.dropFuture.injEq, reduceCtorEq, or_false] at top
          subst top
          exact List.mem_cons_self
        · rcases later.cons with top | old
          · simp [Destroying] at top
          · exact List.mem_cons_of_mem _ (granted.publishes join old)
      · refine Layered.plain (List.pairwise_cons.mpr ⟨?_, granted.layered⟩) nofun
        intro frame member join result same
        cases same
        rcases List.mem_cons.mp member with rfl | old
        · exact ⟨by simp [Destroying], nofun⟩
        · refine ⟨fun destroying => fresh (ending.publishes _ ?_), ?_⟩
          · exact destroying.mono (by simpa using old)
          · rintro rfl
            exact unended.2 _ old
      · intro join value member
        simp [unended.1 join value] at member
      · intro join member
        simp [unended.2 join] at member
  | suspended free stack step =>
      apply Ending.of_plain
      intro frame member join
      rw [mem_unwound member]
      simp [Destroying]
  | finished free phase notRoot stack step =>
      apply Ending.of_plain
      intro frame member join
      rw [mem_unwound member]
      simp [Destroying]
  | returned free stack => exact ending_harness _ _
  | caught free stack => exact ending_caught _
  | rootYielded free stack step =>
      apply Ending.of_plain
      dsimp only
      split <;> simp [Destroying]
  | codeReturned free stack notRoot notInner => exact below stack
  | @unwound label rest left log executor free fails unwinds step =>
      have kept : Ending rest := by
        cases fails with
        | code stack outermost => exact below stack
        | poisoned wakes poisoned => exact (woken wakes).1
        | published stack found twice =>
            obtain ⟨completed, completes⟩ := orderly.cells.completes stack found
            rw [twice] at completes
            cases completes
      exact kept.unwinds unwinds
  | called free stack =>
      rw [stack] at ending
      exact ending.called
  | wokeCode free wakes =>
      obtain ⟨kept, unended⟩ := woken wakes
      exact kept.push unended (by simp [Destroying])
  | wokeTask free wakes unpoisoned step => exact (woken wakes).1
  | @published join result rest cell waker free stack found pending =>
      have kept := below stack
      rw [stack] at ending
      have unended : Unended rest := ending.unended (by simp [Destroying])
      have released : Ending (.release join :: rest) :=
        kept.push unended (by simp [Destroying])
      cases waker with
      | none => exact released
      | some waker =>
          apply released.push
          · simpa [Unended] using unended
          · simp [Destroying]
  | released free stack found front =>
      have kept := below stack
      rw [stack] at ending
      rcases front with rfl | ⟨rfl, _⟩
      · exact kept
      · exact kept.push (ending.unended (by simp [Destroying])) (by simp [Destroying])
  | granted free stack found => exact below stack
  | drained step called =>
      apply Ending.of_plain
      intro frame member join
      obtain ⟨waker, _, rfl⟩ := List.mem_map.mp member
      simp [Destroying]
  | stuck phase wait found paused failed step =>
      exact Ending.of_plain (by simp [Destroying])
  | @began root target id executor step phase =>
      apply Ending.of_plain
      cases decEq id rootTaskId with
      | isTrue isRoot => simp [Destroying, isRoot]
      | isFalse notRoot => simp [Destroying, notRoot]
  | notBegun step other => exact Ending.of_plain (by simp [Destroying])
  | cleared stack pending step => exact ending_dropTask world _
  | destroyed stack found step => exact ending_dropTask world _
  | moved _ _ | timed _ _ | timer _ _ _ | spawned _ _ _ | rejected
  | awaited _ _ _ _ _ | yielded _ _ _ _ | dropped _ _ _ | planned _ _ _ _
  | jumped _ _ _ _ _ _ | received _ _ | timedOut _ _ => exact ending

end World

end Asyncr
