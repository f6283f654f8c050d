import Mathlib.Data.List.Perm.Basic
import Asyncr.Program.Script
import Asyncr.Program.SpawnJoin

namespace Asyncr

open Library
open Time

variable {Output : Type} {world : World Output} {schedule : Nat} {root : Bool}

/-! What one step of a program of blocks can do. -/

def Future.Runs (future : Future Output) : Prop :=
  future.spent = none ∧ future.stage ≠ .pending

inductive Future.Turned (future : Future Output) (world : World Output) (schedule : Nat)
    (root : Bool) : Turn Output → Prop
  | freed {resource : Resource} :
      future.spent = some resource →
      Turned future world schedule root
        ⟨resource.drop, .going { future with spent := none }, none⟩
  | suspended :
      future.spent = none → future.stage = .pending →
      Turned future world schedule root
        ⟨if root then .rootYield .pending else .yield .pending,
          .going { future with stage := .suspended }, none⟩
  | spawned {child rest : Script Output} :
      future.Runs → future.script = .spawn child rest →
      Turned future world schedule root
        ⟨.spawn, .going { future with
          script := rest
          handles := world.executor.scheduling.created :: future.handles
          stage := .fresh }, some child⟩
  | joined {index handle : Nat} {rest : Except JoinError Output → Script Output}
      {cell : JoinCell Output} {result : Except JoinError Output} :
      future.Runs → future.script = .join index rest →
      future.handles[index]? = some handle →
      world.joins (.task handle) = some cell → cell.state = .ready result →
      Turned future world schedule root
        ⟨.pollJoin (.task handle) (.task schedule), .going {
          script := rest result
          handles := future.handles.eraseIdx index
          sleep := future.sleep
          stage := .fresh
          spent := some (.handle handle) }, none⟩
  | awaited {index handle : Nat} {rest : Except JoinError Output → Script Output} :
      future.Runs → future.script = .join index rest →
      future.handles[index]? = some handle →
      (∀ cell result, world.joins (.task handle) = some cell →
        cell.state ≠ .ready result) →
      Turned future world schedule root
        ⟨.pollJoin (.task handle) (.task schedule),
          .going { future with stage := .pending }, none⟩
  | timed {deadline : Instant} {rest : Script Output} :
      future.Runs → future.script = .sleepUntil deadline rest →
      future.sleep = none →
      Turned future world schedule root
        ⟨.timer (.new deadline),
          .going { future with sleep := some world.time.created }, none⟩
  | slept {deadline : Instant} {rest : Script Output} {sleep : Nat}
      {time : Timers Waker} :
      future.Runs → future.script = .sleepUntil deadline rest →
      future.sleep = some sleep →
      world.time.call (.poll sleep (.task schedule) world.now) =
        some (time, .polled (.ok (.ready ()))) →
      Turned future world schedule root
        ⟨.timer (.poll sleep (.task schedule) world.now), .going {
          script := rest
          handles := future.handles
          sleep := none
          stage := .fresh
          spent := some (.timer sleep) }, none⟩
  | dozed {deadline : Instant} {rest : Script Output} {sleep : Nat} :
      future.Runs → future.script = .sleepUntil deadline rest →
      future.sleep = some sleep →
      (∀ time, world.time.call (.poll sleep (.task schedule) world.now) ≠
        some (time, .polled (.ok (.ready ())))) →
      Turned future world schedule root
        ⟨.timer (.poll sleep (.task schedule) world.now),
          .going { future with stage := .pending }, none⟩
  | dropped {handle : Nat} {rest : List Nat} {result : Except JoinError Output} :
      future.Runs → future.script.result? future.handles = some result →
      future.handles = handle :: rest →
      Turned future world schedule root
        ⟨(Resource.handle handle).drop, .going { future with handles := rest }, none⟩
  | cancelled {sleep : Nat} {result : Except JoinError Output} :
      future.Runs → future.script.result? future.handles = some result →
      future.handles = [] → future.sleep = some sleep →
      Turned future world schedule root
        ⟨(Resource.timer sleep).drop, .going { future with sleep := none }, none⟩
  | ended {result : Except JoinError Output} :
      future.Runs → future.script.result? future.handles = some result →
      future.handles = [] → future.sleep = none →
      Turned future world schedule root ⟨Future.last root result, .ended result, none⟩

theorem Future.turned (future : Future Output) (world : World Output) (schedule : Nat)
    (root : Bool) :
    future.Turned world schedule root (future.turn world schedule root) := by
  have ends : ∀ {result : Except JoinError Output}, future.Runs →
      future.script.result? future.handles = some result →
      future.Turned world schedule root (future.ends root result) := by
    intro result runs comes
    unfold Future.ends
    split
    · rename_i handle rest handles
      exact .dropped runs comes handles
    · rename_i sleep handles sleeps
      exact .cancelled runs comes handles sleeps
    · rename_i handles sleeps
      exact .ended runs comes handles sleeps
  unfold Future.turn
  split
  · rename_i resource spent
    exact .freed spent
  · rename_i unspent pending
    exact .suspended unspent pending
  · rename_i unspent unpending
    have runs : future.Runs := ⟨unspent, unpending⟩
    split
    · rename_i result comes
      exact ends runs comes
    · rename_i unended
      split
      · rename_i child rest script
        exact .spawned runs script
      · rename_i index rest script
        split
        · rename_i handle found
          unfold Future.awaits
          dsimp only
          split
          · rename_i result replied
            obtain ⟨cell, present, ready⟩ := Option.map_eq_some_iff.mp replied
            refine .joined runs script found present ?_
            cases state : cell.state with
            | pending stored | consumed => simp [state, JoinState.poll] at ready
            | ready other =>
                simp only [state, JoinState.poll, Except.ok.injEq,
                  Poll.ready.injEq] at ready
                rw [ready]
          · rename_i unready
            refine .awaited runs script found ?_
            intro cell result present ready
            apply unready result
            simp [present, ready, JoinState.poll]
        · rename_i missing
          simp [script, Script.result?, missing] at unended
      · rename_i deadline rest script
        split
        · rename_i sleep sleeps
          unfold Future.sleeps
          dsimp only
          split
          · rename_i time called
            exact .slept runs script sleeps called
          · rename_i unready
            exact .dozed runs script sleeps fun time called => unready time called
        · rename_i sleeps
          exact .timed runs script sleeps
      · rename_i value script
        simp [script, Script.result?] at unended
      · rename_i script
        simp [script, Script.result?] at unended

namespace Future

variable {future : Future Output} {turn : Turn Output}

theorem mem_owned {resource : Resource} :
    resource ∈ future.owned ↔
      future.spent = some resource ∨
        (∃ handle ∈ future.handles, resource = .handle handle) ∨
        ∃ sleep, future.sleep = some sleep ∧ resource = .timer sleep := by
  simp only [owned, List.mem_append, Option.mem_toList, List.mem_map, or_assoc,
    eq_comm (a := resource)]

theorem Turned.owned_back (turned : future.Turned world schedule root turn)
    {after : Future Output} (left : turn.left = .going after) {resource : Resource}
    (owned : resource ∈ after.owned) :
    resource ∈ future.owned ∨
      turn.label = .spawn ∧ resource = .handle world.executor.scheduling.created ∨
      (∃ deadline, turn.label = .timer (.new deadline)) ∧
        resource = .timer world.time.created := by
  cases turned with
  | freed spent =>
      cases left
      rw [mem_owned] at owned ⊢
      exact Or.inl (owned.imp_left nofun)
  | suspended | awaited | dozed =>
      cases left
      exact Or.inl owned
  | spawned runs script =>
      cases left
      rw [mem_owned] at owned ⊢
      rcases owned with spent | ⟨handle, member, rfl⟩ | sleep
      · exact Or.inl (Or.inl spent)
      · rcases List.mem_cons.mp member with rfl | old
        · exact Or.inr (Or.inl ⟨rfl, rfl⟩)
        · exact Or.inl (Or.inr (Or.inl ⟨handle, old, rfl⟩))
      · exact Or.inl (Or.inr (Or.inr sleep))
  | joined runs script found present ready =>
      cases left
      rw [mem_owned] at owned ⊢
      left
      rcases owned with spent | ⟨handle, member, rfl⟩ | sleep
      · cases spent
        exact Or.inr (Or.inl ⟨_, List.mem_of_getElem? found, rfl⟩)
      · exact Or.inr (Or.inl ⟨handle, List.mem_of_mem_eraseIdx member, rfl⟩)
      · exact Or.inr (Or.inr sleep)
  | timed runs script unslept =>
      cases left
      rw [mem_owned] at owned ⊢
      rcases owned with spent | handle | ⟨sleep, same, rfl⟩
      · exact Or.inl (Or.inl spent)
      · exact Or.inl (Or.inr (Or.inl handle))
      · cases same
        exact Or.inr (Or.inr ⟨⟨_, rfl⟩, rfl⟩)
  | slept runs script sleeps called =>
      cases left
      rw [mem_owned] at owned ⊢
      left
      rcases owned with spent | handle | ⟨_, same, _⟩
      · cases spent
        exact Or.inr (Or.inr ⟨_, sleeps, rfl⟩)
      · exact Or.inr (Or.inl handle)
      · cases same
  | dropped runs comes handles =>
      cases left
      rw [mem_owned] at owned ⊢
      left
      rcases owned with spent | ⟨handle, member, rfl⟩ | sleep
      · exact Or.inl spent
      · exact Or.inr (Or.inl
          ⟨handle, handles ▸ List.mem_cons_of_mem _ member, rfl⟩)
      · exact Or.inr (Or.inr sleep)
  | cancelled runs comes handles sleeps =>
      cases left
      rw [mem_owned] at owned ⊢
      left
      rcases owned with spent | handle | ⟨_, same, _⟩
      · exact Or.inl spent
      · exact Or.inr (Or.inl handle)
      · cases same
  | ended => cases left

theorem Turned.owned_on (turned : future.Turned world schedule root turn)
    {resource : Resource} (owned : resource ∈ future.owned) :
    (∃ after, turn.left = .going after ∧ resource ∈ after.owned) ∨
      turn.label = resource.drop := by
  rw [mem_owned] at owned
  cases turned with
  | freed spent =>
      rcases owned with same | others
      · cases spent.symm.trans same
        exact Or.inr rfl
      · exact Or.inl ⟨_, rfl, mem_owned.mpr (Or.inr others)⟩
  | suspended | awaited | dozed =>
      exact Or.inl ⟨_, rfl, mem_owned.mpr owned⟩
  | spawned runs script =>
      refine Or.inl ⟨_, rfl, mem_owned.mpr ?_⟩
      refine owned.imp_right (Or.imp_left ?_)
      rintro ⟨handle, member, same⟩
      exact ⟨handle, List.mem_cons_of_mem _ member, same⟩
  | @joined index other rest cell result runs script found present ready =>
      refine Or.inl ⟨_, rfl, mem_owned.mpr ?_⟩
      rcases owned with spent | ⟨handle, member, rfl⟩ | sleep
      · rw [runs.1] at spent
        cases spent
      · cases decEq handle other with
        | isTrue same => exact Or.inl (by rw [same])
        | isFalse different =>
            right
            left
            refine ⟨handle, ?_, rfl⟩
            obtain ⟨position, below, isHandle⟩ := List.mem_iff_getElem.mp member
            obtain ⟨_, isOther⟩ := List.getElem?_eq_some_iff.mp found
            refine List.mem_eraseIdx_iff_getElem.mpr ⟨position, below, ?_, isHandle⟩
            rintro rfl
            exact different (isHandle.symm.trans isOther)
      · exact Or.inr (Or.inr sleep)
  | timed runs script unslept =>
      refine Or.inl ⟨_, rfl, mem_owned.mpr ?_⟩
      rcases owned with spent | handle | ⟨sleep, same, _⟩
      · exact Or.inl spent
      · exact Or.inr (Or.inl handle)
      · rw [unslept] at same
        cases same
  | slept runs script sleeps called =>
      refine Or.inl ⟨_, rfl, mem_owned.mpr ?_⟩
      rcases owned with spent | handle | ⟨sleep, same, rfl⟩
      · rw [runs.1] at spent
        cases spent
      · exact Or.inr (Or.inl handle)
      · cases sleeps.symm.trans same
        exact Or.inl rfl
  | dropped runs comes handles =>
      rcases owned with spent | ⟨handle, member, rfl⟩ | sleep
      · exact Or.inl ⟨_, rfl, mem_owned.mpr (Or.inl spent)⟩
      · rw [handles] at member
        rcases List.mem_cons.mp member with rfl | later
        · exact Or.inr rfl
        · exact Or.inl ⟨_, rfl, mem_owned.mpr (Or.inr (Or.inl ⟨handle, later, rfl⟩))⟩
      · exact Or.inl ⟨_, rfl, mem_owned.mpr (Or.inr (Or.inr sleep))⟩
  | cancelled runs comes handles sleeps =>
      rcases owned with spent | handle | ⟨sleep, same, rfl⟩
      · exact Or.inl ⟨_, rfl, mem_owned.mpr (Or.inl spent)⟩
      · exact Or.inl ⟨_, rfl, mem_owned.mpr (Or.inr (Or.inl handle))⟩
      · cases sleeps.symm.trans same
        exact Or.inr rfl
  | ended runs comes handles unslept =>
      rcases owned with spent | ⟨handle, member, rfl⟩ | ⟨sleep, same, rfl⟩
      · rw [runs.1] at spent
        cases spent
      · rw [handles] at member
        cases member
      · rw [unslept] at same
        cases same

theorem Turned.nodup (turned : future.Turned world schedule root turn)
    {after : Future Output} (left : turn.left = .going after)
    (nodup : future.owned.Nodup)
    (fresh : .handle world.executor.scheduling.created ∉ future.owned ∧
      .timer world.time.created ∉ future.owned) : after.owned.Nodup := by
  cases turned with
  | freed spent =>
      cases left
      refine nodup.sublist ?_
      simp only [owned]
      exact ((List.nil_sublist _).append_right _).append_right _
  | suspended | awaited | dozed =>
      cases left
      exact nodup
  | spawned runs script =>
      cases left
      have added := List.nodup_cons.mpr ⟨fresh.1, nodup⟩
      refine (List.Perm.nodup_iff ?_).mpr added
      simp only [owned, runs.1, Option.toList_none, List.nil_append, List.map_cons,
        List.cons_append]
      exact List.Perm.refl _
  | @joined index handle rest cell result runs script found present ready =>
      cases left
      refine (List.Perm.nodup_iff ?_).mpr nodup
      obtain ⟨below, rfl⟩ := List.getElem?_eq_some_iff.mp found
      simp only [owned, runs.1, Option.toList_none, Option.toList_some, List.nil_append]
      exact ((List.getElem_cons_eraseIdx_perm below).map Resource.handle).append_right _
  | timed runs script unslept =>
      cases left
      have added := List.nodup_cons.mpr ⟨fresh.2, nodup⟩
      refine (List.Perm.nodup_iff ?_).mpr added
      simp only [owned, unslept, Option.toList_none, Option.toList_some, List.map_cons,
        List.map_nil, List.append_nil]
      exact List.perm_append_singleton _ _
  | @slept deadline rest sleep time runs script sleeps called =>
      cases left
      refine (List.Perm.nodup_iff ?_).mpr nodup
      simp only [owned, runs.1, sleeps, Option.toList_none, Option.toList_some,
        List.map_cons, List.map_nil, List.append_nil, List.nil_append]
      exact (List.perm_append_singleton _ _).symm
  | dropped runs comes handles =>
      cases left
      refine nodup.sublist ?_
      simp only [owned, handles, List.map_cons]
      exact ((List.sublist_cons_self _ _).append_left _).append_right _
  | cancelled runs comes handles sleeps =>
      cases left
      refine nodup.sublist ?_
      simp only [owned]
      exact (List.nil_sublist _).append_left _
  | ended => cases left

theorem Turned.gone (turned : future.Turned world schedule root turn)
    (nodup : future.owned.Nodup) {resource : Resource}
    (drops : turn.label = resource.drop) :
    resource ∈ future.owned ∧
      ∀ after, turn.left = .going after → resource ∉ after.owned := by
  have same : ∀ other : Resource, (other.drop : Label Output) = resource.drop →
      resource = other := by
    intro other drops
    cases other <;> cases resource <;> cases drops <;> rfl
  cases turned with
  | @freed other spent =>
      cases same other drops
      simp only [owned, spent, Option.toList_some, List.cons_append,
        List.nil_append] at nodup ⊢
      refine ⟨List.mem_cons_self, ?_⟩
      rintro after ⟨⟩
      simpa only [Option.toList_none, List.nil_append] using (List.nodup_cons.mp nodup).1
  | @dropped handle rest result runs comes handles =>
      cases same (.handle handle) drops
      simp only [owned, runs.1, handles, Option.toList_none, List.map_cons,
        List.cons_append, List.nil_append] at nodup ⊢
      refine ⟨List.mem_cons_self, ?_⟩
      rintro after ⟨⟩
      simpa only [runs.1, Option.toList_none, List.nil_append] using
        (List.nodup_cons.mp nodup).1
  | @cancelled sleep result runs comes handles sleeps =>
      cases same (.timer sleep) drops
      refine ⟨mem_owned.mpr (Or.inr (Or.inr ⟨_, sleeps, rfl⟩)), ?_⟩
      rintro after ⟨⟩
      simp [owned, runs.1, handles]
  | suspended => cases root <;> cases resource <;> cases drops
  | @ended result => cases result <;> cases root <;> cases resource <;> cases drops
  | spawned | joined | awaited | timed | slept | dozed => cases resource <;> cases drops

theorem Turned.handles_back (turned : future.Turned world schedule root turn)
    (nodup : future.owned.Nodup) {after : Future Output}
    (left : turn.left = .going after) {target : Nat} (member : target ∈ after.handles) :
    turn.label = .spawn ∧ target = world.executor.scheduling.created ∨
      target ∈ future.handles ∧ ∀ waker cell result,
        turn.label = .pollJoin (.task target) waker →
          world.joins (.task target) = some cell → cell.state ≠ .ready result := by
  cases turned with
  | @freed resource spent =>
      cases left
      refine Or.inr ⟨member, fun waker cell result polls => ?_⟩
      cases resource <;> cases polls
  | suspended unspent pending =>
      cases left
      refine Or.inr ⟨member, fun waker cell result polls => ?_⟩
      cases root <;> cases polls
  | spawned runs script =>
      cases left
      rcases List.mem_cons.mp member with rfl | old
      · exact Or.inl ⟨rfl, rfl⟩
      · exact Or.inr ⟨old, fun waker cell result polls => by cases polls⟩
  | @joined index handle rest cell result runs script found present ready =>
      cases left
      refine Or.inr ⟨List.mem_of_mem_eraseIdx member, ?_⟩
      rintro waker other reply polls
      cases polls
      obtain ⟨below, rfl⟩ := List.getElem?_eq_some_iff.mp found
      simp only [owned, List.nodup_append] at nodup
      have once := nodup.1.2.1.of_map
      have apart := (List.Perm.nodup_iff (List.getElem_cons_eraseIdx_perm below)).mpr once
      exact absurd member (List.nodup_cons.mp apart).1
  | awaited runs script found unready =>
      cases left
      refine Or.inr ⟨member, ?_⟩
      rintro waker cell result polls
      cases polls
      exact unready cell result
  | timed | slept | dozed =>
      cases left
      exact Or.inr ⟨member, fun waker cell result polls => by cases polls⟩
  | dropped runs comes handles =>
      cases left
      refine Or.inr ⟨handles ▸ List.mem_cons_of_mem _ member,
        fun waker cell result polls => by cases polls⟩
  | cancelled runs comes handles sleeps =>
      cases left
      exact Or.inr ⟨member, fun waker cell result polls => by cases polls⟩
  | ended => cases left

theorem Turned.polls_own (turned : future.Turned world schedule root turn) :
    (∀ join waker, turn.label = .pollJoin join waker →
      ∃ handle ∈ future.handles, join = .task handle ∧ waker = .task schedule) ∧
    ∀ sleep waker now, turn.label = .timer (.poll sleep waker now) →
      future.sleep = some sleep ∧ waker = .task schedule ∧ now = world.now := by
  refine ⟨?_, ?_⟩
  · intro join waker polls
    cases turned with
    | joined runs script found present ready | awaited runs script found unready =>
        cases polls
        exact ⟨_, List.mem_of_getElem? found, rfl, rfl⟩
    | @freed resource spent => cases resource <;> cases polls
    | @ended result runs comes handles unslept =>
        cases result <;> cases root <;> cases polls
    | suspended unspent pending => cases root <;> cases polls
    | spawned | timed | slept | dozed | dropped | cancelled => cases polls
  · intro sleep waker now polls
    cases turned with
    | slept runs script sleeps called | dozed runs script sleeps unready =>
        cases polls
        exact ⟨sleeps, rfl, rfl⟩
    | @freed resource spent => cases resource <;> cases polls
    | @ended result runs comes handles unslept =>
        cases result <;> cases root <;> cases polls
    | suspended unspent pending => cases root <;> cases polls
    | spawned | joined | awaited | timed | dropped | cancelled => cases polls

end Future

end Asyncr
