import Asyncr.Time.SleepRuns
import Asyncr.Time.Timeout

namespace Asyncr.Time

open Asyncr
open Library

universe u v

variable {W : Type u} [WillWake W] {Output : Type v}

/-! The rounds of a timeout. -/

namespace TimeoutRound

inductive Waits (deadline : Instant) : TimeoutRound W Output → Prop
  | pending (waker : W) {now : Instant} : now < deadline →
      Waits deadline ⟨waker, some .pending, some now, .ok .pending⟩
  | panicked (waker : W) {now : Instant} (panic : Panic) : now < deadline →
      Waits deadline ⟨waker, some .pending, some now, .error (.raised panic)⟩

inductive Decides (deadline : Instant) : TimeoutRound W Output → Prop
  | ready (waker : W) (value : Output) :
      Decides deadline ⟨waker, some (.ready value), none, .ok (.ready (.ok value))⟩
  | elapsed (waker : W) {now : Instant} : deadline ≤ now →
      Decides deadline ⟨waker, some .pending, some now, .ok (.ready (.error .elapsed))⟩

inductive Refused : TimeoutRound W Output → Prop
  | intro (waker : W) : Refused ⟨waker, none, none, .error .polledAfterCompletion⟩

end TimeoutRound

def TimeoutPoint.waits : TimeoutPoint W Output → Bool
  | .idle | .polling _ | .sleeping _ => true
  | .dropping _ | .gone => false

/-- A poll is under way, in which the wrapped future was polled. -/
def TimeoutPoint.polls : TimeoutPoint W Output → Nat
  | .polling _ | .sleeping _ | .dropping (some _) => 1
  | .idle | .dropping none | .gone => 0

namespace TimeoutRun

abbrev Rounds (W : Type u) (Output : Type v) := List (TimeoutRound W Output)

def Undecided (deadline : Instant) (rounds : Rounds W Output) : Prop :=
  ∀ round ∈ rounds, TimeoutRound.Waits deadline round

/-- One round decides; the ones before it wait and the ones after it are refused. -/
def Decided (deadline : Instant) (rounds : Rounds W Output) : Prop :=
  ∃ waiting decided refused, rounds = waiting ++ decided :: refused ∧
    Undecided deadline waiting ∧ TimeoutRound.Decides deadline decided ∧
    ∀ round ∈ refused, TimeoutRound.Refused round

structure Owned (deadline : Instant) (run : TimeoutRun W Output) : Prop where
  created : run.owner < run.timers.created
  present : run.sleep = true →
    ∃ sleep, run.timers.sleeps run.owner = some sleep ∧ sleep.deadline = deadline
  taken : run.sleep = false → run.timers.sleeps run.owner = none

inductive Stage (deadline : Instant) (run : TimeoutRun W Output) : Prop
  | waiting : run.point.waits = true → run.future = true → run.sleep = true →
      Undecided deadline run.rounds → Stage deadline run
  | dropping (round : TimeoutRound W Output) : run.point = .dropping (some round) →
      run.future = false → run.sleep = true → Undecided deadline run.rounds →
      TimeoutRound.Decides deadline round → Stage deadline run
  | abandoning : run.point = .dropping none → run.future = false → run.sleep = true →
      Undecided deadline run.rounds → Stage deadline run
  | decided : run.point = .idle ∨ run.point = .gone → run.future = false →
      run.sleep = false → Decided deadline run.rounds → Stage deadline run
  | abandoned : run.point = .gone → run.future = false → run.sleep = false →
      Undecided deadline run.rounds → Stage deadline run

def innerRounds (rounds : Rounds W Output) : Nat :=
  rounds.countP fun round => round.inner.isSome

structure Counted (run : TimeoutRun W Output) : Prop where
  polls : run.innerPolls = innerRounds run.rounds + run.point.polls
  drops : run.innerDrops = if run.future then 0 else 1

structure Sound (deadline : Instant) (run : TimeoutRun W Output) : Prop where
  owned : Owned deadline run
  stage : Stage deadline run
  counted : Counted run

variable {deadline : Instant} {run next : TimeoutRun W Output}

omit [WillWake W] in
theorem sound_start (timers : Timers W) (deadline : Instant) :
    Sound deadline (start timers deadline : TimeoutRun W Output) where
  owned := ⟨Nat.lt_succ_self _,
    fun _ => ⟨Sleep.new deadline, Function.update_self _ _ _, rfl⟩, nofun⟩
  stage := .waiting rfl rfl rfl nofun
  counted := ⟨rfl, rfl⟩

omit [WillWake W] in
theorem innerRounds_append (rounds : Rounds W Output) (round : TimeoutRound W Output) :
    innerRounds (rounds ++ [round]) =
      innerRounds rounds + if round.inner.isSome then 1 else 0 := by
  simp [innerRounds, List.countP_append, List.countP_singleton]

omit [WillWake W] in
theorem Undecided.append {rounds : Rounds W Output} (undecided : Undecided deadline rounds)
    {round : TimeoutRound W Output} (waits : TimeoutRound.Waits deadline round) :
    Undecided deadline (rounds ++ [round]) := by
  intro found member
  rcases List.mem_append.mp member with before | last
  · exact undecided found before
  · rw [List.mem_singleton.mp last]
    exact waits

omit [WillWake W] in
theorem Decided.append {rounds : Rounds W Output} (decided : Decided deadline rounds)
    {round : TimeoutRound W Output} (refused : TimeoutRound.Refused round) :
    Decided deadline (rounds ++ [round]) := by
  obtain ⟨waiting, decisive, later, rfl, undecided, decides, all⟩ := decided
  refine ⟨waiting, decisive, later ++ [round], by simp, undecided, decides, ?_⟩
  intro found member
  rcases List.mem_append.mp member with before | last
  · exact all found before
  · rw [List.mem_singleton.mp last]
    exact refused

/-! What a sound run does next. -/

omit [WillWake W] in
theorem Owned.frame (owned : Owned deadline run) (owner : next.owner = run.owner)
    (timers : next.timers = run.timers) (sleep : next.sleep = run.sleep) :
    Owned deadline next := by
  obtain ⟨created, present, taken⟩ := owned
  refine ⟨?_, ?_, ?_⟩
  · rwa [owner, timers]
  · rwa [owner, timers, sleep]
  · rwa [owner, timers, sleep]

omit [WillWake W] in
theorem Stage.of_future (stage : Stage deadline run) (there : run.future = true) :
    run.point.waits = true ∧ run.sleep = true ∧ Undecided deadline run.rounds := by
  cases stage with
  | waiting point future sleep undecided => exact ⟨point, sleep, undecided⟩
  | dropping _ _ future => simp [there] at future
  | abandoning _ future => simp [there] at future
  | decided _ future => simp [there] at future
  | abandoned _ future => simp [there] at future

omit [WillWake W] in
theorem Stage.of_waits (stage : Stage deadline run) {point : TimeoutPoint W Output}
    (at_point : run.point = point) (waits : point.waits = true) (busy : point ≠ .idle) :
    run.future = true ∧ run.sleep = true ∧ Undecided deadline run.rounds := by
  cases stage with
  | waiting _ future sleep undecided => exact ⟨future, sleep, undecided⟩
  | dropping round dropping =>
      rw [at_point] at dropping
      subst dropping
      cases waits
  | abandoning dropping =>
      rw [at_point] at dropping
      subst dropping
      cases waits
  | decided ended =>
      rcases ended with idle | gone
      · exact absurd (at_point.symm.trans idle) busy
      · rw [at_point] at gone
        subst gone
        cases waits
  | abandoned gone =>
      rw [at_point] at gone
      subst gone
      cases waits

omit [WillWake W] in
theorem Stage.of_gone_future (stage : Stage deadline run) (idle : run.point = .idle)
    (taken : run.future = false) : run.sleep = false ∧ Decided deadline run.rounds := by
  cases stage with
  | waiting _ future => simp [taken] at future
  | dropping round dropping =>
      rw [idle] at dropping
      cases dropping
  | abandoning dropping =>
      rw [idle] at dropping
      cases dropping
  | decided _ _ sleep decided => exact ⟨sleep, decided⟩
  | abandoned gone =>
      rw [idle] at gone
      cases gone

theorem Sound.poll (sound : Sound deadline run) {waker : W}
    (stepped : run.step (.poll waker) = some next) : Sound deadline next := by
  simp only [TimeoutRun.step] at stepped
  split at stepped
  · rename_i idle
    split at stepped
    · rename_i there
      cases stepped
      obtain ⟨_, sleep, undecided⟩ := sound.stage.of_future there
      refine ⟨sound.owned.frame rfl rfl rfl, .waiting rfl there sleep undecided, ?_, ?_⟩
      · have counted := sound.counted.polls
        rw [idle] at counted
        show run.innerPolls + 1 = _
        rw [counted]
        rfl
      · exact sound.counted.drops
    · rename_i taken
      cases stepped
      rw [Bool.not_eq_true] at taken
      obtain ⟨sleep, decided⟩ := sound.stage.of_gone_future idle taken
      refine ⟨sound.owned.frame rfl rfl rfl,
        .decided (Or.inl rfl) taken sleep (decided.append (.intro waker)), ?_, ?_⟩
      · have counted := sound.counted.polls
        rw [idle] at counted
        simpa [replied, innerRounds_append, TimeoutPoint.polls] using counted
      · exact sound.counted.drops
  · cases stepped

theorem Sound.innerReady (sound : Sound deadline run) {value : Output}
    (stepped : run.step (.innerReady value) = some next) : Sound deadline next := by
  simp only [TimeoutRun.step] at stepped
  split at stepped
  · rename_i waker polling
    cases stepped
    obtain ⟨there, sleep, undecided⟩ := sound.stage.of_waits polling rfl nofun
    refine ⟨sound.owned.frame rfl rfl rfl,
      .dropping _ rfl rfl sleep undecided (.ready waker value), ?_, ?_⟩
    · have counted := sound.counted.polls
      rwa [polling] at counted
    · show run.innerDrops + 1 = 1
      rw [sound.counted.drops, there]
      rfl
  · cases stepped

theorem Sound.innerPending (sound : Sound deadline run)
    (stepped : run.step .innerPending = some next) : Sound deadline next := by
  simp only [TimeoutRun.step] at stepped
  split at stepped
  · rename_i waker polling
    cases stepped
    obtain ⟨there, sleep, undecided⟩ := sound.stage.of_waits polling rfl nofun
    refine ⟨sound.owned.frame rfl rfl rfl, .waiting rfl there sleep undecided, ?_,
      sound.counted.drops⟩
    have counted := sound.counted.polls
    rwa [polling] at counted
  · cases stepped

theorem Sound.pollSleep (sound : Sound deadline run) {now : Instant}
    (stepped : run.step (.pollSleep now) = some next) : Sound deadline next := by
  simp only [TimeoutRun.step] at stepped
  split at stepped
  case h_2 => cases stepped
  rename_i waker sleeping
  obtain ⟨there, sleep, undecided⟩ := sound.stage.of_waits sleeping rfl nofun
  obtain ⟨own, present, awaited⟩ := sound.owned.present sleep
  have counted := sound.counted.polls
  rw [sleeping] at counted
  rw [if_pos sleep] at stepped
  split at stepped
  case h_2 => cases stepped
  rename_i after reply called
  cases stepped
  obtain ⟨created, ⟨polled, kept, same⟩, told⟩ := Timers.sleep_of_poll present called
  have owned : Owned deadline ({ run with timers := after } : TimeoutRun W Output) := by
    refine ⟨?_, fun _ => ⟨polled, kept, same.trans awaited⟩, ?_⟩
    · exact lt_of_lt_of_eq sound.owned.created created.symm
    · intro taken
      exact absurd (sleep.symm.trans taken) nofun
  rw [awaited] at told
  rcases told with ⟨rfl, due⟩ | ⟨unready, early⟩
  · refine ⟨owned.frame rfl rfl rfl,
      .dropping _ rfl rfl sleep undecided (.elapsed waker due), counted, ?_⟩
    show run.innerDrops + 1 = 1
    rw [sound.counted.drops, there]
    rfl
  · cases reply with
    | ok polled =>
        cases polled with
        | ready value => exact absurd rfl unready
        | pending =>
            refine ⟨owned.frame rfl rfl rfl,
              .waiting rfl there sleep (undecided.append (.pending waker early)), ?_,
              sound.counted.drops⟩
            simpa [sleepPolled, replied, innerRounds_append, TimeoutPoint.polls]
              using counted
    | error panic =>
        refine ⟨owned.frame rfl rfl rfl,
          .waiting rfl there sleep (undecided.append (.panicked waker panic early)), ?_,
          sound.counted.drops⟩
        simpa [sleepPolled, replied, innerRounds_append, TimeoutPoint.polls]
          using counted

theorem Sound.takeSleep (sound : Sound deadline run) :
    Owned deadline run.takeSleep ∧ run.takeSleep.sleep = false ∧
      run.takeSleep.future = run.future ∧ run.takeSleep.rounds = run.rounds ∧
      run.takeSleep.innerPolls = run.innerPolls ∧
      run.takeSleep.innerDrops = run.innerDrops := by
  obtain ⟨created, present, taken⟩ := sound.owned
  cases sleep : run.sleep with
  | true =>
      obtain ⟨own, found, awaited⟩ := present sleep
      obtain ⟨after, dropped, gone, same⟩ := Timers.dropped_of_present found
      unfold TimeoutRun.takeSleep
      rw [dropped]
      exact ⟨⟨lt_of_lt_of_eq created same.symm, by simp, fun _ => gone⟩, rfl, rfl,
        rfl, rfl, rfl⟩
  | false =>
      have gone := taken sleep
      have undone : run.timers.call (.drop run.owner) = none := by
        simp only [Timers.call, gone]
      unfold TimeoutRun.takeSleep
      rw [undone]
      exact ⟨⟨created, by simp, fun _ => gone⟩, rfl, rfl, rfl, rfl, rfl⟩

omit [WillWake W] in
theorem Stage.of_dropping (stage : Stage deadline run) {round : TimeoutRound W Output}
    (dropping : run.point = .dropping (some round)) :
    run.future = false ∧ Undecided deadline run.rounds ∧
      TimeoutRound.Decides deadline round := by
  cases stage with
  | waiting point =>
      rw [dropping] at point
      cases point
  | abandoning point =>
      rw [dropping] at point
      cases point
  | decided point =>
      rw [dropping] at point
      rcases point with idle | gone
      · cases idle
      · cases gone
  | abandoned point =>
      rw [dropping] at point
      cases point
  | dropping found point taken _ undecided decides =>
      rw [dropping] at point
      cases point
      exact ⟨taken, undecided, decides⟩

omit [WillWake W] in
theorem Stage.of_abandoning (stage : Stage deadline run)
    (dropping : run.point = .dropping none) :
    run.future = false ∧ Undecided deadline run.rounds := by
  cases stage with
  | waiting point =>
      rw [dropping] at point
      cases point
  | dropping found point =>
      rw [dropping] at point
      cases point
  | decided point =>
      rw [dropping] at point
      rcases point with idle | gone
      · cases idle
      · cases gone
  | abandoned point =>
      rw [dropping] at point
      cases point
  | abandoning point taken _ undecided => exact ⟨taken, undecided⟩

theorem Sound.takeSleep_counted (sound : Sound deadline run) :
    run.takeSleep.innerPolls = innerRounds run.takeSleep.rounds + run.point.polls ∧
    run.takeSleep.innerDrops = if run.takeSleep.future then 0 else 1 := by
  obtain ⟨_, _, future, rounds, polls, drops⟩ := sound.takeSleep
  rw [polls, rounds, drops, future]
  exact ⟨sound.counted.polls, sound.counted.drops⟩

theorem Sound.innerDropped (sound : Sound deadline run)
    (stepped : run.step .innerDropped = some next) : Sound deadline next := by
  obtain ⟨owned, sleep, future, rounds, _⟩ := sound.takeSleep
  obtain ⟨counted, dropped⟩ := sound.takeSleep_counted
  simp only [TimeoutRun.step] at stepped
  split at stepped
  · rename_i round dropping
    cases stepped
    rw [dropping] at counted
    obtain ⟨taken, undecided, decides⟩ := sound.stage.of_dropping dropping
    refine ⟨owned.frame rfl rfl rfl,
      .decided (Or.inl rfl) (future.trans taken) sleep ?_, ?_, dropped⟩
    · refine ⟨run.rounds, round, [], ?_, undecided, decides, nofun⟩
      show run.takeSleep.rounds ++ [round] = _
      rw [rounds]
    · show run.takeSleep.innerPolls = innerRounds (run.takeSleep.rounds ++ [round]) + 0
      have shown : round.inner.isSome = true := by
        cases decides with
        | ready => rfl
        | elapsed => rfl
      rw [innerRounds_append, if_pos shown]
      exact counted
  · rename_i dropping
    cases stepped
    rw [dropping] at counted
    obtain ⟨taken, undecided⟩ := sound.stage.of_abandoning dropping
    refine ⟨owned.frame rfl rfl rfl, .abandoned rfl (future.trans taken) sleep ?_,
      counted, dropped⟩
    show Undecided deadline run.takeSleep.rounds
    rwa [rounds]
  · cases stepped

theorem Sound.drop (sound : Sound deadline run)
    (stepped : run.step .drop = some next) : Sound deadline next := by
  simp only [TimeoutRun.step] at stepped
  split at stepped
  case h_2 => cases stepped
  rename_i idle
  split at stepped
  · rename_i there
    cases stepped
    obtain ⟨_, sleep, undecided⟩ := sound.stage.of_future there
    have counted := sound.counted.polls
    rw [idle] at counted
    refine ⟨sound.owned.frame rfl rfl rfl, .abandoning rfl rfl sleep undecided, counted, ?_⟩
    show run.innerDrops + 1 = 1
    rw [sound.counted.drops, there]
    rfl
  · rename_i taken
    cases stepped
    rw [Bool.not_eq_true] at taken
    obtain ⟨owned, sleep, future, rounds, _⟩ := sound.takeSleep
    obtain ⟨counted, dropped⟩ := sound.takeSleep_counted
    rw [idle] at counted
    obtain ⟨_, decided⟩ := sound.stage.of_gone_future idle taken
    refine ⟨owned.frame rfl rfl rfl,
      .decided (Or.inr rfl) (future.trans taken) sleep ?_, counted, dropped⟩
    show Decided deadline run.takeSleep.rounds
    rwa [rounds]

theorem Sound.timers (sound : Sound deadline run) {call : SleepCall W}
    (stepped : run.step (.timers call) = some next) : Sound deadline next := by
  simp only [TimeoutRun.step] at stepped
  split at stepped
  · cases stepped
  · rename_i other
    simp only [Option.map_eq_some_iff] at stepped
    obtain ⟨⟨after, reply⟩, called, rfl⟩ := stepped
    obtain ⟨created, present, taken⟩ := sound.owned
    obtain ⟨same, grown⟩ := Timers.sleeps_of_other called other created
    refine ⟨⟨lt_of_lt_of_le created grown, ?_, ?_⟩, ?_, sound.counted.polls,
      sound.counted.drops⟩
    · intro sleep
      obtain ⟨own, found, awaited⟩ := present sleep
      exact ⟨own, same.trans found, awaited⟩
    · exact fun gone => same.trans (taken gone)
    · cases sound.stage with
      | waiting point future sleep undecided =>
          exact .waiting point future sleep undecided
      | dropping round point future sleep undecided decides =>
          exact .dropping round point future sleep undecided decides
      | abandoning point future sleep undecided =>
          exact .abandoning point future sleep undecided
      | decided point future sleep decided => exact .decided point future sleep decided
      | abandoned point future sleep undecided =>
          exact .abandoned point future sleep undecided

theorem Sound.step (sound : Sound deadline run) {label : TimeoutStep W Output}
    (stepped : run.step label = some next) : Sound deadline next := by
  cases label with
  | poll waker => exact sound.poll stepped
  | innerReady value => exact sound.innerReady stepped
  | innerPending => exact sound.innerPending stepped
  | pollSleep now => exact sound.pollSleep stepped
  | innerDropped => exact sound.innerDropped stepped
  | drop => exact sound.drop stepped
  | timers call => exact sound.timers stepped

theorem run_sound {timers : Timers W}
    (reach : machine.Reach Machine.Any (start timers deadline) run) :
    Sound deadline run :=
  reach.invariant (sound_start timers deadline) fun _ _ _ sound _ stepped =>
    sound.step stepped

/-! The registration of the sleep, as long as fewer than `2 ^ 64` ids were given out. -/

omit [WillWake W] in
theorem sleepPolled_timers (run : TimeoutRun W Output) (waker : W) (now : Instant)
    (reply : Except Panic (Poll Unit)) :
    (run.sleepPolled waker now reply).timers = run.timers := by
  cases reply with
  | error panic => rfl
  | ok polled =>
      cases polled with
      | ready value => rfl
      | pending => rfl

omit [WillWake W] in
theorem sleepPolled_owner (run : TimeoutRun W Output) (waker : W) (now : Instant)
    (reply : Except Panic (Poll Unit)) :
    (run.sleepPolled waker now reply).owner = run.owner := by
  cases reply with
  | error panic => rfl
  | ok polled =>
      cases polled with
      | ready value => rfl
      | pending => rfl

/-- Whatever a step does, it makes at most one call of the driver. -/
inductive Called (run next : TimeoutRun W Output) : Prop
  | silent : next.owner = run.owner → next.timers = run.timers → Called run next
  | called (call : SleepCall W) (reply : SleepReply W) : next.owner = run.owner →
      run.timers.call call = some (next.timers, reply) → Called run next

theorem takeSleep_called (run : TimeoutRun W Output) : Called run run.takeSleep := by
  unfold TimeoutRun.takeSleep
  cases dropped : run.timers.call (.drop run.owner) with
  | none => exact .silent rfl rfl
  | some outcome => exact .called (.drop run.owner) outcome.2 rfl dropped

theorem step_called {label : TimeoutStep W Output} (stepped : run.step label = some next) :
    Called run next := by
  cases label with
  | poll waker =>
      simp only [TimeoutRun.step] at stepped
      split at stepped
      · split at stepped
        · cases stepped
          exact .silent rfl rfl
        · cases stepped
          exact .silent rfl rfl
      · cases stepped
  | innerReady value =>
      simp only [TimeoutRun.step] at stepped
      split at stepped
      · cases stepped
        exact .silent rfl rfl
      · cases stepped
  | innerPending =>
      simp only [TimeoutRun.step] at stepped
      split at stepped
      · cases stepped
        exact .silent rfl rfl
      · cases stepped
  | pollSleep now =>
      simp only [TimeoutRun.step] at stepped
      split at stepped
      · split at stepped
        · split at stepped
          · rename_i waker _ _ _ after reply called
            cases stepped
            refine .called (.poll run.owner waker now) (.polled reply) ?_ ?_
            · exact sleepPolled_owner _ waker now reply
            · rw [called, sleepPolled_timers]
          · cases stepped
        · cases stepped
          exact .silent rfl rfl
      · cases stepped
  | innerDropped =>
      simp only [TimeoutRun.step] at stepped
      split at stepped
      · cases stepped
        cases run.takeSleep_called with
        | silent owner timers => exact .silent owner timers
        | called call reply owner dropped => exact .called call reply owner dropped
      · cases stepped
        cases run.takeSleep_called with
        | silent owner timers => exact .silent owner timers
        | called call reply owner dropped => exact .called call reply owner dropped
      · cases stepped
  | drop =>
      simp only [TimeoutRun.step] at stepped
      split at stepped
      · split at stepped
        · cases stepped
          exact .silent rfl rfl
        · cases stepped
          cases run.takeSleep_called with
          | silent owner timers => exact .silent owner timers
          | called call reply owner dropped => exact .called call reply owner dropped
      · cases stepped
  | timers call =>
      simp only [TimeoutRun.step] at stepped
      split at stepped
      · cases stepped
      · simp only [Option.map_eq_some_iff] at stepped
        obtain ⟨⟨after, reply⟩, called, rfl⟩ := stepped
        exact .called call reply rfl called

theorem timers_reach {start finish : TimeoutRun W Output}
    (reach : machine.Reach Machine.Any start finish) :
    Timers.machine.Reach Machine.Any start.timers finish.timers := by
  apply reach.simulate
  intro run label next _ stepped
  cases step_called stepped with
  | silent _ same => exact Or.inl same
  | called call reply _ called =>
      exact Or.inr ⟨call, trivial, Timers.machine_step.mpr ⟨reply, called⟩⟩

theorem owner_of_reach {start finish : TimeoutRun W Output}
    (reach : machine.Reach Machine.Any start finish) : finish.owner = start.owner := by
  induction reach with
  | refl => rfl
  | step label _ _ stepped ih =>
      cases step_called stepped with
      | silent owner _ => exact owner.trans ih
      | called _ _ owner _ => exact owner.trans ih

/-- Between its polls a waiting timeout is registered for its last waker, or has woken
it; and its sleep never panics. -/
structure Bounded (run : TimeoutRun W Output) : Prop where
  coupled : run.timers.Coupled
  once : run.timers.FiredOnce
  armed : run.future = true → ∀ round, run.rounds.getLast? = some round →
    ∃ id, run.timers.Holds run.owner id ∧ run.timers.Waiting run.owner id round.waker
  calm : ∀ round ∈ run.rounds, ∀ panic, round.reply ≠ .error (.raised panic)

omit [WillWake W] in
theorem Bounded.append_calm {rounds : Rounds W Output} {round : TimeoutRound W Output}
    (calm : ∀ found ∈ rounds, ∀ panic, found.reply ≠ .error (.raised panic))
    (last : ∀ panic, round.reply ≠ .error (.raised panic)) :
    ∀ found ∈ rounds ++ [round], ∀ panic, found.reply ≠ .error (.raised panic) := by
  intro found member
  rcases List.mem_append.mp member with before | final
  · exact calm found before
  · rw [List.mem_singleton.mp final]
    exact last

theorem Bounded.timers (bounded : Bounded run) (sound : Sound deadline run)
    {call : SleepCall W} (stepped : run.step (.timers call) = some next)
    (few : next.timers.registered < 2 ^ 64) : Bounded next := by
  simp only [TimeoutRun.step] at stepped
  split at stepped
  · cases stepped
  · rename_i other
    simp only [Option.map_eq_some_iff] at stepped
    obtain ⟨⟨after, reply⟩, called, rfl⟩ := stepped
    have outcome := bounded.coupled.outcome called
    have same := (Timers.sleeps_of_other called other sound.owned.created).1
    have leaves : Timers.Leaves run.owner run.timers call := by
      cases call with
      | poll target waker now => exact fun equal => other (by rw [equal]; rfl)
      | drop target => exact fun equal => other (by rw [equal]; rfl)
      | _ => trivial
    refine ⟨outcome.coupled bounded.coupled few,
      outcome.fired_once bounded.coupled bounded.once, ?_, bounded.calm⟩
    intro there round last
    obtain ⟨id, ⟨sleep, present, held⟩, waiting⟩ := bounded.armed there round last
    exact ⟨id, ⟨sleep, same.trans present, held⟩,
      outcome.waiting bounded.coupled leaves waiting⟩

theorem Bounded.pollSleep (bounded : Bounded run) {now : Instant}
    (sound : Sound deadline run)
    (stepped : run.step (.pollSleep now) = some next)
    (few : next.timers.registered < 2 ^ 64) : Bounded next := by
  simp only [TimeoutRun.step] at stepped
  split at stepped
  case h_2 => cases stepped
  rename_i waker sleeping
  obtain ⟨there, sleep, undecided⟩ := sound.stage.of_waits sleeping rfl nofun
  rw [if_pos sleep] at stepped
  split at stepped
  case h_2 => cases stepped
  rename_i after reply called
  cases stepped
  rw [sleepPolled_timers] at few
  have outcome := bounded.coupled.outcome called
  have coupled := outcome.coupled bounded.coupled few
  have once := outcome.fired_once bounded.coupled bounded.once
  cases reply with
  | error panic => exact absurd rfl (outcome.no_panic panic)
  | ok polled =>
      cases polled with
      | ready value => exact ⟨coupled, once, nofun, bounded.calm⟩
      | pending =>
          refine ⟨coupled, once, ?_, Bounded.append_calm bounded.calm nofun⟩
          intro _ round last
          simp only [sleepPolled, replied, List.getLast?_append, List.getLast?_singleton,
            Option.some_or, Option.some.injEq] at last
          subst last
          exact bounded.coupled.waiting_of_pending bounded.once called

theorem Bounded.taken (coupled : next.timers.Coupled)
    (once : next.timers.FiredOnce) (taken : next.future = false)
    (calm : ∀ round ∈ next.rounds, ∀ panic, round.reply ≠ .error (.raised panic)) :
    Bounded next :=
  ⟨coupled, once, fun there => absurd (there.symm.trans taken) nofun, calm⟩

theorem Bounded.step (bounded : Bounded run) (sound : Sound deadline run)
    {label : TimeoutStep W Output} (stepped : run.step label = some next)
    (few : next.timers.registered < 2 ^ 64) : Bounded next := by
  have kept : next.timers.Coupled ∧ next.timers.FiredOnce := by
    cases step_called stepped with
    | silent _ same =>
        rw [same]
        exact ⟨bounded.coupled, bounded.once⟩
    | called call reply _ called =>
        have outcome := bounded.coupled.outcome called
        exact ⟨outcome.coupled bounded.coupled few,
          outcome.fired_once bounded.coupled bounded.once⟩
  have after := sound.step stepped
  cases label with
  | timers call => exact bounded.timers sound stepped few
  | pollSleep now => exact bounded.pollSleep sound stepped few
  | poll waker =>
      simp only [TimeoutRun.step] at stepped
      split at stepped
      · split at stepped
        · cases stepped
          exact ⟨bounded.coupled, bounded.once, bounded.armed, bounded.calm⟩
        · rename_i taken
          cases stepped
          rw [Bool.not_eq_true] at taken
          refine .taken kept.1 kept.2 taken (Bounded.append_calm bounded.calm ?_)
          nofun
      · cases stepped
  | innerReady value =>
      simp only [TimeoutRun.step] at stepped
      split at stepped
      · cases stepped
        exact .taken kept.1 kept.2 rfl bounded.calm
      · cases stepped
  | innerPending =>
      simp only [TimeoutRun.step] at stepped
      split at stepped
      · cases stepped
        exact ⟨bounded.coupled, bounded.once, bounded.armed, bounded.calm⟩
      · cases stepped
  | drop =>
      simp only [TimeoutRun.step] at stepped
      split at stepped
      · split at stepped
        · cases stepped
          exact .taken kept.1 kept.2 rfl bounded.calm
        · rename_i taken
          cases stepped
          rw [Bool.not_eq_true] at taken
          obtain ⟨_, _, future, rounds, _⟩ := sound.takeSleep
          refine .taken kept.1 kept.2 (future.trans taken) ?_
          show ∀ round ∈ run.takeSleep.rounds, _
          rw [rounds]
          exact bounded.calm
      · cases stepped
  | innerDropped =>
      obtain ⟨_, _, future, rounds, _⟩ := sound.takeSleep
      simp only [TimeoutRun.step] at stepped
      split at stepped
      · rename_i round dropping
        cases stepped
        obtain ⟨taken, _, decides⟩ := sound.stage.of_dropping dropping
        refine .taken kept.1 kept.2 (future.trans taken) ?_
        show ∀ found ∈ run.takeSleep.rounds ++ [round], _
        rw [rounds]
        apply Bounded.append_calm bounded.calm
        cases decides with
        | ready => nofun
        | elapsed => nofun
      · rename_i dropping
        cases stepped
        refine .taken kept.1 kept.2 (future.trans (sound.stage.of_abandoning dropping).1) ?_
        show ∀ round ∈ run.takeSleep.rounds, _
        rw [rounds]
        exact bounded.calm
      · cases stepped

theorem start_reach (Output : Type v) {clock : Instant} {timers : Timers W}
    (created : Timers.machine.Reach Machine.Any (Timers.initial clock) timers)
    (deadline : Instant) :
    Timers.machine.Reach Machine.Any (Timers.initial clock)
      (start timers deadline : TimeoutRun W Output).timers :=
  .step (.new deadline) created trivial rfl

theorem registered_le_of_step {label : TimeoutStep W Output}
    (stepped : run.step label = some next) :
    run.timers.registered ≤ next.timers.registered := by
  cases step_called stepped with
  | silent _ same => exact le_of_eq (congrArg Timers.registered same.symm)
  | called call reply _ called => exact Timers.registered_le_of_call called

theorem run_bounded {clock : Instant} {timers : Timers W}
    (created : Timers.machine.Reach Machine.Any (Timers.initial clock) timers)
    (reach : machine.Reach Machine.Any (start timers deadline) run)
    (few : run.timers.registered < 2 ^ 64) : Bounded run := by
  induction reach with
  | refl =>
      obtain ⟨coupled, once⟩ :=
        Timers.run_firedOnce (start_reach Output created deadline) few
      exact ⟨coupled, once, nofun, nofun⟩
  | step label before _ stepped ih =>
      have fewer := lt_of_le_of_lt (registered_le_of_step stepped) few
      exact (ih fewer).step (run_sound before) stepped few

/-- An id that the timeout's sleep has held is never used again once it is taken. -/
theorem retired_of_taken {clock : Instant} {earlier later : TimeoutRun W Output}
    (initially : Timers.machine.Reach Machine.Any (Timers.initial clock) earlier.timers)
    (reach : machine.Reach Machine.Any earlier later) {id : TimerId}
    (held : earlier.timers.Holds earlier.owner id)
    (few : later.timers.registered < 2 ^ 64)
    (taken : later.timers.sleeps earlier.owner = none) : later.timers.Retired id := by
  have between := timers_reach reach
  have fewer := lt_of_le_of_lt (Timers.run_registered_le between) few
  have coupled := (Timers.run_firedOnce initially fewer).1
  have exclusive : earlier.timers.Exclusive earlier.owner id :=
    ⟨coupled.heldFresh _ _ held, fun other holds =>
      coupled.heldOnce id other earlier.owner holds held⟩
  obtain ⟨laterCoupled, used, holder⟩ := Timers.run_invariant between few coupled
    exclusive fun timers call next reply before still _ stepped =>
      stepped.exclusive before still
  refine ⟨used, ?_⟩
  rw [Option.eq_none_iff_forall_ne_some]
  intro registration live
  obtain ⟨other, sleep, present, holds, _⟩ := laterCoupled.owned id registration live
  obtain rfl := holder other ⟨sleep, present, holds⟩
  rw [taken] at present
  cases present

/-- Whatever the wrapped future and the other users of the driver do: the rounds wait
until one decides, by the future's value or else by the clock, and later polls are
refused; the future is polled once in each round before that and dropped once.  While
the timeout waits its one registration is armed for the last waker, or has woken it,
and once the sleep is taken nothing of it is left. -/
theorem timeout_decides {clock : Instant} {timers : Timers W}
    (created : Timers.machine.Reach Machine.Any (Timers.initial clock) timers)
    (reach : machine.Reach Machine.Any (start timers deadline) run) :
    Stage deadline run ∧
    run.innerPolls = innerRounds run.rounds + run.point.polls ∧
    (run.innerDrops = if run.future then 0 else 1) ∧
    (run.timers.registered < 2 ^ 64 →
      (∀ round ∈ run.rounds, ∀ panic, round.reply ≠ .error (.raised panic)) ∧
      (run.future = true → ∀ round, run.rounds.getLast? = some round →
        ∃ id, run.timers.Holds run.owner id ∧
          ((∃ registration, run.timers.driver.registrations.lookup id =
              some registration ∧ registration.deadline = deadline ∧
              SameWake registration.waker round.waker ∧ run.timers.wakesOf id = []) ∨
            (run.timers.driver.registrations.lookup id = none ∧
              ∃ stored, SameWake stored round.waker ∧
                run.timers.wakesOf id = [stored]))) ∧
      (run.sleep = false →
        (∀ id registration,
          run.timers.driver.registrations.lookup id = some registration →
          ∃ other, other ≠ run.owner ∧ run.timers.Holds other id) ∧
        ∀ earlier id, machine.Reach Machine.Any (start timers deadline) earlier →
          machine.Reach Machine.Any earlier run →
          earlier.timers.Holds run.owner id →
          run.timers.driver.registrations.lookup id = none ∧
          ∀ later, machine.Reach Machine.Any run later →
            later.timers.registered < 2 ^ 64 →
            later.timers.wakesOf id = run.timers.wakesOf id)) := by
  have sound := run_sound reach
  refine ⟨sound.stage, sound.counted.polls, sound.counted.drops, fun few => ?_⟩
  have bounded := run_bounded created reach few
  refine ⟨bounded.calm, ?_, ?_⟩
  · intro there round last
    obtain ⟨id, holds, waiting⟩ := bounded.armed there round last
    refine ⟨id, holds, ?_⟩
    cases waiting with
    | armed present held found same silent =>
        refine Or.inl ⟨_, found, ?_, same, silent⟩
        obtain ⟨other, own, ownPresent, ownHeld, awaited⟩ :=
          bounded.coupled.owned id _ found
        obtain rfl := bounded.coupled.heldOnce id other run.owner
          ⟨own, ownPresent, ownHeld⟩ holds
        obtain ⟨sleep, shown, deadline⟩ :=
          sound.owned.present (sound.stage.of_future there).2.1
        rw [shown] at ownPresent
        cases ownPresent
        exact awaited.symm.trans deadline
    | fired present held retired same once =>
        exact Or.inr ⟨retired.absent, _, same, once⟩
  · intro taken
    have gone := sound.owned.taken taken
    refine ⟨?_, ?_⟩
    · intro id registration live
      obtain ⟨other, sleep, present, held, _⟩ :=
        bounded.coupled.owned id registration live
      refine ⟨other, ?_, sleep, present, held⟩
      rintro rfl
      rw [gone] at present
      cases present
    · intro earlier id before after held
      have same := owner_of_reach after
      rw [same] at held gone
      have initially : Timers.machine.Reach Machine.Any (Timers.initial clock)
          earlier.timers :=
        (start_reach Output created deadline).trans (timers_reach before)
      have retired := retired_of_taken initially after held few gone
      refine ⟨retired.absent, fun later reach few => ?_⟩
      exact Timers.wakesOf_of_retired (timers_reach reach) few bounded.coupled retired

/-- The wrapped future sleeps until 3 and wins over the deadline 5. -/
def wonSteps : List (TimeoutStep Waker Nat) :=
  [.poll (.task 1), .timers (.new 3), .timers (.poll 1 (.task 1) 1), .innerPending,
    .pollSleep 1, .timers (.processExpired 3), .poll (.task 2),
    .timers (.poll 1 (.task 2) 4), .innerReady 42, .timers (.drop 1), .innerDropped]

def wonRun : TimeoutRun Waker Nat :=
  (machine.run Machine.Any (start (Timers.initial 0) 5) wonSteps).getD
    (start (Timers.initial 0) 5)

theorem timeout_decides_won :
    wonRun.rounds.length = 2 ∧ wonRun.innerPolls = 2 ∧ wonRun.innerDrops = 1 ∧
      ∀ round ∈ wonRun.rounds, ∀ panic, round.reply ≠ .error (.raised panic) := by
  have ran : machine.run Machine.Any
      (start (Timers.initial 0) 5 : TimeoutRun Waker Nat) wonSteps = some wonRun := rfl
  obtain ⟨_, polls, drops, bounded⟩ :=
    timeout_decides Machine.Reach.refl (Machine.reach_of_run ran)
  exact ⟨rfl, polls, drops, (bounded (by decide)).1⟩

end TimeoutRun

end Asyncr.Time
