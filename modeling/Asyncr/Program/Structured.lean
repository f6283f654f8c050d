import Asyncr.Program.Joiners
import Asyncr.Program.Notified
import Asyncr.Time.SleepWakers

namespace Asyncr

def Phase.polled? : Phase → Option Nat
  | .polling _ _ target => some target
  | .outside | .iterating _ | .expiring _ | .receiving _ | .waiting _
  | .dispatching _ | .leaving _ | .unwinding | .clearing | .tearing | .leaking
  | .dropped => none

theorem Phase.polled?_eq_some {phase : Phase} {schedule : Nat} :
    phase.polled? = some schedule ↔
      ∃ root id, phase = .polling root id schedule := by
  constructor
  · intro polled
    cases phase with
    | polling root id target =>
        cases polled
        exact ⟨root, id, rfl⟩
    | _ => cases polled
  · rintro ⟨root, id, rfl⟩
    rfl

def Waker.schedule? : Waker → Option Nat
  | .task schedule => some schedule
  | .custom _ => none

theorem Waker.schedule?_eq_some {waker : Waker} {schedule : Nat} :
    waker.schedule? = some schedule ↔ waker = .task schedule := by
  cases waker <;> simp [schedule?]

def JoinState.waiter? {Output : Type} : JoinState Output → Option Nat
  | .pending (some waker) => waker.schedule?
  | .pending none | .ready _ | .consumed => none

namespace Executor

variable {executor next : Executor} {move : Move} {schedule : Nat}

instance (executor : Executor) (schedule : Nat) :
    Decidable (executor.Owned schedule) :=
  decidable_of_iff
    ((∃ task ∈ executor.pendingSpawns, task.schedule = schedule) ∨
      ∃ entry ∈ executor.tasks.entries, entry.2.schedule = schedule) (by
    refine or_congr_right ?_
    constructor
    · rintro ⟨⟨id, task⟩, member, same⟩
      exact ⟨id, task, AList.mem_lookup_iff.mpr member, same⟩
    · rintro ⟨id, task, found, same⟩
      exact ⟨⟨id, task⟩, AList.mem_lookup_iff.mp found, same⟩)

instance (executor : Executor) (schedule : Nat) :
    Decidable (executor.Unfinished schedule) :=
  inferInstanceAs (Decidable (_ ∨ _ ∧ _))

theorem Moved.newborn (moved : Moved executor move next) (after : next.Coherent)
    (unfinished : next.Unfinished executor.scheduling.created) :
    next.scheduling.state executor.scheduling.created = .queued := by
  have below := unfinished.created after
  rcases moved.change with same | ⟨change, _, stepped⟩
  · rw [same] at below
    exact absurd below (Nat.lt_irrefl _)
  · cases creates : Scheduling.created? change with
    | none =>
        rw [(Scheduling.step_ids creates stepped).1] at below
        exact absurd below (Nat.lt_irrefl _)
    | some id =>
        cases change with
        | create other =>
            rw [Scheduling.step_create stepped]
            simp [Scheduling.state, Scheduling.setSchedule]
        | _ => cases creates

end Executor

namespace World

open Library
open Time

variable {Output : Type} {world next : World Output} {label : Label Output}
  {clock : Clock} {os : Instant} {schedule : Nat}

/-! Programs whose tasks wait for joins, for timers and for nothing else. -/

def joiner? (world : World Output) (join : JoinRef) : Option Nat :=
  (world.joins join).bind fun cell => cell.state.waiter?

def sleeper? (world : World Output) (id : TimerId) : Option Nat :=
  (world.time.driver.registrations.lookup id).bind fun registration =>
    registration.waker.schedule?

/-- The schedule waits for a task or for a timer. -/
def Expects (world : World Output) (schedule : Nat) : Prop :=
  (∃ target < world.executor.scheduling.created,
    world.joiner? (.task target) = some schedule) ∨
    ∃ id ∈ world.time.driver.registrations.keys, world.sleeper? id = some schedule

/-- Nobody but the waiter itself, while it is polled, touches what it waits for, as long
as it is unfinished. -/
def Spares (world : World Output) (waiter : Option Nat) : Prop :=
  ∀ schedule ∈ waiter, world.executor.Unfinished schedule →
    schedule ∈ world.executor.phase.polled?

/-- A poll is pending only for a reason, and tasks own the handles and the sleeps that
they wait for. -/
def Reasonable (world : World Output) : Label Output → Prop
  | .yield .pending | .rootYield .pending =>
      ∀ schedule ∈ world.executor.phase.polled?,
        world.Expects schedule ∨
          world.executor.scheduling.state schedule = .running true
  | .pollJoin join _ | .dropJoin join => world.Spares (world.joiner? join)
  | .timer (.poll sleep _ _) | .timer (.drop sleep) =>
      ∀ id ∈ (world.time.sleeps sleep).bind Sleep.registration,
        world.Spares (world.sleeper? id)
  | _ => True

def Structured (world : World Output) (label : Label Output) : Prop :=
  world.Contained label ∧ world.Reasonable label

instance (world : World Output) (schedule : Nat) : Decidable (world.Expects schedule) :=
  inferInstanceAs (Decidable (_ ∨ _))

instance (world : World Output) (waiter : Option Nat) : Decidable (world.Spares waiter) :=
  inferInstanceAs (Decidable (∀ schedule ∈ waiter, _))

instance (world : World Output) : ∀ label, Decidable (world.Reasonable label)
  | .yield .pending | .rootYield .pending =>
      inferInstanceAs (Decidable (∀ schedule ∈ world.executor.phase.polled?, _ ∨ _))
  | .pollJoin join _ | .dropJoin join =>
      inferInstanceAs (Decidable (world.Spares (world.joiner? join)))
  | .timer (.poll sleep _ _) | .timer (.drop sleep) =>
      inferInstanceAs (Decidable (∀ id ∈ (world.time.sleeps sleep).bind _, _))
  | .executor _ | .tick _ | .clock _ | .spawn | .yield (.ready _)
  | .rootYield (.ready _) | .codeReturns | .panic | .proceed | .drain | .plan | .recv
  | .timeout | .dispatch | .finish | .clear | .destroy _ | .timer (.new _)
  | .timer (.reset _ _) | .timer (.processExpired _) | .timer .nextDeadline =>
      isTrue trivial

instance (world : World Output) (label : Label Output) :
    Decidable (world.Structured label) :=
  inferInstanceAs (Decidable (_ ∧ _))

/-! What a schedule waits for stays, or is about to wake it. -/

theorem joiner?_eq_some {join : JoinRef} :
    world.joiner? join = some schedule ↔
      ∃ cell, world.joins join = some cell ∧
        cell.state = .pending (some (.task schedule)) := by
  unfold joiner?
  rw [Option.bind_eq_some_iff]
  refine exists_congr fun cell => and_congr_right fun _ => ?_
  cases state : cell.state with
  | pending stored =>
      cases stored with
      | none => simp [JoinState.waiter?]
      | some waker => simp [JoinState.waiter?, Waker.schedule?_eq_some]
  | ready result | consumed => simp [JoinState.waiter?]

theorem sleeper?_eq_some {id : TimerId} :
    world.sleeper? id = some schedule ↔
      ∃ registration, world.time.driver.registrations.lookup id = some registration ∧
        registration.waker = .task schedule := by
  simp only [sleeper?, Option.bind_eq_some_iff, Waker.schedule?_eq_some]

theorem Stepped.joiner_on (stepped : Stepped world label next) (cells : world.Cells)
    {join : JoinRef} (joined : world.joiner? join = some schedule)
    (unpolled : ∀ waker, label ≠ .pollJoin join waker)
    (undropped : label ≠ .dropJoin join) :
    next.joiner? join = some schedule ∨ .wake join (.task schedule) ∈ next.stack := by
  obtain ⟨cell, found, waits⟩ := joiner?_eq_some.mp joined
  have kept : ∀ {other : JoinRef} {before changed : JoinCell Output},
      world.joins other = some before →
      next.joins = Function.update world.joins other (some changed) →
      (other = join → changed.state = before.state) →
      next.joiner? join = some schedule := by
    intro other before changed present joins same
    apply joiner?_eq_some.mpr
    rcases kept_updated joins found with ⟨rfl, now⟩ | ⟨_, now⟩
    · cases found.symm.trans present
      exact ⟨changed, now, (same rfl).trans waits⟩
    · exact ⟨cell, now, waits⟩
  have fresh : ∀ {other : JoinRef} {changed : JoinCell Output},
      world.joins other = none →
      next.joins = Function.update world.joins other (some changed) →
      next.joiner? join = some schedule := by
    intro other changed absent joins
    apply joiner?_eq_some.mpr
    rcases kept_updated joins found with ⟨rfl, _⟩ | ⟨_, now⟩
    · cases absent.symm.trans found
    · exact ⟨cell, now, waits⟩
  cases stepped with
  | refused runs closed => exact Or.inl (fresh cells.fresh_refused rfl)
  | spawned runs unclosed step => exact Or.inl (fresh cells.fresh_task rfl)
  | awaited runs present handle known pending =>
      refine Or.inl (kept present rfl ?_)
      rintro rfl
      exact absurd rfl (unpolled _)
  | yielded runs present handle ready =>
      refine Or.inl (kept present rfl ?_)
      rintro rfl
      exact absurd rfl (unpolled _)
  | dropped runs present handle =>
      refine Or.inl (kept present rfl ?_)
      rintro rfl
      exact absurd rfl undropped
  | @published other result rest before waker free stack present pending =>
      cases decEq other join with
      | isFalse different =>
          exact Or.inl (kept present rfl fun same => absurd same different)
      | isTrue same =>
          subst same
          cases found.symm.trans present
          cases pending.symm.trans waits
          exact Or.inr List.mem_cons_self
  | released free stack present front => exact Or.inl (kept present rfl fun _ => rfl)
  | granted free stack present => exact Or.inl (kept present rfl fun _ => rfl)
  | _ => exact Or.inl joined

theorem Stepped.sleeper_on (stepped : Stepped world label next)
    (coupled : world.time.Coupled) {id : TimerId}
    (sleeping : world.sleeper? id = some schedule)
    (untouched : ∀ call, label = .timer call → ∀ owner, world.time.Holds owner id →
      Timers.Leaves owner world.time call) :
    next.sleeper? id = some schedule ∨ .fire (.task schedule) ∈ next.stack := by
  obtain ⟨registration, found, isWaker⟩ := sleeper?_eq_some.mp sleeping
  obtain ⟨owner, sleep, present, held, _⟩ := coupled.owned id registration found
  have holds : world.time.Holds owner id := ⟨sleep, present, held⟩
  have live : ∀ {call : SleepCall Waker} {reply : SleepReply Waker},
      world.time.call call = some (next.time, reply) →
      Timers.Leaves owner world.time call →
      next.sleeper? id = some schedule ∨
        ∃ now, call = .processExpired now ∧ registration.deadline ≤ now := by
    intro call reply called leaves
    refine ((coupled.outcome called).live_on coupled leaves holds found).imp_left ?_
    rintro ⟨after, now, same⟩
    exact sleeper?_eq_some.mpr ⟨after, now, same.trans isWaker⟩
  have searched : ∀ {reply : SleepReply Waker},
      world.time.call .nextDeadline = some (next.time, reply) →
      next.sleeper? id = some schedule := by
    intro reply called
    exact (live called trivial).resolve_right (by simp)
  cases stepped with
  | @timer call time reply runs asked called =>
      refine (live called (untouched call rfl owner holds)).imp_right ?_
      rintro ⟨now, rfl, _⟩
      simp [sleepCall] at asked
  | @drained executor time wakers step called =>
      refine (live called trivial).imp_right ?_
      rintro ⟨now, isNow, due⟩
      cases isNow
      obtain ⟨_, replied⟩ := fired_of_processExpired called
      cases replied
      have expired : (id, registration) ∈ world.time.driver.expired world.now :=
        (TimerState.mem_expired coupled.covered _ id registration).mpr ⟨found, due⟩
      rw [← isWaker]
      exact List.mem_map_of_mem (List.mem_map_of_mem
        (f := fun removed => removed.2.waker) expired)
  | planned phase wait called running => exact Or.inl (searched called)
  | jumped phase wait called paused advanced step => exact Or.inl (searched called)
  | stuck phase wait called paused failed step => exact Or.inl (searched called)
  | _ => exact Or.inl sleeping

theorem Spares.untouched {waiter : Option Nat} (spares : world.Spares waiter)
    (unfinished : world.executor.Unfinished schedule)
    (unpolled : world.executor.phase.polled? ≠ some schedule) :
    waiter ≠ some schedule := by
  rintro rfl
  exact unpolled (spares schedule rfl unfinished)

theorem Stepped.expects_on (stepped : Stepped world label next) (cells : world.Cells)
    (coupled : world.time.Coupled) (reasonable : world.Reasonable label)
    (unfinished : world.executor.Unfinished schedule)
    (unpolled : world.executor.phase.polled? ≠ some schedule)
    (expects : world.Expects schedule) :
    next.Expects schedule ∨
      ∃ frame ∈ next.stack, frame.wakes? = some schedule := by
  rcases expects with ⟨target, below, joined⟩ | ⟨id, _, sleeping⟩
  · have waits := stepped.joiner_on cells joined (by
        rintro waker rfl
        exact reasonable.untouched unfinished unpolled joined) (by
        rintro rfl
        exact reasonable.untouched unfinished unpolled joined)
    rcases waits with still | wakes
    · exact Or.inl (Or.inl ⟨target, Nat.lt_of_lt_of_le below stepped.created_le, still⟩)
    · exact Or.inr ⟨_, wakes, rfl⟩
  · have sleeps := stepped.sleeper_on coupled sleeping (by
        rintro call rfl owner ⟨sleep, present, held⟩
        have touched : (world.time.sleeps owner).bind Sleep.registration = some id := by
          rw [present]
          exact held
        cases call with
        | poll other waker now | drop other =>
            rintro rfl
            exact (reasonable id touched).untouched unfinished unpolled sleeping
        | _ => trivial)
    rcases sleeps with still | fires
    · obtain ⟨registration, found, _⟩ := sleeper?_eq_some.mp still
      refine Or.inl (Or.inr ⟨id, ?_, still⟩)
      rw [← AList.mem_keys, ← AList.lookup_isSome, found]
      rfl
    · exact Or.inr ⟨_, fires, rfl⟩

/-- What an idle task waits for. -/
inductive Excused (world : World Output) (schedule : Nat) : Prop
  | expects : world.Expects schedule → Excused world schedule
  | waking {frame : Frame Output} : frame ∈ world.stack →
      frame.wakes? = some schedule → Excused world schedule

/-- Every task that has not asked for a poll waits for something. -/
structure Excuses (world : World Output) : Prop where
  firing : ∀ waker, .fire waker ∈ world.stack →
    ∃ root, world.executor.phase = .expiring root
  excused : ∀ schedule, world.executor.Unfinished schedule →
    world.executor.phase.polled? ≠ some schedule →
    (world.executor.scheduling.state schedule).awake = false →
    world.Excused schedule

theorem excuses_initial : (initial clock os : World Output).Excuses where
  firing := by
    intro waker member
    cases member
  excused := by
    intro schedule unfinished
    rcases unfinished with (⟨_, member, _⟩ | ⟨_, _, found, _⟩) | ⟨isRoot, _⟩
    · cases member
    · cases found
    · cases isRoot

section

variable (tidy : world.Tidy) (few : world.executor.spawned < 2 ^ 64 - 1)
  (contained : world.Contained label)

include tidy few contained

theorem Stepped.firing_on (stepped : Stepped world label next) (excuses : world.Excuses)
    {waker : Waker} (member : .fire waker ∈ next.stack) :
    ∃ root, next.executor.phase = .expiring root := by
  rcases stepped.pushed member with old | pushed
  · obtain ⟨root, phase⟩ := excuses.firing waker old
    obtain ⟨frame, rest, stack⟩ := List.exists_cons_of_ne_nil (List.ne_nil_of_mem old)
    have shaped := tidy.orderly.shaped
    rcases stepped.phase_stays tidy.orderly.placed stack
      (by
        rintro rfl
        obtain ⟨_, _, _, polling⟩ := shaped.root (stack ▸ List.mem_cons_self)
        cases phase.symm.trans polling)
      (by
        rintro join rfl
        obtain ⟨_, _, _, _, _, _, polling⟩ :=
          shaped.inner join (stack ▸ List.mem_cons_self)
        cases phase.symm.trans polling) with stays | unwinding | ⟨closing, _⟩
    · exact ⟨root, stays.trans phase⟩
    · rcases tidy.unwinding few contained stepped unwinding with
        other | ⟨_, _, other⟩ | ⟨_, other⟩ <;> cases phase.symm.trans other
    · rw [phase] at closing
      cases closing
  · cases pushed with
    | fired step called isWaker =>
        have moved := Executor.moved_of_step step
        generalize next.executor = after at moved ⊢
        cases moved with
        | drain phase free => exact ⟨_, rfl⟩

theorem Stepped.waking_on (stepped : Stepped world label next) (stacked : world.Stacked)
    (excuses : world.Excuses) {frame : Frame Output} (member : frame ∈ world.stack)
    (wakes : frame.wakes? = some schedule) :
    frame ∈ next.stack ∨ (next.executor.scheduling.state schedule).awake = true := by
  have unpoisoned := (tidy.ended.kept few).1.unpoisoned
  have placed := tidy.orderly.placed
  have done : world.executor.step (.wake schedule) = some next.executor →
      (next.executor.scheduling.state schedule).awake = true :=
    Executor.awake_of_wake (unpoisoned schedule)
  unfold Frame.wakes? at wakes
  split at wakes
  · cases wakes
    obtain ⟨root, phase⟩ := excuses.firing _ member
    have calm : next.executor.phase ≠ .unwinding := by
      intro unwinding
      rcases tidy.unwinding few contained stepped unwinding with
        other | ⟨_, _, other⟩ | ⟨_, other⟩ <;> cases phase.symm.trans other
    have opened : world.executor.phase.closing = false := by
      rw [phase]
      rfl
    exact (stepped.wakes_on placed calm opened member rfl).imp_right done
  · cases wakes
    exact (stepped.wake_on placed stacked unpoisoned member).imp_right done
  all_goals cases wakes

/-- A poll that ends and leaves its task asleep was pending, and found nothing. -/
theorem Stepped.poll_ended (stepped : Stepped world label next) (after : next.Orderly)
    (polled : world.executor.phase.polled? = some schedule)
    (ended : next.executor.phase.polled? ≠ some schedule)
    (unfinished : next.executor.Unfinished schedule)
    (asleep : (next.executor.scheduling.state schedule).awake = false) :
    (label = .yield .pending ∨ label = .rootYield .pending) ∧
      next.joins = world.joins ∧ next.time = world.time ∧
      world.executor.scheduling.state schedule = .running false := by
  obtain ⟨root, id, phase⟩ := Phase.polled?_eq_some.mp polled
  have sound := tidy.orderly.sound
  rcases stepped.takes with same | ⟨move, takes, step⟩
  · rw [same] at ended
    exact absurd polled ended
  have moved := Executor.moved_of_step step
  obtain ⟨below, isId, _⟩ := sound.coherent.polled root id schedule phase
  have calm : next.executor.phase ≠ .unwinding := by
    intro unwinding
    rcases unfinished with owned | ⟨isRoot, _⟩
    · rcases tidy.unwinding few contained stepped unwinding with
        other | ⟨_, _, other⟩ | ⟨_, other⟩ <;> cases phase.symm.trans other
      apply (owned.sends after.sound.coherent).2
      rw [moved.ids.2 schedule below, isId]
    · rw [unwinding] at isRoot
      cases isRoot
  have isPending : move = .endPoll .pending := by
    rcases moved.polls_on phase with stays | rfl | ⟨result, rfl⟩
    · rw [stays] at ended
      exact absurd polled ended
    · exact absurd (unwinding_of_panic step (by rw [phase]; rfl)) calm
    · cases result with
      | pending => rfl
      | ready =>
          have completes : ∀ {scheduling : Scheduling},
              world.executor.scheduling.step (.finishPoll schedule (.ready ())) =
                some scheduling →
              (scheduling.state schedule).awake = true := by
            intro scheduling change
            obtain ⟨notified, state⟩ := sound.polling.finished_state phase change
            rw [state]
            cases notified <;> rfl
          generalize next.executor = left at moved asleep calm
          cases moved with
          | notFinished before fails change => exact absurd rfl calm
          | rootReady before finishes change | taskReady before _ finishes change =>
              cases before.symm.trans phase
              exact absurd (completes change) (by simp [asleep])
  subst isPending
  have unnotified : world.executor.scheduling.state schedule = .running false := by
    obtain ⟨notified, running⟩ := sound.polling.running root id schedule phase
    cases notified with
    | false => exact running
    | true =>
        have awake : (world.executor.scheduling.state schedule).awake = true := by
          rw [running]
          rfl
        rcases moved.awake sound.coherent awake with still | ⟨isDispatch, _⟩
        · rw [asleep] at still
          cases still
        · cases isDispatch
  cases takes with
  | permitted permitted => cases permitted
  | suspended stack =>
      refine ⟨Or.inl rfl, ?_⟩
      cases stepped with
      | suspended => exact ⟨rfl, rfl, unnotified⟩
      | timed cause later =>
          rcases cause with ⟨_, other, _⟩ | ⟨_, _, other⟩ <;> cases other
      | unwound free fails unwinds change => cases fails
  | rootYielded stack =>
      refine ⟨Or.inr rfl, ?_⟩
      cases stepped with
      | rootYielded => exact ⟨rfl, rfl, unnotified⟩
      | timed cause later =>
          rcases cause with ⟨_, other, _⟩ | ⟨_, _, other⟩ <;> cases other
      | unwound free fails unwinds change => cases fails

/-- A task asks for a poll, or waits for something. -/
theorem Excuses.step (excuses : world.Excuses) (stepped : Stepped world label next)
    (after : next.Orderly) (stacked : world.Stacked) (coupled : world.time.Coupled)
    (reasonable : world.Reasonable label) : next.Excuses := by
  refine ⟨fun _ => stepped.firing_on tidy few contained excuses, ?_⟩
  intro schedule unfinished unpolled asleep
  cases polled : decide (world.executor.phase.polled? = some schedule) with
  | true =>
      have isPolled := of_decide_eq_true polled
      obtain ⟨pending, joins, time, unnotified⟩ :=
        stepped.poll_ended tidy few contained after isPolled unpolled unfinished asleep
      have expects : world.Expects schedule := by
        rcases pending with rfl | rfl
        · refine (reasonable schedule isPolled).resolve_right ?_
          rw [unnotified]
          simp
        · refine (reasonable schedule isPolled).resolve_right ?_
          rw [unnotified]
          simp
      apply Excused.expects
      rcases expects with ⟨target, below, joined⟩ | ⟨id, member, sleeping⟩
      · refine Or.inl ⟨target, Nat.lt_of_lt_of_le below stepped.created_le, ?_⟩
        rw [joiner?, joins]
        exact joined
      · refine Or.inr ⟨id, time ▸ member, ?_⟩
        rw [sleeper?, time]
        exact sleeping
  | false =>
      have notPolled := of_decide_eq_false polled
      have earlier : world.executor.Unfinished schedule ∧
          (world.executor.scheduling.state schedule).awake = false := by
        rcases stepped.takes with same | ⟨move, _, step⟩
        · exact ⟨same ▸ unfinished, same ▸ asleep⟩
        · have moved := Executor.moved_of_step step
          refine ⟨?_, ?_⟩
          · rcases moved.unfinished_back unfinished with old | rfl
            · exact old
            · rw [moved.newborn after.sound.coherent unfinished] at asleep
              cases asleep
          · by_contra awake
            rcases moved.awake tidy.orderly.sound.coherent
              (Bool.eq_true_of_not_eq_false awake) with still | ⟨_, root, id, phase⟩
            · rw [asleep] at still
              cases still
            · exact unpolled (Phase.polled?_eq_some.mpr ⟨root, id, phase⟩)
      obtain ⟨unended, sleeping⟩ := earlier
      cases excuses.excused schedule unended notPolled sleeping with
      | expects expects =>
          rcases stepped.expects_on tidy.orderly.cells coupled reasonable unended
            notPolled expects with still | ⟨frame, member, wakes⟩
          · exact .expects still
          · exact .waking member wakes
      | waking member wakes =>
          rcases stepped.waking_on tidy few contained stacked excuses member wakes with
            still | awake
          · exact .waking still wakes
          · rw [asleep] at awake
            cases awake

end

theorem Stepped.registered_le (stepped : Stepped world label next) :
    world.time.registered ≤ next.time.registered := by
  rcases stepped.timers with same | ⟨call, reply, called⟩
  · rw [same]
  · exact Timers.registered_le_of_call called

theorem run_excuses (reach : machine.Reach Structured (initial clock os) world)
    (few : world.executor.spawned < 2 ^ 64 - 1) (timed : world.time.registered < 2 ^ 64) :
    world.Excuses := by
  induction reach with
  | refl => exact excuses_initial
  | @step world next label before structured step ih =>
      have stepped := stepped_of_step step
      have fewer := Nat.lt_of_le_of_lt stepped.spawned_le few
      have earlier := Nat.lt_of_le_of_lt stepped.registered_le timed
      have contained := before.weaken fun _ _ structured => structured.1
      obtain ⟨tidy, stacked, _⟩ := run_watched contained fewer
      have coupled : world.time.Coupled :=
        Timers.run_coupled (timers_reach contained) earlier (Timers.coupled_initial _)
      exact (ih fewer earlier).step tidy fewer structured.1 stepped
        (stepped.orderly tidy.orderly few) stacked coupled structured.2

end World

end Asyncr
