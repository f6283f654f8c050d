import Asyncr.Library.Progress
import Asyncr.Program.Virtual

namespace Asyncr

open Library
open Time

theorem Waker.known_mono {waker : Waker} {created later : Nat}
    (grown : created ≤ later) (known : waker.known created = true) :
    waker.known later = true := by
  cases waker with
  | custom code => rfl
  | task schedule =>
      have below : schedule < created := of_decide_eq_true known
      exact decide_eq_true (Nat.lt_of_lt_of_le below grown)

namespace World

variable {Output : Type} {world next : World Output} {label : Label Output}
  {allowed : World Output → Label Output → Prop} {clock : Clock} {os : Instant}

/-! What the timers hold are wakers of schedules that exist. -/

structure Known (world : World Output) : Prop where
  registered : ∀ id registration,
    world.time.driver.registrations.lookup id = some registration →
    registration.waker.known world.executor.scheduling.created = true
  firing : ∀ root, world.executor.phase = .expiring root →
    ∀ waker, .fire waker ∈ world.stack →
      waker.known world.executor.scheduling.created = true

theorem known_initial : (initial clock os : World Output).Known where
  registered := by
    intro id registration found
    cases found
  firing := by
    intro root phase
    cases phase

theorem Known.registered_step (known : world.Known)
    (stepped : Stepped world label next)
    {id : TimerId} {registration : TimerRegistration Waker}
    (found : next.time.driver.registrations.lookup id = some registration) :
    registration.waker.known next.executor.scheduling.created = true := by
  apply Waker.known_mono stepped.created_le
  have called : ∀ {call : SleepCall Waker} {time : Timers Waker}
      {reply : SleepReply Waker}, world.time.call call = some (time, reply) →
      time.driver.registrations.lookup id = some registration →
      (∀ sleep waker now, call = .poll sleep waker now →
        waker.known world.executor.scheduling.created = true) →
      registration.waker.known world.executor.scheduling.created = true := by
    intro call time reply called found polls
    cases Timers.registered_of_call called found with
    | kept before => exact known.registered id registration before
    | updated before => exact polls _ _ _ rfl
    | moved before =>
        have old := known.registered id _ before
        exact old
    | added early => exact polls _ _ _ rfl
  cases stepped with
  | timer runs asked step =>
      apply called step found
      rintro sleep waker now rfl
      simp only [sleepCall, Bool.and_eq_true] at asked
      exact asked.2
  | drained step expired => exact called expired found (by simp)
  | planned phase wait next running => exact called next found (by simp)
  | jumped phase wait next paused advanced step =>
      exact called next found (by simp)
  | stuck phase wait next paused failed step => exact called next found (by simp)
  | _ => exact known.registered id registration found

theorem Known.firing_step (known : world.Known) (placed : world.Placed)
    (covered : world.time.driver.Covered) (stepped : Stepped world label next)
    {root : Nat} (phase : next.executor.phase = .expiring root) {waker : Waker}
    (member : .fire waker ∈ next.stack) :
    waker.known next.executor.scheduling.created = true := by
  apply Waker.known_mono stepped.created_le
  rcases stepped.pushed member with old | pushed
  · rcases stepped.takes with same | ⟨move, takes, moved⟩
    · exact known.firing root (same ▸ phase) waker old
    · rcases expiring_of_moved (Executor.moved_of_step moved) phase with
        ⟨rfl, _⟩ | ⟨before, _⟩
      · rw [placed.empty moved rfl] at old
        cases old
      · exact known.firing root before waker old
  · cases pushed with
    | fired step called isWaker =>
        obtain ⟨id, registration, found, rfl⟩ :=
          (Timers.processExpired_spec covered called).1 _ isWaker
        exact known.registered id registration found

theorem run_known (reach : machine.Reach Virtual (initial clock os) world) :
    world.Known := by
  induction reach with
  | refl => exact known_initial
  | step label before virtual step ih =>
      exact ⟨fun _ _ => ih.registered_step (stepped_of_step step),
        fun _ phase _ => ih.firing_step (run_placed before) (run_covered before)
          (stepped_of_step step) phase⟩

/-! Each call of `next_ready_id` ends, or blocks with no timer left. -/

/-- The call has returned an id, or blocks with no live registration. -/
def Settled (world : World Output) : Prop :=
  (∃ root, world.executor.phase = .dispatching root) ∨
    (∃ root, world.executor.phase = .waiting root) ∧ world.wait = some none ∧
      ∀ id, world.time.driver.registrations.lookup id = none

def Ticks (_ : World Output) (label : Label Output) : Prop :=
  ∃ reading, label = .tick reading

/-- Every waker that the timers hold only schedules its task: none has a poisoned
mutex, whose `unwrap` panics. -/
def WakersSchedule (world : World Output) : Prop :=
  ∀ schedule, (.fire (.task schedule) ∈ world.stack ∨
      ∃ id registration,
        world.time.driver.registrations.lookup id = some registration ∧
          registration.waker = .task schedule) →
    (world.executor.scheduling.schedules schedule).poisoned = false

def due (world : World Output) : Bool :=
  world.time.driver.registrations.entries.any fun entry =>
    decide (entry.2.deadline ≤ world.now)

/-- How far the thread is in one iteration of the call. -/
def stage (world : World Output) : Nat :=
  match world.executor.phase with
  | .iterating _ => if world.due then 0 else 4
  | .expiring _ => 3 * world.stack.length + 3
  | .receiving _ => 2
  | .waiting _ => if world.wait.isSome then 0 else 1
  | _ => 0

/-- What each step in a call of `next_ready_id` lowers: the live registrations count
most, and a jump of the clock leaves one of them due. -/
def rank (world : World Output) : Nat :=
  8 * world.time.driver.registrations.keys.length +
    (if world.executor.scheduling.own.isSome then 1 else 0) + world.stage

theorem due_iff : world.due = true ↔
    ∃ id registration,
      world.time.driver.registrations.lookup id = some registration ∧
        registration.deadline ≤ world.now := by
  unfold due
  rw [List.any_eq_true]
  constructor
  · rintro ⟨⟨id, registration⟩, member, expired⟩
    exact ⟨id, registration, AList.mem_lookup_iff.mpr member,
      of_decide_eq_true expired⟩
  · rintro ⟨id, registration, found, expired⟩
    exact ⟨⟨id, registration⟩, AList.mem_lookup_iff.mp found,
      decide_eq_true expired⟩

theorem processExpired_keys {timers after : Timers Waker} {now : Instant}
    {wakers : List Waker}
    (called : timers.call (.processExpired now) = some (after, .woken wakers)) :
    after.driver.registrations.keys.length + wakers.length =
      timers.driver.registrations.keys.length := by
  simp only [Timers.call] at called
  split at called
  · cases called
    unfold TimerState.processExpired
    dsimp only
    rw [List.length_map]
    exact TimerState.expireLoop_length now _ _
  · cases called

theorem fires_due (covered : world.time.driver.Covered) {time : Timers Waker}
    {wakers : List Waker}
    (called : world.time.call (.processExpired world.now) =
      some (time, .woken wakers)) (due : world.due = true) : wakers ≠ [] := by
  obtain ⟨id, registration, found, expired⟩ := due_iff.mp due
  simp only [Timers.call] at called
  split at called
  · cases called
    have member := (TimerState.mem_expired covered world.now id registration).mpr
      ⟨found, expired⟩
    exact List.ne_nil_of_mem (List.mem_map.mpr ⟨_, member, rfl⟩)
  · cases called

theorem Exact.due_of_jump (exact : world.Exact)
    (covered : world.time.driver.Covered)
    (step : machine.step world .plan = some next)
    (moved : next.now ≠ world.now) : next.due = true := by
  cases stepped_of_step step with
  | timed origin later =>
      rcases origin with ⟨_, other, _⟩ | ⟨_, _, other⟩ <;> cases other
  | unwound free fails unwinds step => cases fails
  | planned phase wait called running => exact absurd rfl moved
  | jumped phase wait called paused advanced step =>
      obtain ⟨⟨id, live⟩, _⟩ := (exact.ahead_next covered phase called).2
      obtain ⟨registration, present, rfl⟩ := Option.map_eq_some_iff.mp live
      refine due_iff.mpr ⟨id, registration, ?_, ?_⟩
      · dsimp only
        rw [Timers.registrations_of_nextDeadline called]
        exact present
      · exact Nat.le_of_eq (Clock.now_advanceTo advanced world.os).2.symm
  | stuck phase wait called paused failed step => exact absurd rfl moved

theorem jump_removes (exact : world.Exact) (covered : world.time.driver.Covered)
    (step : machine.step world .plan = some next) (moved : next.now ≠ world.now)
    {later : World Output} (drains : machine.step next .drain = some later) :
    later.time.driver.registrations.keys.length <
      next.time.driver.registrations.keys.length := by
  have due := exact.due_of_jump covered step moved
  have after : next.time.driver.Covered := by
    rcases (stepped_of_step step).timers with same | ⟨call, reply, called⟩
    · exact same ▸ covered
    · exact Timers.covered_of_call covered called
  cases stepped_of_step drains with
  | timed origin later =>
      rcases origin with ⟨_, other, _⟩ | ⟨_, _, other⟩ <;> cases other
  | unwound free fails unwinds step => cases fails
  | drained drained called =>
      have counted := processExpired_keys called
      have woken := List.length_pos_of_ne_nil (fires_due after called due)
      dsimp only
      omega

theorem step_send (own : world.executor.scheduling.own.isSome = true) :
    ∃ next, machine.step world (.executor .send) = some next := by
  obtain ⟨schedule, isOwn⟩ := Option.isSome_iff_exists.mp own
  simp [machine, World.step, permits, Executor.step, Executor.andThen,
    Scheduling.step, isOwn]

/-- What the executor's thread does next in a call of `next_ready_id`. -/
def upcoming (world : World Output) : Label Output :=
  if world.executor.scheduling.own.isSome then
    .executor .send
  else
    match world.executor.phase, world.stack with
    | .iterating _, _ => .drain
    | .expiring _, _ :: _ => .proceed
    | .expiring _, [] => .executor .settle
    | .receiving _, _ => .executor .tryRecv
    | _, _ => .plan

theorem goes_on (exact : world.Exact) (known : world.Known)
    (steady : world.executor.Steady) (placed : world.Placed)
    (covered : world.time.driver.Covered) (onTime : world.OnTime)
    (searching : world.executor.phase.searching = true)
    (unsettled : ¬ world.Settled) :
    ∃ next, machine.step world world.upcoming = some next := by
  unfold upcoming
  split
  · rename_i own
    exact step_send own
  · rename_i own
    have free : world.executor.scheduling.own = none :=
      Option.not_isSome_iff_eq_none.mp own
    cases phase : world.executor.phase with
    | iterating root =>
        simp [machine, World.step, drain, Executor.step, phase, Executor.free, free,
          Timers.call, show world.time.clock ≤ world.now from onTime]
    | expiring root =>
        cases stack : world.stack with
        | nil =>
            simp [machine, World.step, permits, stack, Executor.step, phase,
              Executor.free, free]
        | cons frame rest =>
            obtain ⟨waker, rfl, _⟩ := exact.quiet.fires placed searching stack
            have scheduled := exact.quiet.frames (.fire waker)
              (stack ▸ List.mem_cons_self)
            have below := known.firing root phase waker
              (stack ▸ List.mem_cons_self)
            cases waker with
            | custom code => cases scheduled
            | task schedule =>
                have created : schedule < world.executor.scheduling.created :=
                  of_decide_eq_true below
                cases poisoned :
                    (world.executor.scheduling.schedules schedule).poisoned with
                | true =>
                    simp [machine, World.step, Executor.free, free, proceed, stack,
                      invoke, poisoned, unwind, phase, Executor.step]
                | false =>
                    simp [machine, World.step, Executor.free, free, proceed, stack,
                      invoke, poisoned, phase, Executor.step, Phase.runsCode,
                      Executor.andThen, Scheduling.step, created]
    | receiving root =>
        have taken : world.executor.scheduling.taken = none := by
          apply steady.coherent.taken.resolve_left
          rintro ⟨other, dispatching⟩
          cases phase.symm.trans dispatching
        have empty : world.stack = [] := placed (by rw [phase]; rfl)
        cases ready : world.executor.scheduling.ready with
        | nil =>
            simp [machine, World.step, permits, empty, Executor.step, phase,
              Executor.free, free, ready]
        | cons entry rest =>
            simp [machine, World.step, permits, empty, Executor.step, phase,
              Executor.free, free, ready, Executor.andThen, Scheduling.step, taken]
    | waiting root =>
        cases wait : world.wait with
        | some timeout =>
            obtain ⟨rfl, waits, nothing⟩ := exact.blocks timeout wait
            exact absurd (Or.inr ⟨waits, wait, nothing⟩) unsettled
        | none =>
            cases soonest : world.time.driver.nextDeadline.2 with
            | none =>
                simp [machine, World.step, plan, phase, wait, Timers.call, soonest]
            | some deadline =>
                have called : world.time.call .nextDeadline = some
                    ({ world.time with driver := world.time.driver.nextDeadline.1 },
                      .deadline (some deadline)) := by
                  simp [Timers.call, soonest]
                have forward := (exact.ahead_next covered phase called).1
                obtain ⟨clock, advanced⟩ :=
                  Clock.advanceTo_forward exact.paused (Nat.le_of_lt forward)
                simp [machine, World.step, plan, phase, wait, called, exact.paused,
                  advanced, Executor.step]
    | _ =>
        rw [phase] at searching
        cases searching

theorem stage_congr (phase : next.executor.phase = world.executor.phase)
    (due : next.due = world.due) (stack : next.stack = world.stack)
    (wait : next.wait = world.wait) : next.stage = world.stage := by
  unfold stage
  rw [phase, due, stack, wait]

theorem own_of_send {executor after : Executor}
    (moved : executor.step .send = some after) :
    executor.scheduling.own.isSome = true ∧ after.scheduling.own = none ∧
      after.phase = executor.phase := by
  cases Executor.moved_of_step moved with
  | send change =>
      simp only [Scheduling.step] at change
      split at change
      · rename_i schedule own
        cases change
        exact ⟨by rw [own]; rfl, rfl, rfl⟩
      · cases change

/-- Each step of the call lowers the rank, and only a poisoned mutex ends the call
with a panic. -/
theorem rank_step (exact : world.Exact) (steady : world.executor.Steady)
    (placed : world.Placed) (covered : world.time.driver.Covered)
    (searching : world.executor.phase.searching = true)
    (unsettled : ¬ world.Settled) (virtual : world.Virtual label)
    (busy : ¬ world.Ticks label) (step : machine.step world label = some next) :
    next.rank < world.rank ∧
      (next.executor.phase.searching = true ∨
        (∃ root, next.executor.phase = .dispatching root) ∨
        next.executor.phase = .unwinding ∧ ¬ world.WakersSchedule) := by
  have waiting : ∀ {timeout : Option Duration}, world.wait ≠ some timeout := by
    intro timeout wait
    obtain ⟨rfl, waits, nothing⟩ := exact.blocks timeout wait
    exact unsettled (Or.inr ⟨waits, wait, nothing⟩)
  cases exact.quiet.searched placed searching step with
  | ticked => exact absurd ⟨_, rfl⟩ busy
  | remote isRemote moved =>
      obtain ⟨schedule, rfl | rfl⟩ := isRemote <;> cases virtual
  | @sent executor moved =>
      obtain ⟨own, sent, phase⟩ := own_of_send moved
      refine ⟨?_, Or.inl (phase ▸ searching)⟩
      have same : ({ world with executor := executor } : World Output).stage =
          world.stage := stage_congr phase rfl rfl rfl
      simp only [rank, same, own, sent, Option.isSome_none, Bool.false_eq_true,
        if_false, if_true]
      omega
  | @drained root executor time wakers phase moved called =>
      cases Executor.moved_of_step moved with
      | drain _ free =>
          refine ⟨?_, Or.inl rfl⟩
          have counted := processExpired_keys called
          have woken : world.due = true → 0 < wakers.length := fun due =>
            List.length_pos_of_ne_nil (fires_due covered called due)
          simp only [rank, stage, Executor.drainPendingSpawns, free, phase,
            List.length_map, Option.isSome_none, Bool.false_eq_true, if_false]
          split
          · rename_i due
            have some_woken := woken due
            omega
          · omega
  | @fired root schedule rest executor phase free stack unpoisoned moved =>
      cases Executor.moved_of_step moved with
      | wake runs change =>
          refine ⟨?_, Or.inl searching⟩
          simp only [rank, stage, free, phase, stack, List.length_cons,
            Option.isSome_none, Bool.false_eq_true, if_false]
          split <;> omega
  | @panicked root schedule rest left executor phase stack poisoned moved =>
      have unwinding := unwinding_of_panic moved (by rw [phase]; rfl)
      refine ⟨?_, Or.inr (Or.inr ⟨unwinding, ?_⟩)⟩
      · cases Executor.moved_of_step moved with
        | wakerPanicked _ free =>
            simp only [rank, stage, free, phase, stack, List.length_cons,
              Option.isSome_none, Bool.false_eq_true, if_false]
            omega
        | pollPanicked before _ | waitPanicked before _ | leavingPanicked before _
        | clearingPanicked before _ _ | tearingPanicked before _ _
        | droppedPanicked before _ => cases before.symm.trans phase
      · intro schedules
        have sound := schedules schedule (Or.inl (stack ▸ List.mem_cons_self))
        cases sound.symm.trans poisoned
  | settled phase stack moved =>
      cases Executor.moved_of_step moved with
      | settle _ free =>
          refine ⟨?_, Or.inl rfl⟩
          simp only [rank, stage, free, phase, stack, List.length_nil,
            Option.isSome_none, Bool.false_eq_true, if_false]
          omega
  | @tried root executor phase moved =>
      have free := steady.entered.receiving root phase
      cases Executor.moved_of_step moved with
      | foundEmpty _ _ empty =>
          refine ⟨?_, Or.inl rfl⟩
          simp only [rank, stage, free, phase, Option.isSome_none,
            Bool.false_eq_true, if_false]
          split <;> omega
      | tryReceived _ change =>
          refine ⟨?_, Or.inr (Or.inl ⟨_, rfl⟩)⟩
          obtain ⟨entry, rest, _, _, _, rfl⟩ := Scheduling.step_receive change
          simp only [rank, stage, free, phase, Option.isSome_none,
            Bool.false_eq_true, if_false]
          omega
  | planned phase wait called running =>
      refine ⟨?_, Or.inl searching⟩
      simp only [rank, stage, phase, wait, Option.isSome_none, Option.isSome_some,
        Bool.false_eq_true, if_false, if_true,
        Timers.registrations_of_nextDeadline called]
      omega
  | @jumped root time deadline clock executor phase wait called paused advanced
      moved =>
      cases Executor.moved_of_step moved with
      | retry _ =>
          refine ⟨?_, Or.inl rfl⟩
          have same := Timers.registrations_of_nextDeadline called
          have due := exact.due_of_jump covered step (by
            have forward := (exact.ahead_next covered phase called).1
            have arrived := (Clock.now_advanceTo advanced world.os).2
            exact Nat.ne_of_gt (forward.trans_eq arrived.symm))
          have free := (steady.entered.waiting root phase).1
          simp only [rank, stage, phase, wait, same, free, Option.isSome_none,
            Bool.false_eq_true, if_false]
          split
          · omega
          · rename_i undue
            exact absurd due undue
  | stuck phase wait called paused failed moved =>
      have advances := exact.advances covered step
      exact absurd (unwinding_of_panic moved (by rw [phase]; rfl)) advances
  | received waits moved => exact absurd waits waiting
  | timedOut waits moved => exact absurd waits waiting

theorem WakersSchedule.step (schedules : world.WakersSchedule)
    (quiet : world.Quiet) (steady : world.executor.Steady)
    (placed : world.Placed) (covered : world.time.driver.Covered)
    (searching : world.executor.phase.searching = true)
    (step : machine.step world label = some next) : next.WakersSchedule := by
  have kept : ∀ {move : Move} {executor : Executor},
      world.executor.step move = some executor → move ≠ .dispatch →
      ∀ schedule, (world.executor.scheduling.schedules schedule).poisoned = false →
        (executor.scheduling.schedules schedule).poisoned = false := by
    intro move executor moved other schedule sound
    exact (Executor.moved_of_step moved).unpoisoned steady.polling sound
      fun isDispatch => absurd isDispatch other
  intro schedule held
  cases quiet.searched placed searching step with
  | ticked => exact schedules schedule held
  | remote isRemote moved =>
      apply kept moved _ schedule (schedules schedule held)
      obtain ⟨other, rfl | rfl⟩ := isRemote
      · nofun
      · nofun
  | sent moved => exact kept moved nofun schedule (schedules schedule held)
  | drained phase moved called =>
      apply kept moved nofun schedule
      apply schedules schedule
      right
      rcases held with member | ⟨id, registration, found, isTask⟩
      · obtain ⟨waker, fired, same⟩ := List.mem_map.mp member
        cases same
        exact (Timers.processExpired_spec covered called).1 _ fired
      · cases Timers.registered_of_call called found with
        | kept before => exact ⟨id, registration, before, isTask⟩
  | fired phase free stack unpoisoned moved =>
      apply kept moved nofun schedule
      apply schedules schedule
      exact held.imp_left fun member => stack ▸ List.mem_cons_of_mem _ member
  | panicked phase stack poisoned moved =>
      have sound := schedules _ (Or.inl (stack ▸ List.mem_cons_self))
      cases sound.symm.trans poisoned
  | settled phase stack moved =>
      exact kept moved nofun schedule (schedules schedule held)
  | tried phase moved => exact kept moved nofun schedule (schedules schedule held)
  | planned phase wait called running =>
      rw [Timers.registrations_of_nextDeadline called] at held
      exact schedules schedule held
  | jumped phase wait called paused advanced moved =>
      rw [Timers.registrations_of_nextDeadline called] at held
      exact kept moved nofun schedule (schedules schedule held)
  | stuck phase wait called paused failed moved =>
      apply kept moved nofun schedule
      apply schedules schedule
      rcases held with member | registered
      · cases List.mem_singleton.mp member
      · rw [Timers.registrations_of_nextDeadline called] at registered
        exact Or.inr registered
  | received waits moved =>
      exact kept moved nofun schedule (schedules schedule held)
  | timedOut waits moved =>
      exact kept moved nofun schedule (schedules schedule held)

theorem virtual_upcoming (world : World Output) :
    world.Virtual world.upcoming ∧ ¬ world.Ticks world.upcoming := by
  unfold upcoming Ticks
  split
  · exact ⟨rfl, nofun⟩
  · split
    · exact ⟨rfl, nofun⟩
    · exact ⟨rfl, nofun⟩
    · exact ⟨rfl, nofun⟩
    · exact ⟨rfl, nofun⟩
    · exact ⟨rfl, nofun⟩

theorem rank_tick (paused : world.clock.isPaused = true) {reading : Instant}
    (step : machine.step world (.tick reading) = some next) :
    next.executor = world.executor ∧ next.rank = world.rank ∧
      next.stack = world.stack ∧ next.time = world.time := by
  simp only [machine, World.step, Option.ite_none_right_eq_some,
    Option.some.injEq] at step
  obtain ⟨later, rfl⟩ := step
  have same : ({ world with os := reading } : World Output).due = world.due := by
    unfold due now
    rw [Clock.now_paused paused]
  have staged : ({ world with os := reading } : World Output).stage =
      world.stage := stage_congr rfl same rfl rfl
  refine ⟨rfl, ?_, rfl, rfl⟩
  unfold rank
  rw [staged]

/-- However the executor's thread goes on from within `next_ready_id`, the call ends
or blocks, unless a waker with a poisoned mutex panics. -/
theorem settles (paused : clock.isPaused = true)
    (reach : machine.Reach Virtual (initial clock os) world)
    (searching : world.executor.phase.searching = true) (strict : Prop)
    (schedules : strict → world.WakersSchedule) :
    machine.Within Virtual Ticks
      (fun later => later.Settled ∨
        ¬ strict ∧ later.executor.phase = .unwinding)
      world.rank world := by
  apply Machine.within_of_rank (fun world : World Output =>
    machine.Reach Virtual (initial clock os) world ∧
      (strict → world.WakersSchedule) ∧
      (world.executor.phase.searching = true ∨
        (∃ root, world.executor.phase = .dispatching root) ∨
        ¬ strict ∧ world.executor.phase = .unwinding)) rank
  · rintro before label after ⟨reach, schedules, phase⟩ ⟨reading, rfl⟩ step
    have exact := run_exact reach paused
    obtain ⟨executor, rank, stack, time⟩ := rank_tick exact.paused step
    refine ⟨⟨.step (.tick reading) reach rfl step, ?_, executor ▸ phase⟩,
      Nat.le_of_eq rank⟩
    intro isStrict
    unfold WakersSchedule
    rw [stack, time, executor]
    exact schedules isStrict
  · rintro before ⟨reach, schedules, phase⟩
    have exact := run_exact reach paused
    rcases phase with searching | dispatching | unwinding
    · by_cases settled : before.Settled
      · exact Or.inl (Or.inl settled)
      · right
        obtain ⟨virtual, busy⟩ := virtual_upcoming before
        obtain ⟨after, step⟩ := goes_on exact (run_known reach)
          (run_steady reach) (run_placed reach) (run_covered reach)
          (run_onTime reach) searching settled
        refine ⟨⟨before.upcoming, after, virtual, busy, step⟩, ?_⟩
        intro label next virtual busy step
        obtain ⟨lower, stays⟩ := rank_step exact (run_steady reach)
          (run_placed reach) (run_covered reach) searching settled virtual busy step
        refine ⟨⟨.step _ reach virtual step, ?_, ?_⟩, lower⟩
        · exact fun isStrict => (schedules isStrict).step exact.quiet
            (run_steady reach) (run_placed reach) (run_covered reach) searching step
        · rcases stays with inside | returned | ⟨unwinding, broken⟩
          · exact Or.inl inside
          · exact Or.inr (Or.inl returned)
          · exact Or.inr (Or.inr ⟨fun isStrict => broken (schedules isStrict),
              unwinding⟩)
    · exact Or.inl (Or.inl (Or.inl dispatching))
    · exact Or.inl (Or.inr unwinding)
  · exact Nat.le_refl _
  · exact ⟨reach, schedules, Or.inl searching⟩

end World

end Asyncr
