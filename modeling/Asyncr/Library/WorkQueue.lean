import Mathlib.Data.List.Nodup
import Mathlib.Logic.Function.Basic
import Asyncr.Library.Machine

namespace Library

universe u

/-! Work that is asked for by key and served first come, first served.  A key that
waits is not added again, and one that is asked for while it is served waits again
after. -/

inductive WorkStatus where
  | resting
  /-- In the queue, or on its way there. -/
  | asked
  | serving (again : Bool)
  | retired
  deriving DecidableEq, Repr

namespace WorkStatus

def ask : WorkStatus → WorkStatus
  | .resting => .asked
  | .serving _ => .serving true
  | .asked => .asked
  | .retired => .retired

/-- A service that has not begun was asked for. -/
def owed : WorkStatus → Bool
  | .asked | .serving true => true
  | .resting | .serving false | .retired => false

def serves : WorkStatus → Bool
  | .serving _ => true
  | .resting | .asked | .retired => false

/-- The end of a service; a key that is done is never served again. -/
def finish (done : Bool) : WorkStatus → WorkStatus
  | .serving again => if done then .retired else if again then .asked else .resting
  | .resting => .resting
  | .asked => .asked
  | .retired => .retired

end WorkStatus

/-- No key is in the queue twice, and only those asked for are in it. -/
structure WorkQueue (κ : Type u) where
  status : κ → WorkStatus
  queue : List κ
  /-- History: the keys whose services have begun, the first one first. -/
  served : List κ
  once : queue.Nodup
  asked : ∀ key ∈ queue, status key = .asked

inductive WorkStep (κ : Type u) where
  | ask (key : κ)
  | enter (key : κ)
  | serve (key : κ)
  | finish (key : κ) (done : Bool)

namespace WorkQueue

variable {κ : Type u} [DecidableEq κ]

def initial : WorkQueue κ where
  status := fun _ => .resting
  queue := []
  served := []
  once := List.nodup_nil
  asked := nofun

def ask (work : WorkQueue κ) (key : κ) : WorkQueue κ where
  status := Function.update work.status key (work.status key).ask
  queue := work.queue
  served := work.served
  once := work.once
  asked := by
    intro other member
    have waits := work.asked other member
    by_cases same : other = key
    · subst same
      rw [Function.update_self, waits]
      rfl
    · rw [Function.update_of_ne same]
      exact waits

def enter (work : WorkQueue κ) (key : κ) (asked : work.status key = .asked)
    (absent : key ∉ work.queue) : WorkQueue κ where
  status := work.status
  queue := work.queue ++ [key]
  served := work.served
  once := List.nodup_append'.mpr
    ⟨work.once, List.nodup_singleton key, List.disjoint_singleton.mpr absent⟩
  asked := by
    intro other member
    rcases List.mem_append.mp member with before | last
    · exact work.asked other before
    · rw [List.mem_singleton.mp last]
      exact asked

def serve (work : WorkQueue κ) (key : κ) (front : work.queue.head? = some key) :
    WorkQueue κ where
  status := Function.update work.status key (.serving false)
  queue := work.queue.tail
  served := work.served ++ [key]
  once := work.once.sublist (List.tail_sublist _)
  asked := by
    obtain ⟨rest, queue⟩ := List.head?_eq_some_iff.mp front
    obtain ⟨absent, _⟩ := List.nodup_cons.mp (queue ▸ work.once)
    intro other member
    rw [queue] at member
    have different : other ≠ key := by
      rintro rfl
      exact absent member
    rw [Function.update_of_ne different]
    exact work.asked other (queue ▸ List.mem_cons_of_mem _ member)

def finish (work : WorkQueue κ) (key : κ) (serves : (work.status key).serves = true)
    (done : Bool) : WorkQueue κ where
  status := Function.update work.status key ((work.status key).finish done)
  queue := work.queue
  served := work.served
  once := work.once
  asked := by
    intro other member
    have waits := work.asked other member
    have different : other ≠ key := by
      rintro rfl
      rw [waits] at serves
      cases serves
    rw [Function.update_of_ne different]
    exact waits

@[simp] theorem status_ask (work : WorkQueue κ) (key : κ) :
    (work.ask key).status = Function.update work.status key (work.status key).ask :=
  rfl

@[simp] theorem status_serve (work : WorkQueue κ) (key : κ)
    (front : work.queue.head? = some key) :
    (work.serve key front).status = Function.update work.status key (.serving false) :=
  rfl

@[simp] theorem status_finish (work : WorkQueue κ) (key : κ)
    (serves : (work.status key).serves = true) (done : Bool) :
    (work.finish key serves done).status =
      Function.update work.status key ((work.status key).finish done) :=
  rfl

def step (work : WorkQueue κ) : WorkStep κ → Option (WorkQueue κ)
  | .ask key => some (work.ask key)
  | .enter key =>
      if entered : work.status key = .asked ∧ key ∉ work.queue then
        some (work.enter key entered.1 entered.2)
      else
        none
  | .serve key =>
      if front : work.queue.head? = some key then
        some (work.serve key front)
      else
        none
  | .finish key done =>
      if serves : (work.status key).serves = true then
        some (work.finish key serves done)
      else
        none

def machine : Machine (WorkQueue κ) (WorkStep κ) := ⟨step⟩

variable {work next : WorkQueue κ}

inductive Stepped (work : WorkQueue κ) : WorkStep κ → WorkQueue κ → Prop
  | asked (key : κ) : Stepped work (.ask key) (work.ask key)
  | entered {key : κ} (asked : work.status key = .asked) (absent : key ∉ work.queue) :
      Stepped work (.enter key) (work.enter key asked absent)
  | served {key : κ} (front : work.queue.head? = some key) :
      Stepped work (.serve key) (work.serve key front)
  | finished {key : κ} (serves : (work.status key).serves = true) (done : Bool) :
      Stepped work (.finish key done) (work.finish key serves done)

theorem step_iff {label : WorkStep κ} :
    machine.step work label = some next ↔ Stepped work label next := by
  change work.step label = some next ↔ _
  constructor
  · intro step
    cases label with
    | ask key =>
        cases step
        exact .asked key
    | enter key =>
        simp only [WorkQueue.step, Option.dite_none_right_eq_some,
          Option.some.injEq] at step
        obtain ⟨⟨asked, absent⟩, rfl⟩ := step
        exact .entered asked absent
    | serve key =>
        simp only [WorkQueue.step, Option.dite_none_right_eq_some,
          Option.some.injEq] at step
        obtain ⟨front, rfl⟩ := step
        exact .served front
    | finish key done =>
        simp only [WorkQueue.step, Option.dite_none_right_eq_some,
          Option.some.injEq] at step
        obtain ⟨serves, rfl⟩ := step
        exact .finished serves done
  · intro stepped
    cases stepped with
    | asked key => rfl
    | entered asked absent => exact dif_pos ⟨asked, absent⟩
    | served front => exact dif_pos front
    | finished serves done => exact dif_pos serves

/-! What holds of every run. -/

variable {allowed : WorkQueue κ → WorkStep κ → Prop} {later : WorkQueue κ}

/-- What is served was in the queue before, or has entered it since, in this order. -/
theorem run_served (reach : machine.Reach allowed work later) :
    ∃ more entered, later.served = work.served ++ more ∧
      work.queue ++ entered = more ++ later.queue := by
  induction reach with
  | refl => exact ⟨[], [], (List.append_nil _).symm, List.append_nil _⟩
  | step label _ _ step ih =>
      obtain ⟨more, entered, served, queued⟩ := ih
      cases step_iff.mp step with
      | asked key => exact ⟨more, entered, served, queued⟩
      | @entered key asked absent =>
          refine ⟨more, entered ++ [key], served, ?_⟩
          rw [← List.append_assoc, queued, List.append_assoc]
          rfl
      | @served key front =>
          obtain ⟨rest, queue⟩ := List.head?_eq_some_iff.mp front
          refine ⟨more ++ [key], entered, ?_, ?_⟩
          · change _ ++ [key] = _
            rw [served, List.append_assoc]
          · change _ = _ ++ List.tail _
            rw [queued, queue, List.append_assoc]
            rfl
      | finished serves done => exact ⟨more, entered, served, queued⟩

/-- Only those in front of a key are served before it, each of them once. -/
theorem waits (reach : machine.Reach allowed work later) {more : List κ}
    (served : later.served = work.served ++ more) {key : κ} (waits : key ∈ work.queue)
    (unserved : key ∉ more) :
    more <+: work.queue.takeWhile (· ≠ key) ∧ more.Nodup := by
  obtain ⟨same, entered, grown, queued⟩ := run_served reach
  rw [served] at grown
  obtain rfl := List.append_cancel_left grown
  have isPrefix : more <+: work.queue := by
    rcases List.append_eq_append_iff.mp queued with
      ⟨rest, extended, _⟩ | ⟨rest, extended, _⟩
    · exact absurd (extended ▸ List.mem_append_left _ waits) unserved
    · exact ⟨rest, extended.symm⟩
  refine ⟨?_, isPrefix.sublist.nodup work.once⟩
  obtain ⟨rest, front⟩ := isPrefix
  have ahead : ∀ other ∈ more, decide (other ≠ key) = true := by
    intro other member
    refine decide_eq_true ?_
    rintro rfl
    exact unserved member
  rw [← front, List.takeWhile_append_of_pos ahead]
  exact List.prefix_append _ _

/-- The key will be served, or is retired. -/
def Due (work : WorkQueue κ) (key : κ) : Prop :=
  (work.status key).owed = true ∨ work.status key = .retired

theorem due_ask (work : WorkQueue κ) (key : κ) : (work.ask key).Due key := by
  rw [Due, status_ask, Function.update_self]
  cases work.status key with
  | retired => exact Or.inr rfl
  | _ => exact Or.inl rfl

theorem Due.ask {key : κ} (due : work.Due key) (other : κ) :
    (work.ask other).Due key := by
  by_cases same : key = other
  · exact same ▸ due_ask work key
  · rw [Due, status_ask, Function.update_of_ne same]
    exact due

theorem Due.finish {key other : κ} (due : work.Due key)
    (serves : (work.status other).serves = true) (done : Bool) :
    (work.finish other serves done).Due key := by
  rw [Due, status_finish]
  by_cases same : key = other
  · subst same
    unfold Due at due
    rw [Function.update_self]
    generalize work.status key = status at due serves
    cases status with
    | serving again =>
        rcases due with owed | retired
        · cases again with
          | false => cases owed
          | true =>
              cases done with
              | true => exact Or.inr rfl
              | false => exact Or.inl rfl
        · cases retired
    | resting | asked | retired => cases serves
  · rw [Function.update_of_ne same]
    exact due

/-- What was asked for stays due until it is served. -/
theorem due_stays (reach : machine.Reach allowed work later) {more : List κ}
    (served : later.served = work.served ++ more) {key : κ} (unserved : key ∉ more)
    (due : work.Due key) : later.Due key := by
  induction reach generalizing more with
  | refl => exact due
  | @step middle finish label reach _ step ih =>
      obtain ⟨before, _, grown, _⟩ := run_served reach
      cases step_iff.mp step with
      | asked other => exact (ih served unserved).ask other
      | entered asked absent => exact ih served unserved
      | @served other front =>
          change middle.served ++ [other] = _ at served
          rw [grown, List.append_assoc] at served
          obtain rfl := List.append_cancel_left served
          have different : key ≠ other := by
            rintro rfl
            exact unserved (by simp)
          rw [Due, status_serve, Function.update_of_ne different]
          exact ih grown fun member => unserved (List.mem_append_left _ member)
      | finished serves done => exact (ih served unserved).finish serves done

end WorkQueue

end Library
