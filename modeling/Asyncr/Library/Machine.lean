namespace Library

universe u v w x

/-! Labelled machines given by one partial step function, their runs, and the two
rules for reasoning about them: invariants and simulations. -/

structure Machine (σ : Type u) (ι : Type v) where
  step : σ → ι → Option σ

namespace Machine

variable {σ : Type u} {ι : Type v}

/-- `Reach allowed start finish`: some run from `start` to `finish` takes only
steps that `allowed` accepts. -/
inductive Reach (machine : Machine σ ι) (allowed : σ → ι → Prop) (start : σ) :
    σ → Prop
  | refl : Reach machine allowed start start
  | step {middle finish : σ} (input : ι) :
      Reach machine allowed start middle → allowed middle input →
      machine.step middle input = some finish →
      Reach machine allowed start finish

/-- No restriction on the steps of a run. -/
def Any : σ → ι → Prop := fun _ _ => True

variable {machine : Machine σ ι} {allowed : σ → ι → Prop} {start finish : σ}

namespace Reach

theorem trans {middle : σ} (first : machine.Reach allowed start middle)
    (second : machine.Reach allowed middle finish) :
    machine.Reach allowed start finish := by
  induction second with
  | refl => exact first
  | step input _ accepted stepped ih => exact .step input ih accepted stepped

theorem single (input : ι) (accepted : allowed start input)
    (stepped : machine.step start input = some finish) :
    machine.Reach allowed start finish :=
  .step input .refl accepted stepped

theorem weaken {weaker : σ → ι → Prop}
    (reach : machine.Reach allowed start finish)
    (implies : ∀ state input, allowed state input → weaker state input) :
    machine.Reach weaker start finish := by
  induction reach with
  | refl => exact .refl
  | step input _ accepted stepped ih =>
      exact .step input ih (implies _ input accepted) stepped

/-- What one accepted step preserves, every run preserves. -/
theorem invariant {holds : σ → Prop}
    (reach : machine.Reach allowed start finish) (initially : holds start)
    (preserved : ∀ state input next, holds state → allowed state input →
      machine.step state input = some next → holds next) : holds finish := by
  induction reach with
  | refl => exact initially
  | step input _ accepted stepped ih =>
      exact preserved _ input _ ih accepted stepped

/-- Every step of the machine is a step, or no step, of another machine seen
through `view`. -/
theorem simulate {τ : Type w} {κ : Type x} {target : Machine τ κ}
    {accepted : τ → κ → Prop} (view : σ → τ)
    (reach : machine.Reach allowed start finish)
    (simulated : ∀ state input next, allowed state input →
      machine.step state input = some next →
      view next = view state ∨
        ∃ label, accepted (view state) label ∧
          target.step (view state) label = some (view next)) :
    target.Reach accepted (view start) (view finish) := by
  induction reach with
  | refl => exact .refl
  | step input _ acceptedInput stepped ih =>
      rcases simulated _ input _ acceptedInput stepped with same | found
      · rw [same]
        exact ih
      · obtain ⟨label, acceptedLabel, moved⟩ := found
        exact .step label ih acceptedLabel moved

end Reach

/-- The run on a list of inputs, as long as `allowed` accepts each of them. -/
def run (machine : Machine σ ι) (allowed : σ → ι → Prop)
    [∀ state input, Decidable (allowed state input)] (state : σ) :
    List ι → Option σ
  | [] => some state
  | input :: rest =>
      if allowed state input then
        (machine.step state input).bind fun next => machine.run allowed next rest
      else
        none

instance : ∀ (state : σ) (input : ι), Decidable (Any state input) :=
  fun _ _ => isTrue trivial

theorem run_cons [∀ state input, Decidable (allowed state input)] {input : ι}
    {rest : List ι} :
    machine.run allowed start (input :: rest) = some finish ↔
      allowed start input ∧ ∃ next, machine.step start input = some next ∧
        machine.run allowed next rest = some finish := by
  simp only [run, Option.ite_none_right_eq_some, Option.bind_eq_some_iff]

theorem run_append [∀ state input, Decidable (allowed state input)]
    (first second : List ι) :
    machine.run allowed start (first ++ second) =
      (machine.run allowed start first).bind fun middle =>
        machine.run allowed middle second := by
  induction first generalizing start with
  | nil => rfl
  | cons input rest ih =>
      simp only [List.cons_append, run]
      split
      · cases machine.step start input with
        | none => rfl
        | some next => exact ih
      · rfl

theorem reach_of_run [∀ state input, Decidable (allowed state input)]
    {inputs : List ι} (ran : machine.run allowed start inputs = some finish) :
    machine.Reach allowed start finish := by
  induction inputs generalizing start with
  | nil =>
      cases ran
      exact .refl
  | cons input rest ih =>
      obtain ⟨accepted, next, stepped, later⟩ := run_cons.mp ran
      have first : machine.Reach allowed start next :=
        Reach.single input accepted stepped
      exact first.trans (ih later)

end Machine

end Library
