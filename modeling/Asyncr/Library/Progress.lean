import Asyncr.Library.Machine

namespace Library

universe u v

namespace Machine

variable {σ : Type u} {ι : Type v} {machine : Machine σ ι}
  {allowed idle : σ → ι → Prop} {goal : σ → Prop} {state : σ}

/-! What a machine comes to, however it runs on. -/

/-- However the machine runs from `state` on, it takes at most `bound` steps besides
idle ones before it is in `goal`, and can take another one until then. -/
def Within (machine : Machine σ ι) (allowed idle : σ → ι → Prop)
    (goal : σ → Prop) : Nat → σ → Prop
  | 0, state => ∀ later, machine.Reach idle state later → goal later
  | bound + 1, state => ∀ later, machine.Reach idle state later →
      goal later ∨
        (∃ input next, allowed later input ∧ ¬ idle later input ∧
          machine.step later input = some next) ∧
        ∀ input next, allowed later input → ¬ idle later input →
          machine.step later input = some next →
          machine.Within allowed idle goal bound next

/-- The same, of a machine that may rest before it is in `goal`, until idle steps make
it go on. -/
def Ends (machine : Machine σ ι) (allowed idle : σ → ι → Prop)
    (goal rests : σ → Prop) : Nat → σ → Prop
  | 0, state => ∀ later, machine.Reach idle state later →
      goal later ∨ rests later ∧ ∀ input, allowed later input → ¬ idle later input →
        machine.step later input = none
  | bound + 1, state => ∀ later, machine.Reach idle state later →
      goal later ∨
        (rests later ∨ ∃ input next, allowed later input ∧ ¬ idle later input ∧
          machine.step later input = some next) ∧
        ∀ input next, allowed later input → ¬ idle later input →
          machine.step later input = some next →
          machine.Ends allowed idle goal rests bound next

/-- A rank that idle steps do not raise and all others lower. -/
theorem ends_of_rank {rests : σ → Prop} (holds : σ → Prop) (rank : σ → Nat)
    (idles : ∀ state input next, holds state → idle state input →
      machine.step state input = some next →
      holds next ∧ rank next ≤ rank state)
    (moves : ∀ state, holds state → goal state ∨
      (rests state ∨ ∃ input next, allowed state input ∧ ¬ idle state input ∧
        machine.step state input = some next) ∧
      ∀ input next, allowed state input → ¬ idle state input →
        machine.step state input = some next →
        holds next ∧ rank next < rank state)
    {bound : Nat} (ranked : rank state ≤ bound) (held : holds state) :
    machine.Ends allowed idle goal rests bound state := by
  have idled : ∀ {state later : σ}, holds state → machine.Reach idle state later →
      holds later ∧ rank later ≤ rank state := by
    intro state later held reach
    induction reach with
    | refl => exact ⟨held, Nat.le_refl _⟩
    | step input _ isIdle stepped ih =>
        obtain ⟨before, bounded⟩ := ih
        obtain ⟨after, lowered⟩ := idles _ input _ before isIdle stepped
        exact ⟨after, Nat.le_trans lowered bounded⟩
  induction bound generalizing state with
  | zero =>
      intro later reach
      obtain ⟨there, bounded⟩ := idled held reach
      refine (moves later there).imp_right ?_
      rintro ⟨enabled, down⟩
      have stuck : ∀ input, allowed later input → ¬ idle later input →
          machine.step later input = none := by
        intro input ok busy
        cases step : machine.step later input with
        | none => rfl
        | some next =>
            have lower := (down input next ok busy step).2
            omega
      refine ⟨enabled.resolve_right ?_, stuck⟩
      rintro ⟨input, next, ok, busy, step⟩
      cases (stuck input ok busy).symm.trans step
  | succ bound ih =>
      intro later reach
      obtain ⟨there, bounded⟩ := idled held reach
      refine (moves later there).imp_right ?_
      rintro ⟨enabled, down⟩
      refine ⟨enabled, ?_⟩
      intro input next ok busy step
      obtain ⟨after, lower⟩ := down input next ok busy step
      apply ih _ after
      omega

theorem Ends.within {bound : Nat}
    (ends : machine.Ends allowed idle goal (fun _ => False) bound state) :
    machine.Within allowed idle goal bound state := by
  induction bound generalizing state with
  | zero =>
      intro later reach
      exact (ends later reach).resolve_right And.left
  | succ bound ih =>
      intro later reach
      refine (ends later reach).imp_right ?_
      rintro ⟨enabled, onward⟩
      refine ⟨enabled.resolve_left id, ?_⟩
      intro input next ok busy step
      exact ih (onward input next ok busy step)

theorem within_of_rank (holds : σ → Prop) (rank : σ → Nat)
    (idles : ∀ state input next, holds state → idle state input →
      machine.step state input = some next →
      holds next ∧ rank next ≤ rank state)
    (moves : ∀ state, holds state → goal state ∨
      (∃ input next, allowed state input ∧ ¬ idle state input ∧
        machine.step state input = some next) ∧
      ∀ input next, allowed state input → ¬ idle state input →
        machine.step state input = some next →
        holds next ∧ rank next < rank state)
    {bound : Nat} (ranked : rank state ≤ bound) (held : holds state) :
    machine.Within allowed idle goal bound state := by
  apply Ends.within
  apply ends_of_rank holds rank idles _ ranked held
  intro state held
  exact (moves state held).imp_right (And.imp_left Or.inr)

end Machine

end Library
