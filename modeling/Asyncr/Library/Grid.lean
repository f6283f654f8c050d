import Mathlib.Order.Bounds.Basic
import Mathlib.Tactic.Ring

namespace Library

/-! The points one period apart from a first one, and the first of them after an
arbitrary number. -/

def grid (start period : Nat) : Set Nat :=
  {point | ∃ steps, point = start + steps * period}

/-- The first point of the grid after `now`. -/
def pointAfter (start period now : Nat) : Nat :=
  now + (period - (now - start) % period)

namespace Grid

variable {start period point other now : Nat}

theorem self_mem : start ∈ grid start period := ⟨0, by simp⟩

theorem next_mem (member : point ∈ grid start period) :
    point + period ∈ grid start period := by
  obtain ⟨steps, rfl⟩ := member
  exact ⟨steps + 1, by ring⟩

theorem trans (first : point ∈ grid start period)
    (second : other ∈ grid point period) : other ∈ grid start period := by
  obtain ⟨steps, rfl⟩ := first
  obtain ⟨more, rfl⟩ := second
  exact ⟨steps + more, by ring⟩

theorem mem_of_le (first : point ∈ grid start period)
    (second : other ∈ grid start period) (later : point ≤ other) :
    other ∈ grid point period := by
  obtain ⟨steps, rfl⟩ := first
  obtain ⟨more, rfl⟩ := second
  refine ⟨more - steps, ?_⟩
  by_cases fewer : steps ≤ more
  · obtain ⟨extra, rfl⟩ := Nat.exists_eq_add_of_le fewer
    rw [Nat.add_sub_cancel_left]
    ring
  · have bound : more * period ≤ steps * period :=
      Nat.mul_le_mul_right period (by omega)
    rw [Nat.sub_eq_zero_of_le (by omega), Nat.zero_mul]
    omega

theorem isLeast_next (positive : 0 < period) :
    IsLeast {next | next ∈ grid point period ∧ point < next} (point + period) := by
  refine ⟨⟨next_mem self_mem, by omega⟩, ?_⟩
  rintro next ⟨⟨steps, rfl⟩, later⟩
  have some_step : 1 ≤ steps := by
    by_contra few
    have zero : steps = 0 := by omega
    simp [zero] at later
  have grown : 1 * period ≤ steps * period := Nat.mul_le_mul_right period some_step
  omega

theorem isLeast_pointAfter (positive : 0 < period) (reached : start ≤ now) :
    IsLeast {next | next ∈ grid start period ∧ now < next}
      (pointAfter start period now) := by
  have split := Nat.div_add_mod (now - start) period
  have rest := Nat.mod_lt (now - start) positive
  have whole : period * ((now - start) / period) =
      (now - start) / period * period := Nat.mul_comm _ _
  refine ⟨⟨⟨(now - start) / period + 1, ?_⟩, ?_⟩, ?_⟩
  · rw [pointAfter, Nat.add_mul, Nat.one_mul]
    omega
  · rw [pointAfter]
    omega
  · rintro next ⟨⟨steps, rfl⟩, later⟩
    have passed : (now - start) / period < steps := by
      rw [Nat.div_lt_iff_lt_mul positive]
      omega
    have grown : ((now - start) / period + 1) * period ≤ steps * period :=
      Nat.mul_le_mul_right period passed
    rw [Nat.add_mul, Nat.one_mul] at grown
    rw [pointAfter]
    omega

end Grid

end Library
