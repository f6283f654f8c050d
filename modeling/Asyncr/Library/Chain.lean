import Mathlib.Data.Fintype.Card
import Mathlib.Data.Set.Finite.Basic
import Mathlib.Logic.Relation

namespace Library

universe u

open Relation

variable {α : Type u} {follows : α → α → Prop} {first : α}

/-! Chains in which nothing has two predecessors. -/

/-- Only a start without a predecessor keeps such a chain from closing, so that it ends
if only finitely many can be reached. -/
theorem chain_ends (finite : {last | ReflTransGen follows first last}.Finite)
    (once : ∀ before other after, follows before after → follows other after →
      before = other)
    (unpreceded : ∀ before, ¬ follows before first) :
    ∃ last, ReflTransGen follows first last ∧ ∀ after, ¬ follows last after := by
  by_contra endless
  have goes_on : ∀ before : {last | ReflTransGen follows first last},
      ∃ after : {last | ReflTransGen follows first last},
        follows before.1 after.1 := by
    rintro ⟨before, reached⟩
    by_contra stops
    apply endless
    refine ⟨before, reached, ?_⟩
    intro after next
    exact stops ⟨⟨after, reached.tail next⟩, next⟩
  choose successor next using goes_on
  have injective : Function.Injective successor := by
    intro before other same
    apply Subtype.ext
    exact once _ _ _ (next before) (same ▸ next other)
  have := finite.to_subtype
  obtain ⟨before, same⟩ :=
    Finite.surjective_of_injective injective ⟨first, ReflTransGen.refl⟩
  apply unpreceded before.1
  have precedes := next before
  rw [same] at precedes
  exact precedes

end Library
