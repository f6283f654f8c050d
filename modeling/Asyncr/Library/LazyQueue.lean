import Mathlib.Logic.Function.Basic
import Mathlib.Order.Bounds.Basic
import Asyncr.Library.MinHeap

namespace Library

namespace LazyQueue

universe u v

/-! Lazy deletion.  The heap orders entries `(key, id)`, and `live` gives the
present key of every id that is in the queue.  Removing an id or changing its key
leaves its old entries behind, so an entry counts only if it is current. -/

section Liveness

variable {κ : Type u} {ι : Type v}

abbrev Entry (κ : Type u) (ι : Type v) := κ ×ₗ ι

def Current (live : ι → Option κ) (entry : Entry κ ι) : Prop :=
  live (ofLex entry).2 = some (ofLex entry).1

def Covers (live : ι → Option κ) (entries : List (Entry κ ι)) : Prop :=
  ∀ id key, live id = some key → toLex (key, id) ∈ entries

theorem Covers.current_mem {live : ι → Option κ} {entries : List (Entry κ ι)}
    (covers : Covers live entries) {entry : Entry κ ι}
    (current : Current live entry) : entry ∈ entries :=
  covers (ofLex entry).2 (ofLex entry).1 current

theorem Covers.update_none [DecidableEq ι] {live : ι → Option κ}
    {entries : List (Entry κ ι)} (covers : Covers live entries) (id : ι) :
    Covers (Function.update live id none) entries := by
  intro other key present
  by_cases same : other = id
  · subst same
    simp at present
  · rw [Function.update_of_ne same] at present
    exact covers other key present

theorem current_of_update_none [DecidableEq ι] {live : ι → Option κ} {id : ι}
    {entry : Entry κ ι} (current : Current (Function.update live id none) entry) :
    (ofLex entry).2 ≠ id ∧ Current live entry := by
  unfold Current at current
  by_cases same : (ofLex entry).2 = id
  · rw [same, Function.update_self] at current
    cases current
  · rw [Function.update_of_ne same] at current
    exact ⟨same, current⟩

end Liveness

variable {κ : Type u} {ι : Type v} [LinearOrder κ] [LinearOrder ι]

/-- A new key for an id, whether the id is fresh or moved, needs one push. -/
theorem Covers.update_push {live : ι → Option κ} {heap : MinHeap (Entry κ ι)}
    (covers : Covers live heap.entries) (id : ι) (key : κ) :
    Covers (Function.update live id (some key))
      (heap.push (toLex (key, id))).entries := by
  intro other otherKey present
  rw [MinHeap.mem_entries_push]
  by_cases same : other = id
  · subst same
    rw [Function.update_self, Option.some.injEq] at present
    exact Or.inl (by rw [present])
  · rw [Function.update_of_ne same] at present
    exact Or.inr (covers other otherKey present)

theorem Covers.dropUntil {live : ι → Option κ} {heap : MinHeap (Entry κ ι)}
    {keep : Entry κ ι → Bool} (covers : Covers live heap.entries)
    (keeps : ∀ entry, Current live entry → keep entry = true) :
    Covers live (heap.dropUntil keep).entries := by
  intro id key present
  exact MinHeap.mem_dropUntil_of_keep (covers id key present)
    (keeps (toLex (key, id)) present)

/-- The first entry that survives `dropUntil` carries the least live key. -/
theorem Covers.peek_isLeast {live : ι → Option κ} {heap : MinHeap (Entry κ ι)}
    {keep : Entry κ ι → Bool} (covers : Covers live heap.entries)
    (keeps : ∀ entry, keep entry = true ↔ Current live entry)
    {entry : Entry κ ι} (found : (heap.dropUntil keep).peek = some entry) :
    IsLeast {key | ∃ id, live id = some key} (ofLex entry).1 := by
  obtain ⟨kept, _, least⟩ := MinHeap.peek_dropUntil found
  refine ⟨⟨(ofLex entry).2, (keeps entry).mp kept⟩, ?_⟩
  rintro key ⟨id, present⟩
  have below := least (toLex (key, id)) (covers id key present)
    ((keeps (toLex (key, id))).mpr present)
  exact Prod.Lex.monotone_fst _ _ below

theorem Covers.peek_eq_none {live : ι → Option κ} {heap : MinHeap (Entry κ ι)}
    {keep : Entry κ ι → Bool} (covers : Covers live heap.entries)
    (keeps : ∀ entry, Current live entry → keep entry = true)
    (nothing : (heap.dropUntil keep).peek = none) (id : ι) : live id = none := by
  cases present : live id with
  | none => rfl
  | some key =>
      have kept := keeps (toLex (key, id)) present
      rw [MinHeap.peek_dropUntil_eq_none nothing _ (covers id key present)] at kept
      cases kept

/-! Draining everything that is due. -/

/-- Pop in order while the least key is within `limit`; the first component lists
the popped entries that were current when they were popped. -/
def drain (limit : κ) : List (Entry κ ι) → (ι → Option κ) →
    List (Entry κ ι) × List (Entry κ ι)
  | [], _ => ([], [])
  | entry :: rest, live =>
      if limit < (ofLex entry).1 then
        ([], entry :: rest)
      else if live (ofLex entry).2 = some (ofLex entry).1 then
        let result := drain limit rest (Function.update live (ofLex entry).2 none)
        (entry :: result.1, result.2)
      else
        drain limit rest live

theorem drain_sound (limit : κ) (entries : List (Entry κ ι)) (live : ι → Option κ) :
    ∀ entry ∈ (drain limit entries live).1,
      entry ∈ entries ∧ Current live entry ∧ (ofLex entry).1 ≤ limit := by
  induction entries generalizing live with
  | nil => simp [drain]
  | cons head rest ih =>
      intro entry member
      unfold drain at member
      split at member
      · simp at member
      · rename_i due
        split at member
        · rename_i current
          rcases List.mem_cons.mp member with rfl | later
          · exact ⟨List.mem_cons_self, current, not_lt.mp due⟩
          · obtain ⟨found, kept, within⟩ := ih _ entry later
            exact ⟨List.mem_cons_of_mem _ found, (current_of_update_none kept).2, within⟩
        · obtain ⟨found, kept, within⟩ := ih _ entry member
          exact ⟨List.mem_cons_of_mem _ found, kept, within⟩

/-- The drained entries come out in strictly increasing order, so no id twice. -/
theorem drain_strict (limit : κ) (entries : List (Entry κ ι)) (live : ι → Option κ)
    (sorted : entries.Pairwise (· ≤ ·)) :
    (drain limit entries live).1.Pairwise (· < ·) := by
  induction entries generalizing live with
  | nil => simp [drain]
  | cons head rest ih =>
      obtain ⟨below, restSorted⟩ := List.pairwise_cons.mp sorted
      unfold drain
      split
      · exact List.Pairwise.nil
      · split
        · refine List.pairwise_cons.mpr ⟨?_, ih _ restSorted⟩
          intro entry member
          obtain ⟨found, current, _⟩ := drain_sound limit rest _ entry member
          refine lt_of_le_of_ne (below entry found) ?_
          rintro rfl
          exact (current_of_update_none current).1 rfl
        · exact ih _ restSorted

/-- Everything covered and due is drained. -/
theorem drain_complete (limit : κ) (entries : List (Entry κ ι)) (live : ι → Option κ)
    (sorted : entries.Pairwise (· ≤ ·)) :
    ∀ entry ∈ entries, Current live entry → (ofLex entry).1 ≤ limit →
      entry ∈ (drain limit entries live).1 := by
  induction entries generalizing live with
  | nil => simp
  | cons head rest ih =>
      obtain ⟨below, restSorted⟩ := List.pairwise_cons.mp sorted
      intro entry member current due
      have headDue : ¬ limit < (ofLex head).1 := by
        refine not_lt.mpr (le_trans ?_ due)
        rcases List.mem_cons.mp member with rfl | later
        · exact le_refl _
        · exact Prod.Lex.monotone_fst _ _ (below entry later)
      unfold drain
      rw [if_neg headDue]
      by_cases same : entry = head
      · subst same
        unfold Current at current
        rw [if_pos current]
        exact List.mem_cons_self
      · have later : entry ∈ rest := (List.mem_cons.mp member).resolve_left same
        split
        · rename_i headCurrent
          refine List.mem_cons_of_mem _ (ih _ restSorted entry later ?_ due)
          have other : (ofLex entry).2 ≠ (ofLex head).2 := by
            intro sameId
            unfold Current at current
            rw [sameId, headCurrent, Option.some.injEq] at current
            exact same (ofLex.injective (Prod.ext current.symm sameId))
          unfold Current
          rw [Function.update_of_ne other]
          exact current
        · exact ih _ restSorted entry later current due

theorem drain_rest_complete (limit : κ) (entries : List (Entry κ ι))
    (live : ι → Option κ) :
    ∀ entry ∈ entries, limit < (ofLex entry).1 →
      entry ∈ (drain limit entries live).2 := by
  induction entries generalizing live with
  | nil => simp
  | cons head rest ih =>
      intro entry member late
      unfold drain
      split
      · exact member
      · rename_i due
        have later : entry ∈ rest := by
          refine (List.mem_cons.mp member).resolve_left ?_
          rintro rfl
          exact due late
        split
        · exact ih _ entry later late
        · exact ih _ entry later late

end LazyQueue

end Library
