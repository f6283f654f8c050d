import Mathlib.Data.List.Count
import Mathlib.Data.List.Perm.Basic
import Asyncr.Library.LazyQueue

namespace Library

namespace LazyQueue

universe u v

/-! What a queue with lazy deletion stores.  Both loops take entries off the front
of a sorted list, so each is a filter. -/

section Sorted

variable {α : Type u}

theorem count_filter_ite [BEq α] [LawfulBEq α] (keep : α → Bool) (entry : α)
    (entries : List α) :
    (entries.filter keep).count entry =
      if keep entry = true then entries.count entry else 0 := by
  split
  · rename_i kept
    exact List.count_filter kept
  · rename_i rejected
    exact List.count_eq_zero.mpr fun member => rejected (List.mem_filter.mp member).2

theorem dropWhile_eq_filter [LinearOrder α] {stop late : α → Bool} {entries : List α}
    (sorted : entries.Pairwise (· ≤ ·))
    (reaches : ∀ entry ∈ entries, late entry = true ↔
      ∃ earlier ∈ entries, earlier ≤ entry ∧ stop earlier = true) :
    entries.dropWhile (fun entry => !stop entry) = entries.filter late := by
  induction entries with
  | nil => rfl
  | cons head rest ih =>
      obtain ⟨below, restSorted⟩ := List.pairwise_cons.mp sorted
      cases stops : stop head with
      | true =>
          have all : ∀ entry ∈ head :: rest, late entry = true := by
            intro entry member
            refine (reaches entry member).mpr ⟨head, List.mem_cons_self, ?_, stops⟩
            rcases List.mem_cons.mp member with rfl | later
            · exact le_refl _
            · exact below entry later
          rw [List.filter_eq_self.mpr all,
            List.dropWhile_cons_of_neg (by simp [stops])]
      | false =>
          have headEarly : ¬ late head = true := by
            intro isLate
            obtain ⟨earlier, member, atMost, earlierStops⟩ :=
              (reaches head List.mem_cons_self).mp isLate
            rcases List.mem_cons.mp member with rfl | later
            · rw [stops] at earlierStops
              cases earlierStops
            · have same := le_antisymm atMost (below earlier later)
              rw [same, stops] at earlierStops
              cases earlierStops
          rw [List.filter_cons_of_neg headEarly,
            List.dropWhile_cons_of_pos (by simp [stops])]
          refine ih restSorted fun entry member => ?_
          refine (reaches entry (List.mem_cons_of_mem _ member)).trans ?_
          constructor
          · rintro ⟨earlier, found, atMost, earlierStops⟩
            refine ⟨earlier, (List.mem_cons.mp found).resolve_left ?_, atMost,
              earlierStops⟩
            rintro rfl
            rw [stops] at earlierStops
            cases earlierStops
          · rintro ⟨earlier, found, passed⟩
            exact ⟨earlier, List.mem_cons_of_mem _ found, passed⟩

end Sorted

variable {κ : Type u} {ι : Type v} [LinearOrder κ] [LinearOrder ι]

/-- The heap holds one entry for each id that is in the queue, and the entries that
were superseded and not passed since. -/
def Stores (entries : List (Entry κ ι)) (live : ι → Option κ)
    (superseded : List (Entry κ ι)) : Prop :=
  ∀ key id, entries.count (toLex (key, id)) =
    (if live id = some key then 1 else 0) + superseded.count (toLex (key, id))

namespace Stores

variable {entries superseded : List (Entry κ ι)} {live : ι → Option κ}
  {heap : MinHeap (Entry κ ι)}

theorem mem_iff (stores : Stores entries live superseded) (entry : Entry κ ι) :
    entry ∈ entries ↔ Current live entry ∨ entry ∈ superseded := by
  have counted := stores (ofLex entry).1 (ofLex entry).2
  change entries.count entry = _ + superseded.count entry at counted
  rw [← List.count_pos_iff, ← List.count_pos_iff, counted]
  unfold Current
  split
  · rename_i current
    simp only [current, true_or, iff_true]
    exact Nat.add_pos_left Nat.one_pos _
  · rename_i other
    simp [other]

theorem push (stores : Stores heap.entries live superseded) {id : ι}
    (absent : live id = none) (key : κ) :
    Stores (heap.push (toLex (key, id))).entries
      (Function.update live id (some key)) superseded := by
  intro otherKey other
  have pushed : (heap.push (toLex (key, id))).entries.count (toLex (otherKey, other)) =
      (toLex (key, id) :: heap.entries).count (toLex (otherKey, other)) :=
    (List.perm_orderedInsert (· ≤ ·) _ _).count_eq _
  rw [pushed, List.count_cons, stores otherKey other]
  by_cases same : other = id
  · subst same
    simp only [absent, Function.update_self, Option.some.injEq, reduceCtorEq, if_false]
    by_cases sameKey : key = otherKey
    · simp [sameKey, Nat.add_comm]
    · simp [sameKey]
  · have different : toLex (key, id) ≠ toLex (otherKey, other) :=
      fun equal => same (congrArg (fun entry => (ofLex entry).2) equal).symm
    rw [Function.update_of_ne same]
    simp [different]

theorem remove (stores : Stores entries live superseded) {id : ι} {key : κ}
    (present : live id = some key) :
    Stores entries (Function.update live id none) (toLex (key, id) :: superseded) := by
  intro otherKey other
  rw [stores otherKey other, List.count_cons]
  by_cases same : other = id
  · subst same
    simp only [present, Function.update_self, Option.some.injEq, reduceCtorEq, if_false]
    by_cases sameKey : key = otherKey
    · simp [sameKey, Nat.add_comm]
    · simp [sameKey]
  · have different : toLex (key, id) ≠ toLex (otherKey, other) :=
      fun equal => same (congrArg (fun entry => (ofLex entry).2) equal).symm
    rw [Function.update_of_ne same]
    simp [different]

theorem move (stores : Stores heap.entries live superseded) {id : ι} {old : κ}
    (present : live id = some old) (key : κ) :
    Stores (heap.push (toLex (key, id))).entries
      (Function.update live id (some key)) (toLex (old, id) :: superseded) := by
  have moved := (stores.remove present).push (Function.update_self id none live) key
  rwa [Function.update_idem] at moved

theorem filter (stores : Stores entries live superseded) {after : ι → Option κ}
    {keep : Entry κ ι → Bool}
    (kept : ∀ id key, after id = some key ↔
      live id = some key ∧ keep (toLex (key, id)) = true) :
    Stores (entries.filter keep) after (superseded.filter keep) := by
  intro key id
  rw [count_filter_ite, count_filter_ite, stores key id]
  by_cases keeps : keep (toLex (key, id)) = true
  · simp [keeps, kept]
  · simp [keeps, kept]

theorem dropUntil (stores : Stores heap.entries live superseded)
    {keep preceded : Entry κ ι → Bool}
    (keeps : ∀ entry, keep entry = true ↔ Current live entry)
    (precedes : ∀ entry, preceded entry = true ↔
      ∃ current, Current live current ∧ current ≤ entry) :
    Stores (heap.dropUntil keep).entries live (superseded.filter preceded) := by
  have passed : (heap.dropUntil keep).entries = heap.entries.filter preceded := by
    refine dropWhile_eq_filter heap.sorted fun entry _ => (precedes entry).trans ?_
    constructor
    · rintro ⟨current, isCurrent, atMost⟩
      exact ⟨current, (stores.mem_iff current).mpr (Or.inl isCurrent), atMost,
        (keeps current).mpr isCurrent⟩
    · rintro ⟨earlier, _, atMost, kept⟩
      exact ⟨earlier, (keeps earlier).mp kept, atMost⟩
  rw [passed]
  refine stores.filter fun id key => ⟨fun present => ⟨present, ?_⟩, And.left⟩
  exact (precedes _).mpr ⟨toLex (key, id), present, le_refl _⟩

end Stores

theorem drain_rest_eq_dropWhile (limit : κ) (entries : List (Entry κ ι))
    (live : ι → Option κ) :
    (drain limit entries live).2 =
      entries.dropWhile fun entry => !decide (limit < (ofLex entry).1) := by
  induction entries generalizing live with
  | nil => rfl
  | cons entry rest ih =>
      unfold drain
      split
      · rename_i late
        rw [List.dropWhile_cons_of_neg (by simpa using late)]
      · rename_i due
        rw [List.dropWhile_cons_of_pos (by simpa using due)]
        split
        · exact ih _
        · exact ih _

theorem drain_rest_eq_filter (limit : κ) {entries : List (Entry κ ι)}
    (sorted : entries.Pairwise (· ≤ ·)) (live : ι → Option κ) :
    (drain limit entries live).2 =
      entries.filter fun entry => decide (limit < (ofLex entry).1) := by
  refine (drain_rest_eq_dropWhile limit entries live).trans ?_
  refine dropWhile_eq_filter sorted fun entry member => ?_
  constructor
  · intro late
    exact ⟨entry, member, le_refl _, late⟩
  · rintro ⟨earlier, _, atMost, late⟩
    have limited : limit < (ofLex earlier).1 := by simpa using late
    simpa using limited.trans_le (Prod.Lex.monotone_fst _ _ atMost)

end LazyQueue

end Library
