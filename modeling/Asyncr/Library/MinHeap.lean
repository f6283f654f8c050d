import Mathlib.Data.List.Sort
import Mathlib.Data.List.TakeWhile
import Mathlib.Data.Prod.Lex

namespace Library

universe u v

variable {α : Type u} [LinearOrder α]

/-! A priority queue seen through `push`, `peek` and `pop` only.  Equal entries
are indistinguishable, so the ascending list of the entries is the whole
observable state of a binary heap. -/

structure MinHeap (α : Type u) [LinearOrder α] where
  entries : List α
  sorted : entries.Pairwise (· ≤ ·)

namespace MinHeap

def empty : MinHeap α := ⟨[], List.Pairwise.nil⟩

def push (heap : MinHeap α) (entry : α) : MinHeap α :=
  ⟨heap.entries.orderedInsert (· ≤ ·) entry,
    heap.sorted.orderedInsert entry heap.entries⟩

def peek (heap : MinHeap α) : Option α := heap.entries.head?

/-- Pop until the least entry satisfies `keep` or nothing is left. -/
def dropUntil (heap : MinHeap α) (keep : α → Bool) : MinHeap α :=
  ⟨heap.entries.dropWhile (fun entry => !keep entry),
    heap.sorted.sublist (List.dropWhile_sublist _)⟩

@[simp] theorem mem_entries_push {heap : MinHeap α} {entry other : α} :
    other ∈ (heap.push entry).entries ↔ other = entry ∨ other ∈ heap.entries := by
  simp [push]

theorem mem_of_mem_dropUntil {heap : MinHeap α} {keep : α → Bool} {entry : α}
    (member : entry ∈ (heap.dropUntil keep).entries) : entry ∈ heap.entries :=
  (List.dropWhile_sublist _).subset member

theorem mem_dropUntil_of_keep {heap : MinHeap α} {keep : α → Bool} {entry : α}
    (member : entry ∈ heap.entries) (kept : keep entry = true) :
    entry ∈ (heap.dropUntil keep).entries := by
  have split := List.takeWhile_append_dropWhile
    (p := fun entry => !keep entry) (l := heap.entries)
  rw [← split, List.mem_append] at member
  refine member.resolve_left fun early => ?_
  have rejected := List.mem_takeWhile_imp early
  simp [kept] at rejected

/-- The entry found by `dropUntil` is kept and is least among the kept ones. -/
theorem peek_dropUntil {heap : MinHeap α} {keep : α → Bool} {entry : α}
    (found : (heap.dropUntil keep).peek = some entry) :
    keep entry = true ∧ entry ∈ heap.entries ∧
      ∀ other ∈ heap.entries, keep other = true → entry ≤ other := by
  obtain ⟨rest, shape⟩ : ∃ rest, (heap.dropUntil keep).entries = entry :: rest :=
    List.head?_eq_some_iff.mp found
  have member : entry ∈ (heap.dropUntil keep).entries := by simp [shape]
  refine ⟨?_, mem_of_mem_dropUntil member, ?_⟩
  · have head := List.head?_dropWhile_not (fun entry => !keep entry) heap.entries
    have top : (heap.entries.dropWhile fun entry => !keep entry).head? =
        some entry := found
    rw [top] at head
    simpa using head
  · intro other otherMember kept
    have later := mem_dropUntil_of_keep otherMember kept
    rw [shape, List.mem_cons] at later
    rcases later with rfl | later
    · exact le_refl _
    · have ordered := (heap.dropUntil keep).sorted
      rw [shape, List.pairwise_cons] at ordered
      exact ordered.1 other later

theorem peek_dropUntil_eq_none {heap : MinHeap α} {keep : α → Bool}
    (nothing : (heap.dropUntil keep).peek = none) :
    ∀ entry ∈ heap.entries, keep entry = false := by
  intro entry member
  by_contra kept
  have later := mem_dropUntil_of_keep member (Bool.eq_true_of_not_eq_false kept)
  have shape : (heap.dropUntil keep).entries = [] := List.head?_eq_none_iff.mp nothing
  rw [shape] at later
  exact absurd later List.not_mem_nil

end MinHeap

end Library
