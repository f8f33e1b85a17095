import Mathlib.Data.Multiset.Basic

/-!
# Priority queues

What is promised of a heap: `peek` shows a greatest item, `pop` takes the one that `peek` shows, and
the items are otherwise kept.  Which of several greatest items is shown is left open.
-/

namespace Vespertine

/-- A priority queue of items that are compared by `cmp`. -/
structure MaxHeap (α : Type) (cmp : α → α → Ordering) where
  Heap : Type
  items : Heap → Multiset α
  push : Heap → α → Heap
  peek : Heap → Option α
  pop : Heap → Option (α × Heap)
  items_push : ∀ heap item, items (push heap item) = item ::ₘ items heap
  peek_eq_none : ∀ heap, peek heap = none → items heap = 0
  peek_mem : ∀ heap item, peek heap = some item → item ∈ items heap
  peek_greatest : ∀ heap item, peek heap = some item →
    ∀ other ∈ items heap, cmp other item ≠ .gt
  pop_eq_none : ∀ heap, peek heap = none → pop heap = none
  pop_eq_some : ∀ heap item, peek heap = some item →
    ∃ rest, pop heap = some (item, rest) ∧ items heap = item ::ₘ items rest

end Vespertine
