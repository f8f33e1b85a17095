import Vespertine.Memory.KernelHeap

/-!
# Buffers of the kernel

Kernel code allocates buffers whose size is told by a file or by the caller of an operation.  Raw
allocation returns null when no block is free, a vector panics instead, and both panic in the buddy
allocator for a size above its largest block.
-/

namespace Vespertine.Slab

open Allocator DyadicBlock Magazines

/-- `Layout::from_size_align` for the alignment `2 ^ exponent`. -/
def Layout.fromSizeAlign (size exponent : Nat) : Option Layout :=
  if fits : size + 2 ^ exponent ≤ 2 ^ 63 then
    some ⟨size, 2 ^ exponent, ⟨exponent, rfl⟩, fits⟩
  else
    none

/-- Sizes that round up to at most `isize::MAX` are accepted. -/
theorem Layout.fromSizeAlign_cases (size exponent : Nat) :
    (2 ^ 63 < size + 2 ^ exponent ∧ Layout.fromSizeAlign size exponent = none) ∨
      ∃ layout, size + 2 ^ exponent ≤ 2 ^ 63 ∧ Layout.fromSizeAlign size exponent = some layout ∧
        layout.size = size ∧ layout.align = 2 ^ exponent := by
  by_cases fits : size + 2 ^ exponent ≤ 2 ^ 63
  · exact .inr ⟨_, fits, dif_pos fits, rfl, rfl⟩
  · exact .inl ⟨Nat.lt_of_not_le fits, dif_neg fits⟩

/-- The kernel heap and the pages behind it, as a thread on a core finds them. -/
structure KernelMemory (κ : Type) where
  heap : Heap
  pages : PCAllocator κ
  core : κ
  hhdm : Nat

namespace KernelMemory

variable {κ : Type} [DecidableEq κ] {memory : KernelMemory κ}

/-- `alloc::alloc::alloc`. -/
def alloc (memory : KernelMemory κ) (layout : Layout) : Kernel (Nat × KernelMemory κ) := do
  let (ptr, heap, pages) ← kernelAlloc memory.heap memory.pages memory.core memory.hhdm layout
  return (ptr, { memory with heap, pages })

/-- `Vec::with_capacity` for elements of a size and the alignment `2 ^ exponent`. -/
def vecWithCapacity (memory : KernelMemory κ) (capacity size exponent : Nat) :
    Kernel (KernelMemory κ) :=
  if capacity * size = 0 then
    .ok memory
  else
    match Layout.fromSizeAlign (capacity * size) exponent with
    | none => .error .capacityOverflow
    | some layout => do
        let (ptr, memory) ← memory.alloc layout
        if ptr = 0 then .error .outOfMemory else return memory

/-- The page allocator is sound, with the free blocks listed, and physical memory is not mapped at
address zero. -/
structure Sound (memory : KernelMemory κ) (lists : Nat → List Nat) : Prop where
  kept : ∃ managed pfndbLen live held, Allocator.Covers managed pfndbLen ∧
    Magazines.Kept managed pfndbLen memory.pages.pmm lists live memory.pages.magazine held
  mapped : memory.hhdm ≠ 0

/-- There is a block for a layout: up to a page a free object, or a page from the magazine of the
core or a refill of it; above that a free block of pages that is large enough. -/
def HasBlock (memory : KernelMemory κ) (lists : Nat → List Nat) (layout : Layout) : Prop :=
  match sizeClass layout with
  | some index =>
      (memory.heap.caches index).freelistHead.getD 0 ≠ 0 ∨
        0 < (memory.pages.magazine memory.core).count ∨ MAG_CAPACITY / 2 ≤ freeFrames lists
  | none => ∃ block ∈ freeBlocks lists, calcSize layout ≤ NORMAL_PAGE_SIZE <<< block.order

/-- There is a block for a buffer of a size, aligned to `2 ^ exponent`. -/
def HasBuffer (memory : KernelMemory κ) (lists : Nat → List Nat) (size exponent : Nat) : Prop :=
  ∃ layout ∈ Layout.fromSizeAlign size exponent, memory.HasBlock lists layout

/-- The allocation of a layout succeeds. -/
def Allocates (memory : KernelMemory κ) (layout : Layout) : Prop :=
  ∃ ptr after, memory.alloc layout = .ok (ptr, after) ∧ ptr ≠ 0

/-- A power of two of pages fits into another one by their orders. -/
theorem le_shiftLeft_iff {size order found : Nat} (size_eq : NORMAL_PAGE_SIZE <<< order = size) :
    size ≤ NORMAL_PAGE_SIZE <<< found ↔ order ≤ found := by
  have page_pos : 0 < NORMAL_PAGE_SIZE := Nat.two_pow_pos 12
  rw [← size_eq, Nat.shiftLeft_eq, Nat.shiftLeft_eq, Nat.mul_le_mul_left_iff page_pos]
  exact Nat.pow_le_pow_iff_right (by decide)

section Exact

variable {lists : Nat → List Nat} {layout : Layout} {index : Fin 10}

theorem allocates_iff : memory.Allocates layout ↔ ∃ ptr heap pages,
    kernelAlloc memory.heap memory.pages memory.core memory.hhdm layout = .ok (ptr, heap, pages) ∧
      ptr ≠ 0 := by
  rw [Allocates, alloc]
  cases kernelAlloc memory.heap memory.pages memory.core memory.hhdm layout with
  | error problem =>
      refine iff_of_false ?_ ?_
      · rintro ⟨ptr, after, ⟨⟩, -⟩
      · rintro ⟨ptr, heap, pages, ⟨⟩, -⟩
  | ok answer =>
      obtain ⟨ptr, heap, pages⟩ := answer
      constructor
      · rintro ⟨_, after, ⟨⟩, given⟩
        exact ⟨ptr, heap, pages, rfl, given⟩
      · rintro ⟨_, _, _, ⟨⟩, given⟩
        exact ⟨ptr, _, rfl, given⟩

/-- A cache that has a free object gives it. -/
theorem allocates_of_object (class_eq : sizeClass layout = some index)
    (head : (memory.heap.caches index).freelistHead.getD 0 ≠ 0) : memory.Allocates layout := by
  rcases memory.heap.allocate_cases index 0 with ⟨block, -, given, allocate_eq⟩ | ⟨empty, -⟩
  · rw [allocates_iff, kernelAlloc, Heap.requested, class_eq]
    simp only [if_neg head]
    rw [Heap.alloc_small class_eq, allocate_eq]
    exact ⟨_, _, _, rfl, given⟩
  · exact absurd empty head

/-- A cache without a free object takes a page, at an address that is not null. -/
theorem allocates_of_page (class_eq : sizeClass layout = some index)
    (empty : (memory.heap.caches index).freelistHead.getD 0 = 0) (mapped : memory.hhdm ≠ 0) :
    memory.Allocates layout ↔ ∃ answer,
      (memory.pages.magazine memory.core).alloc memory.pages.pmm = .ok answer := by
  rw [allocates_iff, kernelAlloc, Heap.requested, class_eq]
  simp only [if_pos empty]
  rw [allocatePages, if_pos (by decide : NORMAL_PAGE_SIZE ≤ 4096), PCAllocator.alloc]
  cases (memory.pages.magazine memory.core).alloc memory.pages.pmm with
  | error problem =>
      refine iff_of_false ?_ ?_
      · rintro ⟨ptr, heap, pages, ⟨⟩, -⟩
      · rintro ⟨answer, ⟨⟩⟩
  | ok answer =>
      obtain ⟨phys, magazine, pmm⟩ := answer
      refine iff_of_true ?_ ⟨_, rfl⟩
      change ∃ ptr heap pages, (memory.heap.alloc layout (phys + memory.hhdm) >>= _) = _ ∧ _
      rcases memory.heap.allocate_cases index (phys + memory.hhdm) with
        ⟨block, head_eq, given, -⟩ | ⟨-, allocate_eq⟩
      · rw [head_eq] at empty
        exact absurd empty given
      · rw [Heap.alloc_small class_eq, allocate_eq]
        exact ⟨phys + memory.hhdm, _, _, rfl, by omega⟩

/-- A layout above the largest block is not refused but stops the kernel. -/
theorem alloc_eq_error_of_large (large : NORMAL_PAGE_SIZE <<< ORDER_MAX < layout.size) :
    memory.alloc layout = .error .indexOutOfBounds := by
  have above : NORMAL_PAGE_SIZE <<< ORDER_MAX < calcSize layout :=
    large.trans_le ((le_max_left _ _).trans (le_nextPowerOfTwo _))
  have beyond : NORMAL_PAGE_SIZE < calcSize layout := lt_trans (by decide) above
  have order_lt : ¬pagesOrder (sizeNeeded (calcSize layout)) ≤ ORDER_MAX := by
    rw [← le_shiftLeft_iff (large_order beyond).2]
    exact Nat.not_le.mpr above
  rw [alloc, kernelAlloc_large beyond, Allocator.allocOrder, if_pos (Nat.lt_of_not_le order_lt)]
  rfl

/-- A vector above the largest block stops the kernel. -/
theorem vecWithCapacity_eq_error_of_large {capacity size exponent : Nat}
    (large : NORMAL_PAGE_SIZE <<< ORDER_MAX < capacity * size) :
    ∃ panic, memory.vecWithCapacity capacity size exponent = .error panic := by
  rw [vecWithCapacity, if_neg (Nat.ne_zero_of_lt large)]
  rcases Layout.fromSizeAlign_cases (capacity * size) exponent with
    ⟨-, none_eq⟩ | ⟨layout, -, some_eq, size_eq, -⟩
  · exact ⟨_, by rw [none_eq]⟩
  · have alloc_eq := @alloc_eq_error_of_large _ _ memory layout (size_eq ▸ large)
    exact ⟨.indexOutOfBounds, by rw [some_eq]; simp only [alloc_eq]; rfl⟩

/-- An allocation succeeds exactly if there is a block for it. -/
theorem allocates_iff_hasBlock (sound : memory.Sound lists) :
    memory.Allocates layout ↔ memory.HasBlock lists layout := by
  obtain ⟨⟨managed, pfndbLen, live, held, covers, kept⟩, mapped⟩ := sound
  rw [HasBlock]
  cases class_eq : sizeClass layout with
  | some index =>
      by_cases head : (memory.heap.caches index).freelistHead.getD 0 = 0
      · rw [allocates_of_page class_eq head mapped]
        rcases kept.alloc covers memory.core with
          ⟨empty, few, alloc_eq⟩ | ⟨enough, ret, filled, after, _, _, alloc_eq, -⟩
        · rw [alloc_eq]
          refine iff_of_false ?_ (by omega)
          rintro ⟨answer, ⟨⟩⟩
        · exact iff_of_true ⟨_, alloc_eq⟩ (.inr (by omega))
      · exact iff_of_true (allocates_of_object class_eq head) (.inl head)
  | none =>
      have large := sizeClass_eq_none.mp class_eq
      have fits_iff (found : Nat) := @le_shiftLeft_iff _ _ found (large_order large).2
      simp only [fits_iff]
      rw [allocates_iff, kernelAlloc_large large]
      by_cases order_le : pagesOrder (sizeNeeded (calcSize layout)) ≤ ORDER_MAX
      · rcases alloc_sound covers order_le kept.holds kept.len_eq kept.notFree with
          ⟨alloc_eq, small⟩ | ⟨base, after, _, alloc_eq, -⟩
        · rw [alloc_eq]
          refine iff_of_false ?_ ?_
          · rintro ⟨ptr, heap, pages, ⟨⟩, given⟩
            exact given rfl
          · rintro ⟨block, mem, enough⟩
            exact absurd (small block mem) (Nat.not_lt.mpr enough)
        · rcases allocOrder_cases kept.holds.free alloc_eq with
            ⟨⟨⟩, -⟩ | ⟨addr, found, -, le, found_le, listed⟩
          rw [alloc_eq]
          refine iff_of_true ⟨_, _, _, rfl, ?_⟩
            ⟨⟨addr / NORMAL_PAGE_SIZE, found⟩,
              mem_freeBlocks.mpr ⟨found_le, addr, listed, rfl⟩, le⟩
          simp only
          omega
      · rw [Allocator.allocOrder, if_pos (Nat.lt_of_not_le order_le)]
        refine iff_of_false ?_ ?_
        · rintro ⟨ptr, heap, pages, ⟨⟩, -⟩
        · rintro ⟨block, mem, enough⟩
          exact order_le (enough.trans (mem_freeBlocks.mp mem).1)

omit [DecidableEq κ] in
/-- No block is as large as a size above the largest order. -/
theorem not_hasBuffer_of_large {size exponent : Nat}
    (large : NORMAL_PAGE_SIZE <<< ORDER_MAX < size) : ¬memory.HasBuffer lists size exponent := by
  rintro ⟨layout, layout_eq, block⟩
  rcases Layout.fromSizeAlign_cases size exponent with ⟨-, none_eq⟩ | ⟨_, -, some_eq, size_eq, -⟩
  · cases none_eq.symm.trans layout_eq
  cases some_eq.symm.trans layout_eq
  have above : NORMAL_PAGE_SIZE <<< ORDER_MAX < calcSize layout :=
    (size_eq ▸ large).trans_le ((le_max_left _ _).trans (le_nextPowerOfTwo _))
  rw [HasBlock, sizeClass_eq_none.mpr (lt_trans (by decide) above)] at block
  obtain ⟨block, mem, enough⟩ := block
  have bounded : NORMAL_PAGE_SIZE <<< block.order ≤ NORMAL_PAGE_SIZE <<< ORDER_MAX :=
    (le_shiftLeft_iff rfl).mpr (mem_freeBlocks.mp mem).1
  omega

end Exact

/-- A heap whose caches each have a free object, with all pages in use. -/
def objectsOnly : KernelMemory Unit where
  heap := ⟨fun index => ⟨CACHE_SIZES index, some 0xFFFF800000200000⟩, fun _ => 0, []⟩
  pages := ⟨fresh (fun _ => ⟨0, 0⟩) 0, fun _ => .init⟩
  core := ()
  hhdm := 0xFFFF800000000000

theorem sound_objectsOnly : objectsOnly.Sound fun _ => [] where
  kept := by
    refine ⟨∅, 0, [], [], ⟨Set.notMem_empty 0, ?_, ?_⟩, .boot ⟨fresh_freeLists _ 0, ?_, ?_, ?_⟩ rfl⟩
    · exact fun frame mem => absurd mem (Set.notMem_empty frame)
    · exact fun block _ _ covered => absurd (covered _ (covers_base block)) (Set.notMem_empty _)
    · have no_lists : freeBlocks (fun _ => []) = [] := by simp [freeBlocks]
      rw [no_lists]
      exact .of_pairwise .nil (by simp)
    · exact fun block mem => absurd mem List.not_mem_nil
    · exact fun block mem => absurd mem List.not_mem_nil
  mapped := by decide

end KernelMemory
end Vespertine.Slab
