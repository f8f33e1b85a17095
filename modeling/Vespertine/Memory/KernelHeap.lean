import Vespertine.Memory.PCAllocator
import Vespertine.Memory.Slab

/-!
# The kernel heap over the page allocator

`KernelPageProvider` answers the page requests of the slab heap: single pages from the magazine of
the core, larger blocks from the buddy allocator, at the order of the next power of two.  Nothing
between the layout and the free lists bounds this order.
-/

namespace Vespertine.Slab

open Allocator DyadicBlock Magazines

variable {κ : Type} [DecidableEq κ]

/-- `pages.next_power_of_two().trailing_zeros()` for the pages of a size. -/
def pagesOrder (size : Nat) : Nat := trailingZeros (nextPowerOfTwo ((size + 4095) / 4096))

/-- `KernelPageProvider::allocate_pages` on a core; physical memory is mapped at `hhdm`. -/
def allocatePages (memory : PCAllocator κ) (core : κ) (hhdm size : Nat) :
    Kernel (Nat × PCAllocator κ) :=
  if size ≤ 4096 then do
    let (phys, memory) ← memory.alloc core .Normal
    return (phys + hhdm, memory)
  else do
    let (block, memory) ← memory.allocOrder (pagesOrder size)
    match block with
    | some phys => return (phys + hhdm, memory)
    | none => return (0, memory)

/-- The bytes `SlabAllocator::alloc` requests from its provider, unless a cache has an object. -/
def Heap.requested (heap : Heap) (layout : Layout) : Option Nat :=
  match sizeClass layout with
  | some index =>
      if (heap.caches index).freelistHead.getD 0 = 0 then some NORMAL_PAGE_SIZE else none
  | none => some (sizeNeeded (calcSize layout))

/-- `SlabAllocator::alloc` over `KernelPageProvider`. -/
def kernelAlloc (heap : Heap) (memory : PCAllocator κ) (core : κ) (hhdm : Nat) (layout : Layout) :
    Kernel (Nat × Heap × PCAllocator κ) :=
  match heap.requested layout with
  | some size => do
      let (answer, memory) ← allocatePages memory core hhdm size
      let (ptr, _, heap) ← heap.alloc layout answer
      return (ptr, heap, memory)
  | none => do
      let (ptr, _, heap) ← heap.alloc layout 0
      return (ptr, heap, memory)

/-- A layout is answered with null, or with a block for it that was free. -/
def ServesLayout (heap : Heap) (memory : PCAllocator κ) (lists : Nat → List Nat) (core : κ)
    (hhdm : Nat) (layout : Layout) : Prop :=
  ∃ ptr after memory', kernelAlloc heap memory core hhdm layout = .ok (ptr, after, memory') ∧
    (ptr = 0 ∨ ∃ addr order, ptr = addr + hhdm ∧ layout.size ≤ NORMAL_PAGE_SIZE <<< order ∧
      layout.align ∣ addr ∧ ∃ block ∈ freeBlocks lists, ∀ frame,
        (⟨addr / NORMAL_PAGE_SIZE, order⟩ : DyadicBlock).Covers frame → block.Covers frame)

theorem trailingZeros_two_pow {exponent : Nat} (lt : exponent < 64) :
    trailingZeros (2 ^ exponent) = exponent := by
  rw [trailingZeros]
  cases found : (List.range 64).find? fun bit => (2 ^ exponent).testBit bit with
  | none =>
      have unset := List.find?_eq_none.mp found exponent (List.mem_range.mpr lt)
      simp at unset
  | some bit =>
      have set := List.find?_some found
      rw [Nat.testBit_two_pow] at set
      exact (of_decide_eq_true set).symm

/-- The order at which a layout above a page is allocated, and that it is enough. -/
theorem large_order {layout : Layout} (large : NORMAL_PAGE_SIZE < calcSize layout) :
    NORMAL_PAGE_SIZE < sizeNeeded (calcSize layout) ∧
      NORMAL_PAGE_SIZE <<< pagesOrder (sizeNeeded (calcSize layout)) = calcSize layout := by
  obtain ⟨exponent, size_eq⟩ := nextPowerOfTwo_eq_pow (max layout.size layout.align)
  rw [← calcSize] at size_eq
  have page_eq : NORMAL_PAGE_SIZE = 2 ^ 12 := rfl
  have above : 12 < exponent := by
    rw [size_eq, page_eq] at large
    exact (Nat.pow_lt_pow_iff_right (by decide)).mp large
  have below : exponent ≤ 63 := by
    obtain ⟨small, align_eq⟩ := layout.align_pow
    have bound : max layout.size layout.align ≤ 2 ^ 63 := by
      have size_le := layout.size_le
      omega
    have rounded := nextPowerOfTwo_le bound
    rw [← calcSize, size_eq] at rounded
    exact (Nat.pow_le_pow_iff_right (by decide)).mp rounded
  have split : 2 ^ exponent = 2 ^ (exponent - 12) * 4096 := by
    rw [show 4096 = 2 ^ 12 from rfl, ← Nat.pow_add, Nat.sub_add_cancel above.le]
  have needed : sizeNeeded (2 ^ exponent) = 2 ^ exponent := by
    simp only [sizeNeeded, NORMAL_PAGE_SIZE]
    omega
  have pages : (2 ^ exponent + 4095) / 4096 = 2 ^ (exponent - 12) := by omega
  have order_eq : pagesOrder (2 ^ exponent) = exponent - 12 := by
    have next_eq : nextPowerOfTwo (2 ^ (exponent - 12)) = 2 ^ (exponent - 12) :=
      Nat.le_antisymm (nextPowerOfTwo_le (le_refl _)) (le_nextPowerOfTwo _)
    rw [pagesOrder, pages, next_eq, trailingZeros_two_pow (by omega)]
  rw [size_eq, needed, order_eq, Nat.shiftLeft_eq, page_eq, ← Nat.pow_add,
    Nat.add_sub_cancel' above.le]
  exact ⟨(Nat.pow_lt_pow_iff_right (by decide)).mpr above, rfl⟩

/-- A large layout goes to the buddy allocator. -/
theorem kernelAlloc_large {heap : Heap} {memory : PCAllocator κ} {core : κ} {hhdm : Nat}
    {layout : Layout} (large : NORMAL_PAGE_SIZE < calcSize layout) :
    kernelAlloc heap memory core hhdm layout = do
      let (block, pmm) ← memory.pmm.allocOrder (pagesOrder (sizeNeeded (calcSize layout)))
      let ptr := match block with
        | some phys => phys + hhdm
        | none => 0
      return (ptr, heap.allocatePages (sizeNeeded (calcSize layout)) ptr, { memory with pmm }) := by
  obtain ⟨above, -⟩ := large_order large
  have requested_eq : heap.requested layout = some (sizeNeeded (calcSize layout)) := by
    rw [Heap.requested, sizeClass_eq_none.mpr large]
  have alloc_eq (answer : Nat) : heap.alloc layout answer =
      .ok (answer, [.allocatePages (sizeNeeded (calcSize layout)) answer],
        heap.allocatePages (sizeNeeded (calcSize layout)) answer) :=
    if_neg (Nat.not_le.mpr large)
  have not_small : ¬sizeNeeded (calcSize layout) ≤ 4096 := Nat.not_le.mpr above
  rw [kernelAlloc, requested_eq]
  simp only [allocatePages]
  rw [if_neg not_small, PCAllocator.allocOrder]
  cases memory.pmm.allocOrder (pagesOrder (sizeNeeded (calcSize layout))) with
  | error problem => rfl
  | ok found =>
      obtain ⟨block, pmm⟩ := found
      cases block with
      | none =>
          change (heap.alloc layout 0 >>= _) = _
          rw [alloc_eq]
          rfl
      | some phys =>
          change (heap.alloc layout (phys + hhdm) >>= _) = _
          rw [alloc_eq]
          rfl

theorem align_dvd_calcSize (layout : Layout) : layout.align ∣ calcSize layout := by
  obtain ⟨exponent, size_eq⟩ := nextPowerOfTwo_eq_pow (max layout.size layout.align)
  obtain ⟨small, align_eq⟩ := layout.align_pow
  have le : layout.align ≤ calcSize layout := (le_max_right _ _).trans (le_nextPowerOfTwo _)
  rw [← calcSize] at size_eq
  rw [size_eq, align_eq] at le ⊢
  exact Nat.pow_dvd_pow 2 ((Nat.pow_le_pow_iff_right (by decide)).mp le)

theorem order_le_iff {layout : Layout} {order : Nat}
    (order_eq : NORMAL_PAGE_SIZE <<< order = calcSize layout) :
    max layout.size layout.align ≤ NORMAL_PAGE_SIZE <<< ORDER_MAX ↔ order ≤ ORDER_MAX := by
  have power (exponent : Nat) : NORMAL_PAGE_SIZE <<< exponent = 2 ^ (12 + exponent) := by
    rw [Nat.shiftLeft_eq, Nat.pow_add]
    rfl
  rw [power] at order_eq ⊢
  constructor
  · intro fits
    have rounded := nextPowerOfTwo_le fits
    rw [← calcSize, ← order_eq] at rounded
    have exponents := (Nat.pow_le_pow_iff_right (by decide)).mp rounded
    omega
  · intro order_le
    refine (le_nextPowerOfTwo _).trans ?_
    rw [← calcSize, ← order_eq]
    exact Nat.pow_le_pow_right (by decide) (by omega)

/-- Under the buddy invariant, allocation of an order is exact up to the largest one, and the heap
serves a layout above a page up to the size of the largest block; beyond, both panic. -/
theorem allocates_exactly_iff {managed : Set Nat} {memory : PCAllocator κ}
    {live : List DyadicBlock} {lists : Nat → List Nat}
    (invariant : BuddyInvariant managed ⟨memory.pmm, live⟩ lists)
    (inTable : ∀ frame ∈ managed, frame < memory.pmm.pfndbLen) :
    (∀ order, AllocatesExactly memory.pmm lists order ↔ order ≤ ORDER_MAX) ∧
      ∀ heap core hhdm layout, NORMAL_PAGE_SIZE < layout.size →
        (ServesLayout heap memory lists core hhdm layout ↔
          max layout.size layout.align ≤ NORMAL_PAGE_SIZE <<< ORDER_MAX) := by
  have orders := allocatesExactly_iff invariant inTable
  refine ⟨orders, fun heap core hhdm layout size_lt => ?_⟩
  have large : NORMAL_PAGE_SIZE < calcSize layout :=
    size_lt.trans_le ((le_max_left _ _).trans (le_nextPowerOfTwo _))
  obtain ⟨-, order_eq⟩ := large_order large
  set order := pagesOrder (sizeNeeded (calcSize layout))
  rw [ServesLayout, kernelAlloc_large large, order_le_iff order_eq]
  constructor
  · rintro ⟨ptr, after, memory', alloc_eq, -⟩
    by_contra beyond
    rw [Allocator.allocOrder, if_pos (Nat.lt_of_not_le beyond)] at alloc_eq
    cases alloc_eq
  · intro order_le
    obtain ⟨finds, refuses⟩ := (orders order).mpr order_le
    by_cases listed : ∃ block ∈ freeBlocks lists, order ≤ block.order
    · obtain ⟨addr, after, alloc_eq, aligned, within⟩ := finds listed
      rw [alloc_eq]
      refine ⟨_, _, _, rfl, Or.inr ⟨addr, order, rfl, ?_, ?_, within⟩⟩
      · rw [order_eq]
        exact (le_max_left _ _).trans (le_nextPowerOfTwo _)
      · rw [order_eq] at aligned
        exact (align_dvd_calcSize layout).trans aligned
    · have none_fits (block : DyadicBlock) (mem : block ∈ freeBlocks lists) : block.order < order :=
        Nat.lt_of_not_le fun fits => listed ⟨block, mem, fits⟩
      rw [refuses none_fits]
      exact ⟨_, _, _, rfl, Or.inl rfl⟩

theorem sixteenMiB_le : 0x1000000 + 8 ≤ 2 ^ 63 := by
  decide

/-- A layout of 16 MiB. -/
def sixteenMiB : Layout where
  size := 0x1000000
  align := 8
  align_pow := halfPage.align_pow
  size_le := sixteenMiB_le

/-- Two frames are free: order 12 and a layout of 16 MiB are answered with a panic. -/
theorem large_order_panics :
    ∃ pmm lists, init (fun _ => ⟨0, 0⟩) 4 (fun frame => frame == 2 || frame == 3) 4 = .ok pmm ∧
      BuddyInvariant {frame | frame < 4 ∧ (frame == 2 || frame == 3) = true} ⟨pmm, []⟩ lists ∧
      pmm.allocOrder 12 = .error .indexOutOfBounds ∧
      kernelAlloc (System.new fun _ => 0).heap (boot pmm : Magazines.Served Unit).memory () 0
        sixteenMiB = .error .indexOutOfBounds := by
  obtain ⟨pmm, lists, init_eq, holds, -⟩ := init_spec (fun _ => ⟨0, 0⟩) two_frames_covers
  refine ⟨pmm, lists, init_eq, holds.buddyInvariant, rfl, ?_⟩
  have order_eq : pagesOrder (sizeNeeded (calcSize sixteenMiB)) = 12 := by decide +kernel
  rw [kernelAlloc_large (by decide), order_eq]
  rfl

/-- Two frames are free: an allocation of order 1 takes both. -/
theorem allocates_exactly_two_frames :
    ∃ pmm lists, init (fun _ => ⟨0, 0⟩) 4 (fun frame => frame == 2 || frame == 3) 4 = .ok pmm ∧
      BuddyInvariant {frame | frame < 4 ∧ (frame == 2 || frame == 3) = true} ⟨pmm, []⟩ lists ∧
      AllocatesExactly pmm lists 1 ∧ ¬AllocatesExactly pmm lists 12 ∧
      ¬ServesLayout (System.new fun _ => 0).heap (boot pmm : Magazines.Served Unit).memory lists ()
        0 sixteenMiB := by
  obtain ⟨pmm, lists, init_eq, holds, len_eq, -⟩ := init_spec (fun _ => ⟨0, 0⟩) two_frames_covers
  have inTable : ∀ frame ∈ {frame | frame < 4 ∧ (frame == 2 || frame == 3) = true},
      frame < pmm.pfndbLen := len_eq ▸ two_frames_covers.frame_lt
  obtain ⟨orders, layouts⟩ :=
    @allocates_exactly_iff Unit _ _ (boot pmm : Magazines.Served Unit).memory [] lists
      holds.buddyInvariant inTable
  refine ⟨pmm, lists, init_eq, holds.buddyInvariant, (orders 1).mpr (by decide), ?_, ?_⟩
  · exact fun allocates => absurd ((orders 12).mp allocates) (by decide)
  · exact fun serves => absurd ((layouts _ _ _ _ (by decide)).mp serves) (by decide)

end Vespertine.Slab
