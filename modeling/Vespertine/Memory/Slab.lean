import Mathlib.Data.Fin.VecNotation
import Mathlib.Data.List.Pairwise
import Vespertine.Kernel
import Vespertine.Library.FreeStack
import Vespertine.Library.Transition

/-!
# The slab heap

Small objects come from ten caches, one for each power of two from 8 to 4096, and large ones
straight from the page provider.  A cache threads its free list through the free objects
themselves, so the list is only as good as the promise that nobody writes into them.
-/

namespace Vespertine.Slab

/-- A range of addresses. -/
structure Region where
  start : Nat
  size : Nat
deriving DecidableEq, Repr

/-- Two regions have no address in common. -/
def Region.Apart (left right : Region) : Prop :=
  left.start + left.size ≤ right.start ∨ right.start + right.size ≤ left.start

/-- `core::alloc::Layout`: what its constructor checks is part of the type. -/
structure Layout where
  size : Nat
  align : Nat
  align_pow : ∃ exponent, align = 2 ^ exponent
  size_le : size + align ≤ 2 ^ 63
deriving DecidableEq

/-- `usize::next_power_of_two`. -/
def nextPowerOfTwo (value : Nat) : Nat :=
  if value ≤ 1 then 1 else 2 ^ (Nat.log2 (value - 1) + 1)

/-- `CACHE_SIZES`. -/
def CACHE_SIZES : Fin 10 → Nat := ![8, 16, 32, 64, 128, 256, 512, 1024, 2048, 4096]

/-- `calc_size`. -/
def calcSize (layout : Layout) : Nat := nextPowerOfTwo (max layout.size layout.align)

/-- `size.ilog2().saturating_sub(3)`. -/
def cacheIndex (size : Nat) : Nat := Nat.log2 size - 3

/-- The bytes requested from the provider for a large block. -/
def sizeNeeded (size : Nat) : Nat :=
  (size + NORMAL_PAGE_SIZE - 1) / NORMAL_PAGE_SIZE * NORMAL_PAGE_SIZE

/-- `MemCache`. -/
structure MemCache where
  objectSize : Nat
  freelistHead : Option Nat

/-- The ten caches, the words of memory at multiples of 8, and the regions the provider has handed
out and not got back, each with the size it was requested with. -/
structure Heap where
  caches : Fin 10 → MemCache
  memory : Nat → Nat
  regions : List Region

/-- A call to the provider. -/
inductive Call
  | allocatePages (size answer : Nat)
  | freePages (ptr size : Nat)
deriving DecidableEq, Repr

namespace Heap

/-- `PageProvider::allocate_pages`, answered with an address. -/
def allocatePages (heap : Heap) (size answer : Nat) : Heap :=
  { heap with regions := ⟨answer, size⟩ :: heap.regions }

/-- `PageProvider::free_pages`. -/
def freePages (heap : Heap) (ptr size : Nat) : Heap :=
  { heap with regions := heap.regions.erase ⟨ptr, size⟩ }

/-- Store the state of a cache. -/
def setCache (heap : Heap) (index : Fin 10) (cache : MemCache) : Heap :=
  { heap with caches := Function.update heap.caches index cache }

/-- `MemCache::refill`. -/
def refill (heap : Heap) (index : Fin 10) (answer : Nat) : Nat × List Call × Heap :=
  let cache := heap.caches index
  let heap := heap.allocatePages NORMAL_PAGE_SIZE answer
  let virtPageStart := answer
  let numObjects := NORMAL_PAGE_SIZE / cache.objectSize
  let memory := writeAll heap.memory (fun i => virtPageStart + cache.objectSize * i)
    (fun i => if i = numObjects - 1 then 0 else virtPageStart + (i + 1) * cache.objectSize)
    (List.range' 1 (numObjects - 1))
  let freelistHead := if numObjects > 1 then some (virtPageStart + cache.objectSize) else none
  (virtPageStart, [.allocatePages NORMAL_PAGE_SIZE answer],
    { heap with memory := memory }.setCache index { cache with freelistHead := freelistHead })

/-- `MemCache::allocate`. -/
def allocate (heap : Heap) (index : Fin 10) (answer : Nat) : Nat × List Call × Heap :=
  let cache := heap.caches index
  match cache.freelistHead with
  | some block =>
      if block ≠ 0 then
        let next := heap.memory block
        (block, [], heap.setCache index
          { cache with freelistHead := if next = 0 then none else some next })
      else
        heap.refill index answer
  | none => heap.refill index answer

/-- `MemCache::deallocate`. -/
def deallocate (heap : Heap) (index : Fin 10) (ptr : Nat) : Heap :=
  let cache := heap.caches index
  { heap with
      memory := Function.update heap.memory ptr (cache.freelistHead.getD 0) }.setCache index
    { cache with freelistHead := some ptr }

/-- `SlabAllocator::alloc`; `answer` is the provider's, should it be asked. -/
def alloc (heap : Heap) (layout : Layout) (answer : Nat) : Kernel (Nat × List Call × Heap) :=
  let size := calcSize layout
  if size ≤ NORMAL_PAGE_SIZE then
    if inside : cacheIndex size < 10 then
      .ok (heap.allocate ⟨cacheIndex size, inside⟩ answer)
    else
      .error .indexOutOfBounds
  else
    .ok (answer, [.allocatePages (sizeNeeded size) answer],
      heap.allocatePages (sizeNeeded size) answer)

/-- `SlabAllocator::dealloc`. -/
def dealloc (heap : Heap) (ptr : Nat) (layout : Layout) : Kernel (List Call × Heap) :=
  if ptr = 0 then
    .ok ([], heap)
  else
    let size := calcSize layout
    if size ≤ NORMAL_PAGE_SIZE then
      if inside : cacheIndex size < 10 then
        .ok ([], heap.deallocate ⟨cacheIndex size, inside⟩ ptr)
      else
        .error .indexOutOfBounds
    else
      .ok ([.freePages ptr (sizeNeeded size)], heap.freePages ptr (sizeNeeded size))

end Heap

/-! ## Size classes -/

/-- The cache that serves a layout; a large one has none. -/
def sizeClass (layout : Layout) : Option (Fin 10) :=
  if calcSize layout ≤ NORMAL_PAGE_SIZE then some (Fin.ofNat 10 (cacheIndex (calcSize layout)))
  else none

/-- The bytes set aside for a layout. -/
def blockSize (layout : Layout) : Nat :=
  match sizeClass layout with
  | some index => CACHE_SIZES index
  | none => sizeNeeded (calcSize layout)

theorem le_nextPowerOfTwo (value : Nat) : value ≤ nextPowerOfTwo value := by
  rw [nextPowerOfTwo]
  split
  next small => exact small
  next large =>
    have lt : value - 1 < 2 ^ (Nat.log2 (value - 1) + 1) := Nat.lt_log2_self
    omega

/-- The next power of two is the least one. -/
theorem nextPowerOfTwo_le {value exponent : Nat} (le : value ≤ 2 ^ exponent) :
    nextPowerOfTwo value ≤ 2 ^ exponent := by
  rw [nextPowerOfTwo]
  split
  next => exact Nat.one_le_two_pow
  next large =>
    have lt : value - 1 < 2 ^ exponent := by omega
    exact Nat.pow_le_pow_right (by decide) ((Nat.log2_lt (by omega)).mpr lt)

theorem nextPowerOfTwo_eq_pow (value : Nat) : ∃ exponent, nextPowerOfTwo value = 2 ^ exponent := by
  rw [nextPowerOfTwo]
  split
  next => exact ⟨0, rfl⟩
  next => exact ⟨_, rfl⟩

theorem CACHE_SIZES_eq_pow (index : Fin 10) : CACHE_SIZES index = 2 ^ (index.val + 3) := by
  revert index
  decide

theorem CACHE_SIZES_dvd (index : Fin 10) : CACHE_SIZES index ∣ NORMAL_PAGE_SIZE := by
  revert index
  decide

theorem CACHE_SIZES_pos (index : Fin 10) : 0 < CACHE_SIZES index := by
  rw [CACHE_SIZES_eq_pow]
  exact Nat.two_pow_pos _

/-- Exactly the layouts of up to a page are small. -/
theorem calcSize_le_page_iff (layout : Layout) :
    calcSize layout ≤ NORMAL_PAGE_SIZE ↔ max layout.size layout.align ≤ NORMAL_PAGE_SIZE := by
  have page_eq : NORMAL_PAGE_SIZE = 2 ^ 12 := by decide
  rw [page_eq]
  exact ⟨(le_nextPowerOfTwo _).trans, nextPowerOfTwo_le⟩

/-- A small layout has a cache, whose objects are a multiple of its rounded size. -/
theorem cacheIndex_lt {layout : Layout} (small : calcSize layout ≤ NORMAL_PAGE_SIZE) :
    cacheIndex (calcSize layout) < 10 ∧
      calcSize layout ∣ 2 ^ (cacheIndex (calcSize layout) + 3) := by
  obtain ⟨exponent, size_eq⟩ := nextPowerOfTwo_eq_pow (max layout.size layout.align)
  rw [← calcSize] at size_eq
  rw [size_eq] at small ⊢
  have bound : exponent ≤ 12 := (Nat.pow_le_pow_iff_right (by decide)).mp small
  rw [cacheIndex, Nat.log2_two_pow]
  exact ⟨by omega, Nat.pow_dvd_pow 2 (by omega)⟩

/-- What the size class of a layout guarantees. -/
theorem sizeClass_spec {layout : Layout} {index : Fin 10}
    (class_eq : sizeClass layout = some index) :
    calcSize layout ≤ NORMAL_PAGE_SIZE ∧ index.val = cacheIndex (calcSize layout) ∧
      calcSize layout ∣ CACHE_SIZES index := by
  rw [sizeClass] at class_eq
  split at class_eq
  next small =>
    obtain ⟨inside, divides⟩ := cacheIndex_lt small
    cases class_eq
    have val_eq : (Fin.ofNat 10 (cacheIndex (calcSize layout))).val =
        cacheIndex (calcSize layout) :=
      Nat.mod_eq_of_lt inside
    refine ⟨small, val_eq, ?_⟩
    rw [CACHE_SIZES_eq_pow, val_eq]
    exact divides
  next => cases class_eq

theorem sizeClass_eq_none {layout : Layout} :
    sizeClass layout = none ↔ NORMAL_PAGE_SIZE < calcSize layout := by
  rw [sizeClass]
  split
  next small => exact iff_of_false nofun (Nat.not_lt.mpr small)
  next large => exact iff_of_true rfl (Nat.lt_of_not_le large)

theorem le_sizeNeeded (size : Nat) : size ≤ sizeNeeded size := by
  simp only [sizeNeeded, NORMAL_PAGE_SIZE]
  omega

/-- A block is large enough. -/
theorem size_le_blockSize (layout : Layout) : layout.size ≤ blockSize layout := by
  have rounded : layout.size ≤ calcSize layout := (le_max_left _ _).trans (le_nextPowerOfTwo _)
  rw [blockSize]
  split
  next index class_eq =>
    obtain ⟨-, -, divides⟩ := sizeClass_spec class_eq
    exact rounded.trans (Nat.le_of_dvd (CACHE_SIZES_pos index) divides)
  next => exact rounded.trans (le_sizeNeeded _)

theorem blockSize_pos (layout : Layout) : 0 < blockSize layout := by
  rw [blockSize]
  split
  next index class_eq => exact CACHE_SIZES_pos index
  next class_eq =>
    exact (Nat.zero_lt_of_lt (sizeClass_eq_none.mp class_eq)).trans_le (le_sizeNeeded _)

/-- The objects of a cache are aligned for its layouts. -/
theorem align_dvd_CACHE_SIZES {layout : Layout} {index : Fin 10}
    (class_eq : sizeClass layout = some index) : layout.align ∣ CACHE_SIZES index := by
  obtain ⟨-, -, divides⟩ := sizeClass_spec class_eq
  obtain ⟨exponent, size_eq⟩ := nextPowerOfTwo_eq_pow (max layout.size layout.align)
  obtain ⟨small, align_eq⟩ := layout.align_pow
  have le : layout.align ≤ calcSize layout := (le_max_right _ _).trans (le_nextPowerOfTwo _)
  refine Dvd.dvd.trans ?_ divides
  rw [← calcSize] at size_eq
  rw [size_eq, align_eq] at le ⊢
  exact Nat.pow_dvd_pow 2 ((Nat.pow_le_pow_iff_right (by decide)).mp le)

/-! ## Runs of the heap -/

/-- A block handed out to a caller. -/
structure Block where
  ptr : Nat
  layout : Layout
deriving DecidableEq

/-- The addresses set aside for a block. -/
def Block.region (block : Block) : Region := ⟨block.ptr, blockSize block.layout⟩

/-- The heap, the blocks its callers hold, and those they have given back so far. -/
structure System where
  heap : Heap
  live : List Block
  freed : List Block

/-- `SlabAllocator::new`, before the first call. -/
def System.new (memory : Nat → Nat) : System where
  heap :=
    { caches := fun index => ⟨CACHE_SIZES index, none⟩
      memory := memory
      regions := [] }
  live := []
  freed := []

/-- A call of the heap, or a write to a word of memory by anyone else. -/
inductive Event
  | alloc (layout : Layout) (answer : Nat)
  | dealloc (ptr : Nat) (layout : Layout)
  | store (addr value : Nat)

/-- One event, with the calls it makes to the provider. -/
def step (sys : System) : Event → Kernel (List Call × System)
  | .alloc layout answer => do
      let (ptr, calls, heap) ← sys.heap.alloc layout answer
      .ok (calls, { sys with heap := heap, live := ⟨ptr, layout⟩ :: sys.live })
  | .dealloc ptr layout => do
      let (calls, heap) ← sys.heap.dealloc ptr layout
      .ok (calls, ⟨heap, sys.live.erase ⟨ptr, layout⟩, ⟨ptr, layout⟩ :: sys.freed⟩)
  | .store addr value =>
      .ok ([], { sys with
        heap := { sys.heap with memory := Function.update sys.heap.memory addr value } })

/-- A non-null page-aligned region of the address space that the heap does not hold. -/
structure Fresh (heap : Heap) (size answer : Nat) : Prop where
  ne_zero : answer ≠ 0
  aligned : NORMAL_PAGE_SIZE ∣ answer
  fits : answer + size ≤ 2 ^ 64
  apart : ∀ region ∈ heap.regions, region.Apart ⟨answer, size⟩

/-- An address lies in a region. -/
def Region.Holds (region : Region) (addr : Nat) : Prop :=
  region.start ≤ addr ∧ addr < region.start + region.size

/-- The provider returns fresh regions, callers free live blocks only, and nobody writes into the
heap's memory but to a live block. -/
def permitted (sys : System) : Event → Prop
  | .alloc layout answer => ∀ ptr calls heap,
      sys.heap.alloc layout answer = .ok (ptr, calls, heap) →
      ∀ size given, .allocatePages size given ∈ calls → Fresh sys.heap size given
  | .dealloc ptr layout => ⟨ptr, layout⟩ ∈ sys.live
  | .store addr _ => (∃ block ∈ sys.live, block.region.Holds addr) ∨
      ∀ region ∈ sys.heap.regions, ¬ region.Holds addr

/-- The heap with its callers. -/
def machine : Machine System Event Panic where
  step sys event := (step sys event).map Prod.snd
  permitted := permitted

/-! ## Where objects lie -/

/-- A pointer is one of the objects a page was divided into. -/
def Object (slabs : Fin 10 → List Nat) (index : Fin 10) (ptr : Nat) : Prop :=
  ∃ page ∈ slabs index, ∃ number < NORMAL_PAGE_SIZE / CACHE_SIZES index,
    ptr = page + CACHE_SIZES index * number

/-- Pages divided into objects, each for one cache, among the regions the heap holds. -/
structure Carved (regions : List Region) (slabs : Fin 10 → List Nat) : Prop where
  regions_apart : regions.Pairwise Region.Apart
  held : ∀ index, ∀ page ∈ slabs index, ⟨page, NORMAL_PAGE_SIZE⟩ ∈ regions
  aligned : ∀ index, ∀ page ∈ slabs index, page ≠ 0 ∧ NORMAL_PAGE_SIZE ∣ page
  one_class : ∀ left right page, page ∈ slabs left → page ∈ slabs right → left = right

theorem Region.Apart.symm {left right : Region} (apart : left.Apart right) : right.Apart left :=
  Or.symm apart

instance : Std.Symm Region.Apart := ⟨fun _ _ => Region.Apart.symm⟩

/-- Parts of regions that are apart are apart. -/
theorem Region.Apart.mono {left right inner outer : Region} (apart : left.Apart right)
    (inner_le : left.start ≤ inner.start ∧ inner.start + inner.size ≤ left.start + left.size)
    (outer_le : right.start ≤ outer.start ∧
      outer.start + outer.size ≤ right.start + right.size) : inner.Apart outer := by
  rcases apart with before | after
  · exact .inl (by omega)
  · exact .inr (by omega)

/-- Different multiples of a size start regions of that size that are apart. -/
theorem Region.apart_of_dvd {size left right : Nat} (left_dvd : size ∣ left)
    (right_dvd : size ∣ right) (ne : left ≠ right) : Region.Apart ⟨left, size⟩ ⟨right, size⟩ := by
  rcases Nat.lt_or_gt_of_ne ne with lt | gt
  · exact .inl (Nat.add_le_of_le_sub' (Nat.le_of_lt lt)
      (Nat.le_of_dvd (Nat.sub_pos_of_lt lt) (Nat.dvd_sub right_dvd left_dvd)))
  · exact .inr (Nat.add_le_of_le_sub' (Nat.le_of_lt gt)
      (Nat.le_of_dvd (Nat.sub_pos_of_lt gt) (Nat.dvd_sub left_dvd right_dvd)))

namespace Carved

variable {regions : List Region} {slabs : Fin 10 → List Nat} {index other : Fin 10} {ptr : Nat}

/-- Regions the heap holds are the same or apart. -/
theorem apart_of_ne (carved : Carved regions slabs) {left right : Region}
    (left_mem : left ∈ regions) (right_mem : right ∈ regions) (ne : left ≠ right) :
    left.Apart right :=
  carved.regions_apart.forall left_mem right_mem ne

/-- An object lies in its page. -/
theorem object_inside (object : Object slabs index ptr) :
    ∃ page ∈ slabs index, page ≤ ptr ∧ ptr + CACHE_SIZES index ≤ page + NORMAL_PAGE_SIZE := by
  obtain ⟨page, mem, number, lt, rfl⟩ := object
  refine ⟨page, mem, Nat.le_add_right _ _, ?_⟩
  have le : CACHE_SIZES index * (number + 1) ≤ NORMAL_PAGE_SIZE := by
    rw [← Nat.mul_div_cancel' (CACHE_SIZES_dvd index)]
    exact Nat.mul_le_mul_left _ lt
  rw [Nat.mul_succ] at le
  omega

theorem object_ne_zero (carved : Carved regions slabs) (object : Object slabs index ptr) :
    ptr ≠ 0 := by
  obtain ⟨page, mem, le, -⟩ := object_inside object
  have ne := (carved.aligned index page mem).1
  omega

/-- Objects are aligned to their size. -/
theorem object_dvd (carved : Carved regions slabs) (object : Object slabs index ptr) :
    CACHE_SIZES index ∣ ptr := by
  obtain ⟨page, mem, number, -, rfl⟩ := object
  exact Nat.dvd_add ((CACHE_SIZES_dvd index).trans (carved.aligned index page mem).2)
    (Nat.dvd_mul_right _ _)

/-- Different objects are apart. -/
theorem objects_apart (carved : Carved regions slabs) {second : Nat}
    (object : Object slabs index ptr) (object_second : Object slabs other second)
    (ne : ¬ (index = other ∧ ptr = second)) :
    Region.Apart ⟨ptr, CACHE_SIZES index⟩ ⟨second, CACHE_SIZES other⟩ := by
  by_cases same : index = other
  · subst same
    exact Region.apart_of_dvd (carved.object_dvd object) (carved.object_dvd object_second)
      fun ptr_eq => ne ⟨rfl, ptr_eq⟩
  · obtain ⟨left, left_mem, left_le, left_ge⟩ := object_inside object
    obtain ⟨right, right_mem, right_le, right_ge⟩ := object_inside object_second
    have pages_ne : (⟨left, NORMAL_PAGE_SIZE⟩ : Region) ≠ ⟨right, NORMAL_PAGE_SIZE⟩ := by
      intro equal
      obtain ⟨rfl, -⟩ := Region.mk.inj equal
      exact same (carved.one_class index other left left_mem right_mem)
    exact (carved.apart_of_ne (carved.held index left left_mem) (carved.held other right right_mem)
      pages_ne).mono ⟨left_le, left_ge⟩ ⟨right_le, right_ge⟩

/-- An object is apart from every region that is apart from the pages of its cache. -/
theorem object_apart {region : Region} (object : Object slabs index ptr)
    (apart : ∀ page ∈ slabs index, Region.Apart ⟨page, NORMAL_PAGE_SIZE⟩ region) :
    Region.Apart ⟨ptr, CACHE_SIZES index⟩ region := by
  obtain ⟨page, mem, le, ge⟩ := object_inside object
  exact (apart page mem).mono ⟨le, ge⟩ ⟨Nat.le_refl _, Nat.le_refl _⟩

end Carved

/-! ## The invariant -/

/-- `lists` are the free lists and `slabs` the divided pages of the ten caches. -/
structure Holds (sys : System) (slabs lists : Fin 10 → List Nat) : Prop where
  object_size : ∀ index, (sys.heap.caches index).objectSize = CACHE_SIZES index
  carved : Carved sys.heap.regions slabs
  threaded : ∀ index,
    Threaded sys.heap.memory 0 ((sys.heap.caches index).freelistHead.getD 0) (lists index)
  free_object : ∀ index, ∀ ptr ∈ lists index, Object slabs index ptr
  small : ∀ block ∈ sys.live, ∀ index, sizeClass block.layout = some index →
    Object slabs index block.ptr ∧ block.ptr ∉ lists index
  large : ∀ block ∈ sys.live, sizeClass block.layout = none →
    block.region ∈ sys.heap.regions ∧ block.ptr ≠ 0
  live_apart : sys.live.Pairwise fun left right => left.region.Apart right.region
  freed_object : ∀ block ∈ sys.freed, ∀ index, sizeClass block.layout = some index →
    Object slabs index block.ptr

/-- Every state of the heap between two calls. -/
def Sound (sys : System) : Prop := ∃ slabs lists, Holds sys slabs lists

theorem Sound.new (memory : Nat → Nat) : Sound (System.new memory) :=
  ⟨fun _ => [], fun _ => [],
    { object_size := fun _ => rfl
      carved := ⟨List.Pairwise.nil, nofun, nofun, nofun⟩
      threaded := fun _ => Threaded.nil
      free_object := nofun
      small := nofun
      large := nofun
      live_apart := List.Pairwise.nil
      freed_object := nofun }⟩

theorem Block.region_of_small {block : Block} {index : Fin 10}
    (class_eq : sizeClass block.layout = some index) :
    block.region = ⟨block.ptr, CACHE_SIZES index⟩ := by
  rw [Block.region, blockSize, class_eq]

theorem Block.region_of_large {block : Block} (class_eq : sizeClass block.layout = none) :
    block.region = ⟨block.ptr, sizeNeeded (calcSize block.layout)⟩ := by
  rw [Block.region, blockSize, class_eq]

/-- A large block is no page of a cache. -/
theorem Block.page_lt_size {block : Block} (class_eq : sizeClass block.layout = none) :
    NORMAL_PAGE_SIZE < block.region.size := by
  rw [Block.region_of_large class_eq]
  exact (sizeClass_eq_none.mp class_eq).trans_le (le_sizeNeeded _)

/-- Two blocks that are apart start at different addresses. -/
theorem Block.ptr_ne {block other : Block} (apart : block.region.Apart other.region) :
    block.ptr ≠ other.ptr := by
  have block_pos := blockSize_pos block.layout
  have other_pos := blockSize_pos other.layout
  simp only [Region.Apart, Block.region] at apart
  omega

namespace Holds

variable {sys : System} {slabs lists : Fin 10 → List Nat} {index : Fin 10} {ptr : Nat}

/-- An object is apart from every large block. -/
theorem object_apart_large (holds : Holds sys slabs lists) (object : Object slabs index ptr)
    {block : Block} (mem : block ∈ sys.live) (class_eq : sizeClass block.layout = none) :
    Region.Apart ⟨ptr, CACHE_SIZES index⟩ block.region := by
  refine Carved.object_apart object fun page page_mem => ?_
  refine holds.carved.apart_of_ne (holds.carved.held index page page_mem)
    (holds.large block mem class_eq).1 fun same => ?_
  have lt := Block.page_lt_size class_eq
  rw [← same] at lt
  exact Nat.lt_irrefl _ lt

/-- A free object is apart from every live block. -/
theorem free_apart (holds : Holds sys slabs lists) (free : ptr ∈ lists index) {block : Block}
    (mem : block ∈ sys.live) : Region.Apart ⟨ptr, CACHE_SIZES index⟩ block.region := by
  cases class_eq : sizeClass block.layout with
  | none => exact holds.object_apart_large (holds.free_object index ptr free) mem class_eq
  | some other =>
      obtain ⟨object, not_free⟩ := holds.small block mem other class_eq
      rw [Block.region_of_small class_eq]
      refine holds.carved.objects_apart (holds.free_object index ptr free) object ?_
      rintro ⟨rfl, rfl⟩
      exact not_free free

/-- Live blocks lie in regions the heap holds. -/
theorem live_inside (holds : Holds sys slabs lists) {block : Block} (mem : block ∈ sys.live) :
    ∃ region ∈ sys.heap.regions, region.start ≤ block.ptr ∧
      block.ptr + blockSize block.layout ≤ region.start + region.size := by
  cases class_eq : sizeClass block.layout with
  | none => exact ⟨_, (holds.large block mem class_eq).1, Nat.le_refl _, Nat.le_refl _⟩
  | some other =>
      obtain ⟨object, -⟩ := holds.small block mem other class_eq
      obtain ⟨page, page_mem, le, ge⟩ := Carved.object_inside object
      rw [blockSize, class_eq]
      exact ⟨_, holds.carved.held other page page_mem, le, ge⟩

/-- A live block is apart from a fresh region. -/
theorem live_apart_fresh (holds : Holds sys slabs lists) {size answer : Nat}
    (fresh : Fresh sys.heap size answer) {block : Block} (mem : block ∈ sys.live) :
    block.region.Apart ⟨answer, size⟩ := by
  obtain ⟨region, region_mem, le, ge⟩ := holds.live_inside mem
  exact (fresh.apart region region_mem).mono ⟨le, ge⟩ ⟨Nat.le_refl _, Nat.le_refl _⟩

theorem live_ne_zero (holds : Holds sys slabs lists) {block : Block} (mem : block ∈ sys.live) :
    block.ptr ≠ 0 := by
  cases class_eq : sizeClass block.layout with
  | none => exact (holds.large block mem class_eq).2
  | some other =>
      exact holds.carved.object_ne_zero (holds.small block mem other class_eq).1

/-- Writes outside the free objects are not seen by the heap. -/
theorem write (holds : Holds sys slabs lists) {addr : Nat} (value : Nat)
    (outside : ∀ index, addr ∉ lists index) :
    Holds { sys with
      heap := { sys.heap with memory := Function.update sys.heap.memory addr value } }
      slabs lists :=
  { holds with threaded := fun index =>
      (holds.threaded index).update_of_not_mem (outside index) value }

/-- A block that is apart from all live ones, and no longer free, is handed out. -/
theorem handOut (holds : Holds sys slabs lists) (block : Block)
    (small : ∀ index, sizeClass block.layout = some index →
      Object slabs index block.ptr ∧ block.ptr ∉ lists index)
    (large : sizeClass block.layout = none →
      block.region ∈ sys.heap.regions ∧ block.ptr ≠ 0)
    (apart : ∀ other ∈ sys.live, block.region.Apart other.region) :
    Holds { sys with live := block :: sys.live } slabs lists := by
  refine { holds with small := fun other mem => ?_, large := fun other mem => ?_, live_apart := ?_ }
  · rcases List.mem_cons.mp mem with rfl | old
    · exact small
    · exact holds.small other old
  · rcases List.mem_cons.mp mem with rfl | old
    · exact large
    · exact holds.large other old
  · exact List.Pairwise.cons apart holds.live_apart

/-- The caches keep the object sizes they were built with. -/
theorem setCache_objectSize (holds : Holds sys slabs lists) (head : Option Nat) (other : Fin 10) :
    ((sys.heap.setCache index { sys.heap.caches index with freelistHead := head }).caches
      other).objectSize = CACHE_SIZES other := by
  by_cases same : other = index
  · subst same
    simp [Heap.setCache, holds.object_size]
  · simp [Heap.setCache, same, holds.object_size]

/-- The first free object of a cache is unlinked. -/
theorem unlink (holds : Holds sys slabs lists) {block : Nat} {rest : List Nat}
    (list_eq : lists index = block :: rest)
    (below : Threaded sys.heap.memory 0 (sys.heap.memory block) rest) :
    Holds
      { sys with
        heap := sys.heap.setCache index
          { sys.heap.caches index with
            freelistHead :=
              if sys.heap.memory block = 0 then none else some (sys.heap.memory block) } }
      slabs (Function.update lists index rest) := by
  have fewer : ∀ other, ∀ ptr ∈ Function.update lists index rest other, ptr ∈ lists other := by
    intro other ptr ptr_mem
    by_cases same : other = index
    · subst same
      rw [Function.update_self] at ptr_mem
      rw [list_eq]
      exact List.mem_cons_of_mem _ ptr_mem
    · rwa [Function.update_of_ne same] at ptr_mem
  refine { holds with
    object_size := holds.setCache_objectSize _
    threaded := fun other => ?_
    free_object := fun other ptr mem => holds.free_object other ptr (fewer other ptr mem)
    small := fun taken mem other class_eq => ?_ }
  · by_cases same : other = index
    · subst same
      simp only [Heap.setCache, Function.update_self]
      split
      next last => rwa [last] at below
      next more => exact below
    · simpa [Heap.setCache, same] using holds.threaded other
  · obtain ⟨object, not_free⟩ := holds.small taken mem other class_eq
    exact ⟨object, fun free => not_free (fewer other taken.ptr free)⟩

/-- The first free object of a cache is handed out. -/
theorem pop (holds : Holds sys slabs lists) {layout : Layout} {block : Nat}
    (class_eq : sizeClass layout = some index)
    (head_eq : (sys.heap.caches index).freelistHead = some block) (ne : block ≠ 0) :
    ∃ lists, Holds
      { sys with
        heap := sys.heap.setCache index
          { sys.heap.caches index with
            freelistHead :=
              if sys.heap.memory block = 0 then none else some (sys.heap.memory block) }
        live := ⟨block, layout⟩ :: sys.live }
      slabs lists := by
  have threaded := holds.threaded index
  rw [head_eq, Option.getD_some] at threaded
  obtain ⟨rest, list_eq, below⟩ := threaded.exists_cons ne
  have mem : block ∈ lists index := by
    rw [list_eq]
    exact List.mem_cons_self
  refine ⟨_, (holds.unlink list_eq below).handOut ⟨block, layout⟩ (fun other other_eq => ?_)
    (fun none_eq => ?_) fun taken old => ?_⟩
  · obtain rfl : index = other := Option.some.inj (class_eq.symm.trans other_eq)
    have nodup := threaded.nodup
    rw [list_eq, List.nodup_cons] at nodup
    rw [Function.update_self]
    exact ⟨holds.free_object index block mem, nodup.1⟩
  · cases class_eq.symm.trans none_eq
  · rw [Block.region_of_small class_eq]
    exact holds.free_apart mem old

/-- The heap gets a region from the provider. -/
theorem grant (holds : Holds sys slabs lists) {size answer : Nat}
    (fresh : Fresh sys.heap size answer) :
    Holds { sys with heap := sys.heap.allocatePages size answer } slabs lists := by
  refine { holds with
    carved := { holds.carved with
      regions_apart := List.Pairwise.cons (fun region mem => ?_) holds.carved.regions_apart
      held := fun index page mem => List.mem_cons_of_mem _ (holds.carved.held index page mem) }
    large := fun block mem class_eq => ?_ }
  · exact (fresh.apart region mem).symm
  · obtain ⟨held, ne⟩ := holds.large block mem class_eq
    exact ⟨List.mem_cons_of_mem _ held, ne⟩

end Holds

/-! ## Dividing a page -/

section Divide

variable {regions : List Region} {slabs : Fin 10 → List Nat} {index other : Fin 10}
  {answer ptr page : Nat}

/-- The divided pages with one more. -/
def withPage (slabs : Fin 10 → List Nat) (index : Fin 10) (answer : Nat) : Fin 10 → List Nat :=
  Function.update slabs index (answer :: slabs index)

theorem mem_withPage :
    page ∈ withPage slabs index answer other ↔
      other = index ∧ page = answer ∨ page ∈ slabs other := by
  rw [withPage]
  by_cases same : other = index
  · subst same
    simp
  · simp [same]

theorem Object.withPage (object : Object slabs other ptr) :
    Object (withPage slabs index answer) other ptr := by
  obtain ⟨page, mem, rest⟩ := object
  exact ⟨page, mem_withPage.mpr (.inr mem), rest⟩

theorem Carved.withPage (carved : Carved regions slabs)
    (apart : ∀ region ∈ regions, region.Apart ⟨answer, NORMAL_PAGE_SIZE⟩)
    (aligned : answer ≠ 0 ∧ NORMAL_PAGE_SIZE ∣ answer) :
    Carved (⟨answer, NORMAL_PAGE_SIZE⟩ :: regions) (withPage slabs index answer) := by
  have unused : ∀ other, answer ∉ slabs other := by
    intro other mem
    rcases apart _ (carved.held other answer mem) with before | after
    · exact absurd before (by simp [NORMAL_PAGE_SIZE])
    · exact absurd after (by simp [NORMAL_PAGE_SIZE])
  refine ⟨List.Pairwise.cons (fun region mem => (apart region mem).symm) carved.regions_apart,
    fun other page mem => ?_, fun other page mem => ?_, fun left right page in_left in_right => ?_⟩
  · rcases mem_withPage.mp mem with ⟨-, rfl⟩ | old
    · exact List.mem_cons_self
    · exact List.mem_cons_of_mem _ (carved.held other page old)
  · rcases mem_withPage.mp mem with ⟨-, rfl⟩ | old
    · exact aligned
    · exact carved.aligned other page old
  · rcases mem_withPage.mp in_left with ⟨rfl, rfl⟩ | old_left
    · rcases mem_withPage.mp in_right with ⟨rfl, -⟩ | old_right
      · rfl
      · exact absurd old_right (unused right)
    · rcases mem_withPage.mp in_right with ⟨-, rfl⟩ | old_right
      · exact absurd old_left (unused left)
      · exact carved.one_class left right page old_left old_right

/-- The objects of a page but the first. -/
def laterObjects (index : Fin 10) (answer : Nat) : List Nat :=
  (List.range' 1 (NORMAL_PAGE_SIZE / CACHE_SIZES index - 1)).map (answer + CACHE_SIZES index * ·)

theorem mem_laterObjects :
    ptr ∈ laterObjects index answer ↔ ∃ number, 1 ≤ number ∧
      number < NORMAL_PAGE_SIZE / CACHE_SIZES index ∧
        answer + CACHE_SIZES index * number = ptr := by
  simp only [laterObjects, List.mem_map, List.mem_range'_1]
  refine exists_congr fun number => ?_
  constructor
  · rintro ⟨⟨le, lt⟩, eq⟩
    exact ⟨le, by omega, eq⟩
  · rintro ⟨le, lt, eq⟩
    exact ⟨⟨le, by omega⟩, eq⟩

/-- A page has at least one object. -/
theorem objects_pos (index : Fin 10) : 0 < NORMAL_PAGE_SIZE / CACHE_SIZES index :=
  Nat.div_pos (Nat.le_of_dvd (by decide) (CACHE_SIZES_dvd index)) (CACHE_SIZES_pos index)

/-- The memory after `refill` has divided a page. -/
def dividedMemory (memory : Nat → Nat) (index : Fin 10) (answer : Nat) : Nat → Nat :=
  let numObjects := NORMAL_PAGE_SIZE / CACHE_SIZES index
  writeAll memory (fun i => answer + CACHE_SIZES index * i)
    (fun i => if i = numObjects - 1 then 0 else answer + (i + 1) * CACHE_SIZES index)
    (List.range' 1 (numObjects - 1))

theorem dividedMemory_of_not_mem (memory : Nat → Nat)
    (outside : ptr ∉ laterObjects index answer) :
    dividedMemory memory index answer ptr = memory ptr :=
  writeAll_of_not_mem memory fun number mem same =>
    outside (List.mem_map.mpr ⟨number, mem, same⟩)

/-- The later objects of the page are linked in order. -/
theorem divided_threaded (memory : Nat → Nat) (index : Fin 10) {answer : Nat} (ne : answer ≠ 0) :
    Threaded (dividedMemory memory index answer) 0
      ((if NORMAL_PAGE_SIZE / CACHE_SIZES index > 1 then some (answer + CACHE_SIZES index)
        else none).getD 0)
      (laterObjects index answer) := by
  have linked : Threaded (dividedMemory memory index answer) 0
      (if NORMAL_PAGE_SIZE / CACHE_SIZES index - 1 = 0 then 0 else answer + CACHE_SIZES index * 1)
      (laterObjects index answer) := by
    refine Threaded.of_range (answer + CACHE_SIZES index * ·) (fun number le lt => ?_)
      fun number le lt => ?_
    · have mem : number ∈ List.range' 1 (NORMAL_PAGE_SIZE / CACHE_SIZES index - 1) :=
        List.mem_range'_1.mpr ⟨le, lt⟩
      refine (writeAll_of_mem memory mem fun left _ right _ same => ?_).trans ?_
      · exact Nat.eq_of_mul_eq_mul_left (CACHE_SIZES_pos index) (Nat.add_left_cancel same)
      · rw [Nat.mul_comm (number + 1)]
        exact if_congr (by omega) rfl rfl
    · omega
  have count := objects_pos index
  split
  next many =>
    rw [if_neg (by omega), Nat.mul_one] at linked
    exact linked
  next one =>
    rw [if_pos (by omega)] at linked
    exact linked

end Divide

theorem Heap.refill_eq {heap : Heap} {index : Fin 10} (answer : Nat)
    (size_eq : (heap.caches index).objectSize = CACHE_SIZES index) :
    heap.refill index answer = (answer, [.allocatePages NORMAL_PAGE_SIZE answer],
      { caches := Function.update heap.caches index ⟨CACHE_SIZES index,
          if NORMAL_PAGE_SIZE / CACHE_SIZES index > 1 then some (answer + CACHE_SIZES index)
          else none⟩
        memory := dividedMemory heap.memory index answer
        regions := ⟨answer, NORMAL_PAGE_SIZE⟩ :: heap.regions }) := by
  rw [Heap.refill, size_eq]
  rfl

namespace Holds

variable {sys : System} {slabs lists : Fin 10 → List Nat} {index : Fin 10} {answer : Nat}

/-- An object lies outside a fresh page. -/
theorem object_not_mem (holds : Holds sys slabs lists)
    (fresh : Fresh sys.heap NORMAL_PAGE_SIZE answer) {other : Fin 10} {ptr : Nat}
    (object : Object slabs other ptr) : ptr ∉ laterObjects index answer ∧ ptr ≠ answer := by
  have apart : Region.Apart ⟨ptr, CACHE_SIZES other⟩ ⟨answer, NORMAL_PAGE_SIZE⟩ :=
    Carved.object_apart object fun page mem => fresh.apart _ (holds.carved.held other page mem)
  have positive := CACHE_SIZES_pos other
  have page_pos : 0 < NORMAL_PAGE_SIZE := by decide
  simp only [Region.Apart] at apart
  refine ⟨fun mem => ?_, by omega⟩
  obtain ⟨number, -, lt, rfl⟩ := mem_laterObjects.mp mem
  have inside : CACHE_SIZES index * number < NORMAL_PAGE_SIZE :=
    (Nat.lt_div_iff_mul_lt' (CACHE_SIZES_dvd index) number).mp lt
  omega

/-- A page is divided among the free objects of an empty cache. -/
theorem divide (holds : Holds sys slabs lists) (empty : lists index = [])
    (fresh : Fresh sys.heap NORMAL_PAGE_SIZE answer) :
    Holds { sys with heap := (sys.heap.refill index answer).2.2 } (withPage slabs index answer)
      (Function.update lists index (laterObjects index answer)) := by
  rw [Heap.refill_eq answer (holds.object_size index)]
  refine
    { object_size := fun other => ?_
      carved := holds.carved.withPage fresh.apart ⟨fresh.ne_zero, fresh.aligned⟩
      threaded := fun other => ?_
      free_object := fun other ptr mem => ?_
      small := fun block mem other class_eq => ?_
      large := fun block mem class_eq => ?_
      live_apart := holds.live_apart
      freed_object := fun block mem other class_eq =>
        (holds.freed_object block mem other class_eq).withPage }
  · by_cases same : other = index
    · subst same
      simp
    · simp [same, holds.object_size]
  · by_cases same : other = index
    · subst same
      simp only [Function.update_self]
      exact divided_threaded sys.heap.memory other fresh.ne_zero
    · simp only [Function.update_of_ne same]
      refine (holds.threaded other).congr fun ptr mem => ?_
      exact dividedMemory_of_not_mem _
        (holds.object_not_mem fresh (holds.free_object other ptr mem)).1
  · by_cases same : other = index
    · subst same
      rw [Function.update_self] at mem
      obtain ⟨number, -, lt, rfl⟩ := mem_laterObjects.mp mem
      exact ⟨answer, mem_withPage.mpr (.inl ⟨rfl, rfl⟩), number, lt, rfl⟩
    · rw [Function.update_of_ne same] at mem
      exact (holds.free_object other ptr mem).withPage
  · obtain ⟨object, not_free⟩ := holds.small block mem other class_eq
    refine ⟨object.withPage, ?_⟩
    by_cases same : other = index
    · subst same
      rw [Function.update_self]
      exact (holds.object_not_mem fresh object).1
    · rwa [Function.update_of_ne same]
  · obtain ⟨held, ne⟩ := holds.large block mem class_eq
    exact ⟨List.mem_cons_of_mem _ held, ne⟩

/-- The first object of a new page is handed out. -/
theorem refill (holds : Holds sys slabs lists) {layout : Layout}
    (class_eq : sizeClass layout = some index) (empty : lists index = [])
    (fresh : Fresh sys.heap NORMAL_PAGE_SIZE answer) :
    Sound { sys with
      heap := (sys.heap.refill index answer).2.2
      live := ⟨answer, layout⟩ :: sys.live } := by
  refine ⟨_, _, (holds.divide empty fresh).handOut ⟨answer, layout⟩ (fun other other_eq => ?_)
    (fun none_eq => ?_) fun taken old => ?_⟩
  · obtain rfl : index = other := Option.some.inj (class_eq.symm.trans other_eq)
    refine ⟨⟨answer, mem_withPage.mpr (.inl ⟨rfl, rfl⟩), 0, objects_pos index, rfl⟩, ?_⟩
    rw [Function.update_self, mem_laterObjects]
    rintro ⟨number, le, -, same⟩
    exact absurd (Nat.add_eq_left.mp same) (Nat.mul_pos (CACHE_SIZES_pos index) le).ne'
  · cases class_eq.symm.trans none_eq
  · rw [Block.region_of_small class_eq]
    have whole := (holds.live_apart_fresh fresh old).symm
    refine whole.mono ⟨Nat.le_refl _, ?_⟩ ⟨Nat.le_refl _, Nat.le_refl _⟩
    exact Nat.add_le_add_left (Nat.le_of_dvd (by decide) (CACHE_SIZES_dvd index)) _

/-- A fresh region is handed out as a large block. -/
theorem takeLarge (holds : Holds sys slabs lists) {layout : Layout}
    (class_eq : sizeClass layout = none)
    (fresh : Fresh sys.heap (sizeNeeded (calcSize layout)) answer) :
    Sound { sys with
      heap := sys.heap.allocatePages (sizeNeeded (calcSize layout)) answer
      live := ⟨answer, layout⟩ :: sys.live } := by
  have region_eq : Block.region ⟨answer, layout⟩ = ⟨answer, sizeNeeded (calcSize layout)⟩ :=
    Block.region_of_large class_eq
  refine ⟨_, _, (holds.grant fresh).handOut ⟨answer, layout⟩ (fun index some_eq => ?_)
    (fun _ => ?_) fun taken old => ?_⟩
  · cases class_eq.symm.trans some_eq
  · rw [region_eq]
    exact ⟨List.mem_cons_self, fresh.ne_zero⟩
  · rw [region_eq]
    exact (holds.live_apart_fresh fresh old).symm

/-- Blocks that stay live are apart from the one that is freed. -/
theorem apart_of_mem_erase (holds : Holds sys slabs lists) {block other : Block}
    (mem : block ∈ sys.live) (stays : other ∈ sys.live.erase block) :
    block.region.Apart other.region := by
  have apart : (block :: sys.live.erase block).Pairwise fun left right =>
      left.region.Apart right.region :=
    (List.perm_cons_erase mem).pairwise holds.live_apart fun apart => apart.symm
  exact (List.pairwise_cons.mp apart).1 other stays

/-- A live block leaves the hands of its owner. -/
theorem takeBack (holds : Holds sys slabs lists) {block : Block} (mem : block ∈ sys.live) :
    Holds { sys with live := sys.live.erase block, freed := block :: sys.freed } slabs lists := by
  refine { holds with
    small := fun other stays => holds.small other (List.mem_of_mem_erase stays)
    large := fun other stays => holds.large other (List.mem_of_mem_erase stays)
    live_apart := holds.live_apart.sublist List.erase_sublist
    freed_object := fun other gone index class_eq => ?_ }
  rcases List.mem_cons.mp gone with rfl | old
  · exact (holds.small other mem index class_eq).1
  · exact holds.freed_object other old index class_eq

/-- A small block becomes the first free object of its cache. -/
theorem deallocate (holds : Holds sys slabs lists) {block : Block} (mem : block ∈ sys.live)
    (class_eq : sizeClass block.layout = some index) :
    Sound ⟨sys.heap.deallocate index block.ptr, sys.live.erase block, block :: sys.freed⟩ := by
  obtain ⟨object, not_free⟩ := holds.small block mem index class_eq
  have taken := holds.takeBack mem
  have others : ∀ other, other ≠ index → block.ptr ∉ lists other := by
    intro other ne free
    have apart := holds.free_apart free mem
    have positive := blockSize_pos block.layout
    have free_pos := CACHE_SIZES_pos other
    simp only [Region.Apart, Block.region] at apart
    omega
  refine ⟨slabs, Function.update lists index (block.ptr :: lists index), { taken with
    object_size := taken.setCache_objectSize _
    threaded := fun other => ?_
    free_object := fun other ptr free => ?_
    small := fun taken_block stays other other_eq => ?_ }⟩
  · by_cases same : other = index
    · subst same
      simp only [Heap.deallocate, Heap.setCache, Function.update_self, Option.getD_some]
      exact (holds.threaded other).push not_free (holds.live_ne_zero mem)
    · simp only [Heap.deallocate, Heap.setCache, Function.update_of_ne same]
      exact (holds.threaded other).update_of_not_mem (others other same) _
  · by_cases same : other = index
    · subst same
      rw [Function.update_self] at free
      rcases List.mem_cons.mp free with rfl | old
      · exact object
      · exact holds.free_object other ptr old
    · rw [Function.update_of_ne same] at free
      exact holds.free_object other ptr free
  · obtain ⟨taken_object, taken_not_free⟩ := taken.small taken_block stays other other_eq
    refine ⟨taken_object, ?_⟩
    by_cases same : other = index
    · subst same
      rw [Function.update_self, List.mem_cons, not_or]
      exact ⟨(Block.ptr_ne (holds.apart_of_mem_erase mem stays)).symm, taken_not_free⟩
    · rwa [Function.update_of_ne same]

/-- A large block goes back to the provider. -/
theorem giveBack (holds : Holds sys slabs lists) {block : Block} (mem : block ∈ sys.live)
    (class_eq : sizeClass block.layout = none) :
    Sound ⟨sys.heap.freePages block.ptr (sizeNeeded (calcSize block.layout)),
      sys.live.erase block, block :: sys.freed⟩ := by
  have taken := holds.takeBack mem
  have region_eq := Block.region_of_large class_eq
  have page_lt := Block.page_lt_size class_eq
  rw [Heap.freePages, ← region_eq]
  refine ⟨slabs, lists, { taken with
    carved := { taken.carved with
      regions_apart := holds.carved.regions_apart.sublist List.erase_sublist
      held := fun index page page_mem => ?_ }
    large := fun other stays other_eq => ?_ }⟩
  · refine (List.mem_erase_of_ne fun same => ?_).mpr (holds.carved.held index page page_mem)
    rw [← same] at page_lt
    exact Nat.lt_irrefl _ page_lt
  · obtain ⟨held, ne⟩ := taken.large other stays other_eq
    refine ⟨(List.mem_erase_of_ne fun same => ?_).mpr held, ne⟩
    exact Block.ptr_ne (holds.apart_of_mem_erase mem stays) (congrArg Region.start same).symm

/-- A word that callers or strangers may write is in no free list. -/
theorem writable_not_free (holds : Holds sys slabs lists) {addr value : Nat}
    (allowed : permitted sys (.store addr value)) (index : Fin 10) : addr ∉ lists index := by
  intro free
  have positive := CACHE_SIZES_pos index
  rcases allowed with ⟨block, mem, lower, upper⟩ | outside
  · rcases holds.free_apart free mem with before | after
    · exact absurd (before.trans lower) (by simp only; omega)
    · exact absurd (upper.trans_le after) (Nat.lt_irrefl _)
  · obtain ⟨page, mem, le, ge⟩ := Carved.object_inside (holds.free_object index addr free)
    exact outside _ (holds.carved.held index page mem) ⟨le, by simp only; omega⟩

end Holds

/-! ## Steps and runs -/

namespace Heap

variable {heap : Heap} {layout : Layout} {index : Fin 10} {ptr : Nat}

/-- A small layout has a cache: `caches[idx]` is never out of bounds. -/
theorem alloc_small (class_eq : sizeClass layout = some index) (answer : Nat) :
    heap.alloc layout answer = .ok (heap.allocate index answer) := by
  obtain ⟨small, index_eq, -⟩ := sizeClass_spec class_eq
  rw [alloc, if_pos small, dif_pos (index_eq ▸ index.isLt)]
  exact congrArg (fun index => Except.ok (heap.allocate index answer)) (Fin.ext index_eq.symm)

theorem alloc_large (class_eq : sizeClass layout = none) (answer : Nat) :
    heap.alloc layout answer =
      .ok (answer, [.allocatePages (sizeNeeded (calcSize layout)) answer],
        heap.allocatePages (sizeNeeded (calcSize layout)) answer) := by
  rw [alloc, if_neg (Nat.not_le.mpr (sizeClass_eq_none.mp class_eq))]

theorem dealloc_small (class_eq : sizeClass layout = some index) (ne : ptr ≠ 0) :
    heap.dealloc ptr layout = .ok ([], heap.deallocate index ptr) := by
  obtain ⟨small, index_eq, -⟩ := sizeClass_spec class_eq
  rw [dealloc, if_neg ne, if_pos small, dif_pos (index_eq ▸ index.isLt)]
  exact congrArg (fun index => Except.ok ([], heap.deallocate index ptr)) (Fin.ext index_eq.symm)

theorem dealloc_large (class_eq : sizeClass layout = none) (ne : ptr ≠ 0) :
    heap.dealloc ptr layout = .ok ([.freePages ptr (sizeNeeded (calcSize layout))],
      heap.freePages ptr (sizeNeeded (calcSize layout))) := by
  rw [dealloc, if_neg ne, if_neg (Nat.not_le.mpr (sizeClass_eq_none.mp class_eq))]

/-- A cache hands out its first free object, or divides a page if it has none. -/
theorem allocate_cases (heap : Heap) (index : Fin 10) (answer : Nat) :
    (∃ block, (heap.caches index).freelistHead = some block ∧ block ≠ 0 ∧
      heap.allocate index answer = (block, [], heap.setCache index
        { heap.caches index with
          freelistHead := if heap.memory block = 0 then none else some (heap.memory block) })) ∨
    (heap.caches index).freelistHead.getD 0 = 0 ∧
      heap.allocate index answer = heap.refill index answer := by
  rw [allocate]
  cases head_eq : (heap.caches index).freelistHead with
  | none => exact .inr ⟨rfl, rfl⟩
  | some block =>
      by_cases null : block = 0
      · exact .inr ⟨null, if_neg (not_not.mpr null)⟩
      · exact .inl ⟨block, rfl, null, if_pos null⟩

end Heap

namespace Sound

variable {sys : System}

theorem alloc (sound : Sound sys) {layout : Layout} {answer : Nat}
    (allowed : permitted sys (.alloc layout answer)) :
    ∃ calls next, step sys (.alloc layout answer) = .ok (calls, next) ∧ Sound next := by
  obtain ⟨slabs, lists, holds⟩ := sound
  cases class_eq : sizeClass layout with
  | none =>
      have alloc_eq : sys.heap.alloc layout answer = _ := Heap.alloc_large class_eq answer
      have fresh := allowed _ _ _ alloc_eq _ _ List.mem_cons_self
      rw [step, alloc_eq]
      exact ⟨_, _, rfl, holds.takeLarge class_eq fresh⟩
  | some index =>
      have alloc_eq : sys.heap.alloc layout answer = _ := Heap.alloc_small class_eq answer
      rw [step, alloc_eq]
      rcases sys.heap.allocate_cases index answer with
        ⟨block, head_eq, ne, allocate_eq⟩ | ⟨null, allocate_eq⟩
      · obtain ⟨lists, popped⟩ := holds.pop class_eq head_eq ne
        rw [allocate_eq]
        exact ⟨_, _, rfl, slabs, lists, popped⟩
      · have refill_eq := Heap.refill_eq answer (holds.object_size index)
        rw [allocate_eq, refill_eq] at alloc_eq
        have fresh := allowed _ _ _ alloc_eq _ _ List.mem_cons_self
        have empty := (holds.threaded index).head_eq_stop_iff.mp null
        rw [allocate_eq]
        exact ⟨_, _, rfl, holds.refill class_eq empty fresh⟩

theorem dealloc (sound : Sound sys) {ptr : Nat} {layout : Layout}
    (mem : ⟨ptr, layout⟩ ∈ sys.live) :
    ∃ calls next, step sys (.dealloc ptr layout) = .ok (calls, next) ∧ Sound next := by
  obtain ⟨slabs, lists, holds⟩ := sound
  have ne := holds.live_ne_zero mem
  cases class_eq : sizeClass layout with
  | none =>
      rw [step, Heap.dealloc_large class_eq ne]
      exact ⟨_, _, rfl, holds.giveBack mem class_eq⟩
  | some index =>
      rw [step, Heap.dealloc_small class_eq ne]
      exact ⟨_, _, rfl, holds.deallocate mem class_eq⟩

theorem step (sound : Sound sys) {event : Event} (allowed : permitted sys event) :
    ∃ calls next, Slab.step sys event = .ok (calls, next) ∧ Sound next := by
  cases event with
  | alloc layout answer => exact sound.alloc allowed
  | dealloc ptr layout => exact sound.dealloc allowed
  | store addr value =>
      obtain ⟨slabs, lists, holds⟩ := sound
      exact ⟨_, _, rfl, slabs, lists, holds.write value (holds.writable_not_free allowed)⟩

end Sound

/-- What the heap promises to its callers and to the provider. -/
structure Kept (sys : System) : Prop where
  disjoint : sys.live.Pairwise fun left right => left.region.Apart right.region
  inside : ∀ block ∈ sys.live, ∃ region ∈ sys.heap.regions,
    region.start ≤ block.region.start ∧
      block.region.start + block.region.size ≤ region.start + region.size
  spans : ∀ block ∈ sys.live, block.layout.size ≤ block.region.size
  aligned : ∀ block ∈ sys.live, max block.layout.size block.layout.align ≤ NORMAL_PAGE_SIZE →
    block.layout.align ∣ block.ptr
  recycled : ∀ old ∈ sys.freed, ∀ index, sizeClass old.layout = some index →
    ∀ block ∈ sys.live, old.region.Apart block.region ∨
      sizeClass block.layout = some index ∧ block.ptr = old.ptr
  returned : ∀ block ∈ sys.live, NORMAL_PAGE_SIZE < max block.layout.size block.layout.align →
    ∃ size next, step sys (.dealloc block.ptr block.layout) =
      .ok ([.freePages block.ptr size], next) ∧ ⟨block.ptr, size⟩ ∈ sys.heap.regions

theorem sizeClass_of_small {layout : Layout}
    (small : max layout.size layout.align ≤ NORMAL_PAGE_SIZE) :
    ∃ index, sizeClass layout = some index :=
  ⟨_, if_pos ((calcSize_le_page_iff layout).mpr small)⟩

theorem sizeClass_of_large {layout : Layout}
    (large : NORMAL_PAGE_SIZE < max layout.size layout.align) : sizeClass layout = none :=
  sizeClass_eq_none.mpr (large.trans_le (le_nextPowerOfTwo _))

namespace Holds

variable {sys : System} {slabs lists : Fin 10 → List Nat}

/-- A freed object overlaps only with what is handed out again in its place. -/
theorem recycled (holds : Holds sys slabs lists) {old block : Block} {index : Fin 10}
    (gone : old ∈ sys.freed) (class_eq : sizeClass old.layout = some index)
    (mem : block ∈ sys.live) : old.region.Apart block.region ∨
      sizeClass block.layout = some index ∧ block.ptr = old.ptr := by
  have object := holds.freed_object old gone index class_eq
  rw [Block.region_of_small class_eq]
  cases block_eq : sizeClass block.layout with
  | none => exact .inl (holds.object_apart_large object mem block_eq)
  | some other =>
      by_cases same : index = other ∧ old.ptr = block.ptr
      · exact .inr ⟨congrArg some same.1.symm, same.2.symm⟩
      · rw [Block.region_of_small block_eq]
        exact .inl (holds.carved.objects_apart object (holds.small block mem other block_eq).1 same)

theorem kept (holds : Holds sys slabs lists) : Kept sys where
  disjoint := holds.live_apart
  inside _ mem := holds.live_inside mem
  spans block _ := size_le_blockSize block.layout
  aligned block mem small := by
    obtain ⟨index, class_eq⟩ := sizeClass_of_small small
    have object := (holds.small block mem index class_eq).1
    exact (align_dvd_CACHE_SIZES class_eq).trans (holds.carved.object_dvd object)
  recycled old gone index class_eq block mem := holds.recycled gone class_eq mem
  returned block mem large := by
    have class_eq := sizeClass_of_large large
    have held := (holds.large block mem class_eq).1
    rw [Block.region_of_large class_eq] at held
    rw [step, Heap.dealloc_large class_eq (holds.live_ne_zero mem)]
    exact ⟨_, _, rfl, held⟩

end Holds

/-- In every run with a provider of fresh regions that frees only live blocks, live blocks are
disjoint, large enough and aligned, freed objects stay in their size class, and large blocks go back
with the size they were requested with. -/
theorem slab_blocks_sound {memory : Nat → Nat} {events : List Event}
    (permits : machine.Permits (System.new memory) events) :
    ∃ final, machine.run (System.new memory) events = .ok final ∧ Kept final := by
  have keeps : ∀ sys event, Sound sys → machine.permitted sys event →
      ∃ next, machine.step sys event = .ok next ∧ Sound next := by
    intro sys event sound allowed
    obtain ⟨calls, next, step_eq, kept⟩ := sound.step allowed
    exact ⟨next, map_eq_ok.mpr ⟨_, step_eq, rfl⟩, kept⟩
  obtain ⟨final, run_eq, slabs, lists, holds⟩ := machine.run_ok keeps (Sound.new memory) permits
  exact ⟨final, run_eq, holds.kept⟩

/-- A layout of half a page. -/
def halfPage : Layout := ⟨1500, 8, ⟨3, rfl⟩, by decide⟩

/-- A layout of more than a page. -/
def twoPages : Layout := ⟨5000, 16, ⟨4, rfl⟩, by decide⟩

/-- Two objects of one page, the first of which is freed, and a large block. -/
def sampleEvents : List Event :=
  [.alloc halfPage 0x1000, .alloc twoPages 0x4000, .store 0x1000 7, .alloc halfPage 0,
    .dealloc 0x1000 halfPage]

theorem slab_blocks_sound_sample :
    ∃ final, machine.run (System.new fun _ => 0) sampleEvents = .ok final ∧
      final.live = [⟨0x1800, halfPage⟩, ⟨0x4000, twoPages⟩] ∧ Kept final := by
  have permits : machine.Permits (System.new fun _ => 0) sampleEvents := by
    refine machine.permits_cons ?_ rfl <| machine.permits_cons ?_ rfl <|
      machine.permits_cons ?_ rfl <| machine.permits_cons ?_ rfl <|
      machine.permits_cons ?_ rfl trivial
    · rintro ptr calls heap ⟨⟩ size given mem
      obtain ⟨rfl, rfl⟩ := Call.allocatePages.inj (List.mem_singleton.mp mem)
      exact ⟨by decide, by decide, by decide, nofun⟩
    · rintro ptr calls heap ⟨⟩ size given mem
      obtain ⟨rfl, rfl⟩ := Call.allocatePages.inj (List.mem_singleton.mp mem)
      refine ⟨by decide, by decide, by decide, fun region held => ?_⟩
      rw [List.mem_singleton.mp held]
      exact .inl (by decide)
    · exact .inl ⟨_, List.mem_cons_of_mem _ List.mem_cons_self, by decide, by decide⟩
    · rintro ptr calls heap ⟨⟩ size given mem
      cases mem
    · exact List.mem_cons_of_mem _ (List.mem_cons_of_mem _ List.mem_cons_self)
  obtain ⟨final, run_eq, kept⟩ := slab_blocks_sound permits
  refine ⟨final, run_eq, ?_, kept⟩
  cases run_eq
  rfl

end Vespertine.Slab
