import Mathlib.Logic.Function.Basic
import Vespertine.Kernel

/-!
# The physical page allocator

A buddy allocator over physical frames.  Each order has a free list whose `prev` and `next` words
are stored at the start of the free blocks themselves, and a table with one `PageFrame` per
physical frame holds the flags that decide whether two buddies merge.

Physical memory is addressed directly: the kernel reads physical address `a` at virtual address
`a + HHDMOFFSET`, and the offset cancels in every access below.
-/

namespace Vespertine

/-- The largest block order. -/
def ORDER_MAX : Nat := 11

/-- The frame is free. -/
def PF_FREE : Nat := 1 <<< 0

/-- The frame belongs to the kernel. -/
def PF_KERNEL : Nat := 1 <<< 1

/-- The frame is the first frame of a listed free block. -/
def PF_BUDDY_HEAD : Nat := 1 <<< 5

/-- List words at the start of a free block; address zero is the null pointer. -/
@[ext]
structure FreeBlock where
  /-- Address of the previous free block of the order. -/
  prev : Nat
  /-- Address of the next free block of the order. -/
  next : Nat
deriving DecidableEq, Repr

/-- Bookkeeping of one physical frame. -/
structure PageFrame where
  /-- Number of owners. -/
  refcount : Nat
  /-- Combination of the `PF_` flags. -/
  flags : Nat
  /-- Order of the block headed by this frame. -/
  buddyOrder : Nat
deriving DecidableEq, Repr

/-- The allocator together with the physical memory its list words live in. -/
structure Allocator where
  /-- Address of the first free block of each order up to `ORDER_MAX`. -/
  freelist : Nat → Nat
  /-- List words stored at each physical address. -/
  memory : Nat → FreeBlock
  /-- One entry per physical frame. -/
  pfndb : Nat → PageFrame
  /-- Number of frames the table covers. -/
  pfndbLen : Nat

namespace Allocator

/-- Read a table entry; an index past the end of the slice panics. -/
def frame (pmm : Allocator) (pfn : Nat) : Kernel PageFrame :=
  if pfn < pmm.pfndbLen then .ok (pmm.pfndb pfn) else .error .indexOutOfBounds

/-- Overwrite a table entry. -/
def setFrame (pmm : Allocator) (pfn : Nat) (entry : PageFrame) : Allocator :=
  { pmm with pfndb := Function.update pmm.pfndb pfn entry }

/-- Overwrite the list words of a block. -/
def setBlock (pmm : Allocator) (addr : Nat) (block : FreeBlock) : Allocator :=
  { pmm with memory := Function.update pmm.memory addr block }

/-- Overwrite the head of one free list. -/
def setHead (pmm : Allocator) (order addr : Nat) : Allocator :=
  { pmm with freelist := Function.update pmm.freelist order addr }

/-- Write the `prev` word of a block unless its address is null. -/
def setPrevAt (pmm : Allocator) (addr prev : Nat) : Allocator :=
  if addr ≠ 0 then pmm.setBlock addr { pmm.memory addr with prev } else pmm

/-- The search loop of `alloc_order`: the first order with a nonempty free list. -/
def findOrder (pmm : Allocator) : (remaining order : Nat) → Option Nat
  | 0, _ => none
  | remaining + 1, order =>
      if pmm.freelist order = 0 then
        if order + 1 > ORDER_MAX then none else pmm.findOrder remaining (order + 1)
      else
        some order

/-- Remove the first block of a nonempty free list. -/
def popHead (pmm : Allocator) (order : Nat) : Allocator :=
  let block := pmm.memory (pmm.freelist order)
  (pmm.setPrevAt block.next 0).setHead order block.next

/-- One iteration of `split_block`: list the upper half of a block at the next lower order. -/
def splitStep (pmm : Allocator) (addr order : Nat) : Kernel Allocator := do
  let buddy := addr + (NORMAL_PAGE_SIZE <<< order)
  let head := pmm.freelist order
  let pmm := ((pmm.setPrevAt head buddy).setHead order buddy).setBlock buddy
    { prev := 0, next := head }
  let pfn := buddy / NORMAL_PAGE_SIZE
  let _ ← pmm.frame pfn
  return pmm.setFrame pfn
    { refcount := 0, flags := PF_FREE ||| PF_BUDDY_HEAD, buddyOrder := order % 2 ^ 16 }

/-- Halve a block until it has the target order, listing every upper half. -/
def splitBlock (pmm : Allocator) (addr : Nat) : (order target : Nat) → Kernel Allocator
  | 0, _ => .ok pmm
  | order + 1, target =>
      if order + 1 > target then do
        let pmm ← pmm.splitStep addr order
        pmm.splitBlock addr order target
      else
        .ok pmm

/-- Allocate a block of `2 ^ order` frames. -/
def allocOrder (pmm : Allocator) (order : Nat) : Kernel (Option Nat × Allocator) :=
  if order > ORDER_MAX then
    .error .indexOutOfBounds
  else
    match pmm.findOrder (ORDER_MAX + 1 - order) order with
    | none => .ok (none, pmm)
    | some found => do
        let addr := pmm.freelist found
        let pfn := addr / NORMAL_PAGE_SIZE
        let pmm := pmm.popHead found
        let entry ← pmm.frame pfn
        let pmm := pmm.setFrame pfn
          { entry with refcount := 0, flags := andNot entry.flags (PF_FREE ||| PF_BUDDY_HEAD) }
        let pmm ← pmm.splitBlock addr found order
        let entry ← pmm.frame pfn
        return (some addr, pmm.setFrame pfn { entry with refcount := 1, flags := PF_KERNEL })

/-- Unlist a buddy and return the lower address of the merged block. -/
def mergeBlock (pmm : Allocator) (addr buddy order : Nat) : Allocator × Nat :=
  let words := pmm.memory buddy
  let pmm :=
    if words.prev ≠ 0 then
      pmm.setBlock words.prev { pmm.memory words.prev with next := words.next }
    else
      pmm.setHead order words.next
  let pmm := pmm.setPrevAt words.next words.prev
  (pmm.setBlock buddy { prev := 0, next := 0 }, if addr < buddy then addr else buddy)

/-- The merge loop of `free_order`, with `remaining = ORDER_MAX - order`. -/
def coalesce (pmm : Allocator) : (remaining addr order : Nat) → Kernel (Allocator × Nat × Nat)
  | 0, addr, order => .ok (pmm, addr, order)
  | remaining + 1, addr, order => do
      let buddy := addr ^^^ (NORMAL_PAGE_SIZE <<< order)
      let pfn := buddy / NORMAL_PAGE_SIZE
      let entry ← pmm.frame pfn
      let isFreeAndHead := entry.flags &&& (PF_FREE ||| PF_BUDDY_HEAD) = (PF_FREE ||| PF_BUDDY_HEAD)
      let orderMatch := order % 2 ^ 16 = entry.buddyOrder
      if isFreeAndHead ∧ orderMatch then
        let pmm := pmm.setFrame pfn { entry with flags := andNot entry.flags PF_BUDDY_HEAD }
        let merged := pmm.mergeBlock addr buddy order
        merged.1.coalesce remaining merged.2 (order + 1)
      else
        .ok (pmm, addr, order)

/-- Put a block at the front of the free list of its order. -/
def pushBlock (pmm : Allocator) (addr order : Nat) : Kernel Allocator := do
  let pfn := addr / NORMAL_PAGE_SIZE
  let _ ← pmm.frame pfn
  let pmm := pmm.setFrame pfn
    { refcount := 0, flags := PF_FREE ||| PF_BUDDY_HEAD, buddyOrder := order % 2 ^ 16 }
  if order > ORDER_MAX then
    .error .indexOutOfBounds
  else
    let head := pmm.freelist order
    let pmm := pmm.setBlock addr { prev := 0, next := head }
    return (pmm.setPrevAt head addr).setHead order addr

/-- Free a block of `2 ^ order` frames, merging it with its free buddies. -/
def freeOrder (pmm : Allocator) (addr order : Nat) : Kernel Allocator := do
  let entry ← pmm.frame (addr / NORMAL_PAGE_SIZE)
  if entry.flags &&& PF_FREE ≠ 0 then
    .error (.doubleFree addr)
  else
    let (pmm, addr, order) ← pmm.coalesce (ORDER_MAX - order) addr order
    pmm.pushBlock addr order

/-- Order of a block size. -/
def sizeOrder : BlockSize → Nat
  | .Huge => 9
  | .Normal => 0

/-- Allocate one page of the given size. -/
def alloc (pmm : Allocator) (size : BlockSize) : Kernel (Option Nat × Allocator) :=
  pmm.allocOrder (sizeOrder size)

/-- Free one page of the given size. -/
def free (pmm : Allocator) (addr : Nat) (size : BlockSize) : Kernel Allocator :=
  pmm.freeOrder addr (sizeOrder size)

/-! ## Initialisation -/

/-- Number of trailing zero bits of a 64-bit word. -/
def trailingZeros (word : Nat) : Nat :=
  ((List.range 64).find? fun bit => word.testBit bit).getD 64

/-- The largest order up to `order` whose block fits into `available` frames. -/
def fitOrder : (order available : Nat) → Nat
  | 0, _ => 0
  | order + 1, available =>
      if 2 ^ (order + 1) > available then fitOrder order available else order + 1

/-- Free one run of frames as naturally aligned blocks, from the lowest frame up. -/
def seedRun (endFrame : Nat) : (fuel : Nat) → Allocator → (startFrame : Nat) → Kernel Allocator
  | 0, pmm, _ => .ok pmm
  | fuel + 1, pmm, startFrame =>
      if startFrame < endFrame then do
        let maxOrder := min (trailingZeros startFrame) ORDER_MAX
        let order := fitOrder maxOrder (endFrame - startFrame)
        let pmm ← pmm.freeOrder (startFrame * NORMAL_PAGE_SIZE) order
        seedRun endFrame fuel pmm (startFrame + 2 ^ order)
      else
        .ok pmm

/-- Advance a cursor while it is below `limit` and the frame satisfies the predicate. -/
def advance (limit : Nat) (keep : Nat → Bool) : (fuel cursor : Nat) → Nat
  | 0, cursor => cursor
  | fuel + 1, cursor =>
      if cursor < limit ∧ keep cursor = true then advance limit keep fuel (cursor + 1) else cursor

/-- Free every maximal run of frames that the boot bitmap reports free. -/
def seed (isFree : Nat → Bool) (totalFrames : Nat) :
    (fuel : Nat) → Allocator → (cursor : Nat) → Kernel Allocator
  | 0, pmm, _ => .ok pmm
  | fuel + 1, pmm, cursor =>
      if cursor < totalFrames then do
        let startFrame := advance totalFrames (fun frame => !isFree frame) totalFrames cursor
        if startFrame ≥ totalFrames then
          .ok pmm
        else
          let endFrame := advance totalFrames isFree totalFrames startFrame
          let pmm ← seedRun endFrame (endFrame - startFrame) pmm startFrame
          seed isFree totalFrames fuel pmm endFrame
      else
        .ok pmm

/-- The table before any frame is handed over: every frame belongs to the kernel. -/
def fresh (memory : Nat → FreeBlock) (pfndbLen : Nat) : Allocator where
  freelist := fun _ => 0
  memory := memory
  pfndb := fun _ => { refcount := 1, flags := PF_KERNEL, buddyOrder := 0 }
  pfndbLen := pfndbLen

/-- `Allocator::init`: start from a fresh table and hand over the frames the bitmap reports free. -/
def init (memory : Nat → FreeBlock) (pfndbLen : Nat) (isFree : Nat → Bool) (totalFrames : Nat) :
    Kernel Allocator :=
  seed isFree totalFrames (totalFrames + 1) (fresh memory pfndbLen) 0

end Allocator
end Vespertine
