import Vespertine.Memory.Paging

/-!
# Virtual memory areas

The address space of a process is a doubly linked list of areas kept in heap nodes, ordered by
start address, and a root page table.  Areas are mapped lazily: a page fault inside an area enters
the page, and unmapping an area clears its pages in batches.  All address arithmetic wraps at 64
bits.

The list lives in a store of nodes; `live` holds the nodes handed out by the kernel heap, and
bounds how far a traversal of an acyclic list can run.  `effects` records, in order, what the calls
do besides editing the list.
-/

namespace Vespertine

def VM_FLAG_WRITE : Nat := 1 <<< 0
def VM_FLAG_EXEC : Nat := 1 <<< 1
def VM_FLAG_USER : Nat := 1 <<< 2
def VM_FLAG_HUGE : Nat := 1 <<< 3
def VM_FLAG_GLOBAL : Nat := 1 <<< 4
def VM_FLAG_CACHE_DISABLE : Nat := 1 <<< 5
def VM_FLAG_WRITE_THROUGH : Nat := 1 <<< 6

/-- Where areas without a chosen address start. -/
def VM_BASE_ADDR : Nat := 0x40000000

/-- End of the address range for areas. -/
def VM_MAX_ALLOWED : Nat := 0x00007FFFFFFFF000

/-- Present pages cleared before one shootdown. -/
def BATCH_SIZE : Nat := 64

/-- Why a page fault is not resolved. -/
inductive FaultError
  | InvalidAddress
  | AccessDenied
  | MappingFailed
deriving DecidableEq, Repr

/-- Hardware flags of a page. -/
def getFlags (present writable userAccess writethru noCache accessed dirty huge global
    noExecute : Bool) : Nat :=
  (if present then 1 <<< 0 else 0) ||| (if writable then 1 <<< 1 else 0) |||
  (if userAccess then 1 <<< 2 else 0) ||| (if writethru then 1 <<< 3 else 0) |||
  (if noCache then 1 <<< 4 else 0) ||| (if accessed then 1 <<< 5 else 0) |||
  (if dirty then 1 <<< 6 else 0) ||| (if huge then 1 <<< 7 else 0) |||
  (if global then 1 <<< 8 else 0) ||| (if noExecute then 1 <<< 63 else 0)

/-- Hardware flags for the flags of an area. -/
def convertVmFlags (flags : Nat) : Nat :=
  getFlags true (flags &&& VM_FLAG_WRITE ≠ 0) (flags &&& VM_FLAG_USER ≠ 0)
    (flags &&& VM_FLAG_WRITE_THROUGH ≠ 0) (flags &&& VM_FLAG_CACHE_DISABLE ≠ 0) false false false
    (flags &&& VM_FLAG_GLOBAL ≠ 0) !(flags &&& VM_FLAG_EXEC ≠ 0)

/-- Page size selected by the flags of an area. -/
def blockSize (flags : Nat) : BlockSize := if flags &&& VM_FLAG_HUGE ≠ 0 then .Huge else .Normal

/-- Offset bits of the page size selected by the flags of an area. -/
def pageMask (flags : Nat) : Nat :=
  if flags &&& VM_FLAG_HUGE ≠ 0 then HUGE_PAGE_SIZE - 1 else NORMAL_PAGE_SIZE - 1

/-- Step between pages of an area. -/
def stepSize (flags : Nat) : Nat :=
  if flags &&& VM_FLAG_HUGE ≠ 0 then HUGE_PAGE_SIZE else NORMAL_PAGE_SIZE

/-- Round up to pages, wrapping: `(value + mask) & !mask`. -/
def roundUp (value mask : Nat) : Nat := andNot (wrappingAdd value mask) mask

/-- Round up to 4 KiB pages. -/
def alignUp (addr : Nat) : Nat := roundUp addr 0xFFF

/-- One virtual memory area; `backingVmo` names the shared backing object. -/
structure VmaNode where
  start : Nat
  size : Nat
  flags : Nat
  prev : Option Nat
  next : Option Nat
  backingVmo : Option Nat
  vmoOffset : Nat
deriving DecidableEq, Repr

/-- What memory management does besides editing the list. -/
inductive Effect
  /-- A page was entered. -/
  | mapPage (virt phys : Nat) (size : BlockSize)
  /-- The entry of a page was cleared and the page flushed on this core. -/
  | unmapPage (virt : Nat) (size : BlockSize)
  /-- The flags of a page were replaced and the page flushed on this core. -/
  | changeFlags (virt flags : Nat) (size : BlockSize)
  /-- The page of an address was flushed on this core. -/
  | flushTlb (virt : Nat)
  /-- The other cores were interrupted to flush. -/
  | shootdown (addr size : Nat)
  /-- A frame was returned to the page allocator. -/
  | free (addr : Nat) (size : BlockSize)
deriving DecidableEq, Repr

/-- The memory manager of one process. -/
structure VirtMemManager where
  /-- First area. -/
  head : Option Nat
  /-- Store of area nodes. -/
  nodes : Nat → VmaNode
  /-- Nodes handed out by the kernel heap. -/
  live : List Nat
  /-- Root page table. -/
  l4Addr : Nat
  /-- Page tables in memory. -/
  tables : Tables
  /-- Effects so far, in order. -/
  effects : List Effect

namespace VirtMemManager

/-- A memory manager without areas; heap contents and page tables are whatever they were. -/
def new (nodes : Nat → VmaNode) (l4Addr : Nat) (tables : Tables) : VirtMemManager :=
  { head := none, nodes, live := [], l4Addr, tables, effects := [] }

/-- Write `(*ptr).next`, or the head for the null pointer. -/
def setNext (vmm : VirtMemManager) (ptr next : Option Nat) : VirtMemManager :=
  match ptr with
  | some ptr => { vmm with nodes := Function.update vmm.nodes ptr { vmm.nodes ptr with next } }
  | none => { vmm with head := next }

/-- Write `(*ptr).prev` unless the pointer is null. -/
def setPrev (vmm : VirtMemManager) (ptr prev : Option Nat) : VirtMemManager :=
  match ptr with
  | some ptr => { vmm with nodes := Function.update vmm.nodes ptr { vmm.nodes ptr with prev } }
  | none => vmm

/-- Write a new node and point its neighbours at it. -/
def insertNode (vmm : VirtMemManager) (nodePtr : Nat) (node : VmaNode) : VirtMemManager :=
  let stored := { vmm with
    nodes := Function.update vmm.nodes nodePtr node, live := nodePtr :: vmm.live }
  (stored.setNext node.prev (some nodePtr)).setPrev node.next (some nodePtr)

/-- A gap of the list: its start and the nodes around it. -/
structure Gap where
  start : Nat
  prev : Option Nat
  next : Option Nat
deriving DecidableEq, Repr

/-- Outcome of the search for a gap before the last area. -/
inductive Search
  /-- A gap was found. -/
  | found (gap : Gap)
  /-- No gap was found; the list ends at this node. -/
  | exhausted (last : Option Nat)
deriving DecidableEq, Repr

/-- The loop over the gaps behind each area. -/
def searchLoop (vmm : VirtMemManager) (size mask : Nat) :
    (fuel : Nat) → (prev current : Option Nat) → Kernel Search
  | _, prev, none => .ok (.exhausted prev)
  | 0, _, some _ => .error .diverges
  | fuel + 1, _, some curr =>
      let node := vmm.nodes curr
      let base := roundUp (wrappingAdd node.start node.size) mask
      match node.next with
      | none => vmm.searchLoop size mask fuel (some curr) none
      | some next =>
          if (vmm.nodes next).start > base ∧ (vmm.nodes next).start - base ≥ size then
            .ok (.found ⟨base, some curr, some next⟩)
          else
            vmm.searchLoop size mask fuel (some curr) (some next)

/-- The gap before the first area, or else the first gap behind an area. -/
def search (vmm : VirtMemManager) (size mask : Nat) : Kernel Search :=
  match vmm.head with
  | none => .ok (.found ⟨VM_BASE_ADDR, none, none⟩)
  | some head =>
      let start := (vmm.nodes head).start
      if start > VM_BASE_ADDR ∧ start - VM_BASE_ADDR ≥ size then
        .ok (.found ⟨VM_BASE_ADDR, none, some head⟩)
      else
        vmm.searchLoop size mask vmm.live.length none (some head)

/-- Start of the space behind the last area. -/
def tailBase (vmm : VirtMemManager) (last mask : Nat) : Nat :=
  roundUp (wrappingAdd (vmm.nodes last).start (vmm.nodes last).size) mask

/-- The gap an area of the given rounded size is placed in. -/
def findGap (vmm : VirtMemManager) (size mask : Nat) : Kernel (Option Gap) := do
  match ← vmm.search size mask with
  | .found gap => return some gap
  | .exhausted none => return none
  | .exhausted (some last) =>
      let base := vmm.tailBase last mask
      if wrappingSub VM_MAX_ALLOWED base ≥ size then
        return some ⟨base, some last, none⟩
      else
        return none

/-- Place an area in the first gap that holds it; `nodePtr` is freed again when there is none. -/
def mmapInternal (vmm : VirtMemManager) (size flags : Nat) (backingVmo : Option Nat)
    (vmoOffset nodePtr : Nat) : Kernel (Option Nat × VirtMemManager) := do
  let mask := pageMask flags
  let size := roundUp size mask
  match ← vmm.findGap size mask with
  | some gap =>
      let node : VmaNode :=
        { start := gap.start, size, flags, prev := gap.prev, next := gap.next, backingVmo,
          vmoOffset }
      return (some gap.start, vmm.insertNode nodePtr node)
  | none => return (none, vmm)

/-- Place an anonymous area. -/
def mmap (vmm : VirtMemManager) (size flags nodePtr : Nat) :
    Kernel (Option Nat × VirtMemManager) :=
  vmm.mmapInternal size flags none 0 nodePtr

/-- Place an area backed by a memory object. -/
def mmapVmo (vmm : VirtMemManager) (size flags backingVmo nodePtr : Nat) :
    Kernel (Option Nat × VirtMemManager) :=
  vmm.mmapInternal size flags (some backingVmo) 0 nodePtr

/-- The loop to the first area that starts behind an address. -/
def spotLoop (vmm : VirtMemManager) (startAddr : Nat) :
    (fuel : Nat) → (prev current : Option Nat) → Kernel (Option Nat × Option Nat)
  | _, prev, none => .ok (prev, none)
  | 0, _, some _ => .error .diverges
  | fuel + 1, prev, some curr =>
      if (vmm.nodes curr).start > startAddr then
        .ok (prev, some curr)
      else
        vmm.spotLoop startAddr fuel (some curr) (vmm.nodes curr).next

/-- The area before the spot reaches into it. -/
def overlapsPrev (vmm : VirtMemManager) (startAddr : Nat) : Option Nat → Bool
  | some prev => wrappingAdd (vmm.nodes prev).start (vmm.nodes prev).size > startAddr
  | none => false

/-- The new area would reach into the area behind the spot. -/
def overlapsNext (vmm : VirtMemManager) (startAddr size : Nat) : Option Nat → Bool
  | some next => wrappingAdd startAddr size > (vmm.nodes next).start
  | none => false

/-- Place an area at a chosen address; sizes are always rounded to 4 KiB. -/
def mmapVmoAt (vmm : VirtMemManager) (startAddr size flags backingVmo nodePtr : Nat) :
    Kernel (Option Nat × VirtMemManager) := do
  let size := roundUp size (NORMAL_PAGE_SIZE - 1)
  let (prev, next) ← vmm.spotLoop startAddr vmm.live.length none vmm.head
  if vmm.overlapsPrev startAddr prev then
    return (none, vmm)
  else if vmm.overlapsNext startAddr size next then
    return (none, vmm)
  else
    let node : VmaNode :=
      { start := startAddr, size, flags, prev, next, backingVmo := some backingVmo,
        vmoOffset := 0 }
    return (some startAddr, vmm.insertNode nodePtr node)

/-- The loop to the area that starts at an address. -/
def findLoop (vmm : VirtMemManager) (startAddr : Nat) :
    (fuel : Nat) → (current : Option Nat) → Kernel (Option Nat)
  | _, none => .ok none
  | 0, some _ => .error .diverges
  | fuel + 1, some curr =>
      if (vmm.nodes curr).start = startAddr then
        .ok (some curr)
      else
        vmm.findLoop startAddr fuel (vmm.nodes curr).next

/-- Detach a node from the list. -/
def detach (vmm : VirtMemManager) (ptr : Nat) : VirtMemManager :=
  let node := vmm.nodes ptr
  (vmm.setNext node.prev node.next).setPrev node.next node.prev

/-- Progress of unmapping a range. -/
structure Batch where
  tables : Tables
  currentPage : Nat
  /-- Frames of the pages cleared in this batch. -/
  physBatch : List Nat
  effects : List Effect

/-- Clear one page if it is present. -/
def unmapOne (l4Addr : Nat) (block : BlockSize) (batch : Batch) : Kernel Batch :=
  match Pager.translate batch.tables l4Addr batch.currentPage with
  | none => .ok batch
  | some phys => do
      let tables ← Pager.unmapPage batch.tables l4Addr batch.currentPage block
      return { batch with
        tables
        physBatch := batch.physBatch ++ [phys]
        effects := batch.effects ++ [.unmapPage batch.currentPage block] }

/-- Clear pages until the range ends or the batch is full. -/
def unmapBatch (l4Addr endPage step : Nat) (block : BlockSize) : (fuel : Nat) → Batch → Kernel Batch
  | 0, batch =>
      if batch.currentPage < endPage ∧ batch.physBatch.length < BATCH_SIZE then
        .error .diverges
      else
        .ok batch
  | fuel + 1, batch =>
      if batch.currentPage < endPage ∧ batch.physBatch.length < BATCH_SIZE then do
        let batch ← unmapOne l4Addr block batch
        unmapBatch l4Addr endPage step block fuel
          { batch with currentPage := wrappingAdd batch.currentPage step }
      else
        .ok batch

/-- After a batch: one shootdown, and the frames of anonymous areas are freed. -/
def finishBatch (batchStart : Nat) (block : BlockSize) (anonymous : Bool) (batch : Batch) : Batch :=
  if batch.physBatch.length > 0 then
    { batch with
      effects := batch.effects ++
        [.shootdown batchStart (wrappingSub batch.currentPage batchStart)] ++
        if anonymous then batch.physBatch.map (.free · block) else [] }
  else
    batch

/-- Clear all pages of a range, batch by batch. -/
def unmapPages (l4Addr endPage step pages : Nat) (block : BlockSize) (anonymous : Bool) :
    (fuel : Nat) → Batch → Kernel Batch
  | 0, batch => if batch.currentPage < endPage then .error .diverges else .ok batch
  | fuel + 1, batch =>
      if batch.currentPage < endPage then do
        let next ← unmapBatch l4Addr endPage step block pages { batch with physBatch := [] }
        unmapPages l4Addr endPage step pages block anonymous fuel
          (finishBatch batch.currentPage block anonymous next)
      else
        .ok batch

/-- Clear the pages of a detached area. -/
def unmapArea (vmm : VirtMemManager) (node : VmaNode) : Kernel VirtMemManager := do
  let pages := node.size / stepSize node.flags + 1
  let batch ← unmapPages vmm.l4Addr (wrappingAdd node.start node.size) (stepSize node.flags) pages
    (blockSize node.flags) node.backingVmo.isNone pages ⟨vmm.tables, node.start, [], vmm.effects⟩
  return { vmm with tables := batch.tables, effects := batch.effects }

/-- Remove the area that starts at an address, if it has the given size. -/
def munmap (vmm : VirtMemManager) (startAddr size : Nat) :
    Kernel (Except String Unit × VirtMemManager) := do
  let size := alignUp size
  match ← vmm.findLoop startAddr vmm.live.length vmm.head with
  | none => return (.error "Invalid address or VMA not found", vmm)
  | some ptr =>
      if (vmm.nodes ptr).size ≠ size then
        return (.error "Size does not match VMA region", vmm)
      else
        let detached := vmm.detach ptr
        let unmapped ← detached.unmapArea (detached.nodes ptr)
        return (.ok (), { unmapped with live := unmapped.live.erase ptr })

/-- Replace the flags of every page of a range. -/
def protectPages (l4Addr endPage step newFlags : Nat) (block : BlockSize) :
    (fuel : Nat) → Batch → Kernel Batch
  | 0, batch => if batch.currentPage < endPage then .error .diverges else .ok batch
  | fuel + 1, batch =>
      if batch.currentPage < endPage then do
        let hwFlags := convertVmFlags newFlags
        let tables ← Pager.changeFlags batch.tables l4Addr batch.currentPage hwFlags block
        protectPages l4Addr endPage step newFlags block fuel { batch with
          tables
          currentPage := wrappingAdd batch.currentPage step
          effects := batch.effects ++
            [.changeFlags batch.currentPage hwFlags block, .flushTlb batch.currentPage] }
      else
        .ok batch

/-- Replace the flags of the area that starts at an address, if it has the given size. -/
def mprotect (vmm : VirtMemManager) (startAddr size newFlags : Nat) :
    Kernel (Except String Unit × VirtMemManager) := do
  let size := alignUp size
  match ← vmm.findLoop startAddr vmm.live.length vmm.head with
  | none => return (.error "Invalid address or VMA not found", vmm)
  | some ptr =>
      if (vmm.nodes ptr).size ≠ size then
        return (.error "Size does not match VMA region exactly", vmm)
      else
        let node := { vmm.nodes ptr with flags := newFlags }
        let batch ← protectPages vmm.l4Addr (wrappingAdd node.start node.size)
          (stepSize newFlags) newFlags (blockSize newFlags) (node.size / stepSize newFlags + 1)
          ⟨vmm.tables, node.start, [], vmm.effects⟩
        return (.ok (), { vmm with
          nodes := Function.update vmm.nodes ptr node
          tables := batch.tables
          effects := batch.effects })

/-- The loop to the area that contains an address. -/
def containsLoop (vmm : VirtMemManager) (addr : Nat) :
    (fuel : Nat) → (current : Option Nat) → Kernel (Option Nat)
  | _, none => .ok none
  | 0, some _ => .error .diverges
  | fuel + 1, some curr =>
      let node := vmm.nodes curr
      if addr ≥ node.start ∧ addr < wrappingAdd node.start node.size then
        .ok (some curr)
      else
        vmm.containsLoop addr fuel node.next

/-- What the environment answers during a page fault. -/
structure FaultEnv where
  /-- The frame a memory object has for an offset, if the request succeeds. -/
  requestPage : (vmo offset : Nat) → Option Nat
  /-- The frame the page allocator returns for an anonymous page. -/
  frame : Nat
  /-- The frames the page allocator returns for page tables. -/
  frames : List Nat

/-- Resolve a page fault: enter the page of the area that contains the address. -/
def handlePageFault (vmm : VirtMemManager) (env : FaultEnv) (addr errorCode : Nat) :
    Kernel (Except FaultError Unit × VirtMemManager) := do
  match ← vmm.containsLoop addr vmm.live.length vmm.head with
  | none => return (.error .InvalidAddress, vmm)
  | some ptr =>
      let node := vmm.nodes ptr
      if errorCode &&& (1 <<< 1) ≠ 0 ∧ node.flags &&& VM_FLAG_WRITE = 0 then
        return (.error .AccessDenied, vmm)
      else
        let faultPage := andNot addr (pageMask node.flags)
        let offsetInVma := wrappingSub faultPage node.start
        let vmoOffset := wrappingAdd offsetInVma node.vmoOffset
        let frame := match node.backingVmo with
          | some vmo => env.requestPage vmo vmoOffset
          | none => some env.frame
        match frame with
        | none => return (.error .MappingFailed, vmm)
        | some phys =>
            let state ← Pager.mapPage ⟨vmm.tables, env.frames⟩ vmm.l4Addr faultPage phys
              (convertVmFlags node.flags) (blockSize node.flags)
            return (.ok (), { vmm with
              tables := state.tables
              effects := vmm.effects ++
                [.mapPage faultPage phys (blockSize node.flags), .flushTlb addr] })

end VirtMemManager
end Vespertine
