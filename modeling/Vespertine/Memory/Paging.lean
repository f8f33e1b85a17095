import Vespertine.Kernel
import Vespertine.Library.RadixTree

/-!
# Page tables

The four-level page tables of an address space.  A table is named by the physical address of its
frame; the kernel reaches it through the direct map, whose offset cancels in every access.  Frames
for new tables come from the page allocator, which is given here by the frames it hands out next.
-/

namespace Vespertine

/-- The address bits of a page table entry. -/
def ADDR_MASK : Nat := 0x000FFFFFFFFFF000

/-- A 64-bit page table entry. -/
structure PageTableEntry where
  /-- The entry as a word. -/
  bits : Nat
deriving DecidableEq, Repr

namespace PageTableEntry

/-- Build an entry from a physical address and flags. -/
def new (physAddr flags : Nat) : PageTableEntry := ⟨(physAddr &&& ADDR_MASK) ||| flags⟩

/-- The cleared entry written by `set_unused`. -/
def unused : PageTableEntry := ⟨0⟩

/-- Physical address an entry points to. -/
def getAddr (entry : PageTableEntry) : Nat := entry.bits &&& ADDR_MASK

/-- The present bit. -/
def isPresent (entry : PageTableEntry) : Bool := entry.bits &&& 1 == 1

/-- The page-size bit. -/
def isHuge (entry : PageTableEntry) : Bool := entry.bits &&& (1 <<< 7) != 0

/-- Replace address and flags. -/
def setFlags (_entry : PageTableEntry) (physAddr flags : Nat) : PageTableEntry :=
  ⟨(physAddr &&& ADDR_MASK) ||| flags⟩

end PageTableEntry

/-- Table indices of a virtual address, from the top level down, and its offset in a 4 KiB page. -/
structure Idxs where
  /-- Index into the root table. -/
  l4 : Nat
  /-- Index into the second table. -/
  l3 : Nat
  /-- Index into the third table. -/
  l2 : Nat
  /-- Index into the last table. -/
  l1 : Nat
  /-- Offset in the page. -/
  offset : Nat
deriving DecidableEq, Repr

/-- Split a virtual address. -/
def getIdxs (virt : Nat) : Idxs where
  l4 := (virt >>> 39) &&& 0o777
  l3 := (virt >>> 30) &&& 0o777
  l2 := (virt >>> 21) &&& 0o777
  l1 := (virt >>> 12) &&& 0o777
  offset := virt &&& 0xFFF

/-- Offset in a 2 MiB page. -/
def getHugeOffset (virt : Nat) : Nat := virt &&& 0x1FFFFF

/-- Offset in a 4 KiB page. -/
def getOffset (virt : Nat) : Nat := virt &&& 0xFFF

/-- Physical memory read as page tables. -/
abbrev Tables := Nat → Nat → PageTableEntry

/-- The table a present entry points to. -/
def nextTable (entry : PageTableEntry) : Option Nat :=
  if entry.isPresent then some entry.getAddr else none

/-- Page tables together with the frames the page allocator hands out next. -/
structure PagingState where
  /-- All page tables in memory. -/
  tables : Tables
  /-- Frames the allocator returns, in order. -/
  frames : List Nat

/-- The table below an entry, allocated and cleared if the entry is not present. -/
def getOrCreateNext (state : PagingState) (table index : Nat) : Kernel (Nat × PagingState) :=
  let entry := state.tables table index
  if entry.isPresent then
    .ok (entry.getAddr, state)
  else
    match state.frames with
    | [] => .error .outOfMemory
    | frame :: frames =>
        let cleared := RadixTree.fill state.tables frame PageTableEntry.unused
        let created := PageTableEntry.new frame 0x7
        .ok (created.getAddr, ⟨RadixTree.write cleared table index created, frames⟩)

namespace PageTable

/-- Physical address behind a virtual address. -/
def translate (tables : Tables) (root virt : Nat) : Option Nat := do
  let idxs := getIdxs virt
  let l3Table ← nextTable (tables root idxs.l4)
  let l2Table ← nextTable (tables l3Table idxs.l3)
  let l2Entry := tables l2Table idxs.l2
  if !l2Entry.isPresent then
    none
  else if l2Entry.isHuge then
    some (l2Entry.getAddr + getHugeOffset virt)
  else
    let l1Table ← nextTable l2Entry
    let finalEntry := tables l1Table idxs.l1
    if !finalEntry.isPresent then
      none
    else
      some (finalEntry.getAddr + idxs.offset)

/-- Enter a page, creating the tables above it on demand. -/
def mapPage (state : PagingState) (root virt phys flags : Nat) (size : BlockSize) :
    Kernel PagingState := do
  let idxs := getIdxs virt
  let (l3Table, state) ← getOrCreateNext state root idxs.l4
  let (l2Table, state) ← getOrCreateNext state l3Table idxs.l3
  if size = .Huge then
    let entry := PageTableEntry.new phys (flags ||| (1 <<< 7))
    return { state with tables := RadixTree.write state.tables l2Table idxs.l2 entry }
  else
    let (l1Table, state) ← getOrCreateNext state l2Table idxs.l2
    let entry := PageTableEntry.new phys flags
    return { state with tables := RadixTree.write state.tables l1Table idxs.l1 entry }

/-- Clear the entry of a page if the tables above it exist. -/
def unmapPage (tables : Tables) (root virt : Nat) (size : BlockSize) : Tables :=
  let idxs := getIdxs virt
  match nextTable (tables root idxs.l4) with
  | none => tables
  | some l3Table =>
      match nextTable (tables l3Table idxs.l3) with
      | none => tables
      | some l2Table =>
          if size = .Huge then
            RadixTree.write tables l2Table idxs.l2 .unused
          else
            match nextTable (tables l2Table idxs.l2) with
            | none => tables
            | some l1Table => RadixTree.write tables l1Table idxs.l1 .unused

/-- Replace the flags of a present entry if the tables above it exist. -/
def changeFlags (tables : Tables) (root virt newFlags : Nat) (size : BlockSize) : Tables :=
  let idxs := getIdxs virt
  match nextTable (tables root idxs.l4) with
  | none => tables
  | some l3Table =>
      match nextTable (tables l3Table idxs.l3) with
      | none => tables
      | some l2Table =>
          if size = .Huge then
            let entry := tables l2Table idxs.l2
            if entry.isPresent then
              RadixTree.write tables l2Table idxs.l2
                (entry.setFlags entry.getAddr (newFlags ||| (1 <<< 7)))
            else
              tables
          else
            match nextTable (tables l2Table idxs.l2) with
            | none => tables
            | some l1Table =>
                let entry := tables l1Table idxs.l1
                if entry.isPresent then
                  RadixTree.write tables l1Table idxs.l1 (entry.setFlags entry.getAddr newFlags)
                else
                  tables

end PageTable

namespace Pager

/-- The alignment assertion on virtual addresses made by every pager call. -/
def assertVirt (virt : Nat) : BlockSize → Kernel Unit
  | .Normal => if getOffset virt = 0 then .ok () else .error .virtNotAligned4k
  | .Huge => if getHugeOffset virt = 0 then .ok () else .error .virtNotAligned2m

/-- The alignment assertion on physical addresses made by `map_page`. -/
def assertPhys (phys : Nat) : BlockSize → Kernel Unit
  | .Normal => if phys &&& 0xFFF = 0 then .ok () else .error .physNotAligned4k
  | .Huge => if phys &&& 0x1FFFFF = 0 then .ok () else .error .physNotAligned2m

/-- Checked `PageTable.mapPage`. -/
def mapPage (state : PagingState) (activeL4Addr virt phys flags : Nat) (size : BlockSize) :
    Kernel PagingState := do
  assertPhys phys size
  assertVirt virt size
  PageTable.mapPage state activeL4Addr virt phys flags size

/-- Checked `PageTable.unmapPage`; the caller's core then flushes `virt`. -/
def unmapPage (tables : Tables) (activeL4Addr virt : Nat) (size : BlockSize) : Kernel Tables := do
  assertVirt virt size
  return PageTable.unmapPage tables activeL4Addr virt size

/-- Checked `PageTable.changeFlags`; the caller's core then flushes `virt`. -/
def changeFlags (tables : Tables) (activeL4Addr virt newFlags : Nat) (size : BlockSize) :
    Kernel Tables := do
  assertVirt virt size
  return PageTable.changeFlags tables activeL4Addr virt newFlags size

/-- `PageTable.translate` from the active root. -/
def translate (tables : Tables) (activeL4Addr virt : Nat) : Option Nat :=
  PageTable.translate tables activeL4Addr virt

end Pager
end Vespertine
