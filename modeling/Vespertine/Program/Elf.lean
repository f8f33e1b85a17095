import Vespertine.Memory.Vmm
import Vespertine.Memory.Vmo

/-!
# ELF files

The parser of 64-bit little-endian ELF files and the loop that places the segments of a program in
an address space.  A file is read into a kernel buffer; headers are taken from the part of the
buffer that holds the file, while segment contents are copied by address, so that they may come
from behind it.  Physical memory is addressed directly: the offset of the direct map cancels.
-/

namespace Vespertine

/-- Why a program is not loaded. -/
inductive LoaderError
  | InvalidBuffer
  | InvalidMagicNumbers
  | NotAWashingMachine
  | Not64BitElf
  | UnsupportedElfType (type : Nat)
  | UnsupportedArch (machine : Nat)
  | UnsupportedABI (abi : Nat)
  | FileReadError
deriving DecidableEq, Repr

/-- The memory from the start of a buffer on; the file is its first `size` bytes. -/
structure FileBytes where
  size : Nat
  byte : Nat → BitVec 8

/-- A little-endian number in memory. -/
def littleEndian (byte : Nat → BitVec 8) (offset : Nat) : (width : Nat) → Nat
  | 0 => 0
  | width + 1 => (byte offset).toNat + 256 * littleEndian byte (offset + 1) width

/-- The file header. -/
structure Elf64Ehdr where
  eIdent : Nat → BitVec 8
  eType : Nat
  eMachine : Nat
  eVersion : Nat
  eEntry : Nat
  ePhoff : Nat
  eShoff : Nat
  eFlags : Nat
  eEhsize : Nat
  ePhentsize : Nat
  ePhnum : Nat
  eShentsize : Nat
  eShnum : Nat
  eShstrndx : Nat

/-- A program header. -/
structure Elf64Phdr where
  pType : Nat
  pFlags : Nat
  pOffset : Nat
  pVaddr : Nat
  pPaddr : Nat
  pFilesz : Nat
  pMemsz : Nat
  pAlign : Nat
deriving DecidableEq, Repr

/-- Type of a segment to be loaded. -/
def PT_LOAD : Nat := 1

def PF_X : Nat := 0x1
def PF_W : Nat := 0x2

namespace Elf64Phdr

/-- `size_of::<Elf64_Phdr>()`. -/
def bytes : Nat := 56

/-- The program header at an address of the buffer. -/
def read (byte : Nat → BitVec 8) (start : Nat) : Elf64Phdr where
  pType := littleEndian byte start 4
  pFlags := littleEndian byte (start + 4) 4
  pOffset := littleEndian byte (start + 8) 8
  pVaddr := littleEndian byte (start + 16) 8
  pPaddr := littleEndian byte (start + 24) 8
  pFilesz := littleEndian byte (start + 32) 8
  pMemsz := littleEndian byte (start + 40) 8
  pAlign := littleEndian byte (start + 48) 8

end Elf64Phdr

/-- The program headers that are left to visit. -/
structure ProgHeaderIter where
  byte : Nat → BitVec 8
  /-- Start of the table in the file. -/
  phOff : Nat
  phSize : Nat
  current : Nat
  total : Nat

/-- The next program header; the table was checked to lie in the file. -/
def ProgHeaderIter.next (iter : ProgHeaderIter) : Option (Elf64Phdr × ProgHeaderIter) :=
  if iter.current ≥ iter.total then
    none
  else
    some (.read iter.byte (iter.phOff + iter.current * iter.phSize),
      { iter with current := iter.current + 1 })

namespace Elf64Ehdr

/-- `size_of::<Elf64_Ehdr>()`. -/
def bytes : Nat := 64

/-- The header at the start of a buffer. -/
def read (byte : Nat → BitVec 8) : Elf64Ehdr where
  eIdent := byte
  eType := littleEndian byte 16 2
  eMachine := littleEndian byte 18 2
  eVersion := littleEndian byte 20 4
  eEntry := littleEndian byte 24 8
  ePhoff := littleEndian byte 32 8
  eShoff := littleEndian byte 40 8
  eFlags := littleEndian byte 48 4
  eEhsize := littleEndian byte 52 2
  ePhentsize := littleEndian byte 54 2
  ePhnum := littleEndian byte 56 2
  eShentsize := littleEndian byte 58 2
  eShnum := littleEndian byte 60 2
  eShstrndx := littleEndian byte 62 2

/-- The header of a file that is long enough and starts with the magic numbers. -/
def fromBytes (file : FileBytes) : Except LoaderError Elf64Ehdr :=
  if file.size < bytes then
    .error .InvalidBuffer
  else if (List.range 4).map file.byte ≠ [0x7F, 0x45, 0x4C, 0x46] then
    .error .InvalidMagicNumbers
  else
    .ok (read file.byte)

/-- The program headers, if their table has entries of the right size and lies in the file. -/
def progHeaders (header : Elf64Ehdr) (file : FileBytes) : Option ProgHeaderIter := do
  if header.ePhentsize ≠ Elf64Phdr.bytes then
    none
  let totSize ← checkedMul header.ePhnum header.ePhentsize
  let endOff ← checkedAdd header.ePhoff totSize
  if endOff > file.size then
    none
  return ⟨file.byte, header.ePhoff, header.ePhentsize, 0, header.ePhnum⟩

end Elf64Ehdr

/-- `write_bytes`: store one value in a range. -/
def writeBytes (memory : Nat → BitVec 8) (dst : Nat) (value : BitVec 8) (len : Nat) :
    Nat → BitVec 8 :=
  fun addr => if dst ≤ addr ∧ addr < dst + len then value else memory addr

/-- `copy_nonoverlapping`: copy a range. -/
def copyNonoverlapping (memory source : Nat → BitVec 8) (src dst len : Nat) : Nat → BitVec 8 :=
  fun addr => if dst ≤ addr ∧ addr < dst + len then source (src + (addr - dst)) else memory addr

/-- What loading a program changes. -/
structure Image where
  /-- The address space of the new process. -/
  vmm : VirtMemManager
  /-- Memory objects by number. -/
  vmos : Nat → Option Vmo
  /-- Number of the next memory object. -/
  nextVmo : Nat
  /-- Physical memory. -/
  memory : Nat → BitVec 8
  /-- Frames the page allocator returns next. -/
  supply : List Nat
  /-- Frames returned to the page allocator. -/
  freed : List Nat
  /-- Area nodes the kernel heap returns next. -/
  areaNodes : List Nat

namespace Image

/-- Clear the frame of one page of a segment and copy the part of the file that belongs there. -/
def fillPage (memory : Nat → BitVec 8) (file : FileBytes) (ph : Elf64Phdr)
    (offsetInFirstPage pageOffset pfn : Nat) : Nat → BitVec 8 :=
  let memory := writeBytes memory pfn 0 NORMAL_PAGE_SIZE
  let overlapStart := max pageOffset offsetInFirstPage
  let overlapEnd := min (pageOffset + NORMAL_PAGE_SIZE) (wrappingAdd offsetInFirstPage ph.pFilesz)
  if overlapStart < overlapEnd then
    copyNonoverlapping memory file.byte
      (wrappingAdd ph.pOffset (overlapStart - offsetInFirstPage))
      (overlapStart - pageOffset + pfn) (overlapEnd - overlapStart)
  else
    memory

/-- Request and fill the pages of a segment, from an offset on. -/
def fillPages (file : FileBytes) (ph : Elf64Phdr) (offsetInFirstPage : Nat) :
    (pages pageOffset : Nat) → Vmo → Image → Kernel (Except LoaderError Unit × Vmo × Image)
  | 0, _, vmo, image => .ok (.ok (), vmo, image)
  | pages + 1, pageOffset, vmo, image => do
      let (result, vmo, supply) ← vmo.requestPage pageOffset image.supply
      let image := { image with supply }
      match result with
      | .error _ => return (.error .FileReadError, vmo, image)
      | .ok pfn =>
          let memory := fillPage image.memory file ph offsetInFirstPage pageOffset pfn
          fillPages file ph offsetInFirstPage pages (pageOffset + NORMAL_PAGE_SIZE) vmo
            { image with memory }

/-- Area flags for the flags of a segment. -/
def segmentFlags (ph : Elf64Phdr) : Nat :=
  VM_FLAG_USER ||| (if ph.pFlags &&& PF_W ≠ 0 then VM_FLAG_WRITE else 0) |||
    (if ph.pFlags &&& PF_X ≠ 0 then VM_FLAG_EXEC else 0)

/-- Place the memory object of a segment in the address space, or drop it. -/
def mapSegment (image : Image) (alignedVaddr totalMapSize vmFlags : Nat) (vmo : Vmo) :
    Kernel (Except LoaderError Unit × Image) :=
  match image.areaNodes with
  | [] => .error .outOfMemory
  | nodePtr :: areaNodes => do
      let (addr, vmm) ←
        image.vmm.mmapVmoAt alignedVaddr totalMapSize vmFlags image.nextVmo nodePtr
      match addr with
      | none =>
          return (.error .FileReadError, { image with vmm, freed := image.freed ++ vmo.drop })
      | some _ =>
          return (.ok (), { image with
            vmm
            areaNodes
            vmos := Function.update image.vmos image.nextVmo (some vmo)
            nextVmo := image.nextVmo + 1 })

/-- Load one segment. -/
def loadSegment (image : Image) (file : FileBytes) (ph : Elf64Phdr) :
    Kernel (Except LoaderError Unit × Image) := do
  let alignedVaddr := andNot ph.pVaddr 0xFFF
  let offsetInFirstPage := ph.pVaddr &&& 0xFFF
  let totalMapSize := alignUp (wrappingAdd offsetInFirstPage ph.pMemsz)
  let (filled, vmo, image) ← fillPages file ph offsetInFirstPage
    (totalMapSize / NORMAL_PAGE_SIZE) 0 (.new totalMapSize) image
  match filled with
  | .error problem => return (.error problem, { image with freed := image.freed ++ vmo.drop })
  | .ok () => image.mapSegment alignedVaddr totalMapSize (segmentFlags ph) vmo

/-- Load the segments that are left, stopping at the first error. -/
def loadSegments (file : FileBytes) :
    (fuel : Nat) → ProgHeaderIter → Image → Kernel (Except LoaderError Unit × Image)
  | 0, _, image => .ok (.ok (), image)
  | fuel + 1, iter, image =>
      match iter.next with
      | none => .ok (.ok (), image)
      | some (ph, iter) =>
          if ph.pType = PT_LOAD then do
            let (result, image) ← image.loadSegment file ph
            match result with
            | .error problem => return (.error problem, image)
            | .ok () => loadSegments file fuel iter image
          else
            loadSegments file fuel iter image

/-- Parse a file and load its segments; the result is the entry point. -/
def loadFile (image : Image) (file : FileBytes) : Kernel (Except LoaderError Nat × Image) :=
  match Elf64Ehdr.fromBytes file with
  | .error problem => .ok (.error problem, image)
  | .ok header =>
      match header.progHeaders file with
      | none => .error .unwrapNone
      | some iter => do
          let (result, image) ← loadSegments file iter.total iter image
          return (result.map fun _ => header.eEntry, image)

end Image
end Vespertine
