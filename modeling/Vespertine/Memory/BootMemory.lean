import Vespertine.Library.ByteMemory
import Vespertine.Memory.BitmapPmm
import Vespertine.Memory.Coalescing

/-!
# Memory while the allocator is set up

`Allocator::init` reads the boot bitmap while it writes the frame table and the list words of the
blocks that it frees.  All three are bytes of one memory here: a bitmap that does not start on a
page shares a frame with the table or with the words of a block.

Blocks that have no listed buddy are pushed and nothing else.  As long as they keep off the table,
the table and the lists are those of the allocator that keeps them apart.
-/

namespace Vespertine

open DyadicBlock

/-- `size_of::<PageFrame>()` -/
def PAGE_FRAME_SIZE : Nat := 8

/-- An entry of the table: the fields in their order, without padding. -/
def PageFrame.bytes (entry : PageFrame) : List UInt8 :=
  Bytes.ofNat 4 entry.refcount ++ (Bytes.ofNat 2 entry.flags ++ Bytes.ofNat 2 entry.buddyOrder)

/-- List words, `repr(C)`. -/
def FreeBlock.bytes (block : FreeBlock) : List UInt8 :=
  Bytes.ofNat 8 block.prev ++ Bytes.ofNat 8 block.next

/-- The bytes of the bitmap. -/
def BitmapPMM.bytes (pmm : BitmapPMM) : List UInt8 :=
  (List.range pmm.bitmapLen).map fun byte => UInt8.ofNat (pmm.bitmap byte)

/-- The allocator with its table and its list words in memory. -/
structure BootMemory where
  bytes : Memory
  freelist : Nat → Nat
  /-- Physical address of the table. -/
  pfndbAddr : Nat
  pfndbLen : Nat

namespace BootMemory

/-- Read a little-endian number. -/
def word (boot : BootMemory) (addr width : Nat) : Nat := Bytes.toNat (boot.bytes.read addr width)

def store (boot : BootMemory) (addr : Nat) (bytes : List UInt8) : BootMemory :=
  { boot with bytes := boot.bytes.write addr bytes }

def entryAddr (boot : BootMemory) (pfn : Nat) : Nat := boot.pfndbAddr + pfn * PAGE_FRAME_SIZE

def entry (boot : BootMemory) (pfn : Nat) : PageFrame :=
  ⟨boot.word (boot.entryAddr pfn) 4, boot.word (boot.entryAddr pfn + 4) 2,
    boot.word (boot.entryAddr pfn + 6) 2⟩

def frame (boot : BootMemory) (pfn : Nat) : Kernel PageFrame :=
  if pfn < boot.pfndbLen then .ok (boot.entry pfn) else .error .indexOutOfBounds

def setFrame (boot : BootMemory) (pfn : Nat) (entry : PageFrame) : BootMemory :=
  boot.store (boot.entryAddr pfn) entry.bytes

/-- Store the flags of an entry. -/
def setFlags (boot : BootMemory) (pfn flags : Nat) : BootMemory :=
  boot.store (boot.entryAddr pfn + 4) (Bytes.ofNat 2 flags)

def block (boot : BootMemory) (addr : Nat) : FreeBlock := ⟨boot.word addr 8, boot.word (addr + 8) 8⟩

def setBlock (boot : BootMemory) (addr : Nat) (block : FreeBlock) : BootMemory :=
  boot.store addr block.bytes

def setNext (boot : BootMemory) (addr next : Nat) : BootMemory :=
  boot.store (addr + 8) (Bytes.ofNat 8 next)

/-- Store the `prev` word of a block unless its address is null. -/
def setPrevAt (boot : BootMemory) (addr prev : Nat) : BootMemory :=
  if addr ≠ 0 then boot.store addr (Bytes.ofNat 8 prev) else boot

def setHead (boot : BootMemory) (order addr : Nat) : BootMemory :=
  { boot with freelist := Function.update boot.freelist order addr }

/-- `merge_block`. -/
def mergeBlock (boot : BootMemory) (addr buddy order : Nat) : BootMemory × Nat :=
  let words := boot.block buddy
  let boot :=
    if words.prev ≠ 0 then boot.setNext words.prev words.next else boot.setHead order words.next
  let boot := boot.setPrevAt words.next words.prev
  (boot.setBlock buddy { prev := 0, next := 0 }, if addr < buddy then addr else buddy)

/-- The merge loop of `free_order`, with `remaining = ORDER_MAX - order`. -/
def coalesce (boot : BootMemory) : (remaining addr order : Nat) → Kernel (BootMemory × Nat × Nat)
  | 0, addr, order => .ok (boot, addr, order)
  | remaining + 1, addr, order => do
      let buddy := addr ^^^ (NORMAL_PAGE_SIZE <<< order)
      let pfn := buddy / NORMAL_PAGE_SIZE
      let entry ← boot.frame pfn
      let isFreeAndHead := entry.flags &&& (PF_FREE ||| PF_BUDDY_HEAD) = (PF_FREE ||| PF_BUDDY_HEAD)
      let orderMatch := order % 2 ^ 16 = entry.buddyOrder
      if isFreeAndHead ∧ orderMatch then
        let boot := boot.setFlags pfn (andNot entry.flags PF_BUDDY_HEAD)
        let merged := boot.mergeBlock addr buddy order
        merged.1.coalesce remaining merged.2 (order + 1)
      else
        .ok (boot, addr, order)

/-- What is written when a block is put at the front of the free list of its order. -/
def list (boot : BootMemory) (addr order : Nat) : BootMemory :=
  let boot := boot.setFrame (addr / NORMAL_PAGE_SIZE)
    { refcount := 0, flags := PF_FREE ||| PF_BUDDY_HEAD, buddyOrder := order % 2 ^ 16 }
  let head := boot.freelist order
  ((boot.setBlock addr { prev := 0, next := head }).setPrevAt head addr).setHead order addr

/-- Put a block at the front of the free list of its order. -/
def pushBlock (boot : BootMemory) (addr order : Nat) : Kernel BootMemory := do
  let _ ← boot.frame (addr / NORMAL_PAGE_SIZE)
  if order > ORDER_MAX then .error .indexOutOfBounds else return boot.list addr order

/-- `free_order`. -/
def freeOrder (boot : BootMemory) (addr order : Nat) : Kernel BootMemory := do
  let entry ← boot.frame (addr / NORMAL_PAGE_SIZE)
  if entry.flags &&& PF_FREE ≠ 0 then
    .error (.doubleFree addr)
  else
    let (boot, addr, order) ← boot.coalesce (ORDER_MAX - order) addr order
    boot.pushBlock addr order

/-- `is_free` of the bitmap at an address. -/
def isFree (boot : BootMemory) (bitmapAddr frameIdx : Nat) : Bool :=
  (boot.bytes (bitmapAddr + frameIdx / 8)).toNat &&& (1 <<< (frameIdx % 8)) = 0

/-- Free one run of frames as naturally aligned blocks, from the lowest frame up. -/
def seedRun (endFrame : Nat) : (fuel : Nat) → BootMemory → (startFrame : Nat) → Kernel BootMemory
  | 0, boot, _ => .ok boot
  | fuel + 1, boot, startFrame =>
      if startFrame < endFrame then do
        let maxOrder := min (Allocator.trailingZeros startFrame) ORDER_MAX
        let order := Allocator.fitOrder maxOrder (endFrame - startFrame)
        let boot ← boot.freeOrder (startFrame * NORMAL_PAGE_SIZE) order
        seedRun endFrame fuel boot (startFrame + 2 ^ order)
      else
        .ok boot

/-- The next run of frames that a predicate calls free, unless there is none. -/
def nextRun (isFree : Nat → Bool) (totalFrames cursor : Nat) : Option (Nat × Nat) :=
  let startFrame := Allocator.advance totalFrames (fun frame => !isFree frame) totalFrames cursor
  if startFrame ≥ totalFrames then
    none
  else
    some (startFrame, Allocator.advance totalFrames isFree totalFrames startFrame)

/-- Free every run of frames that the bitmap shows free when it is read. -/
def seed (bitmapAddr totalFrames : Nat) : (fuel : Nat) → BootMemory → (cursor : Nat) →
    Kernel BootMemory
  | 0, boot, _ => .ok boot
  | fuel + 1, boot, cursor =>
      if cursor < totalFrames then
        match nextRun (boot.isFree bitmapAddr) totalFrames cursor with
        | none => .ok boot
        | some (startFrame, endFrame) => do
            let boot ← seedRun endFrame (endFrame - startFrame) boot startFrame
            seed bitmapAddr totalFrames fuel boot endFrame
      else
        .ok boot

/-- Every entry of the table before any frame is handed over. -/
def fillTable (boot : BootMemory) : BootMemory :=
  (List.range boot.pfndbLen).foldl
    (fun boot pfn => boot.setFrame pfn { refcount := 1, flags := PF_KERNEL, buddyOrder := 0 }) boot

/-- Memory with the bitmap and a fresh table. -/
def placed (memory : Memory) (left : BitmapPMM) (metaFrameIdx totalPages : Nat) : BootMemory :=
  fillTable ⟨memory.write left.bitmapAddr left.bytes, fun _ => 0,
    metaFrameIdx * NORMAL_PAGE_SIZE, totalPages⟩

/-! ## The allocator in memory -/

section View

/-- The allocator that a memory shows: its table, and the list words of managed frames. -/
noncomputable def view (managed : Set Nat) (boot : BootMemory) : Allocator where
  freelist := boot.freelist
  memory := fun addr =>
    open Classical in
    if addr % NORMAL_PAGE_SIZE = 0 ∧ addr / NORMAL_PAGE_SIZE ∈ managed then boot.block addr
    else ⟨0, 0⟩
  pfndb := fun pfn =>
    if pfn < boot.pfndbLen then boot.entry pfn
    else { refcount := 1, flags := PF_KERNEL, buddyOrder := 0 }
  pfndbLen := boot.pfndbLen

/-- Managed frames keep off the table, and addresses are words. -/
structure Clear (managed : Set Nat) (boot : BootMemory) : Prop where
  apart : ∀ frame ∈ managed, (frame + 1) * NORMAL_PAGE_SIZE ≤ boot.pfndbAddr ∨
    boot.pfndbAddr + boot.pfndbLen * PAGE_FRAME_SIZE ≤ frame * NORMAL_PAGE_SIZE
  inside : ∀ frame ∈ managed, frame < boot.pfndbLen
  words : boot.pfndbLen * NORMAL_PAGE_SIZE ≤ wordSize

variable {boot : BootMemory} {managed : Set Nat}

@[simp] theorem store_freelist (addr : Nat) (bytes : List UInt8) :
    (boot.store addr bytes).freelist = boot.freelist := rfl

@[simp] theorem store_pfndbLen (addr : Nat) (bytes : List UInt8) :
    (boot.store addr bytes).pfndbLen = boot.pfndbLen := rfl

@[simp] theorem list_pfndbLen (addr order : Nat) :
    (boot.list addr order).pfndbLen = boot.pfndbLen := by
  rw [list, setPrevAt]
  split <;> rfl

@[simp] theorem list_pfndbAddr (addr order : Nat) :
    (boot.list addr order).pfndbAddr = boot.pfndbAddr := by
  rw [list, setPrevAt]
  split <;> rfl

@[simp] theorem length_pageFrame_bytes (entry : PageFrame) : entry.bytes.length = 8 := by
  simp [PageFrame.bytes]

@[simp] theorem length_freeBlock_bytes (block : FreeBlock) : block.bytes.length = 16 := by
  simp [FreeBlock.bytes]

theorem word_store_apart {addr width place : Nat} {bytes : List UInt8}
    (apart : addr + width ≤ place ∨ place + bytes.length ≤ addr) :
    (boot.store place bytes).word addr width = boot.word addr width := by
  rw [word, store, Memory.read_write_apart _ _ apart, word]

/-- A number reads back from the bytes that it is stored with. -/
theorem word_store_part {place addr width value : Nat} {bytes : List UInt8}
    (front back : List UInt8) (bytes_eq : bytes = front ++ (Bytes.ofNat width value ++ back))
    (addr_eq : addr = place + front.length) (fits : value < 256 ^ width) :
    (boot.store place bytes).word addr width = value := by
  subst bytes_eq addr_eq
  have part_eq := boot.bytes.read_write_part place front (Bytes.ofNat width value) back
  rw [Bytes.length_ofNat] at part_eq
  rw [word, store, part_eq, Bytes.toNat_ofNat fits]

/-- Entries are apart. -/
theorem entry_store_apart {place pfn : Nat} {bytes : List UInt8}
    (apart : boot.entryAddr pfn + 8 ≤ place ∨ place + bytes.length ≤ boot.entryAddr pfn) :
    (boot.store place bytes).entry pfn = boot.entry pfn := by
  have first := @word_store_apart boot (boot.entryAddr pfn) 4 place bytes (by omega)
  have second := @word_store_apart boot (boot.entryAddr pfn + 4) 2 place bytes (by omega)
  have third := @word_store_apart boot (boot.entryAddr pfn + 6) 2 place bytes (by omega)
  rw [entry, entry]
  exact congr (congr (congrArg PageFrame.mk first) second) third

theorem entry_setFrame {pfn : Nat} {entry : PageFrame} (refcount_fits : entry.refcount < 256 ^ 4)
    (flags_fits : entry.flags < 256 ^ 2) (order_fits : entry.buddyOrder < 256 ^ 2) :
    (boot.setFrame pfn entry).entry pfn = entry := by
  have first : (boot.setFrame pfn entry).word (boot.entryAddr pfn) 4 = entry.refcount :=
    word_store_part [] _ rfl rfl refcount_fits
  have second : (boot.setFrame pfn entry).word (boot.entryAddr pfn + 4) 2 = entry.flags :=
    word_store_part (Bytes.ofNat 4 entry.refcount) _ rfl (by rw [Bytes.length_ofNat]) flags_fits
  have third : (boot.setFrame pfn entry).word (boot.entryAddr pfn + 6) 2 = entry.buddyOrder :=
    word_store_part (Bytes.ofNat 4 entry.refcount ++ Bytes.ofNat 2 entry.flags) []
      (by rw [List.append_nil, List.append_assoc, PageFrame.bytes]) (by simp) order_fits
  exact congr (congr (congrArg PageFrame.mk first) second) third

theorem fits_of_word {value : Nat} (fits : value < wordSize) : value < 256 ^ 8 := by
  have word_eq : 256 ^ 8 = wordSize := by norm_num [wordSize]
  rwa [word_eq]

theorem block_setBlock {addr : Nat} {block : FreeBlock} (prev_fits : block.prev < wordSize)
    (next_fits : block.next < wordSize) : (boot.setBlock addr block).block addr = block := by
  have first : (boot.setBlock addr block).word addr 8 = block.prev :=
    word_store_part [] (Bytes.ofNat 8 block.next) rfl rfl (fits_of_word prev_fits)
  have second : (boot.setBlock addr block).word (addr + 8) 8 = block.next :=
    word_store_part (Bytes.ofNat 8 block.prev) [] (by rw [List.append_nil, FreeBlock.bytes])
      (by rw [Bytes.length_ofNat]) (fits_of_word next_fits)
  rw [BootMemory.block, first, second]

theorem block_store_apart {addr place : Nat} {bytes : List UInt8}
    (apart : addr + 16 ≤ place ∨ place + bytes.length ≤ addr) :
    (boot.store place bytes).block addr = boot.block addr := by
  have first := @word_store_apart boot addr 8 place bytes (by omega)
  have second := @word_store_apart boot (addr + 8) 8 place bytes (by omega)
  rw [BootMemory.block, first, second, BootMemory.block]

theorem block_setPrev {addr prev : Nat} (prev_fits : prev < wordSize) :
    (boot.store addr (Bytes.ofNat 8 prev)).block addr = { boot.block addr with prev } := by
  have first : (boot.store addr (Bytes.ofNat 8 prev)).word addr 8 = prev :=
    word_store_part [] [] (List.append_nil _).symm rfl (fits_of_word prev_fits)
  have second : (boot.store addr (Bytes.ofNat 8 prev)).word (addr + 8) 8 = boot.word (addr + 8) 8 :=
    word_store_apart (.inr (by rw [Bytes.length_ofNat]))
  rw [BootMemory.block, first, second, BootMemory.block]

/-- Stores to an entry of the table show in the table only. -/
theorem view_setFrame (clear : Clear managed boot) {pfn : Nat} {entry : PageFrame}
    (inside : pfn < boot.pfndbLen) (refcount_fits : entry.refcount < 256 ^ 4)
    (flags_fits : entry.flags < 256 ^ 2) (order_fits : entry.buddyOrder < 256 ^ 2) :
    view managed (boot.setFrame pfn entry) = (view managed boot).setFrame pfn entry := by
  rw [Allocator.setFrame]
  simp only [view, Allocator.mk.injEq]
  refine ⟨rfl, funext fun addr => ?_, funext fun other => ?_, rfl⟩
  · split
    next listed =>
      apply block_store_apart
      have apart := clear.apart _ listed.2
      have page := Nat.div_add_mod addr NORMAL_PAGE_SIZE
      rw [length_pageFrame_bytes, entryAddr]
      unfold PAGE_FRAME_SIZE NORMAL_PAGE_SIZE at *
      omega
    next => rfl
  · by_cases same : other = pfn
    · subst same
      rw [Function.update_self]
      exact (if_pos inside).trans (entry_setFrame refcount_fits flags_fits order_fits)
    · rw [Function.update_of_ne same]
      have apart : (boot.setFrame pfn entry).entry other = boot.entry other := by
        apply entry_store_apart
        rw [length_pageFrame_bytes, entryAddr, entryAddr]
        unfold PAGE_FRAME_SIZE
        omega
      rw [apart]
      rfl

/-- Stores to the list words of a managed frame show there only. -/
theorem view_store (clear : Clear managed boot) {frame : Nat} {bytes : List UInt8}
    {block : FreeBlock} (inside : frame ∈ managed) (short : bytes.length ≤ 16)
    (block_eq : (boot.store (frame * NORMAL_PAGE_SIZE) bytes).block (frame * NORMAL_PAGE_SIZE) =
      block) :
    view managed (boot.store (frame * NORMAL_PAGE_SIZE) bytes) =
      (view managed boot).setBlock (frame * NORMAL_PAGE_SIZE) block := by
  rw [Allocator.setBlock]
  simp only [view, Allocator.mk.injEq]
  refine ⟨rfl, funext fun addr => ?_, funext fun other => ?_, rfl⟩
  · by_cases same : addr = frame * NORMAL_PAGE_SIZE
    · subst same
      rw [Function.update_self, if_pos ⟨Nat.mul_mod_left _ _, by rwa [Allocator.mul_page_div]⟩,
        block_eq]
    · rw [Function.update_of_ne same]
      split
      next listed =>
        apply block_store_apart
        have page := Nat.div_add_mod addr NORMAL_PAGE_SIZE
        rw [listed.1] at page
        unfold NORMAL_PAGE_SIZE at *
        omega
      next => rfl
  · rw [store_pfndbLen]
    by_cases other_lt : other < boot.pfndbLen
    · rw [if_pos other_lt, if_pos other_lt]
      apply entry_store_apart
      have apart := clear.apart frame inside
      rw [entryAddr]
      unfold PAGE_FRAME_SIZE NORMAL_PAGE_SIZE at *
      omega
    · rw [if_neg other_lt, if_neg other_lt]

theorem view_block {frame : Nat} (mem : frame ∈ managed) :
    (view managed boot).memory (frame * NORMAL_PAGE_SIZE) =
      boot.block (frame * NORMAL_PAGE_SIZE) :=
  if_pos ⟨Nat.mul_mod_left _ _, by rwa [Allocator.mul_page_div]⟩

theorem Clear.store (clear : Clear managed boot) (addr : Nat) (bytes : List UInt8) :
    Clear managed (boot.store addr bytes) :=
  ⟨clear.apart, clear.inside, clear.words⟩

theorem Clear.list (clear : Clear managed boot) (addr order : Nat) :
    Clear managed (boot.list addr order) := by
  refine ⟨?_, ?_, ?_⟩
  · rw [list_pfndbAddr, list_pfndbLen]
    exact clear.apart
  · rw [list_pfndbLen]
    exact clear.inside
  · rw [list_pfndbLen]
    exact clear.words

theorem Clear.addr_lt (clear : Clear managed boot) {frame : Nat} (mem : frame ∈ managed) :
    frame * NORMAL_PAGE_SIZE < wordSize := by
  have inside := clear.inside frame mem
  have words := clear.words
  unfold NORMAL_PAGE_SIZE at *
  omega

theorem view_setBlock (clear : Clear managed boot) {frame : Nat} {block : FreeBlock}
    (mem : frame ∈ managed) (prev_fits : block.prev < wordSize)
    (next_fits : block.next < wordSize) :
    view managed (boot.setBlock (frame * NORMAL_PAGE_SIZE) block) =
      (view managed boot).setBlock (frame * NORMAL_PAGE_SIZE) block :=
  view_store clear mem (length_freeBlock_bytes block).le (block_setBlock prev_fits next_fits)

theorem view_setPrevAt (clear : Clear managed boot) {addr prev : Nat}
    (addr_eq : addr = 0 ∨ ∃ frame ∈ managed, addr = frame * NORMAL_PAGE_SIZE)
    (prev_fits : prev < wordSize) :
    view managed (boot.setPrevAt addr prev) = (view managed boot).setPrevAt addr prev := by
  rw [setPrevAt, Allocator.setPrevAt]
  split
  next present =>
    obtain ⟨frame, mem, rfl⟩ := addr_eq.resolve_left present
    rw [view_block mem]
    exact view_store clear mem (by simp) (block_setPrev prev_fits)
  next => rfl

/-- Listing a block in memory lists it in the allocator that the memory shows. -/
theorem view_list (clear : Clear managed boot) {base order : Nat} (mem : base ∈ managed)
    (order_le : order ≤ ORDER_MAX)
    (head : boot.freelist order = 0 ∨
      ∃ frame ∈ managed, boot.freelist order = frame * NORMAL_PAGE_SIZE) :
    (view managed boot).pushBlock (base * NORMAL_PAGE_SIZE) order =
      .ok (view managed (boot.list (base * NORMAL_PAGE_SIZE) order)) := by
  have base_lt : base < boot.pfndbLen := clear.inside base mem
  have head_fits : boot.freelist order < wordSize := by
    obtain zero | ⟨frame, frame_mem, head_eq⟩ := head
    · rw [zero, wordSize]
      exact Nat.two_pow_pos 64
    · rw [head_eq]
      exact clear.addr_lt frame_mem
  have order_fits : order % 2 ^ 16 < 256 ^ 2 := Nat.mod_lt _ (by decide)
  have zero_fits : 0 < wordSize := Nat.two_pow_pos 64
  have flags_fits : PF_FREE ||| PF_BUDDY_HEAD < 256 ^ 2 := by decide
  have flagged := @view_setFrame boot managed clear base
    ⟨0, PF_FREE ||| PF_BUDDY_HEAD, order % 2 ^ 16⟩ base_lt (Nat.two_pow_pos 32) flags_fits
    order_fits
  have clear₁ : Clear managed (boot.setFrame base
    ⟨0, PF_FREE ||| PF_BUDDY_HEAD, order % 2 ^ 16⟩) := clear.store _ _
  have blocked := @view_setBlock _ managed clear₁ base ⟨0, boot.freelist order⟩ mem zero_fits
    head_fits
  have clear₂ := clear₁.store (base * NORMAL_PAGE_SIZE) (FreeBlock.bytes ⟨0, boot.freelist order⟩)
  have linked := @view_setPrevAt _ managed clear₂ (boot.freelist order) (base * NORMAL_PAGE_SIZE)
    head (clear.addr_lt mem)
  rw [Allocator.pushBlock, Allocator.mul_page_div, Allocator.frame_of_lt base_lt]
  simp only [bind, Except.bind, pure, Except.pure, if_neg (Nat.not_lt.mpr order_le), list,
    Allocator.mul_page_div]
  rw [← flagged]
  change Except.ok (Allocator.setHead (Allocator.setPrevAt (Allocator.setBlock _ _ _) _ _) _ _) =
    Except.ok (Allocator.setHead (view managed (setPrevAt (setBlock _ _ _) _ _)) _ _)
  congr 2
  exact (congrArg (Allocator.setPrevAt · _ _) blocked.symm).trans linked.symm

end View

/-! ## Runs of frames -/

section Runs

/-- The runs of frames that a predicate calls free. -/
def freeRuns (isFree : Nat → Bool) (totalFrames : Nat) : (fuel cursor : Nat) → List (Nat × Nat)
  | 0, _ => []
  | fuel + 1, cursor =>
      if cursor < totalFrames then
        match nextRun isFree totalFrames cursor with
        | none => []
        | some (startFrame, endFrame) =>
            (startFrame, endFrame) :: freeRuns isFree totalFrames fuel endFrame
      else
        []

/-- The runs that `seed` frees. -/
def runs (bitmapAddr totalFrames : Nat) : (fuel : Nat) → BootMemory → (cursor : Nat) →
    List (Nat × Nat)
  | 0, _, _ => []
  | fuel + 1, boot, cursor =>
      if cursor < totalFrames then
        match nextRun (boot.isFree bitmapAddr) totalFrames cursor with
        | none => []
        | some (startFrame, endFrame) =>
            (startFrame, endFrame) ::
              match seedRun endFrame (endFrame - startFrame) boot startFrame with
              | .error _ => []
              | .ok boot => runs bitmapAddr totalFrames fuel boot endFrame
      else
        []

/-- List blocks one after another. -/
def listAll (boot : BootMemory) : List DyadicBlock → BootMemory
  | [] => boot
  | block :: blocks => (boot.list (block.base * NORMAL_PAGE_SIZE) block.order).listAll blocks

/-- With the blocks of the runs before it listed, every run is read as the bitmap says, and so are
the frames in front of it and the frame behind it. -/
def Legible (bitmapAddr totalFrames : Nat) (isFree : Nat → Bool) : (fuel : Nat) → BootMemory →
    (cursor : Nat) → Prop
  | 0, _, _ => True
  | fuel + 1, boot, cursor =>
      cursor < totalFrames →
        match nextRun isFree totalFrames cursor with
        | none => ∀ frame, cursor ≤ frame → frame < totalFrames →
            boot.isFree bitmapAddr frame = isFree frame
        | some (startFrame, endFrame) =>
            (∀ frame, cursor ≤ frame → frame ≤ endFrame → frame < totalFrames →
              boot.isFree bitmapAddr frame = isFree frame) ∧
            Legible bitmapAddr totalFrames isFree fuel
              (boot.listAll (Allocator.runBlocks endFrame (endFrame - startFrame) startFrame))
              endFrame

variable {isFree other : Nat → Bool} {totalFrames cursor startFrame endFrame : Nat}

/-- Where a run begins and ends. -/
structure IsRun (isFree : Nat → Bool) (totalFrames cursor startFrame endFrame : Nat) : Prop where
  start_ge : cursor ≤ startFrame
  nonempty : startFrame < endFrame
  end_le : endFrame ≤ totalFrames
  before : ∀ frame, cursor ≤ frame → frame < startFrame → isFree frame = false
  inside : ∀ frame, startFrame ≤ frame → frame < endFrame → isFree frame = true
  behind : endFrame < totalFrames → isFree endFrame = false

theorem IsRun.unique {startFrame' endFrame' : Nat}
    (run : IsRun isFree totalFrames cursor startFrame endFrame)
    (run' : IsRun isFree totalFrames cursor startFrame' endFrame') :
    startFrame = startFrame' ∧ endFrame = endFrame' := by
  have start_eq : startFrame = startFrame' := by
    rcases Nat.lt_trichotomy startFrame startFrame' with lower | same | higher
    · have used := run'.before startFrame run.start_ge lower
      rw [run.inside startFrame (Nat.le_refl _) run.nonempty] at used
      cases used
    · exact same
    · have used := run.before startFrame' run'.start_ge higher
      rw [run'.inside startFrame' (Nat.le_refl _) run'.nonempty] at used
      cases used
  subst start_eq
  refine ⟨rfl, ?_⟩
  have first := run.nonempty
  have first' := run'.nonempty
  rcases Nat.lt_trichotomy endFrame endFrame' with lower | same | higher
  · have used := run.behind (by have := run'.end_le; omega)
    rw [run'.inside endFrame (by omega) lower] at used
    cases used
  · exact same
  · have used := run'.behind (by have := run.end_le; omega)
    rw [run.inside endFrame' (by omega) higher] at used
    cases used

theorem nextRun_spec (inside : cursor ≤ totalFrames) :
    match nextRun isFree totalFrames cursor with
    | none => ∀ frame, cursor ≤ frame → frame < totalFrames → isFree frame = false
    | some (startFrame, endFrame) => IsRun isFree totalFrames cursor startFrame endFrame := by
  obtain ⟨start_ge, start_le, skipped, start_stop⟩ := Allocator.advance_spec totalFrames
    (fun frame => !isFree frame) (show totalFrames - cursor ≤ totalFrames by omega) inside
  rw [nextRun]
  set start := Allocator.advance totalFrames (fun frame => !isFree frame) totalFrames cursor
  by_cases beyond : start ≥ totalFrames
  · rw [if_pos beyond]
    exact fun frame lower upper => by simpa using skipped frame lower (by omega)
  · rw [if_neg beyond]
    obtain ⟨end_ge, end_le, taken, end_stop⟩ := Allocator.advance_spec totalFrames isFree
      (show totalFrames - start ≤ totalFrames by omega) start_le
    have start_free : isFree start = true := by simpa using start_stop (by omega)
    refine ⟨start_ge, ?_, end_le, fun frame lower upper => by simpa using skipped frame lower upper,
      taken, end_stop⟩
    by_contra not_gt
    have same : Allocator.advance totalFrames isFree totalFrames start = start := by omega
    rw [same] at end_stop
    rw [end_stop (by omega)] at start_free
    cases start_free

theorem nextRun_eq_none (inside : cursor ≤ totalFrames) :
    nextRun isFree totalFrames cursor = none ↔
      ∀ frame, cursor ≤ frame → frame < totalFrames → isFree frame = false := by
  have spec := @nextRun_spec isFree _ _ inside
  constructor
  · intro none_eq
    rwa [none_eq] at spec
  · intro used
    cases found : nextRun isFree totalFrames cursor with
    | none => rfl
    | some run =>
        rw [found] at spec
        have free := spec.inside run.1 (Nat.le_refl _) spec.nonempty
        have bound := spec.nonempty.trans_le spec.end_le
        rw [used run.1 spec.start_ge bound] at free
        cases free

theorem nextRun_eq_some (inside : cursor ≤ totalFrames) :
    nextRun isFree totalFrames cursor = some (startFrame, endFrame) ↔
      IsRun isFree totalFrames cursor startFrame endFrame := by
  have spec := @nextRun_spec isFree _ _ inside
  constructor
  · intro some_eq
    rwa [some_eq] at spec
  · intro run
    cases found : nextRun isFree totalFrames cursor with
    | none =>
        rw [found] at spec
        have bound := run.nonempty.trans_le run.end_le
        have free := run.inside startFrame (Nat.le_refl _) run.nonempty
        rw [spec startFrame run.start_ge bound] at free
        cases free
    | some run' =>
        rw [found] at spec
        obtain ⟨start_eq, end_eq⟩ := spec.unique run
        rw [← start_eq, ← end_eq]

/-- A memory and a bitmap have the same next run if and only if the frames up to its end read the
same. -/
theorem nextRun_same (inside : cursor ≤ totalFrames)
    (run : IsRun isFree totalFrames cursor startFrame endFrame) :
    nextRun other totalFrames cursor = some (startFrame, endFrame) ↔
      ∀ frame, cursor ≤ frame → frame ≤ endFrame → frame < totalFrames →
        other frame = isFree frame := by
  rw [nextRun_eq_some inside]
  constructor
  · intro run' frame lower upper below
    by_cases early : frame < startFrame
    · rw [run.before frame lower early, run'.before frame lower early]
    · by_cases within : frame < endFrame
      · rw [run.inside frame (by omega) within, run'.inside frame (by omega) within]
      · obtain rfl : frame = endFrame := by omega
        rw [run.behind below, run'.behind below]
  · intro same
    have bound := run.end_le
    have nonempty := run.nonempty
    refine ⟨run.start_ge, nonempty, bound, fun frame lower upper => ?_,
      fun frame lower upper => ?_, fun below => ?_⟩
    · rw [same frame lower (by omega) (by omega), run.before frame lower upper]
    · have above := run.start_ge
      rw [same frame (by omega) (by omega) (by omega), run.inside frame lower upper]
    · have above := run.start_ge
      rw [same endFrame (by omega) (Nat.le_refl _) below, run.behind below]

theorem seedBlocks_eq (fuel cursor : Nat) :
    Allocator.seedBlocks isFree totalFrames fuel cursor =
      (freeRuns isFree totalFrames fuel cursor).flatMap fun (startFrame, endFrame) =>
        Allocator.runBlocks endFrame (endFrame - startFrame) startFrame := by
  induction fuel generalizing cursor with
  | zero => rfl
  | succ fuel ih =>
      rw [Allocator.seedBlocks, freeRuns]
      split
      next =>
        rw [nextRun]
        dsimp only
        split
        next => rfl
        next =>
          dsimp only
          rw [List.flatMap_cons, ih]
      next => rfl

end Runs

/-! ## Freeing blocks that have no listed buddy -/

/-- The buddy of a block that may merge has an entry in the table. -/
def BuddyInside (pfndbLen : Nat) (block : DyadicBlock) : Prop :=
  block.order < ORDER_MAX → block.base ^^^ 2 ^ block.order < pfndbLen

/-- The lists hold some of the blocks that are to be freed, and the rest is still to be freed. -/
structure Listing (managed : Set Nat) (seeds blocks : List DyadicBlock) (boot : BootMemory)
    (lists : Nat → List Nat) : Prop where
  clear : Clear managed boot
  zero_not_mem : 0 ∉ managed
  holds : Allocator.Holds managed (view managed boot) lists blocks
  notFree : Allocator.HeadsNotFree (view managed boot) blocks
  coalesced : Coalesced ORDER_MAX seeds
  listed : Allocator.freeBlocks lists ⊆ seeds
  remaining : blocks ⊆ seeds

section Freeing

variable {managed : Set Nat} {seeds blocks : List DyadicBlock} {boot : BootMemory}
  {lists : Nat → List Nat} {block : DyadicBlock}

theorem Listing.reaches (listing : Listing managed seeds blocks boot lists) :
    Allocator.Reaches managed boot.pfndbLen :=
  ⟨listing.zero_not_mem, listing.clear.inside⟩

theorem Listing.head_managed (listing : Listing managed seeds blocks boot lists) {order : Nat}
    (order_le : order ≤ ORDER_MAX) :
    boot.freelist order = 0 ∨
      ∃ frame ∈ managed, boot.freelist order = frame * NORMAL_PAGE_SIZE := by
  by_cases empty : boot.freelist order = 0
  · exact .inl empty
  · obtain ⟨rest, list_eq⟩ := listing.holds.free.head_cons order_le empty
    have mem : boot.freelist order ∈ lists order := by
      rw [list_eq]
      exact List.mem_cons_self
    have page := listing.holds.free.page_of_mem order_le mem
    have listed : (⟨boot.freelist order / NORMAL_PAGE_SIZE, order⟩ : DyadicBlock) ∈
        Allocator.freeBlocks lists :=
      Allocator.mem_freeBlocks.mpr ⟨order_le, _, mem, rfl⟩
    exact .inr ⟨_, listing.holds.tiles.covered (List.mem_append_left _ listed) (covers_base _),
      page.symm⟩

/-- Freeing the next block lists it, if the table has an entry for its buddy. -/
theorem Listing.freeOrder_eq (listing : Listing managed seeds (block :: blocks) boot lists)
    (after : BootMemory) :
    boot.freeOrder (block.base * NORMAL_PAGE_SIZE) block.order = .ok after ↔
      BuddyInside boot.pfndbLen block ∧
        after = boot.list (block.base * NORMAL_PAGE_SIZE) block.order := by
  have order_le := listing.holds.order_le block List.mem_cons_self
  have base_mem := listing.holds.managed_of_covers List.mem_cons_self (covers_base block)
  have base_lt : block.base < boot.pfndbLen := listing.clear.inside _ base_mem
  have entry_eq {pfn : Nat} (lt : pfn < boot.pfndbLen) :
      boot.entry pfn = (view managed boot).pfndb pfn := (if_pos lt).symm
  have push_eq : boot.pushBlock (block.base * NORMAL_PAGE_SIZE) block.order =
      .ok (boot.list (block.base * NORMAL_PAGE_SIZE) block.order) := by
    rw [pushBlock, Allocator.mul_page_div, frame, if_pos base_lt]
    exact if_neg (Nat.not_lt.mpr order_le)
  have notFree : ¬ (boot.entry block.base).flags &&& PF_FREE ≠ 0 := by
    rw [entry_eq base_lt, listing.notFree block List.mem_cons_self]
    exact fun ne => ne rfl
  rw [freeOrder, Allocator.mul_page_div, frame, if_pos base_lt]
  simp only [bind, Except.bind, if_neg notFree]
  by_cases largest : block.order = ORDER_MAX
  · rw [largest, Nat.sub_self, coalesce]
    rw [largest] at push_eq
    simp only [push_eq, Except.ok.injEq, BuddyInside, largest, lt_irrefl, false_implies, true_and,
      eq_comm]
  · have order_lt : block.order < ORDER_MAX := by omega
    obtain ⟨remaining, fuel_eq⟩ : ∃ remaining, ORDER_MAX - block.order = remaining + 1 :=
      ⟨ORDER_MAX - block.order - 1, by omega⟩
    rw [fuel_eq, coalesce, Allocator.page_xor, Allocator.mul_page_div, frame]
    by_cases inside : block.base ^^^ 2 ^ block.order < boot.pfndbLen
    · have alone : ¬ ((boot.entry (block.base ^^^ 2 ^ block.order)).flags &&&
          (PF_FREE ||| PF_BUDDY_HEAD) = PF_FREE ||| PF_BUDDY_HEAD ∧
          block.order % 2 ^ 16 = (boot.entry (block.base ^^^ 2 ^ block.order)).buddyOrder) := by
        rintro ⟨flags, order_eq⟩
        have order_small : block.order % 2 ^ 16 = block.order := by
          have max_eq : ORDER_MAX = 11 := rfl
          omega
        rw [entry_eq inside] at flags order_eq
        rw [order_small] at order_eq
        have listed := (listing.holds.free.listed_of_flags inside flags order_eq).1
        have buddy_mem : block.buddy ∈ Allocator.freeBlocks lists :=
          (listing.holds.free.mem_iff order_le).mpr listed
        exact listing.coalesced block (listing.remaining List.mem_cons_self) order_lt
          (listing.listed buddy_mem)
      rw [if_pos inside]
      simp only [bind, Except.bind, if_neg alone, push_eq, Except.ok.injEq]
      exact ⟨fun same => ⟨fun _ => inside, same.symm⟩, fun same => same.2.symm⟩
    · rw [if_neg inside]
      constructor
      · rintro ⟨⟩
      · exact fun same => absurd (same.1 order_lt) inside

/-- The next block goes from those to be freed to the lists. -/
theorem Listing.list (listing : Listing managed seeds (block :: blocks) boot lists) :
    ∃ lists', Listing managed seeds blocks
      (boot.list (block.base * NORMAL_PAGE_SIZE) block.order) lists' := by
  have order_le := listing.holds.order_le block List.mem_cons_self
  have base_mem := listing.holds.managed_of_covers List.mem_cons_self (covers_base block)
  obtain ⟨after, lists', push_eq, holds, -, kept, perm, -⟩ :=
    Allocator.pushBlock_spec listing.reaches listing.holds
  have after_eq := view_list listing.clear base_mem order_le (listing.head_managed order_le)
  rw [push_eq] at after_eq
  obtain rfl := Except.ok.inj after_eq
  refine ⟨lists', listing.clear.list _ _, listing.zero_not_mem, holds, fun other mem => ?_,
    listing.coalesced, ?_, fun other mem => listing.remaining (List.mem_cons_of_mem _ mem)⟩
  · rw [kept other mem]
    exact listing.notFree other (List.mem_cons_of_mem _ mem)
  · intro other mem
    rcases List.mem_cons.mp (perm.subset mem) with rfl | old
    · exact listing.remaining List.mem_cons_self
    · exact listing.listed old

/-- Free a sequence of blocks. -/
def freeAll (boot : BootMemory) : List DyadicBlock → Kernel BootMemory
  | [] => .ok boot
  | block :: blocks => do
      let boot ← boot.freeOrder (block.base * NORMAL_PAGE_SIZE) block.order
      boot.freeAll blocks

theorem seedRun_eq (endFrame fuel startFrame : Nat) (boot : BootMemory) :
    seedRun endFrame fuel boot startFrame =
      boot.freeAll (Allocator.runBlocks endFrame fuel startFrame) := by
  induction fuel generalizing boot startFrame with
  | zero => rfl
  | succ fuel ih =>
      rw [seedRun, Allocator.runBlocks]
      split
      · simp only [freeAll, ih]
      · rfl

theorem listAll_append (boot : BootMemory) (front back : List DyadicBlock) :
    boot.listAll (front ++ back) = (boot.listAll front).listAll back := by
  induction front generalizing boot with
  | nil => rfl
  | cons block front ih => exact ih _

@[simp] theorem listAll_pfndbLen (boot : BootMemory) (blocks : List DyadicBlock) :
    (boot.listAll blocks).pfndbLen = boot.pfndbLen := by
  induction blocks generalizing boot with
  | nil => rfl
  | cons block blocks ih => rw [listAll, ih, list_pfndbLen]

/-- Freeing blocks lists them, if the table has entries for their buddies. -/
theorem Listing.freeAll_eq {front back : List DyadicBlock} (after : BootMemory)
    (listing : Listing managed seeds (front ++ back) boot lists) :
    boot.freeAll front = .ok after ↔
      (∀ block ∈ front, BuddyInside boot.pfndbLen block) ∧ after = boot.listAll front := by
  induction front generalizing boot lists with
  | nil => simp [freeAll, listAll, eq_comm]
  | cons block front ih =>
      have first_iff := fun middle => @Listing.freeOrder_eq _ _ _ _ _ _ listing middle
      obtain ⟨lists', later⟩ := Listing.list listing
      have rest_iff := ih later
      rw [list_pfndbLen] at rest_iff
      rw [freeAll, bind_eq_ok]
      constructor
      · rintro ⟨middle, first_eq, rest_eq⟩
        obtain ⟨inside, rfl⟩ := (first_iff middle).mp first_eq
        obtain ⟨all_inside, rfl⟩ := rest_iff.mp rest_eq
        exact ⟨List.forall_mem_cons.mpr ⟨inside, all_inside⟩, rfl⟩
      · rintro ⟨all_inside, rfl⟩
        obtain ⟨inside, rest_inside⟩ := List.forall_mem_cons.mp all_inside
        exact ⟨_, (first_iff _).mpr ⟨inside, rfl⟩, rest_iff.mpr ⟨rest_inside, rfl⟩⟩

theorem Listing.listAll {front back : List DyadicBlock}
    (listing : Listing managed seeds (front ++ back) boot lists) :
    ∃ lists', Listing managed seeds back (boot.listAll front) lists' := by
  induction front generalizing boot lists with
  | nil => exact ⟨lists, listing⟩
  | cons block front ih =>
      obtain ⟨lists', later⟩ := Listing.list listing
      exact ih later

/-- `seed` returns, and frees the runs of the bitmap, if and only if the memory is legible and the
table has entries for all buddies. -/
theorem Listing.seed_eq {bitmapAddr totalFrames fuel cursor : Nat} {isFree : Nat → Bool}
    (after : BootMemory)
    (listing : Listing managed seeds (Allocator.seedBlocks isFree totalFrames fuel cursor) boot
      lists) :
    seed bitmapAddr totalFrames fuel boot cursor = .ok after ∧
        runs bitmapAddr totalFrames fuel boot cursor = freeRuns isFree totalFrames fuel cursor ↔
      (Legible bitmapAddr totalFrames isFree fuel boot cursor ∧
        ∀ block ∈ Allocator.seedBlocks isFree totalFrames fuel cursor,
          BuddyInside boot.pfndbLen block) ∧
        after = boot.listAll (Allocator.seedBlocks isFree totalFrames fuel cursor) := by
  induction fuel generalizing boot cursor lists with
  | zero => simp [seed, runs, freeRuns, Legible, Allocator.seedBlocks, BootMemory.listAll, eq_comm]
  | succ fuel ih =>
      rw [seedBlocks_eq] at listing ⊢
      rw [seed, runs, freeRuns, Legible]
      rw [freeRuns] at listing
      by_cases inside : cursor < totalFrames
      · simp only [forall_const, if_pos, inside] at listing ⊢
        have spec := @nextRun_spec isFree _ _ inside.le
        cases found : nextRun isFree totalFrames cursor with
        | none =>
            rw [found] at spec
            have same_iff : nextRun (boot.isFree bitmapAddr) totalFrames cursor = none ↔
                ∀ frame, cursor ≤ frame → frame < totalFrames →
                  boot.isFree bitmapAddr frame = isFree frame := by
              rw [nextRun_eq_none inside.le]
              exact forall₃_congr fun frame lower upper => by rw [spec frame lower upper]
            rw [← same_iff]
            cases nextRun (boot.isFree bitmapAddr) totalFrames cursor with
            | none => simp [BootMemory.listAll, eq_comm]
            | some run => simp
        | some run =>
            obtain ⟨startFrame, endFrame⟩ := run
            rw [found] at listing
            have same_iff := @nextRun_same _ (boot.isFree bitmapAddr) _ _ _ _ inside.le
              ((nextRun_eq_some inside.le).mp found)
            dsimp only at listing ⊢
            rw [List.flatMap_cons] at listing ⊢
            rw [← seedBlocks_eq] at listing ⊢
            obtain ⟨lists', later⟩ := Listing.listAll listing
            have freed_iff := fun middle => Listing.freeAll_eq middle listing
            have rest_iff := ih later
            rw [listAll_pfndbLen] at rest_iff
            rw [← same_iff, listAll_append, List.forall_mem_append]
            cases found' : nextRun (boot.isFree bitmapAddr) totalFrames cursor with
            | none => simp
            | some run' =>
                obtain ⟨startFrame', endFrame'⟩ := run'
                dsimp only
                rw [List.cons.injEq, Option.some.injEq, seedRun_eq]
                constructor
                · rintro ⟨run_eq, same, rest_same⟩
                  obtain ⟨rfl, rfl⟩ := Prod.mk.inj same
                  obtain ⟨middle, freed_eq, rest_eq⟩ := bind_eq_ok.mp run_eq
                  rw [freed_eq] at rest_same
                  obtain ⟨buddies, rfl⟩ := (freed_iff middle).mp freed_eq
                  obtain ⟨⟨legible, later_buddies⟩, after_eq⟩ := rest_iff.mp ⟨rest_eq, rest_same⟩
                  exact ⟨⟨⟨rfl, legible⟩, buddies, later_buddies⟩, after_eq⟩
                · rintro ⟨⟨⟨same, legible⟩, buddies, later_buddies⟩, after_eq⟩
                  obtain ⟨rfl, rfl⟩ := Prod.mk.inj same
                  have freed_eq := (freed_iff _).mpr ⟨buddies, rfl⟩
                  obtain ⟨rest_eq, rest_same⟩ := rest_iff.mpr ⟨⟨legible, later_buddies⟩, after_eq⟩
                  rw [freed_eq]
                  exact ⟨rest_eq, rfl, rest_same⟩
      · simp [inside, BootMemory.listAll, eq_comm]

/-- A legible memory is freed by the runs of the bitmap. -/
theorem Listing.runs_eq {bitmapAddr totalFrames fuel cursor : Nat} {isFree : Nat → Bool}
    {after : BootMemory}
    (listing : Listing managed seeds (Allocator.seedBlocks isFree totalFrames fuel cursor) boot
      lists)
    (legible : Legible bitmapAddr totalFrames isFree fuel boot cursor)
    (seed_eq : seed bitmapAddr totalFrames fuel boot cursor = .ok after) :
    runs bitmapAddr totalFrames fuel boot cursor = freeRuns isFree totalFrames fuel cursor := by
  induction fuel generalizing boot cursor lists with
  | zero => rfl
  | succ fuel ih =>
      rw [seedBlocks_eq] at listing
      rw [seed] at seed_eq
      rw [Legible] at legible
      rw [runs, freeRuns]
      rw [freeRuns] at listing
      by_cases inside : cursor < totalFrames
      · simp only [forall_const, if_pos, inside] at listing legible seed_eq ⊢
        have spec := @nextRun_spec isFree _ _ inside.le
        cases found : nextRun isFree totalFrames cursor with
        | none =>
            rw [found] at spec legible
            have none_eq : nextRun (boot.isFree bitmapAddr) totalFrames cursor = none := by
              rw [nextRun_eq_none inside.le]
              intro frame lower upper
              rw [legible frame lower upper, spec frame lower upper]
            rw [none_eq]
        | some run =>
            obtain ⟨startFrame, endFrame⟩ := run
            rw [found] at listing legible
            have same_eq := (@nextRun_same _ (boot.isFree bitmapAddr) _ _ _ _ inside.le
              ((nextRun_eq_some inside.le).mp found)).mpr legible.1
            dsimp only at listing ⊢
            rw [List.flatMap_cons, ← seedBlocks_eq] at listing
            rw [same_eq] at seed_eq ⊢
            obtain ⟨middle, freed_eq, rest_eq⟩ := bind_eq_ok.mp seed_eq
            dsimp only
            rw [freed_eq]
            rw [seedRun_eq] at freed_eq
            obtain ⟨-, rfl⟩ := (Listing.freeAll_eq middle listing).mp freed_eq
            obtain ⟨lists', later⟩ := Listing.listAll listing
            exact congrArg _ (ih later legible.2 rest_eq)
      · simp [inside]

end Freeing

/-! ## Bitmaps whose bytes are overwritten late -/

section Late

variable {boot : BootMemory} {isFree : Nat → Bool} {bitmapAddr totalFrames : Nat}

/-- Neither the table nor the list words of free frames lie over bytes of the bitmap that are read
later. -/
structure Late (boot : BootMemory) (isFree : Nat → Bool) (bitmapAddr totalFrames : Nat) : Prop where
  table : ∀ frame < totalFrames, bitmapAddr + frame / 8 < boot.pfndbAddr ∨
    boot.pfndbAddr + boot.pfndbLen * PAGE_FRAME_SIZE ≤ bitmapAddr + frame / 8
  words : ∀ head < totalFrames, isFree head = true → ∀ frame < totalFrames,
    head * NORMAL_PAGE_SIZE ≤ bitmapAddr + frame / 8 →
      bitmapAddr + frame / 8 < head * NORMAL_PAGE_SIZE + 16 → frame ≤ head

/-- The lists start at free frames in front of the cursor. -/
def HeadsBefore (boot : BootMemory) (isFree : Nat → Bool) (totalFrames cursor : Nat) : Prop :=
  ∀ order, boot.freelist order = 0 ∨ ∃ head < cursor, head < totalFrames ∧ isFree head = true ∧
    boot.freelist order = head * NORMAL_PAGE_SIZE

/-- Listing a block writes to its entry, to its words and to those of the head of the list. -/
theorem list_bytes {addr place order : Nat}
    (entry : place < boot.entryAddr (addr / NORMAL_PAGE_SIZE) ∨
      boot.entryAddr (addr / NORMAL_PAGE_SIZE) + 8 ≤ place)
    (words : place < addr ∨ addr + 16 ≤ place)
    (head : boot.freelist order = 0 ∨ place < boot.freelist order ∨
      boot.freelist order + 16 ≤ place) :
    (boot.list addr order).bytes place = boot.bytes place := by
  have first : (boot.setFrame (addr / NORMAL_PAGE_SIZE)
      ⟨0, PF_FREE ||| PF_BUDDY_HEAD, order % 2 ^ 16⟩).bytes place = boot.bytes place := by
    apply Memory.write_outside
    rwa [length_pageFrame_bytes]
  have second : ((boot.setFrame (addr / NORMAL_PAGE_SIZE)
      ⟨0, PF_FREE ||| PF_BUDDY_HEAD, order % 2 ^ 16⟩).setBlock addr
        ⟨0, boot.freelist order⟩).bytes place = boot.bytes place := by
    refine Eq.trans ?_ first
    apply Memory.write_outside
    rwa [length_freeBlock_bytes]
  rw [list, setHead, setPrevAt]
  dsimp only
  split
  next present =>
    refine Eq.trans ?_ second
    apply Memory.write_outside
    have apart := head.resolve_left present
    rw [Bytes.length_ofNat]
    exact apart.imp_right fun le => by dsimp only [setFrame, store_freelist] at le ⊢; omega
  next => exact second

theorem list_freelist (addr order : Nat) :
    (boot.list addr order).freelist = Function.update boot.freelist order addr := by
  rw [list, setHead, setPrevAt]
  split <;> rfl

/-- Listing free frames in front of a frame does not change what is read from there on. -/
theorem HeadsBefore.listAll {blocks : List DyadicBlock} {endFrame : Nat}
    (heads : HeadsBefore boot isFree totalFrames endFrame)
    (late : Late boot isFree bitmapAddr totalFrames)
    (inside : ∀ block ∈ blocks, block.base < endFrame ∧ block.base < totalFrames ∧
      isFree block.base = true)
    (tabled : ∀ block ∈ blocks, block.base < boot.pfndbLen) :
    HeadsBefore (boot.listAll blocks) isFree totalFrames endFrame ∧
      Late (boot.listAll blocks) isFree bitmapAddr totalFrames ∧
      ∀ frame, endFrame ≤ frame → frame < totalFrames →
        (boot.listAll blocks).isFree bitmapAddr frame = boot.isFree bitmapAddr frame := by
  induction blocks generalizing boot with
  | nil => exact ⟨heads, late, fun _ _ _ => rfl⟩
  | cons block blocks ih =>
      obtain ⟨⟨base_lt, base_inside, base_free⟩, later⟩ := List.forall_mem_cons.mp inside
      obtain ⟨base_tabled, later_tabled⟩ := List.forall_mem_cons.mp tabled
      have heads' : HeadsBefore (boot.list (block.base * NORMAL_PAGE_SIZE) block.order) isFree
          totalFrames endFrame := by
        intro order
        rw [list_freelist]
        by_cases same : order = block.order
        · rw [same, Function.update_self]
          exact .inr ⟨block.base, base_lt, base_inside, base_free, rfl⟩
        · rw [Function.update_of_ne same]
          exact heads order
      have late' : Late (boot.list (block.base * NORMAL_PAGE_SIZE) block.order) isFree bitmapAddr
          totalFrames := by
        refine ⟨?_, late.words⟩
        rw [list_pfndbAddr, list_pfndbLen]
        exact late.table
      rw [← list_pfndbLen (block.base * NORMAL_PAGE_SIZE) block.order] at later_tabled
      obtain ⟨heads'', late'', kept⟩ := ih heads' late' later later_tabled
      refine ⟨heads'', late'', fun frame lower upper => (kept frame lower upper).trans ?_⟩
      -- The byte of a frame that is still to be read is in none of the places written to.
      have outside_words : ∀ head < endFrame, head < totalFrames → isFree head = true →
          bitmapAddr + frame / 8 < head * NORMAL_PAGE_SIZE ∨
            head * NORMAL_PAGE_SIZE + 16 ≤ bitmapAddr + frame / 8 := by
        intro head head_lt head_inside head_free
        by_contra! within
        have le := late.words head head_inside head_free frame upper within.1 within.2
        omega
      have byte_eq : (boot.list (block.base * NORMAL_PAGE_SIZE) block.order).bytes
          (bitmapAddr + frame / 8) = boot.bytes (bitmapAddr + frame / 8) := by
        apply list_bytes
        · have outside := late.table frame upper
          rw [Allocator.mul_page_div, entryAddr]
          unfold PAGE_FRAME_SIZE at *
          omega
        · exact outside_words block.base base_lt base_inside base_free
        · obtain empty | ⟨head, head_lt, head_inside, head_free, head_eq⟩ := heads block.order
          · exact .inl empty
          · rw [head_eq]
            exact .inr (outside_words head head_lt head_inside head_free)
      rw [BootMemory.isFree, byte_eq, BootMemory.isFree]

/-- A memory that shows the bitmap is legible if its bytes are overwritten late only. -/
theorem Late.legible (late : Late boot isFree bitmapAddr totalFrames) {fuel cursor : Nat}
    (heads : HeadsBefore boot isFree totalFrames cursor)
    (shown : ∀ frame, cursor ≤ frame → frame < totalFrames →
      boot.isFree bitmapAddr frame = isFree frame)
    (tabled : totalFrames ≤ boot.pfndbLen) :
    Legible bitmapAddr totalFrames isFree fuel boot cursor := by
  induction fuel generalizing boot cursor with
  | zero => trivial
  | succ fuel ih =>
      intro inside
      have spec := @nextRun_spec isFree _ _ inside.le
      cases found : nextRun isFree totalFrames cursor with
      | none => exact shown
      | some run =>
          obtain ⟨startFrame, endFrame⟩ := run
          rw [found] at spec
          have start_ge := spec.start_ge
          have nonempty := spec.nonempty
          have end_le := spec.end_le
          have bases (block : DyadicBlock) (mem : block ∈
              Allocator.runBlocks endFrame (endFrame - startFrame) startFrame) :
              startFrame ≤ block.base ∧ block.base < endFrame := by
            have owned : 0 < owners (Allocator.runBlocks endFrame (endFrame - startFrame)
                startFrame) block.base := pos_owners_iff.mpr ⟨block, mem, covers_base block⟩
            rw [Allocator.owners_runBlocks (Nat.le_refl _)] at owned
            split at owned
            next within => exact within
            next => cases owned
          have heads' : HeadsBefore boot isFree totalFrames endFrame := fun order =>
            (heads order).imp_right fun ⟨head, head_lt, rest⟩ => ⟨head, by omega, rest⟩
          obtain ⟨heads'', late'', kept⟩ := heads'.listAll late
            (fun block mem => ⟨(bases block mem).2, by have := (bases block mem).2; omega,
              spec.inside block.base (bases block mem).1 (bases block mem).2⟩)
            (fun block mem => by have := (bases block mem).2; omega)
          refine ⟨fun frame lower _ upper => shown frame lower upper,
            ih late'' heads'' (fun frame lower upper => ?_) ?_⟩
          · rw [kept frame lower upper]
            exact shown frame (by omega) upper
          · rwa [listAll_pfndbLen]

end Late

/-! ## The memory that `init` starts from -/

section Placed

theorem setFrames_spec (boot : BootMemory) (count : Nat) :
    ∃ after, (List.range count).foldl (fun boot pfn =>
        boot.setFrame pfn { refcount := 1, flags := PF_KERNEL, buddyOrder := 0 }) boot = after ∧
      after.freelist = boot.freelist ∧ after.pfndbAddr = boot.pfndbAddr ∧
      after.pfndbLen = boot.pfndbLen ∧
      (∀ pfn < count, after.entry pfn = { refcount := 1, flags := PF_KERNEL, buddyOrder := 0 }) ∧
      ∀ place, place < boot.pfndbAddr ∨ boot.pfndbAddr + count * PAGE_FRAME_SIZE ≤ place →
        after.bytes place = boot.bytes place := by
  induction count with
  | zero => exact ⟨boot, rfl, rfl, rfl, rfl, nofun, fun _ _ => rfl⟩
  | succ count ih =>
      obtain ⟨after, fold_eq, freelist_eq, addr_eq, len_eq, entries, kept⟩ := ih
      refine ⟨_, rfl, ?_⟩
      rw [List.range_succ, List.foldl_append, fold_eq, List.foldl_cons, List.foldl_nil]
      refine ⟨freelist_eq, addr_eq, len_eq, fun pfn below => ?_, fun place outside => ?_⟩
      · by_cases last : pfn = count
        · rw [last]
          exact entry_setFrame (by decide) (by decide) (by decide)
        · rw [← entries pfn (by omega)]
          apply entry_store_apart
          rw [length_pageFrame_bytes, entryAddr, entryAddr]
          unfold PAGE_FRAME_SIZE
          omega
      · have apart : place < after.entryAddr count ∨ after.entryAddr count + 8 ≤ place := by
          rw [entryAddr, addr_eq]
          unfold PAGE_FRAME_SIZE at *
          omega
        rw [← kept place (by unfold PAGE_FRAME_SIZE at *; omega)]
        apply Memory.write_outside
        rwa [length_pageFrame_bytes]

variable (memory : Memory) (left : BitmapPMM) (metaFrameIdx totalPages : Nat)

theorem placed_spec :
    (placed memory left metaFrameIdx totalPages).freelist = (fun _ => 0) ∧
      (placed memory left metaFrameIdx totalPages).pfndbAddr =
        metaFrameIdx * NORMAL_PAGE_SIZE ∧
      (placed memory left metaFrameIdx totalPages).pfndbLen = totalPages ∧
      (∀ pfn < totalPages, (placed memory left metaFrameIdx totalPages).entry pfn =
        { refcount := 1, flags := PF_KERNEL, buddyOrder := 0 }) ∧
      ∀ place, place < metaFrameIdx * NORMAL_PAGE_SIZE ∨
          metaFrameIdx * NORMAL_PAGE_SIZE + totalPages * PAGE_FRAME_SIZE ≤ place →
        (placed memory left metaFrameIdx totalPages).bytes place =
          memory.write left.bitmapAddr left.bytes place := by
  obtain ⟨after, fold_eq, spec⟩ := setFrames_spec ⟨memory.write left.bitmapAddr left.bytes,
    fun _ => 0, metaFrameIdx * NORMAL_PAGE_SIZE, totalPages⟩ totalPages
  rw [placed, fillTable, fold_eq]
  exact spec

/-- The allocator is fresh. -/
theorem view_placed (managed : Set Nat) :
    ∃ words, view managed (placed memory left metaFrameIdx totalPages) =
      Allocator.fresh words totalPages := by
  obtain ⟨freelist_eq, -, len_eq, entries, -⟩ :=
    placed_spec memory left metaFrameIdx totalPages
  refine ⟨(view managed (placed memory left metaFrameIdx totalPages)).memory, ?_⟩
  rw [Allocator.fresh]
  simp only [view, Allocator.mk.injEq, freelist_eq, len_eq, true_and, and_true]
  funext pfn
  split
  next below => exact entries pfn below
  next => rfl

/-- A byte of the bitmap that the table does not cover is read as it is. -/
theorem isFree_placed {frame : Nat} (inside : frame / 8 < left.bitmapLen)
    (apart : left.bitmapAddr + frame / 8 < metaFrameIdx * NORMAL_PAGE_SIZE ∨
      metaFrameIdx * NORMAL_PAGE_SIZE + totalPages * PAGE_FRAME_SIZE ≤
        left.bitmapAddr + frame / 8) :
    (placed memory left metaFrameIdx totalPages).isFree left.bitmapAddr frame =
      left.isFree frame := by
  obtain ⟨-, -, -, -, kept⟩ := placed_spec memory left metaFrameIdx totalPages
  have byte_eq : memory.write left.bitmapAddr left.bytes (left.bitmapAddr + frame / 8) =
      UInt8.ofNat (left.bitmap (frame / 8)) := by
    rw [Memory.write, if_pos (Nat.le_add_right _ _), Nat.add_sub_cancel_left, BitmapPMM.bytes,
      List.getElem?_eq_getElem (by simpa using inside), Option.getD_some, List.getElem_map,
      List.getElem_range]
  have bit_lt : frame % 8 < 8 := Nat.mod_lt _ (by decide)
  rw [isFree, kept _ apart, byte_eq, BitmapPMM.isFree, UInt8.toNat_ofNat', Nat.one_shiftLeft,
    Nat.and_two_pow, Nat.and_two_pow, Nat.testBit_mod_two_pow]
  simp [bit_lt]

end Placed

end BootMemory
end Vespertine
