import Vespertine.Memory.BootMemory

/-!
# The first free lists

`Allocator::init` takes the frames of its table from the boot bitmap and frees the runs of frames
that are left, block by block.  Address zero is the null pointer of the lists, so that a block that
starts there is lost; and a block that ends with the last frame looks for a buddy behind the end of
the table.  From every other memory map the lists come out coalesced, unless a byte of the bitmap is
read after the table or list words have been written over it.
-/

namespace Vespertine

open DyadicBlock

namespace Allocator

/-- Bytes of the table. -/
def pfndbSize (bitmap : BitmapPMM) : Nat := bitmap.maxAddr / NORMAL_PAGE_SIZE * PAGE_FRAME_SIZE

/-- Frames of the table. -/
def pfndbFrames (bitmap : BitmapPMM) : Nat := (pfndbSize bitmap + 4095) / NORMAL_PAGE_SIZE

/-- `Allocator::init` on the memory map of the boot loader, in a memory with any bytes. -/
def initFromMap (memory : Memory) (memMap : List MemmapEntry) : Kernel BootMemory := do
  let bitmap ← BitmapPMM.init memMap
  match ← bitmap.alloc (pfndbSize bitmap) with
  | none => .error .unwrapNone
  | some (metaFrameIdx, left) =>
      let boot := BootMemory.placed memory left metaFrameIdx (bitmap.maxAddr / NORMAL_PAGE_SIZE)
      BootMemory.seed left.bitmapAddr left.totalFrames (left.totalFrames + 1) boot 0

/-- The lists in memory hold exactly the given frames, in aligned blocks of which no two are
buddies. -/
structure ListsHold (boot : BootMemory) (frames : Set Nat) (lists : Nat → List Nat) : Prop where
  linked : ∀ order ≤ ORDER_MAX,
    (listLinks boot.block).IsList (pointer (boot.freelist order)) (lists order)
  aligned : ∀ order ≤ ORDER_MAX, ∀ addr ∈ lists order, NORMAL_PAGE_SIZE <<< order ∣ addr
  disjoint : (freeBlocks lists).Pairwise Apart
  union : ∀ frame, frame ∈ frames ↔ ∃ block ∈ freeBlocks lists, block.Covers frame
  merged : Merged lists

/-- Initialisation returns with lists of the frames that the bitmap marks free once the table has
been placed. -/
def BuildsLists (memory : Memory) (memMap : List MemmapEntry) : Prop :=
  ∃ bitmap metaFrameIdx left boot lists, BitmapPMM.init memMap = .ok bitmap ∧
    bitmap.alloc (pfndbSize bitmap) = .ok (some (metaFrameIdx, left)) ∧
    initFromMap memory memMap = .ok boot ∧
    ListsHold boot {frame | frame < left.totalFrames ∧ left.isFree frame = true} lists

/-- What a map means for the bitmap and the memory that the runs are freed from. -/
def Started (memory : Memory) (bitmap left : BitmapPMM) (boot : BootMemory) : Prop :=
  ∃ metaFrameIdx, bitmap.alloc (pfndbSize bitmap) = .ok (some (metaFrameIdx, left)) ∧
    boot = BootMemory.placed memory left metaFrameIdx (bitmap.maxAddr / NORMAL_PAGE_SIZE)

/-- The runs of frames that initialisation frees are those of the bitmap. -/
def FindsRuns (memory : Memory) (bitmap : BitmapPMM) : Prop :=
  ∃ left boot, Started memory bitmap left boot ∧
    BootMemory.runs left.bitmapAddr left.totalFrames (left.totalFrames + 1) boot 0 =
      BootMemory.freeRuns left.isFree left.totalFrames (left.totalFrames + 1) 0

/-- No bit of the bitmap is read after its byte has been overwritten with another value. -/
def Readable (memory : Memory) (bitmap : BitmapPMM) : Prop :=
  ∀ left boot, Started memory bitmap left boot →
    BootMemory.Legible left.bitmapAddr left.totalFrames left.isFree (left.totalFrames + 1) boot 0

/-! ## The end of the table -/

/-- The last frames are free and form a block whose buddy lies behind the end. -/
def EndsFree (total : Nat) (frames : Set Nat) : Prop :=
  ∃ order < ORDER_MAX, total % 2 ^ (order + 1) = 2 ^ order ∧
    ∀ frame < total, total - 2 ^ order ≤ frame → frame ∈ frames

/-- Every buddy is in the table unless the end is free. -/
theorem covers_of_not_endsFree {total : Nat} {frames : Set Nat} (zero_not_mem : 0 ∉ frames)
    (frame_lt : ∀ frame ∈ frames, frame < total) (not_ends : ¬ EndsFree total frames) :
    Covers frames total := by
  refine ⟨zero_not_mem, frame_lt, fun block order_lt aligned inside => ?_⟩
  have positive := Nat.two_pow_pos block.order
  rcases xor_two_pow_cases aligned with ⟨buddy_eq, divides⟩ | ⟨base_eq, -⟩
  · have last : block.Covers (block.base + 2 ^ block.order - 1) := ⟨by omega, by omega⟩
    have last_lt := frame_lt _ (inside _ last)
    by_contra! beyond
    have total_eq : total = block.base + 2 ^ block.order := by omega
    refine not_ends ⟨block.order, order_lt, ?_, fun frame lt ge =>
      inside frame ⟨by omega, by omega⟩⟩
    obtain ⟨index, base_eq⟩ := divides
    rw [total_eq, base_eq, Nat.mul_add_mod]
    exact Nat.mod_eq_of_lt (Nat.pow_lt_pow_right (by decide) (Nat.lt_succ_self _))
  · have base_lt := frame_lt _ (inside _ (covers_base block))
    omega

/-! ## The greedy decomposition -/

/-- Enough room is used whole. -/
theorem fitOrder_eq {order largest : Nat} (order_le : order ≤ largest) :
    fitOrder largest (2 ^ order) = order := by
  induction largest with
  | zero => exact (Nat.le_zero.mp order_le).symm
  | succ largest ih =>
      rw [fitOrder]
      rcases Nat.lt_or_eq_of_le order_le with lt | rfl
      · rw [if_pos (Nat.pow_lt_pow_right (by decide) lt), ih (Nat.le_of_lt_succ lt)]
      · rw [if_neg (Nat.lt_irrefl _)]

theorem le_trailingZeros {word bits : Nat} (divides : 2 ^ bits ∣ word) (bits_le : bits ≤ 64) :
    bits ≤ trailingZeros word := by
  rw [trailingZeros]
  cases found : (List.range 64).find? fun bit => word.testBit bit with
  | none => simpa using bits_le
  | some lowest =>
      rw [Option.getD_some]
      by_contra! lower
      have set : word.testBit lowest = true := by simpa using List.find?_some found
      obtain ⟨index, rfl⟩ := divides
      rw [Nat.testBit_two_pow_mul] at set
      simp [Nat.not_le.mpr lower] at set

/-- A block of a run starts inside it, fits, and is as large as it can be. -/
theorem mem_runBlocks {endFrame fuel startFrame : Nat} {block : DyadicBlock}
    (mem : block ∈ runBlocks endFrame fuel startFrame) :
    block.base + 2 ^ block.order ≤ endFrame ∧ block.order =
      fitOrder (min (trailingZeros block.base) ORDER_MAX) (endFrame - block.base) := by
  induction fuel generalizing startFrame with
  | zero => simp [runBlocks] at mem
  | succ fuel ih =>
      rw [runBlocks] at mem
      split at mem
      next inside =>
        rcases List.mem_cons.mp mem with rfl | later
        · refine ⟨?_, rfl⟩
          have fits := fitOrder_fits (min (trailingZeros startFrame) ORDER_MAX)
            (Nat.sub_pos_of_lt inside)
          dsimp only
          omega
        · exact ih later
      next => simp at mem

/-- A seeded block belongs to a run, which ends before a used frame or with the last one. -/
theorem mem_seedBlocks {isFree : Nat → Bool} {totalFrames fuel cursor : Nat} {block : DyadicBlock}
    (mem : block ∈ seedBlocks isFree totalFrames fuel cursor) :
    ∃ endFrame ≤ totalFrames, (endFrame < totalFrames → isFree endFrame = false) ∧
      block.base + 2 ^ block.order ≤ endFrame ∧ block.order =
        fitOrder (min (trailingZeros block.base) ORDER_MAX) (endFrame - block.base) := by
  induction fuel generalizing cursor with
  | zero => simp [seedBlocks] at mem
  | succ fuel ih =>
      rw [seedBlocks] at mem
      split at mem
      next inside =>
        dsimp only at mem
        split at mem
        next => simp at mem
        next more =>
          rcases List.mem_append.mp mem with here | later
          · have spec := advance_spec totalFrames isFree
              (show totalFrames - _ ≤ totalFrames by omega) (Nat.not_le.mp more).le
            exact ⟨_, spec.2.1, spec.2.2.2, mem_runBlocks here⟩
          · exact ih later
      next => simp at mem

/-- The block at the end would be a lower buddy. -/
theorem end_dvd {total order : Nat} (total_mod : total % 2 ^ (order + 1) = 2 ^ order) :
    2 ^ (order + 1) ∣ total - 2 ^ order := by
  have split := Nat.div_add_mod total (2 ^ (order + 1))
  rw [total_mod] at split
  exact ⟨total / 2 ^ (order + 1), by omega⟩

/-- A free end is seeded as one block. -/
theorem end_mem_seedBlocks {isFree : Nat → Bool} {total order : Nat} (order_lt : order < ORDER_MAX)
    (total_mod : total % 2 ^ (order + 1) = 2 ^ order)
    (free : ∀ frame < total, total - 2 ^ order ≤ frame → isFree frame = true) :
    ⟨total - 2 ^ order, order⟩ ∈ seedBlocks isFree total (total + 1) 0 := by
  have positive := Nat.two_pow_pos order
  have le : 2 ^ order ≤ total := total_mod ▸ Nat.mod_le _ _
  have base_dvd := end_dvd total_mod
  have owned := @owners_seedBlocks isFree total (total + 1) 0 (by omega) (total - 2 ^ order)
  rw [if_pos ⟨Nat.zero_le _, by omega, free _ (by omega) (Nat.le_refl _)⟩] at owned
  obtain ⟨block, mem, covers⟩ := pos_owners_iff.mp (owned ▸ Nat.one_pos)
  obtain ⟨aligned, order_le⟩ := seedBlocks_valid mem
  obtain ⟨endFrame, end_le, end_used, fits, order_eq⟩ := mem_seedBlocks mem
  have end_eq : endFrame = total := by
    by_contra ne
    have lt : endFrame < total := by omega
    have covers_lt := covers.2
    rw [free endFrame lt (by omega)] at end_used
    exact absurd (end_used lt) (by decide)
  -- a block that began earlier would reach behind the end
  have base_eq : block.base = total - 2 ^ order := by
    by_contra ne
    have base_lt : block.base < total - 2 ^ order := by have := covers.1; omega
    have larger : order + 1 < block.order := by
      by_contra! small
      have divides := (Nat.pow_dvd_pow 2 small).trans base_dvd
      have whole : (⟨total - 2 ^ order, block.order⟩ : DyadicBlock).Aligned := divides
      have same := aligned.eq_of_covers whole rfl covers (covers_base _)
      exact ne (congrArg DyadicBlock.base same)
    have part : (⟨total - 2 ^ order, order + 1⟩ : DyadicBlock).Aligned := base_dvd
    have last : (⟨total - 2 ^ order, order + 1⟩ : DyadicBlock).Covers total := by
      have weight := Nat.pow_succ 2 order
      exact ⟨by dsimp only; omega, by dsimp only; omega⟩
    have inside := part.covers_of_covers aligned larger.le (covers_base _) covers last
    have := inside.2
    omega
  have room : total - (total - 2 ^ order) = 2 ^ order := by omega
  have zeros : order ≤ min (trailingZeros (total - 2 ^ order)) ORDER_MAX := by
    have small : order + 1 ≤ 64 := by
      have max_eq : ORDER_MAX = 11 := rfl
      omega
    have := le_trailingZeros base_dvd small
    omega
  rw [end_eq, base_eq, room, fitOrder_eq zeros] at order_eq
  obtain ⟨base, found⟩ := block
  dsimp only at base_eq order_eq
  rwa [← base_eq, ← order_eq]

/-- At least the order that fits is chosen. -/
theorem le_fitOrder {order largest available : Nat} (order_le : order ≤ largest)
    (fits : 2 ^ order ≤ available) : order ≤ fitOrder largest available := by
  induction largest with
  | zero => exact order_le
  | succ largest ih =>
      rw [fitOrder]
      split
      next large =>
        refine ih (Nat.le_of_lt_succ (Nat.lt_of_le_of_ne order_le ?_))
        rintro rfl
        omega
      next => exact order_le

/-- A run is cut into blocks as large as they can be, so that no two of them are buddies. -/
theorem coalesced_seedBlocks (isFree : Nat → Bool) (total : Nat) :
    Coalesced ORDER_MAX (seedBlocks isFree total (total + 1) 0) := by
  have free {block : DyadicBlock} (mem : block ∈ seedBlocks isFree total (total + 1) 0)
      {frame : Nat} (covers : block.Covers frame) : frame < total ∧ isFree frame = true := by
    have owned := pos_owners_iff.mpr ⟨block, mem, covers⟩
    rw [owners_seedBlocks (by omega)] at owned
    split at owned
    next inside => exact inside.2
    next => cases owned
  -- it is enough to look at the lower of the two
  have upper_not_mem {base order : Nat}
      (mem : ⟨base, order⟩ ∈ seedBlocks isFree total (total + 1) 0)
      (order_lt : order < ORDER_MAX) (divides : 2 ^ (order + 1) ∣ base) :
      ⟨base + 2 ^ order, order⟩ ∉ seedBlocks isFree total (total + 1) 0 := by
    intro upper
    have weight := Nat.pow_succ 2 order
    obtain ⟨endFrame, end_le, end_used, fits, order_eq⟩ := mem_seedBlocks mem
    dsimp only at fits order_eq
    have positive := Nat.two_pow_pos order
    have covers_last : (⟨base + 2 ^ order, order⟩ : DyadicBlock).Covers
        (base + 2 ^ order + 2 ^ order - 1) := ⟨by dsimp only; omega, by dsimp only; omega⟩
    have last := free upper covers_last
    have room : 2 ^ (order + 1) ≤ endFrame - base := by
      by_contra! short
      have covers : (⟨base + 2 ^ order, order⟩ : DyadicBlock).Covers endFrame :=
        ⟨fits, by dsimp only; omega⟩
      have inside := free upper covers
      rw [end_used inside.1] at inside
      exact absurd inside.2 (by decide)
    have small : order + 1 ≤ 64 := by
      have max_eq : ORDER_MAX = 11 := rfl
      omega
    have zeros : order + 1 ≤ min (trailingZeros base) ORDER_MAX :=
      Nat.le_min.mpr ⟨le_trailingZeros divides small, order_lt⟩
    have larger := le_fitOrder zeros room
    omega
  rintro ⟨base, order⟩ mem order_lt buddy_mem
  have aligned := (seedBlocks_valid mem).1
  rw [buddy] at buddy_mem
  dsimp only at buddy_mem order_lt
  rcases xor_two_pow_cases aligned with ⟨buddy_eq, divides⟩ | ⟨base_eq, divides⟩
  · dsimp only at buddy_eq
    rw [buddy_eq] at buddy_mem
    exact upper_not_mem mem order_lt divides buddy_mem
  · dsimp only at base_eq
    rw [base_eq] at mem
    exact upper_not_mem buddy_mem order_lt divides mem

/-! ## The lists -/

theorem zero_not_segment {memory : Nat → FreeBlock} {head : Nat} {before : Option Nat}
    {nodes : List Nat} (head_eq : pointer head = nodes.head?)
    (segment : (listLinks memory).Segment before nodes none) : 0 ∉ nodes := by
  induction nodes generalizing head before with
  | nil => exact List.not_mem_nil
  | cons node rest ih =>
      obtain ⟨-, next_eq, later⟩ := segment
      have rest_eq : pointer (memory node).next = rest.head? := by
        rw [← Option.or_none (o := rest.head?)]
        exact next_eq
      have node_ne : node ≠ 0 := by
        rintro rfl
        rw [pointer] at head_eq
        split at head_eq
        next => cases head_eq
        next ne_zero => exact ne_zero (Option.some.inj head_eq)
      intro mem
      rcases List.mem_cons.mp mem with eq | tail
      · exact node_ne eq.symm
      · exact ih rest_eq later tail

/-- The null address is not listed, so that no block of the lists covers frame zero. -/
theorem ListsHold.zero_not_mem {boot : BootMemory} {frames : Set Nat} {lists : Nat → List Nat}
    (hold : ListsHold boot frames lists) : 0 ∉ frames := by
  intro free
  obtain ⟨block, mem, covers⟩ := (hold.union 0).mp free
  obtain ⟨order_le, addr, listed, base_eq⟩ := mem_freeBlocks.mp mem
  have page := page_mul_div (hold.aligned _ order_le addr listed)
  have base_zero : block.base = 0 := Nat.le_zero.mp covers.1
  have addr_zero : addr = 0 := by
    rw [← page, base_eq, base_zero, Nat.zero_mul]
  have list := hold.linked _ order_le
  exact zero_not_segment list.head_eq list.segment (addr_zero ▸ listed)

/-! ## The memory map -/

section MemoryMap

variable {memMap : List MemmapEntry} {bitmap : BitmapPMM}

/-- The frames left free by a table that starts at the given frame. -/
def LeftFree (bitmap : BitmapPMM) (start : Nat) : Set Nat :=
  {frame | frame < bitmap.totalFrames ∧ bitmap.isFree frame = true ∧
    ¬ (start ≤ frame ∧ frame < start + pfndbFrames bitmap)}

/-- The table can be placed, and what it leaves neither holds frame zero nor the end of the
table. -/
def Buildable (bitmap : BitmapPMM) : Prop :=
  0 < bitmap.totalFrames ∧ ∃ start, bitmap.FirstRun (pfndbFrames bitmap) start ∧
    0 ∉ LeftFree bitmap start ∧ ¬ EndsFree bitmap.totalFrames (LeftFree bitmap start)

/-- Placing the table. -/
theorem place_spec (accepts : BitmapPMM.init memMap = .ok bitmap) :
    (∃ start left, bitmap.alloc (pfndbSize bitmap) = .ok (some (start, left)) ∧
        0 < bitmap.totalFrames ∧ bitmap.FirstRun (pfndbFrames bitmap) start ∧
        BitmapPMM.SameMap bitmap left ∧
        {frame | frame < left.totalFrames ∧ left.isFree frame = true} = LeftFree bitmap start) ∨
      bitmap.alloc (pfndbSize bitmap) = .ok none ∧
        (bitmap.totalFrames = 0 ∨ ∀ start, ¬ bitmap.Run (pfndbFrames bitmap) start) := by
  have placed := BitmapPMM.placed_of_init accepts
  have size_eq : pfndbSize bitmap = bitmap.totalFrames * 8 := by
    rw [pfndbSize, placed.totalFrames_eq, PAGE_FRAME_SIZE]
  by_cases empty : bitmap.totalFrames = 0
  · refine .inr ⟨?_, .inl empty⟩
    rw [BitmapPMM.alloc, empty]
    rfl
  · rcases BitmapPMM.alloc_spec placed.covers (show 0 < pfndbSize bitmap by omega) with
      ⟨start, left, alloc_eq, first, same, marked⟩ | ⟨alloc_eq, none_found⟩
    · refine .inl ⟨start, left, alloc_eq, Nat.pos_of_ne_zero empty, first, same, ?_⟩
      ext frame
      rw [LeftFree, Set.mem_ofPred_eq, Set.mem_ofPred_eq, same.totalFrames, marked, pfndbFrames]
    · exact .inr ⟨alloc_eq, .inr none_found⟩

/-- The frames that are free once the table has been placed. -/
def FreeFrames (left : BitmapPMM) : Set Nat :=
  {frame | frame < left.totalFrames ∧ left.isFree frame = true}

/-- The blocks that the free frames are cut into. -/
def seeds (left : BitmapPMM) : List DyadicBlock :=
  seedBlocks left.isFree left.totalFrames (left.totalFrames + 1) 0

/-- The table has entries for all buddies if and only if the end is not free. -/
theorem buddies_inside_iff {left : BitmapPMM} (zero_not_mem : 0 ∉ FreeFrames left) :
    (∀ block ∈ seeds left, BootMemory.BuddyInside left.totalFrames block) ↔
      ¬ EndsFree left.totalFrames (FreeFrames left) := by
  constructor
  · rintro inside ⟨order, order_lt, total_mod, free⟩
    have mem := end_mem_seedBlocks order_lt total_mod fun frame lt ge => (free frame lt ge).2
    have buddy_lt := inside _ mem order_lt
    have le : 2 ^ order ≤ left.totalFrames := total_mod ▸ Nat.mod_le _ _
    have buddy_eq := congrArg DyadicBlock.base (upper_buddy (end_dvd total_mod))
    rw [DyadicBlock.buddy] at buddy_eq
    dsimp only at buddy_eq buddy_lt
    omega
  · intro not_ends block mem order_lt
    have covers := covers_of_not_endsFree zero_not_mem (fun frame mem => mem.1) not_ends
    refine covers.buddy_lt block order_lt (seedBlocks_valid mem).1 fun frame inside => ?_
    have owned := pos_owners_iff.mpr ⟨block, mem, inside⟩
    rw [seeds, owners_seedBlocks (by omega)] at owned
    split at owned
    next free => exact free.2
    next => cases owned

/-- All free frames are still to be freed. -/
theorem listing_placed (memory : Memory) (accepts : BitmapPMM.init memMap = .ok bitmap)
    {metaFrameIdx : Nat} {left : BitmapPMM}
    (alloc_eq : bitmap.alloc (pfndbSize bitmap) = .ok (some (metaFrameIdx, left)))
    (zero_not_mem : 0 ∉ FreeFrames left) :
    (BootMemory.placed memory left metaFrameIdx (bitmap.maxAddr / NORMAL_PAGE_SIZE)).pfndbLen =
        left.totalFrames ∧
      BootMemory.Listing (FreeFrames left) (seeds left) (seeds left)
        (BootMemory.placed memory left metaFrameIdx (bitmap.maxAddr / NORMAL_PAGE_SIZE))
        (fun _ => []) := by
  have placed := BitmapPMM.placed_of_init accepts
  rcases place_spec accepts with
    ⟨metaFrameIdx', left', alloc_eq', -, first, same, frames_eq⟩ | ⟨alloc_eq', -⟩
  · obtain ⟨rfl, rfl⟩ : metaFrameIdx' = metaFrameIdx ∧ left' = left := by
      rw [alloc_eq] at alloc_eq'
      cases alloc_eq'
      exact ⟨rfl, rfl⟩
    have pages_eq : bitmap.maxAddr / NORMAL_PAGE_SIZE = left'.totalFrames := by
      rw [same.totalFrames, placed.totalFrames_eq]
    obtain ⟨-, addr_eq, len_eq, -, -⟩ :=
      BootMemory.placed_spec memory left' metaFrameIdx' (bitmap.maxAddr / NORMAL_PAGE_SIZE)
    obtain ⟨words, view_eq⟩ := BootMemory.view_placed memory left' metaFrameIdx'
      (bitmap.maxAddr / NORMAL_PAGE_SIZE) (FreeFrames left')
    rw [pages_eq] at addr_eq len_eq view_eq ⊢
    refine ⟨len_eq, ⟨fun frame mem => ?_, fun frame mem => ?_, ?_⟩, zero_not_mem, ?_, ?_,
      coalesced_seedBlocks _ _, ?_, List.Subset.refl _⟩
    · have mem' : frame ∈ LeftFree bitmap metaFrameIdx' := frames_eq ▸ mem
      have apart := mem'.2.2
      rw [addr_eq, len_eq]
      rw [pfndbFrames, pfndbSize, pages_eq] at apart
      unfold PAGE_FRAME_SIZE NORMAL_PAGE_SIZE at *
      omega
    · rw [len_eq]
      exact mem.1
    · rw [len_eq, ← pages_eq]
      have maxAddr_lt := placed.maxAddr_lt
      have le := Nat.div_mul_le_self bitmap.maxAddr NORMAL_PAGE_SIZE
      omega
    · rw [view_eq]
      exact fresh_holds words _ _ _
    · rw [view_eq]
      exact fresh_notFree words _ _
    · intro block mem
      simp [freeBlocks] at mem
  · rw [alloc_eq] at alloc_eq'
    cases alloc_eq'

/-- When everything has been freed, the lists in memory hold the free frames. -/
theorem listsHold_of_listing {managed : Set Nat} {family : List DyadicBlock} {boot : BootMemory}
    {lists : Nat → List Nat} (listing : BootMemory.Listing managed family [] boot lists) :
    ListsHold boot managed lists := by
  have tiles := listing.holds.tiles
  rw [List.append_nil] at tiles
  refine ⟨fun order order_le => ?_, listing.holds.free.aligned, tiles.pairwise_apart,
    tiles.mem_iff, listing.holds.free.merged_iff.mpr (listing.coalesced.mono listing.listed)⟩
  refine (listing.holds.free.linked order order_le).congr fun addr mem => ?_
  have page := listing.holds.free.page_of_mem order_le mem
  have listed : (⟨addr / NORMAL_PAGE_SIZE, order⟩ : DyadicBlock) ∈ freeBlocks lists :=
    mem_freeBlocks.mpr ⟨order_le, addr, mem, rfl⟩
  have words_eq := @BootMemory.view_block boot managed _ (tiles.covered listed (covers_base _))
  rw [page] at words_eq
  rw [listLinks, listLinks]
  dsimp only
  rw [words_eq]
  exact ⟨rfl, rfl⟩

/-- With the table placed, initialisation is the seeding of the lists. -/
theorem initFromMap_eq (memory : Memory) (accepts : BitmapPMM.init memMap = .ok bitmap)
    {metaFrameIdx : Nat} {left : BitmapPMM}
    (alloc_eq : bitmap.alloc (pfndbSize bitmap) = .ok (some (metaFrameIdx, left))) :
    initFromMap memory memMap = BootMemory.seed left.bitmapAddr left.totalFrames
      (left.totalFrames + 1) (BootMemory.placed memory left metaFrameIdx
        (bitmap.maxAddr / NORMAL_PAGE_SIZE)) 0 := by
  rw [initFromMap, accepts]
  dsimp only [bind, Except.bind]
  rw [alloc_eq]

section Placed

variable {memory : Memory} {metaFrameIdx : Nat} {left : BitmapPMM} {boot : BootMemory}
  (alloc_eq : bitmap.alloc (pfndbSize bitmap) = .ok (some (metaFrameIdx, left)))

include alloc_eq

theorem started_iff {left' : BitmapPMM} :
    Started memory bitmap left' boot ↔ left' = left ∧
      boot = BootMemory.placed memory left metaFrameIdx (bitmap.maxAddr / NORMAL_PAGE_SIZE) := by
  constructor
  · rintro ⟨metaFrameIdx', alloc_eq', boot_eq⟩
    rw [alloc_eq] at alloc_eq'
    cases alloc_eq'
    exact ⟨rfl, boot_eq⟩
  · rintro ⟨rfl, boot_eq⟩
    exact ⟨metaFrameIdx, alloc_eq, boot_eq⟩

theorem findsRuns_iff :
    FindsRuns memory bitmap ↔
      BootMemory.runs left.bitmapAddr left.totalFrames (left.totalFrames + 1)
          (BootMemory.placed memory left metaFrameIdx (bitmap.maxAddr / NORMAL_PAGE_SIZE)) 0 =
        BootMemory.freeRuns left.isFree left.totalFrames (left.totalFrames + 1) 0 := by
  constructor
  · rintro ⟨left', boot, started, runs_eq⟩
    obtain ⟨rfl, rfl⟩ := (started_iff alloc_eq).mp started
    exact runs_eq
  · exact fun runs_eq => ⟨left, _, (started_iff alloc_eq).mpr ⟨rfl, rfl⟩, runs_eq⟩

theorem readable_iff :
    Readable memory bitmap ↔
      BootMemory.Legible left.bitmapAddr left.totalFrames left.isFree (left.totalFrames + 1)
        (BootMemory.placed memory left metaFrameIdx (bitmap.maxAddr / NORMAL_PAGE_SIZE)) 0 := by
  constructor
  · exact fun readable => readable left _ ((started_iff alloc_eq).mpr ⟨rfl, rfl⟩)
  · intro legible left' boot started
    obtain ⟨rfl, rfl⟩ := (started_iff alloc_eq).mp started
    exact legible

theorem buildsLists_iff (accepts : BitmapPMM.init memMap = .ok bitmap) :
    BuildsLists memory memMap ↔
      ∃ boot lists, initFromMap memory memMap = .ok boot ∧
        ListsHold boot (FreeFrames left) lists := by
  constructor
  · rintro ⟨bitmap', metaFrameIdx', left', boot, lists, accepts', alloc_eq', init_eq, hold⟩
    obtain rfl : bitmap' = bitmap := Except.ok.inj (accepts'.symm.trans accepts)
    rw [alloc_eq] at alloc_eq'
    cases alloc_eq'
    exact ⟨boot, lists, init_eq, hold⟩
  · rintro ⟨boot, lists, init_eq, hold⟩
    exact ⟨bitmap, metaFrameIdx, left, boot, lists, accepts, alloc_eq, init_eq, hold⟩

theorem buildable_iff (accepts : BitmapPMM.init memMap = .ok bitmap) :
    Buildable bitmap ↔
      0 ∉ FreeFrames left ∧ ¬ EndsFree left.totalFrames (FreeFrames left) := by
  rcases place_spec accepts with
    ⟨metaFrameIdx', left', alloc_eq', positive, first, same, frames_eq⟩ | ⟨alloc_eq', -⟩
  · rw [alloc_eq] at alloc_eq'
    cases alloc_eq'
    rw [FreeFrames, frames_eq, same.totalFrames]
    constructor
    · rintro ⟨-, start, first', clear⟩
      rwa [BitmapPMM.firstRun_unique first first']
    · exact fun clear => ⟨positive, metaFrameIdx, first, clear⟩
  · rw [alloc_eq] at alloc_eq'
    cases alloc_eq'

/-- Seeding returns with the runs of the bitmap freed if and only if the memory is legible and the
end is not free. -/
theorem seed_iff (accepts : BitmapPMM.init memMap = .ok bitmap)
    (zero_not_mem : 0 ∉ FreeFrames left) (after : BootMemory) :
    initFromMap memory memMap = .ok after ∧ FindsRuns memory bitmap ↔
      (Readable memory bitmap ∧ ¬ EndsFree left.totalFrames (FreeFrames left)) ∧
        after = (BootMemory.placed memory left metaFrameIdx
          (bitmap.maxAddr / NORMAL_PAGE_SIZE)).listAll (seeds left) := by
  obtain ⟨len_eq, listing⟩ := listing_placed memory accepts alloc_eq zero_not_mem
  rw [initFromMap_eq memory accepts alloc_eq, findsRuns_iff alloc_eq, readable_iff alloc_eq,
    ← buddies_inside_iff zero_not_mem]
  have iff := @BootMemory.Listing.seed_eq _ _ _ _ left.bitmapAddr left.totalFrames
    (left.totalFrames + 1) 0 left.isFree after listing
  rwa [len_eq] at iff

/-- A readable map whose seeding returns is freed by its runs. -/
theorem findsRuns_of_readable (accepts : BitmapPMM.init memMap = .ok bitmap)
    (zero_not_mem : 0 ∉ FreeFrames left) (readable : Readable memory bitmap)
    (init_eq : initFromMap memory memMap = .ok boot) : FindsRuns memory bitmap := by
  obtain ⟨-, listing⟩ := listing_placed memory accepts alloc_eq zero_not_mem
  rw [initFromMap_eq memory accepts alloc_eq] at init_eq
  exact (findsRuns_iff alloc_eq).mpr
    (listing.runs_eq ((readable_iff alloc_eq).mp readable) init_eq)

end Placed

/-- A bitmap that is clear of the frames it marks free is read as it is. -/
theorem readable_of_kept (memory : Memory) (accepts : BitmapPMM.init memMap = .ok bitmap)
    (kept : bitmap.Kept) : Readable memory bitmap := by
  have placed := BitmapPMM.placed_of_init accepts
  rcases place_spec accepts with ⟨metaFrameIdx, left, alloc_eq, positive, first, same, frames_eq⟩ |
    ⟨alloc_eq, -⟩
  · obtain ⟨freelist_eq, addr_eq, len_eq, -, -⟩ :=
      BootMemory.placed_spec memory left metaFrameIdx (bitmap.maxAddr / NORMAL_PAGE_SIZE)
    have bitmapLen_eq := placed.bitmapLen_eq
    have pages_eq := placed.totalFrames_eq
    have table_end : bitmap.totalFrames * PAGE_FRAME_SIZE ≤
        pfndbFrames bitmap * NORMAL_PAGE_SIZE := by
      rw [pfndbFrames, pfndbSize, pages_eq]
      unfold PAGE_FRAME_SIZE NORMAL_PAGE_SIZE
      omega
    rw [← pages_eq] at freelist_eq addr_eq len_eq
    rw [readable_iff alloc_eq, same.totalFrames, same.bitmapAddr, ← pages_eq]
    -- the table covers free frames only, and none of them holds a byte of the bitmap
    have apart (frame : Nat) (frame_lt : frame < bitmap.totalFrames) :
        bitmap.bitmapAddr + frame / 8 < metaFrameIdx * NORMAL_PAGE_SIZE ∨
          metaFrameIdx * NORMAL_PAGE_SIZE + bitmap.totalFrames * PAGE_FRAME_SIZE ≤
            bitmap.bitmapAddr + frame / 8 := by
      by_contra! within
      have used := kept (frame / 8) (by omega)
      rw [first.1.2 ((bitmap.bitmapAddr + frame / 8) / NORMAL_PAGE_SIZE)
        ((Nat.le_div_iff_mul_le (by decide)).mpr within.1)
        ((Nat.div_lt_iff_lt_mul (by decide)).mpr (by rw [Nat.add_mul]; omega))] at used
      cases used
    have late : BootMemory.Late
        (BootMemory.placed memory left metaFrameIdx bitmap.totalFrames) left.isFree
        bitmap.bitmapAddr bitmap.totalFrames := by
      refine ⟨fun frame frame_lt => ?_, fun head head_lt free frame frame_lt lower upper => ?_⟩
      · rw [addr_eq, len_eq]
        exact apart frame frame_lt
      · have mem : head ∈ LeftFree bitmap metaFrameIdx := by
          rw [← frames_eq, same.totalFrames]
          exact ⟨head_lt, free⟩
        have used := kept (frame / 8) (by omega)
        have page_eq : (bitmap.bitmapAddr + frame / 8) / NORMAL_PAGE_SIZE = head := by
          unfold NORMAL_PAGE_SIZE at *
          omega
        rw [page_eq, mem.2.1] at used
        cases used
    refine late.legible (fun order => .inl (by rw [freelist_eq])) (fun frame _ frame_lt => ?_)
      len_eq.ge
    rw [← same.bitmapAddr]
    apply BootMemory.isFree_placed
    · rw [same.bitmapLen]
      omega
    · rw [same.bitmapAddr]
      exact apart frame frame_lt
  · rintro left boot ⟨metaFrameIdx, alloc_eq', -⟩
    rw [alloc_eq] at alloc_eq'
    cases alloc_eq'

theorem ok_of_mem_toOption {α : Type} {outcome : Kernel α} {value : α}
    (mem : value ∈ outcome.toOption) : outcome = .ok value := by
  cases outcome with
  | error panic => cases mem
  | ok found =>
      cases mem
      rfl

/-- Initialisation frees the runs of the bitmap and builds the lists of the free frames if and only
if the table fits, the rest is clear of both ends, and no bit of the bitmap is read after its byte
has been overwritten with another value.  Where all bits are read as they were, the lists alone
decide, and so it is whenever no free frame holds a byte of the bitmap. -/
theorem init_builds_lists_iff (memory : Memory) (accepts : BitmapPMM.init memMap = .ok bitmap) :
    (BuildsLists memory memMap ∧ FindsRuns memory bitmap ↔
      Buildable bitmap ∧ Readable memory bitmap) ∧
    (Readable memory bitmap → (BuildsLists memory memMap ↔ Buildable bitmap)) ∧
    (bitmap.Kept → Readable memory bitmap) := by
  refine and_assoc.mp ⟨?_, readable_of_kept memory accepts⟩
  rcases place_spec accepts with ⟨metaFrameIdx, left, alloc_eq, -⟩ | ⟨alloc_eq, no_place⟩
  · rw [buildsLists_iff alloc_eq accepts, buildable_iff alloc_eq accepts]
    have of_built {boot : BootMemory} {lists : Nat → List Nat}
        (init_eq : initFromMap memory memMap = .ok boot)
        (hold : ListsHold boot (FreeFrames left) lists) (finds : FindsRuns memory bitmap) :
        (0 ∉ FreeFrames left ∧ ¬ EndsFree left.totalFrames (FreeFrames left)) ∧
          Readable memory bitmap := by
      obtain ⟨⟨readable, not_ends⟩, -⟩ :=
        (seed_iff alloc_eq accepts hold.zero_not_mem boot).mp ⟨init_eq, finds⟩
      exact ⟨⟨hold.zero_not_mem, not_ends⟩, readable⟩
    have builds (clear : 0 ∉ FreeFrames left ∧ ¬ EndsFree left.totalFrames (FreeFrames left))
        (readable : Readable memory bitmap) :
        (∃ boot lists, initFromMap memory memMap = .ok boot ∧
          ListsHold boot (FreeFrames left) lists) ∧ FindsRuns memory bitmap := by
      obtain ⟨init_eq, finds⟩ :=
        (seed_iff alloc_eq accepts clear.1 _).mpr ⟨⟨readable, clear.2⟩, rfl⟩
      have listing : BootMemory.Listing (FreeFrames left) (seeds left) (seeds left ++ [])
          (BootMemory.placed memory left metaFrameIdx (bitmap.maxAddr / NORMAL_PAGE_SIZE))
          (fun _ => []) := by
        rw [List.append_nil]
        exact (listing_placed memory accepts alloc_eq clear.1).2
      obtain ⟨lists, done⟩ := listing.listAll
      exact ⟨⟨_, lists, init_eq, listsHold_of_listing done⟩, finds⟩
    constructor
    · constructor
      · rintro ⟨⟨boot, lists, init_eq, hold⟩, finds⟩
        exact of_built init_eq hold finds
      · rintro ⟨clear, readable⟩
        exact builds clear readable
    · intro readable
      constructor
      · rintro ⟨boot, lists, init_eq, hold⟩
        exact (of_built init_eq hold
          (findsRuns_of_readable alloc_eq accepts hold.zero_not_mem readable init_eq)).1
      · exact fun clear => (builds clear readable).1
  · have not_builds : ¬ BuildsLists memory memMap := by
      rintro ⟨bitmap', _, _, _, _, accepts', alloc_eq', -⟩
      obtain rfl : bitmap' = bitmap := Except.ok.inj (accepts'.symm.trans accepts)
      rw [alloc_eq] at alloc_eq'
      cases alloc_eq'
    have not_buildable : ¬ Buildable bitmap := by
      rintro ⟨positive, start, first, -⟩
      obtain empty | none_found := no_place
      · omega
      · exact none_found start first.1
    exact ⟨iff_of_false (fun both => not_builds both.1) fun both => not_buildable both.1,
      fun _ => iff_of_false not_builds not_buildable⟩

/-- The bitmap is placed inside frame five, which is left free; the list words of that frame are
written over its only byte when all bits have been read. -/
def sharedMap : List MemmapEntry := [⟨0x1000, 0x3000, .USABLE⟩, ⟨0x5008, 0xFF8, .USABLE⟩]

theorem init_builds_lists_shared_frame : BuildsLists (fun _ => 0) sharedMap := by
  -- memory is kept from being evaluated
  obtain ⟨memory, memory_eq⟩ : ∃ memory : Memory, memory = fun _ => 0 := ⟨_, rfl⟩
  rw [← memory_eq]
  obtain ⟨bitmap, accepts, placed, placed_eq, start_eq, total_eq, addr_eq, len_eq, pages_eq,
      free_eq⟩ : ∃ bitmap ∈ (BitmapPMM.init sharedMap).toOption,
        ∃ placed ∈ (bitmap.alloc (pfndbSize bitmap)).toOption.join,
          placed.1 = 1 ∧ placed.2.totalFrames = 6 ∧ placed.2.bitmapAddr = 0x5008 ∧
            placed.2.bitmapLen = 1 ∧ bitmap.maxAddr / NORMAL_PAGE_SIZE = 6 ∧
            ∀ frame < 6, placed.2.isFree frame = decide (frame = 2 ∨ frame = 3 ∨ frame = 5) := by
    decide +kernel
  obtain ⟨metaFrameIdx, left⟩ := placed
  dsimp only at start_eq total_eq addr_eq len_eq free_eq
  subst start_eq
  have init_eq := ok_of_mem_toOption accepts
  have alloc_eq := ok_of_mem_toOption (Option.join_eq_some_iff.mp placed_eq)
  have zero_not_mem : 0 ∉ FreeFrames left := by
    rintro ⟨-, free⟩
    rw [free_eq 0 (by decide)] at free
    cases free
  have not_ends : ¬ EndsFree left.totalFrames (FreeFrames left) := by
    rw [total_eq]
    rintro ⟨order, order_lt, total_mod, free⟩
    have order_eq : order = 1 :=
      (by decide : ∀ order < ORDER_MAX, 6 % 2 ^ (order + 1) = 2 ^ order → order = 1)
        order order_lt total_mod
    have last := (free 4 (by decide) (by rw [order_eq]; decide)).2
    rw [free_eq 4 (by decide)] at last
    cases last
  have readable : Readable memory bitmap := by
    rw [readable_iff alloc_eq, total_eq, addr_eq, pages_eq]
    obtain ⟨freelist_eq, addr_eq', len_eq', -, -⟩ := BootMemory.placed_spec memory left 1 6
    have late : BootMemory.Late (BootMemory.placed memory left 1 6) left.isFree 0x5008 6 := by
      constructor
      · intro frame frame_lt
        rw [addr_eq', len_eq']
        unfold NORMAL_PAGE_SIZE PAGE_FRAME_SIZE
        omega
      · intro head head_lt head_free frame frame_lt lower upper
        unfold NORMAL_PAGE_SIZE at lower upper
        omega
    refine late.legible (fun order => .inl (by rw [freelist_eq])) (fun frame _ frame_lt => ?_)
      len_eq'.ge
    rw [← addr_eq]
    refine BootMemory.isFree_placed memory left 1 6 (by omega) (.inr ?_)
    rw [addr_eq]
    unfold NORMAL_PAGE_SIZE PAGE_FRAME_SIZE
    omega
  exact ((init_builds_lists_iff memory init_eq).2.1 readable).mpr
    ((buildable_iff alloc_eq init_eq).mpr ⟨zero_not_mem, not_ends⟩)

/-- The last frame is free and its buddy lies behind the table. -/
theorem init_last_frame_free :
    (BitmapPMM.init [⟨0x1000, 0x4000, .USABLE⟩]).isOk = true ∧
      initFromMap (fun _ => 0) [⟨0x1000, 0x4000, .USABLE⟩] = .error .indexOutOfBounds ∧
      ¬ BuildsLists (fun _ => 0) [⟨0x1000, 0x4000, .USABLE⟩] := by
  have outcome : (initFromMap (fun _ => 0) [⟨0x1000, 0x4000, .USABLE⟩]).map (fun _ => ()) =
      .error .indexOutOfBounds := by
    decide +kernel
  cases init_eq : initFromMap (fun _ => 0) [⟨0x1000, 0x4000, .USABLE⟩] with
  | error panic =>
      rw [init_eq] at outcome
      refine ⟨by decide +kernel, congrArg Except.error (Except.error.inj outcome), ?_⟩
      rintro ⟨_, _, _, boot, _, -, -, ok_eq, -⟩
      rw [init_eq] at ok_eq
      cases ok_eq
  | ok boot =>
      rw [init_eq] at outcome
      cases outcome

end MemoryMap

end Allocator
end Vespertine
