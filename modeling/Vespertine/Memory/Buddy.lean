import Mathlib.Data.List.Flatten
import Vespertine.Library.Transition
import Vespertine.Memory.FreeLists

/-!
# The buddy allocator keeps a tiling

The listed free blocks and the live blocks together tile the managed frames.  Splitting and
merging replace blocks by their halves or their union, so every allocation and every free keeps
the tiling; with the free-list edits of `FreeLists` this is the invariant of the allocator over
whole runs.
-/

namespace Vespertine

open DyadicBlock

namespace Allocator

/-- The listed blocks as runs of frames. -/
def freeBlocks (lists : Nat → List Nat) : List DyadicBlock :=
  (List.range (ORDER_MAX + 1)).flatMap fun order =>
    (lists order).map fun addr => ⟨addr / NORMAL_PAGE_SIZE, order⟩

/-- The frame table reaches every frame the allocator inspects for a set of managed frames. -/
structure Covers (managed : Set Nat) (pfndbLen : Nat) : Prop where
  /-- Frame zero is not handed to the allocator: its address is the null pointer. -/
  zero_not_mem : 0 ∉ managed
  /-- Managed frames are in the table. -/
  frame_lt : ∀ frame ∈ managed, frame < pfndbLen
  /-- So are the buddies of the managed blocks that can still merge. -/
  buddy_lt : ∀ block : DyadicBlock, block.order < ORDER_MAX → block.Aligned →
    (∀ frame, block.Covers frame → frame ∈ managed) → block.base ^^^ 2 ^ block.order < pfndbLen

/-- The frame table reaches every managed frame, which is all that an allocation inspects. -/
structure Reaches (managed : Set Nat) (pfndbLen : Nat) : Prop where
  /-- Frame zero is not handed to the allocator: its address is the null pointer. -/
  zero_not_mem : 0 ∉ managed
  /-- Managed frames are in the table. -/
  frame_lt : ∀ frame ∈ managed, frame < pfndbLen

theorem Covers.reaches {managed : Set Nat} {pfndbLen : Nat} (covers : Covers managed pfndbLen) :
    Reaches managed pfndbLen := ⟨covers.zero_not_mem, covers.frame_lt⟩

/-- The allocator holds the given free lists, and these with the other blocks tile `managed`. -/
structure Holds (managed : Set Nat) (pmm : Allocator) (lists : Nat → List Nat)
    (blocks : List DyadicBlock) : Prop where
  /-- The lists and the frame table agree. -/
  free : FreeLists pmm lists
  /-- Every managed frame is in exactly one free or live block. -/
  tiles : Tiles (freeBlocks lists ++ blocks) managed
  /-- Live blocks are aligned. -/
  aligned : ∀ block ∈ blocks, block.Aligned
  /-- Live blocks have a valid order. -/
  order_le : ∀ block ∈ blocks, block.order ≤ ORDER_MAX

theorem mem_freeBlocks {lists : Nat → List Nat} {block : DyadicBlock} :
    block ∈ freeBlocks lists ↔
      block.order ≤ ORDER_MAX ∧
        ∃ addr ∈ lists block.order, addr / NORMAL_PAGE_SIZE = block.base := by
  constructor
  · intro mem
    obtain ⟨order, order_mem, inner⟩ := List.mem_flatMap.mp mem
    obtain ⟨addr, addr_mem, rfl⟩ := List.mem_map.mp inner
    exact ⟨Nat.lt_succ_iff.mp (List.mem_range.mp order_mem), addr, addr_mem, rfl⟩
  · rintro ⟨order_le, addr, addr_mem, base_eq⟩
    refine List.mem_flatMap.mpr ⟨block.order, List.mem_range.mpr (Nat.lt_succ_of_le order_le), ?_⟩
    exact List.mem_map.mpr ⟨addr, addr_mem, by rw [base_eq]⟩

/-- Changing one key of a concatenation moves the difference to the front. -/
theorem flatMap_update_perm {β : Type*} {keys : List Nat} (nodup : keys.Nodup) {key : Nat}
    (key_mem : key ∈ keys) {old new : Nat → List β} {item : β}
    (same : ∀ other, other ≠ key → old other = new other)
    (moved : (old key).Perm (item :: new key)) :
    (keys.flatMap old).Perm (item :: keys.flatMap new) := by
  induction keys with
  | nil => simp at key_mem
  | cons first rest ih =>
      obtain ⟨first_not_mem, rest_nodup⟩ := List.nodup_cons.mp nodup
      rw [List.flatMap_cons, List.flatMap_cons]
      by_cases here : first = key
      · subst here
        have rest_eq : rest.flatMap old = rest.flatMap new := by
          refine List.flatMap_congr fun other mem => same other ?_
          rintro rfl
          exact first_not_mem mem
        rw [rest_eq]
        exact moved.append_right _
      · rw [same first here]
        have key_rest : key ∈ rest := (List.mem_cons.mp key_mem).resolve_left (Ne.symm here)
        exact ((ih rest_nodup key_rest).append_left _).trans List.perm_middle

theorem freeBlocks_remove {lists : Nat → List Nat} {order addr : Nat} (front : List Nat)
    {back : List Nat} (order_le : order ≤ ORDER_MAX)
    (list_eq : lists order = front ++ addr :: back) :
    (freeBlocks lists).Perm (⟨addr / NORMAL_PAGE_SIZE, order⟩ ::
      freeBlocks (Function.update lists order (front ++ back))) := by
  apply flatMap_update_perm List.nodup_range (List.mem_range.mpr (Nat.lt_succ_of_le order_le))
  · intro other other_ne
    rw [Function.update_of_ne other_ne]
  · rw [list_eq, Function.update_self]
    simp

theorem freeBlocks_push (lists : Nat → List Nat) {order : Nat} (addr : Nat)
    (order_le : order ≤ ORDER_MAX) :
    (freeBlocks (Function.update lists order (addr :: lists order))).Perm
      (⟨addr / NORMAL_PAGE_SIZE, order⟩ :: freeBlocks lists) := by
  have list_eq : Function.update lists order (addr :: lists order) order =
      [] ++ addr :: lists order := Function.update_self order _ lists
  have removed := freeBlocks_remove [] order_le list_eq
  simpa using removed

/-- A frame of a live block heads no listed block. -/
theorem Holds.not_listed {managed : Set Nat} {pmm : Allocator} {lists : Nat → List Nat}
    {block : DyadicBlock} {blocks : List DyadicBlock}
    (holds : Holds managed pmm lists (block :: blocks))
    {frame : Nat} (covers : block.Covers frame) :
    ∀ order ≤ ORDER_MAX, frame * NORMAL_PAGE_SIZE ∉ lists order := by
  intro order order_le mem
  have listed : (⟨frame, order⟩ : DyadicBlock) ∈ freeBlocks lists :=
    mem_freeBlocks.mpr ⟨order_le, frame * NORMAL_PAGE_SIZE, mem, mul_page_div frame⟩
  have tiles := holds.tiles.perm List.perm_middle
  have apart := tiles.head_apart (List.mem_append_left blocks listed)
  exact apart frame ⟨covers, covers_base ⟨frame, order⟩⟩

theorem Holds.managed_of_covers {managed : Set Nat} {pmm : Allocator} {lists : Nat → List Nat}
    {block : DyadicBlock} {blocks : List DyadicBlock} (holds : Holds managed pmm lists blocks)
    (mem : block ∈ blocks) {frame : Nat} (covers : block.Covers frame) : frame ∈ managed :=
  holds.tiles.covered (List.mem_append_right _ mem) covers

/-- Any live block may come first. -/
theorem Holds.front {managed : Set Nat} {pmm : Allocator} {lists : Nat → List Nat}
    {block : DyadicBlock} {blocks : List DyadicBlock} (holds : Holds managed pmm lists blocks)
    (mem : block ∈ blocks) : Holds managed pmm lists (block :: blocks.erase block) := by
  have front := List.perm_cons_erase mem
  exact ⟨holds.free, holds.tiles.perm (front.append_left _),
    fun other other_mem => holds.aligned other (front.mem_iff.mpr other_mem),
    fun other other_mem => holds.order_le other (front.mem_iff.mpr other_mem)⟩

/-- The address of a managed frame is not null. -/
theorem Reaches.page_ne_zero {managed : Set Nat} {pfndbLen : Nat}
    (reaches : Reaches managed pfndbLen) {frame : Nat} (mem : frame ∈ managed) :
    frame * NORMAL_PAGE_SIZE ≠ 0 := by
  have positive : frame ≠ 0 := by
    rintro rfl
    exact reaches.zero_not_mem mem
  exact Nat.mul_ne_zero positive (by decide)

theorem kernel_not_isHead (refcount buddyOrder : Nat) :
    ¬IsHead { refcount, flags := PF_KERNEL, buddyOrder } := by
  simp [IsHead, PF_KERNEL, PF_BUDDY_HEAD]

/-! ## Splitting -/

/-- List words written before or after those of the old head give the same memory. -/
theorem listLinks_push (pmm : Allocator) {addr : Nat} (order : Nat) (ne_zero : addr ≠ 0)
    (ne_head : addr ≠ pmm.freelist order) :
    listLinks (((pmm.setPrevAt (pmm.freelist order) addr).setHead order addr).setBlock addr
        { prev := 0, next := pmm.freelist order }).memory =
      (listLinks pmm.memory).link addr none (pointer (pmm.freelist order)) := by
  have memory_eq : ((pmm.setPrevAt (pmm.freelist order) addr).setHead order addr).memory =
      (pmm.setPrevAt (pmm.freelist order) addr).memory := rfl
  rw [listLinks_setBlock, memory_eq, listLinks_setPrevAt, pointer_of_ne ne_zero]
  by_cases empty : pmm.freelist order = 0
  · simp [empty, Links.link, Links.setPrev, Links.setNext]
  · simp only [pointer_of_ne empty, Links.link, Links.setPrev, Links.setNext, pointer_zero]
    rw [Function.update_comm ne_head]

/-- One split step lists the upper half of a live block. -/
theorem splitStep_spec {managed : Set Nat} {pmm : Allocator} {lists : Nat → List Nat}
    {base order : Nat} {blocks : List DyadicBlock} (reaches : Reaches managed pmm.pfndbLen)
    (holds : Holds managed pmm lists (⟨base, order + 1⟩ :: blocks)) :
    ∃ after lists', pmm.splitStep (base * NORMAL_PAGE_SIZE) order = .ok after ∧
      Holds managed after lists' (⟨base, order⟩ :: blocks) ∧ after.pfndbLen = pmm.pfndbLen ∧
      (∀ pfn ≠ base + 2 ^ order, after.pfndb pfn = pmm.pfndb pfn) ∧
      (Coalesced ORDER_MAX (freeBlocks lists) → Coalesced ORDER_MAX (freeBlocks lists')) := by
  have order_lt : order + 1 ≤ ORDER_MAX := holds.order_le _ List.mem_cons_self
  have order_le : order ≤ ORDER_MAX := Nat.le_of_succ_le order_lt
  have base_aligned : 2 ^ (order + 1) ∣ base := holds.aligned _ List.mem_cons_self
  have half_aligned : 2 ^ order ∣ base := (Nat.pow_dvd_pow 2 (Nat.le_succ order)).trans base_aligned
  have buddy_aligned : 2 ^ order ∣ base + 2 ^ order := Nat.dvd_add half_aligned (Nat.dvd_refl _)
  have upper : (⟨base, order + 1⟩ : DyadicBlock).Covers (base + 2 ^ order) := by
    have positive := Nat.two_pow_pos order
    simp only [DyadicBlock.Covers, Nat.pow_succ]
    omega
  have upper_mem := holds.managed_of_covers List.mem_cons_self upper
  have unlisted := holds.not_listed upper
  have buddy_eq : base * NORMAL_PAGE_SIZE + NORMAL_PAGE_SIZE <<< order =
      (base + 2 ^ order) * NORMAL_PAGE_SIZE := by
    rw [Nat.shiftLeft_eq]
    ring
  have ne_zero := reaches.page_ne_zero upper_mem
  have ne_head : (base + 2 ^ order) * NORMAL_PAGE_SIZE ≠ pmm.freelist order := by
    intro equal
    obtain ⟨rest, list_eq⟩ := holds.free.head_cons order_le (equal ▸ ne_zero)
    exact unlisted order order_le (by simp [list_eq, equal])
  have order_small : order % 2 ^ 16 = order := by
    have : ORDER_MAX = 11 := rfl
    omega
  have listed := holds.free.list order_le ne_zero (page_aligned buddy_aligned)
    (by simpa using reaches.frame_lt _ upper_mem) unlisted
    ((((pmm.setPrevAt (pmm.freelist order) ((base + 2 ^ order) * NORMAL_PAGE_SIZE)).setHead
      order ((base + 2 ^ order) * NORMAL_PAGE_SIZE)).setBlock
      ((base + 2 ^ order) * NORMAL_PAGE_SIZE) { prev := 0, next := pmm.freelist order }).setFrame
      (base + 2 ^ order)
      { refcount := 0, flags := PF_FREE ||| PF_BUDDY_HEAD, buddyOrder := order })
    (by simp [setFrame, setBlock, setHead]) (by simp [setFrame, setBlock, setHead])
    (by simp [setFrame, setBlock, setHead]) (listLinks_push pmm order ne_zero ne_head)
  have pushed := freeBlocks_push lists ((base + 2 ^ order) * NORMAL_PAGE_SIZE) order_le
  rw [mul_page_div] at pushed
  refine ⟨_, _, ?_, ⟨listed, ?_, ?_, ?_⟩, ?_, ?_, fun coalesced => ?_⟩
  · simp only [splitStep, buddy_eq, mul_page_div, order_small]
    rw [frame_of_lt]
    · rfl
    · simpa [setBlock, setHead] using reaches.frame_lt _ upper_mem
  · have halves := (holds.tiles.perm List.perm_middle).split
    refine halves.perm ?_
    refine List.Perm.trans ?_ (pushed.symm.append_right _)
    refine (List.Perm.swap _ _ _).trans ?_
    exact (List.perm_middle.symm).cons _
  · intro block mem
    rcases List.mem_cons.mp mem with rfl | other
    · exact half_aligned
    · exact holds.aligned block (List.mem_cons_of_mem _ other)
  · intro block mem
    rcases List.mem_cons.mp mem with rfl | other
    · exact order_le
    · exact holds.order_le block (List.mem_cons_of_mem _ other)
  · simp [setFrame, setBlock, setHead]
  · intro pfn pfn_ne
    simp [setFrame, setBlock, setHead, pfn_ne]
  · -- the lower half, its buddy, is live
    refine (coalesced.cons fun _ lower_mem => ?_).mono pushed.subset
    have lower_eq : (⟨base + 2 ^ order, order⟩ : DyadicBlock).buddy = ⟨base, order⟩ := by
      rw [← upper_buddy base_aligned, buddy_buddy]
    obtain ⟨_, addr, listed_lower, base_eq⟩ := mem_freeBlocks.mp (lower_eq ▸ lower_mem)
    refine holds.not_listed (covers_base ⟨base, order + 1⟩) order order_le ?_
    rwa [← base_eq, holds.free.page_of_mem order_le listed_lower]

/-- Splitting halves a live block down to the target order. -/
theorem splitBlock_spec {managed : Set Nat} {pmm : Allocator} {lists : Nat → List Nat}
    {base order target : Nat} {blocks : List DyadicBlock} (reaches : Reaches managed pmm.pfndbLen)
    (target_le : target ≤ order) (holds : Holds managed pmm lists (⟨base, order⟩ :: blocks)) :
    ∃ after lists', pmm.splitBlock (base * NORMAL_PAGE_SIZE) order target = .ok after ∧
      Holds managed after lists' (⟨base, target⟩ :: blocks) ∧ after.pfndbLen = pmm.pfndbLen ∧
      (∀ pfn, pfn = base ∨ ¬(⟨base, order⟩ : DyadicBlock).Covers pfn →
        after.pfndb pfn = pmm.pfndb pfn) ∧
      (Coalesced ORDER_MAX (freeBlocks lists) → Coalesced ORDER_MAX (freeBlocks lists')) := by
  induction order generalizing pmm lists with
  | zero =>
      obtain rfl : target = 0 := Nat.le_zero.mp target_le
      exact ⟨pmm, lists, rfl, holds, rfl, fun _ _ => rfl, id⟩
  | succ order ih =>
      rw [splitBlock]
      by_cases lower : order + 1 > target
      · rw [if_pos lower]
        obtain ⟨middle, lists₁, step_eq, middleHolds, len_eq, kept, coalesced⟩ :=
          splitStep_spec reaches holds
        obtain ⟨after, lists₂, rest_eq, afterHolds, len_eq', kept', coalesced'⟩ :=
          ih (len_eq ▸ reaches) (Nat.le_of_lt_succ lower) middleHolds
        refine ⟨after, lists₂, ?_, afterHolds, len_eq'.trans len_eq, ?_, coalesced' ∘ coalesced⟩
        · rw [step_eq]
          exact rest_eq
        · intro pfn outside
          have positive := Nat.two_pow_pos order
          have outside' : pfn = base ∨ ¬(⟨base, order⟩ : DyadicBlock).Covers pfn := by
            refine outside.imp id fun not_covers lower_covers => not_covers ?_
            simp only [DyadicBlock.Covers, Nat.pow_succ] at lower_covers ⊢
            omega
          have not_buddy : pfn ≠ base + 2 ^ order := by
            rintro rfl
            rcases outside with equal | not_covers
            · omega
            · apply not_covers
              simp only [DyadicBlock.Covers, Nat.pow_succ]
              omega
          rw [kept' pfn outside', kept pfn not_buddy]
      · rw [if_neg lower]
        obtain rfl : target = order + 1 := by omega
        exact ⟨pmm, lists, rfl, holds, rfl, fun _ _ => rfl, id⟩

/-! ## Allocation -/

/-- The search stops at the first order with a listed block. -/
theorem findOrder_spec (pmm : Allocator) {remaining order : Nat}
    (fuel : order + remaining = ORDER_MAX + 1) :
    (∃ found, pmm.findOrder remaining order = some found ∧ order ≤ found ∧ found ≤ ORDER_MAX ∧
        pmm.freelist found ≠ 0) ∨
      (pmm.findOrder remaining order = none ∧
        ∀ other, order ≤ other → other ≤ ORDER_MAX → pmm.freelist other = 0) := by
  induction remaining generalizing order with
  | zero => exact Or.inr ⟨rfl, fun other lower upper => by omega⟩
  | succ remaining ih =>
      rw [findOrder]
      by_cases empty : pmm.freelist order = 0
      · rw [if_pos empty]
        by_cases last : order + 1 > ORDER_MAX
        · rw [if_pos last]
          refine Or.inr ⟨rfl, fun other lower upper => ?_⟩
          obtain rfl : other = order := by omega
          exact empty
        · rw [if_neg last]
          rcases ih (show order + 1 + remaining = ORDER_MAX + 1 by omega) with
            ⟨found, find_eq, lower, upper, nonempty⟩ | ⟨find_eq, allEmpty⟩
          · exact Or.inl ⟨found, find_eq, by omega, upper, nonempty⟩
          · refine Or.inr ⟨find_eq, fun other lower upper => ?_⟩
            by_cases here : other = order
            · rwa [here]
            · exact allEmpty other (by omega) upper
      · rw [if_neg empty]
        exact Or.inl ⟨order, rfl, le_refl _, by omega, empty⟩

/-- The head word of a nonempty list addresses a flagged frame. -/
theorem FreeLists.head_page {pmm : Allocator} {lists : Nat → List Nat} (free : FreeLists pmm lists)
    {order : Nat} (order_le : order ≤ ORDER_MAX) (nonempty : pmm.freelist order ≠ 0) :
    ∃ base, pmm.freelist order = base * NORMAL_PAGE_SIZE ∧
      (pmm.pfndb base).flags = PF_FREE ||| PF_BUDDY_HEAD := by
  obtain ⟨rest, list_eq⟩ := free.head_cons order_le nonempty
  have head_mem : pmm.freelist order ∈ lists order := by simp [list_eq]
  exact ⟨_, (free.page_of_mem order_le head_mem).symm, (free.flagged order order_le _ head_mem).1⟩

/-- Popping the first block of a list and clearing its flags leaves it live. -/
theorem popHead_spec {managed : Set Nat} {pmm : Allocator} {lists : Nat → List Nat}
    {order base : Nat} {blocks : List DyadicBlock} (order_le : order ≤ ORDER_MAX)
    (holds : Holds managed pmm lists blocks) (nonempty : pmm.freelist order ≠ 0)
    (base_eq : pmm.freelist order = base * NORMAL_PAGE_SIZE) {entry : PageFrame}
    (cleared : ¬IsHead entry) :
    ∃ lists', Holds managed ((pmm.popHead order).setFrame base entry) lists'
        (⟨base, order⟩ :: blocks) ∧
      (Coalesced ORDER_MAX (freeBlocks lists) → Coalesced ORDER_MAX (freeBlocks lists')) := by
  obtain ⟨rest, list_eq⟩ := holds.free.head_cons order_le nonempty
  have head_mem : pmm.freelist order ∈ lists order := by simp [list_eq]
  have page_eq : pmm.freelist order / NORMAL_PAGE_SIZE = base := by rw [base_eq, mul_page_div]
  have list := holds.free.linked order order_le
  rw [list_eq, ← List.nil_append (pmm.freelist order :: rest)] at list
  obtain ⟨prev_eq, next_eq⟩ := list.neighbours
  have front_eq : lists order = [] ++ pmm.freelist order :: rest := list_eq
  have freelist_eq : ((pmm.popHead order).setFrame base entry).freelist =
      Function.update pmm.freelist order (pmm.memory (pmm.freelist order)).next := by
    simp [popHead, setFrame, setHead]
  have unlisted := holds.free.unlist order_le front_eq ((pmm.popHead order).setFrame base entry)
    (by simp [popHead, setFrame, setHead]) (by simp [popHead, setFrame, setHead, page_eq]) cleared
    freelist_eq next_eq (by
      intro node _
      rw [Links.unlink, prev_eq, show ((pmm.popHead order).setFrame base entry).memory =
          (pmm.setPrevAt (pmm.memory (pmm.freelist order)).next 0).memory from rfl,
        listLinks_setPrevAt]
      exact ⟨rfl, rfl⟩)
  have removed := freeBlocks_remove [] order_le list_eq
  rw [page_eq] at removed
  refine ⟨_, ⟨unlisted, ?_, ?_, ?_⟩, fun coalesced => ?_⟩
  · exact holds.tiles.perm ((removed.append_right blocks).trans List.perm_middle.symm)
  · intro block mem
    rcases List.mem_cons.mp mem with rfl | other
    · have divides := holds.free.aligned order order_le _ head_mem
      rw [base_eq, Nat.shiftLeft_eq, Nat.mul_comm NORMAL_PAGE_SIZE] at divides
      exact Nat.dvd_of_mul_dvd_mul_right (by decide) divides
    · exact holds.aligned block other
  · intro block mem
    rcases List.mem_cons.mp mem with rfl | other
    · exact order_le
    · exact holds.order_le block other
  · exact coalesced.mono fun block mem => removed.symm.subset (List.mem_cons_of_mem _ mem)

/-- Rewriting the entry of a live block's own frame keeps the allocator in order. -/
theorem Holds.setFrame {managed : Set Nat} {pmm : Allocator} {lists : Nat → List Nat}
    {block : DyadicBlock} {blocks : List DyadicBlock}
    (holds : Holds managed pmm lists (block :: blocks)) {entry : PageFrame}
    (cleared : ¬IsHead entry) :
    Holds managed (pmm.setFrame block.base entry) lists (block :: blocks) :=
  ⟨holds.free.setFrame (holds.not_listed (covers_base block)) cleared, holds.tiles, holds.aligned,
    holds.order_le⟩

/-- A frame outside a block of the tiling is untouched by edits inside it. -/
theorem Holds.base_not_covered {managed : Set Nat} {pmm : Allocator} {lists : Nat → List Nat}
    {block other : DyadicBlock} {blocks : List DyadicBlock}
    (holds : Holds managed pmm lists (block :: blocks)) (mem : other ∈ blocks) :
    ¬block.Covers other.base := by
  intro covers
  have apart := (holds.tiles.perm List.perm_middle).head_apart (List.mem_append_right _ mem)
  exact apart other.base ⟨covers, covers_base other⟩

/-- Allocation returns an aligned block that was free, or nothing and no change. -/
theorem allocOrder_spec {managed : Set Nat} {pmm : Allocator} {lists : Nat → List Nat}
    {order : Nat} {blocks : List DyadicBlock} (reaches : Reaches managed pmm.pfndbLen)
    (order_le : order ≤ ORDER_MAX) (holds : Holds managed pmm lists blocks) :
    pmm.allocOrder order = .ok (none, pmm) ∨
      ∃ base after lists', pmm.allocOrder order = .ok (some (base * NORMAL_PAGE_SIZE), after) ∧
        Holds managed after lists' (⟨base, order⟩ :: blocks) ∧ after.pfndbLen = pmm.pfndbLen ∧
        (after.pfndb base).flags = PF_KERNEL ∧
        (∀ block ∈ blocks, after.pfndb block.base = pmm.pfndb block.base) ∧
        (Coalesced ORDER_MAX (freeBlocks lists) → Coalesced ORDER_MAX (freeBlocks lists')) := by
  rw [allocOrder, if_neg (Nat.not_lt.mpr order_le)]
  have fuel : order + (ORDER_MAX + 1 - order) = ORDER_MAX + 1 := by omega
  rcases findOrder_spec pmm fuel with
    ⟨found, find_eq, order_le_found, found_le, nonempty⟩ | ⟨find_eq, -⟩
  · right
    rw [find_eq]
    obtain ⟨base, head_eq, flags_eq⟩ := holds.free.head_page found_le nonempty
    have entry_cleared : ¬IsHead { pmm.pfndb base with
        refcount := 0, flags := andNot (pmm.pfndb base).flags (PF_FREE ||| PF_BUDDY_HEAD) } := by
      rw [flags_eq]
      change ¬(andNot (PF_FREE ||| PF_BUDDY_HEAD) (PF_FREE ||| PF_BUDDY_HEAD) &&& PF_BUDDY_HEAD ≠ 0)
      decide
    obtain ⟨lists₁, popped, coalesced⟩ := popHead_spec found_le holds nonempty head_eq entry_cleared
    have base_mem := popped.managed_of_covers List.mem_cons_self (covers_base ⟨base, found⟩)
    have base_lt : base < pmm.pfndbLen := reaches.frame_lt base base_mem
    obtain ⟨after, lists₂, split_eq, split, len_eq, kept, coalesced'⟩ :=
      splitBlock_spec (by simpa [Allocator.setFrame, popHead, setHead] using reaches)
        order_le_found popped
    have len_eq' : after.pfndbLen = pmm.pfndbLen := by
      simpa [Allocator.setFrame, popHead, setHead] using len_eq
    refine ⟨base, after.setFrame base { after.pfndb base with refcount := 1, flags := PF_KERNEL },
      lists₂, ?_, split.setFrame (kernel_not_isHead _ _), len_eq', ?_, ?_, coalesced' ∘ coalesced⟩
    · simp only [head_eq, mul_page_div]
      rw [frame_of_lt (by simpa [popHead, setHead] using base_lt)]
      have pfndb_eq : (pmm.popHead found).pfndb = pmm.pfndb := by simp [popHead, setHead]
      change ((pmm.popHead found).setFrame base { (pmm.popHead found).pfndb base with
        refcount := 0, flags := andNot ((pmm.popHead found).pfndb base).flags
          (PF_FREE ||| PF_BUDDY_HEAD) }).splitBlock _ _ _ >>= _ = _
      rw [pfndb_eq, split_eq]
      change after.frame base >>= _ = _
      rw [frame_of_lt (len_eq' ▸ base_lt)]
      rfl
    · simp [Allocator.setFrame]
    · intro block mem
      have outside := popped.base_not_covered mem
      have base_ne : block.base ≠ base := by
        intro equal
        exact outside (equal ▸ covers_base ⟨base, found⟩)
      have middle := kept block.base (Or.inr outside)
      simpa [Allocator.setFrame, base_ne, popHead, setHead] using middle
  · left
    rw [find_eq]

/-! ## Freeing -/

@[simp] theorem mergeBlock_pfndb (pmm : Allocator) (addr buddy order : Nat) :
    (pmm.mergeBlock addr buddy order).1.pfndb = pmm.pfndb := by
  simp only [mergeBlock]
  split <;> simp [setBlock, setHead]

@[simp] theorem mergeBlock_pfndbLen (pmm : Allocator) (addr buddy order : Nat) :
    (pmm.mergeBlock addr buddy order).1.pfndbLen = pmm.pfndbLen := by
  simp only [mergeBlock]
  split <;> simp [setBlock, setHead]

/-- Merging unlinks the buddy and clears its words. -/
theorem mergeBlock_links (pmm : Allocator) (addr buddy order : Nat) :
    listLinks (pmm.mergeBlock addr buddy order).1.memory =
      { next := Function.update ((listLinks pmm.memory).unlink buddy).next buddy none
        prev := Function.update ((listLinks pmm.memory).unlink buddy).prev buddy none } := by
  have joined : (listLinks pmm.memory).unlink buddy =
      ((listLinks pmm.memory).setNext (pointer (pmm.memory buddy).prev)
        (pointer (pmm.memory buddy).next)).setPrev (pointer (pmm.memory buddy).next)
          (pointer (pmm.memory buddy).prev) := rfl
  simp only [mergeBlock]
  rw [listLinks_setBlock, listLinks_setPrevAt, joined]
  split
  · next nonzero =>
      rw [listLinks_setNext _ nonzero]
      rfl
  · next zero =>
      rw [not_not.mp zero]
      rfl

/-- Merging moves the list head only when the buddy was the first of its list. -/
theorem mergeBlock_freelist {pmm : Allocator} (addr : Nat) {buddy order : Nat}
    {front back : List Nat}
    (list : (listLinks pmm.memory).IsList (pointer (pmm.freelist order)) (front ++ buddy :: back)) :
    ∃ head, (pmm.mergeBlock addr buddy order).1.freelist =
        Function.update pmm.freelist order head ∧ pointer head = (front ++ back).head? := by
  obtain ⟨prev_eq, next_eq⟩ := list.neighbours
  change pointer (pmm.memory buddy).prev = _ at prev_eq
  change pointer (pmm.memory buddy).next = _ at next_eq
  simp only [mergeBlock]
  split
  · next nonzero =>
      refine ⟨pmm.freelist order, by simp [setBlock], ?_⟩
      rw [list.head_eq]
      cases front with
      | nil => simp [nonzero] at prev_eq
      | cons first rest => rfl
  · next zero =>
      refine ⟨(pmm.memory buddy).next, by simp [setBlock, setHead], ?_⟩
      rw [not_not.mp zero, pointer_zero] at prev_eq
      rw [next_eq, List.getLast?_eq_none_iff.mp prev_eq.symm, List.nil_append]

/-- The merged block starts at the lower of the two addresses. -/
theorem mergeBlock_addr (pmm : Allocator) (base buddy order : Nat) :
    (pmm.mergeBlock (base * NORMAL_PAGE_SIZE) (buddy * NORMAL_PAGE_SIZE) order).2 =
      min base buddy * NORMAL_PAGE_SIZE := by
  have positive : 0 < NORMAL_PAGE_SIZE := by decide
  simp only [mergeBlock, Nat.mul_lt_mul_right positive]
  split
  · next lower => rw [Nat.min_eq_left lower.le]
  · next upper => rw [Nat.min_eq_right (Nat.not_lt.mp upper)]

/-- Merging with a listed buddy unlists it and joins the two blocks. -/
theorem mergeBlock_spec {managed : Set Nat} {pmm : Allocator} {lists : Nat → List Nat}
    {base order : Nat} {blocks : List DyadicBlock} (order_lt : order < ORDER_MAX)
    (holds : Holds managed pmm lists (⟨base, order⟩ :: blocks))
    (buddy_mem : (base ^^^ 2 ^ order) * NORMAL_PAGE_SIZE ∈ lists order) {entry : PageFrame}
    (cleared : ¬IsHead entry) :
    ∃ lists', Holds managed
      ((pmm.setFrame (base ^^^ 2 ^ order) entry).mergeBlock (base * NORMAL_PAGE_SIZE)
        ((base ^^^ 2 ^ order) * NORMAL_PAGE_SIZE) order).1 lists'
        (⟨min base (base ^^^ 2 ^ order), order + 1⟩ :: blocks) ∧
      (Coalesced ORDER_MAX (freeBlocks lists) → Coalesced ORDER_MAX (freeBlocks lists')) := by
  have base_aligned : 2 ^ order ∣ base := holds.aligned _ List.mem_cons_self
  obtain ⟨front, back, list_eq⟩ := List.append_of_mem buddy_mem
  have list := holds.free.linked order order_lt.le
  rw [list_eq] at list
  change (listLinks (pmm.setFrame (base ^^^ 2 ^ order) entry).memory).IsList
    (pointer ((pmm.setFrame (base ^^^ 2 ^ order) entry).freelist order)) _ at list
  obtain ⟨head, freelist_eq, head_eq⟩ := mergeBlock_freelist (base * NORMAL_PAGE_SIZE) list
  have free := holds.free.unlist order_lt.le list_eq
    (((pmm.setFrame (base ^^^ 2 ^ order) entry).mergeBlock (base * NORMAL_PAGE_SIZE)
      ((base ^^^ 2 ^ order) * NORMAL_PAGE_SIZE) order).1)
    (mergeBlock_pfndbLen _ _ _ _) (by rw [mergeBlock_pfndb, mul_page_div]; rfl) cleared freelist_eq
    head_eq (by
      intro node node_ne
      rw [mergeBlock_links]
      simp only [Function.update_of_ne node_ne]
      exact ⟨rfl, rfl⟩)
  have removed := freeBlocks_remove front order_lt.le list_eq
  rw [mul_page_div] at removed
  refine ⟨_, ⟨free, ?_, ?_, ?_⟩, fun coalesced => ?_⟩
  · have front_perm : (freeBlocks lists ++ ⟨base, order⟩ :: blocks).Perm
        (⟨base, order⟩ :: ⟨base ^^^ 2 ^ order, order⟩ ::
          (freeBlocks (Function.update lists order (front ++ back)) ++ blocks)) :=
      List.perm_middle.trans ((removed.append_right blocks).cons _)
    exact ((holds.tiles.perm front_perm).merge base_aligned).perm List.perm_middle.symm
  · intro block mem
    rcases List.mem_cons.mp mem with rfl | other
    · exact aligned_merge base_aligned
    · exact holds.aligned block (List.mem_cons_of_mem _ other)
  · intro block mem
    rcases List.mem_cons.mp mem with rfl | other
    · exact order_lt
    · exact holds.order_le block (List.mem_cons_of_mem _ other)
  · exact coalesced.mono fun block mem => removed.symm.subset (List.mem_cons_of_mem _ mem)

/-- The buddy address of an aligned block is the address of its buddy frame. -/
theorem page_xor (base order : Nat) :
    (base * NORMAL_PAGE_SIZE) ^^^ (NORMAL_PAGE_SIZE <<< order) =
      (base ^^^ 2 ^ order) * NORMAL_PAGE_SIZE := by
  have shifted := Nat.shiftLeft_xor_distrib (a := base) (b := 2 ^ order) (i := 12)
  have page_eq : NORMAL_PAGE_SIZE = 2 ^ 12 := rfl
  simp only [Nat.shiftLeft_eq] at shifted ⊢
  rw [page_eq, shifted, Nat.mul_comm (2 ^ 12)]

theorem andNot_head_not_isHead (entry : PageFrame)
    (flags_eq : entry.flags = PF_FREE ||| PF_BUDDY_HEAD) :
    ¬IsHead { entry with flags := andNot entry.flags PF_BUDDY_HEAD } := by
  rw [flags_eq]
  change ¬(andNot (PF_FREE ||| PF_BUDDY_HEAD) PF_BUDDY_HEAD &&& PF_BUDDY_HEAD ≠ 0)
  decide

/-- A frame flagged as head with the order of its block is listed at that order. -/
theorem FreeLists.listed_of_flags {pmm : Allocator} {lists : Nat → List Nat}
    (free : FreeLists pmm lists) {pfn order : Nat} (lt : pfn < pmm.pfndbLen)
    (flags : (pmm.pfndb pfn).flags &&& (PF_FREE ||| PF_BUDDY_HEAD) = PF_FREE ||| PF_BUDDY_HEAD)
    (order_eq : order = (pmm.pfndb pfn).buddyOrder) :
    pfn * NORMAL_PAGE_SIZE ∈ lists order ∧
      (pmm.pfndb pfn).flags = PF_FREE ||| PF_BUDDY_HEAD := by
  have isHead : IsHead (pmm.pfndb pfn) := by
    intro zero
    have masked : (pmm.pfndb pfn).flags &&& (PF_FREE ||| PF_BUDDY_HEAD) &&& PF_BUDDY_HEAD = 0 := by
      have head : (PF_FREE ||| PF_BUDDY_HEAD) &&& PF_BUDDY_HEAD = PF_BUDDY_HEAD := by decide
      rw [Nat.and_assoc, head]
      exact zero
    rw [flags] at masked
    exact absurd masked (by decide)
  obtain ⟨other, other_le, mem⟩ := free.only pfn lt isHead
  have flagged := free.flagged other other_le _ mem
  rw [mul_page_div] at flagged
  rw [order_eq, flagged.2]
  exact ⟨mem, flagged.1⟩

/-- One iteration of the merge loop, in frame numbers. -/
theorem coalesce_succ {pmm : Allocator} {remaining base order : Nat} (order_lt : order < ORDER_MAX)
    (buddy_lt : base ^^^ 2 ^ order < pmm.pfndbLen) :
    pmm.coalesce (remaining + 1) (base * NORMAL_PAGE_SIZE) order =
      if (pmm.pfndb (base ^^^ 2 ^ order)).flags &&& (PF_FREE ||| PF_BUDDY_HEAD) =
          (PF_FREE ||| PF_BUDDY_HEAD) ∧ order = (pmm.pfndb (base ^^^ 2 ^ order)).buddyOrder then
        ((pmm.setFrame (base ^^^ 2 ^ order) { pmm.pfndb (base ^^^ 2 ^ order) with
          flags := andNot (pmm.pfndb (base ^^^ 2 ^ order)).flags PF_BUDDY_HEAD }).mergeBlock
          (base * NORMAL_PAGE_SIZE) ((base ^^^ 2 ^ order) * NORMAL_PAGE_SIZE) order).1.coalesce
            remaining (min base (base ^^^ 2 ^ order) * NORMAL_PAGE_SIZE) (order + 1)
      else
        .ok (pmm, base * NORMAL_PAGE_SIZE, order) := by
  have order_small : order % 2 ^ 16 = order := by
    have : ORDER_MAX = 11 := rfl
    omega
  rw [coalesce, page_xor, mul_page_div, frame_of_lt buddy_lt, order_small,
    ← mergeBlock_addr (pmm.setFrame (base ^^^ 2 ^ order) { pmm.pfndb (base ^^^ 2 ^ order) with
      flags := andNot (pmm.pfndb (base ^^^ 2 ^ order)).flags PF_BUDDY_HEAD }) base _ order]
  rfl

/-- The merge loop absorbs listed buddies into a live block, until the buddy is not listed. -/
theorem coalesce_spec {managed : Set Nat} {pmm : Allocator} {lists : Nat → List Nat}
    {remaining base order : Nat} {blocks : List DyadicBlock} (covers : Covers managed pmm.pfndbLen)
    (fuel : order + remaining = ORDER_MAX)
    (holds : Holds managed pmm lists (⟨base, order⟩ :: blocks)) :
    ∃ after lists' base' order',
      pmm.coalesce remaining (base * NORMAL_PAGE_SIZE) order =
          .ok (after, base' * NORMAL_PAGE_SIZE, order') ∧
        Holds managed after lists' (⟨base', order'⟩ :: blocks) ∧ after.pfndbLen = pmm.pfndbLen ∧
        (∀ block ∈ blocks, after.pfndb block.base = pmm.pfndb block.base) ∧
        (Coalesced ORDER_MAX (freeBlocks lists) → Coalesced ORDER_MAX (freeBlocks lists')) ∧
        (order' < ORDER_MAX →
          (⟨base', order'⟩ : DyadicBlock).buddy ∉ freeBlocks lists') := by
  induction remaining generalizing pmm lists base order with
  | zero => exact ⟨pmm, lists, base, order, rfl, holds, rfl, fun _ _ => rfl, id, fun _ => by omega⟩
  | succ remaining ih =>
      have order_lt : order < ORDER_MAX := by omega
      have buddy_lt : base ^^^ 2 ^ order < pmm.pfndbLen :=
        covers.buddy_lt ⟨base, order⟩ order_lt (holds.aligned _ List.mem_cons_self)
          fun frame frameCovers => holds.managed_of_covers List.mem_cons_self frameCovers
      rw [coalesce_succ order_lt buddy_lt]
      split
      · next condition =>
          obtain ⟨buddy_mem, flags_eq⟩ :=
            holds.free.listed_of_flags buddy_lt condition.1 condition.2
          have cleared := andNot_head_not_isHead (pmm.pfndb (base ^^^ 2 ^ order)) flags_eq
          obtain ⟨lists₁, merged, coalesced⟩ := mergeBlock_spec order_lt holds buddy_mem cleared
          have len_eq : (((pmm.setFrame (base ^^^ 2 ^ order) { pmm.pfndb (base ^^^ 2 ^ order) with
              flags := andNot (pmm.pfndb (base ^^^ 2 ^ order)).flags PF_BUDDY_HEAD }).mergeBlock
              (base * NORMAL_PAGE_SIZE) ((base ^^^ 2 ^ order) * NORMAL_PAGE_SIZE)
                order).1).pfndbLen = pmm.pfndbLen := mergeBlock_pfndbLen _ _ _ _
          obtain ⟨after, lists₂, base', order', rest_eq, afterHolds, after_len, kept, coalesced',
            alone⟩ := ih (len_eq ▸ covers) (by omega) merged
          refine ⟨after, lists₂, base', order', rest_eq, afterHolds, after_len.trans len_eq, ?_,
            coalesced' ∘ coalesced, alone⟩
          intro block mem
          have outside : block.base ≠ base ^^^ 2 ^ order := by
            intro equal
            exact merged.base_not_covered mem
              (equal ▸ merge_covers_buddy (holds.aligned _ List.mem_cons_self))
          rw [kept block mem, mergeBlock_pfndb]
          simp [Allocator.setFrame, outside]
      · next different =>
          refine ⟨pmm, lists, base, order, rfl, holds, rfl, fun _ _ => rfl, id, fun _ mem => ?_⟩
          -- a listed buddy carries the flags and the order that the loop looks for
          obtain ⟨_, addr, listed, base_eq⟩ := mem_freeBlocks.mp mem
          have flagged := holds.free.flagged order order_lt.le addr listed
          rw [show addr / NORMAL_PAGE_SIZE = base ^^^ 2 ^ order from base_eq] at flagged
          exact different ⟨by rw [flagged.1, Nat.and_self], flagged.2.symm⟩

/-- Pushing a live block lists it. -/
theorem pushBlock_spec {managed : Set Nat} {pmm : Allocator} {lists : Nat → List Nat}
    {base order : Nat} {blocks : List DyadicBlock} (reaches : Reaches managed pmm.pfndbLen)
    (holds : Holds managed pmm lists (⟨base, order⟩ :: blocks)) :
    ∃ after lists', pmm.pushBlock (base * NORMAL_PAGE_SIZE) order = .ok after ∧
      Holds managed after lists' blocks ∧ after.pfndbLen = pmm.pfndbLen ∧
      (∀ block ∈ blocks, after.pfndb block.base = pmm.pfndb block.base) ∧
      (freeBlocks lists').Perm (⟨base, order⟩ :: freeBlocks lists) ∧
      ((order < ORDER_MAX → (⟨base, order⟩ : DyadicBlock).buddy ∉ freeBlocks lists) →
        Coalesced ORDER_MAX (freeBlocks lists) → Coalesced ORDER_MAX (freeBlocks lists')) := by
  have order_le : order ≤ ORDER_MAX := holds.order_le _ List.mem_cons_self
  have base_mem := holds.managed_of_covers List.mem_cons_self (covers_base ⟨base, order⟩)
  have base_lt := reaches.frame_lt base base_mem
  have ne_zero := reaches.page_ne_zero base_mem
  have unlisted := holds.not_listed (covers_base ⟨base, order⟩)
  have ne_head : base * NORMAL_PAGE_SIZE ≠ pmm.freelist order := by
    intro equal
    obtain ⟨rest, list_eq⟩ := holds.free.head_cons order_le (equal ▸ ne_zero)
    exact unlisted order order_le (by simp [list_eq, equal])
  have order_small : order % 2 ^ 16 = order := by
    have : ORDER_MAX = 11 := rfl
    omega
  set flagged := pmm.setFrame base
    { refcount := 0, flags := PF_FREE ||| PF_BUDDY_HEAD, buddyOrder := order } with flagged_def
  have listed := holds.free.list order_le ne_zero
    (page_aligned (holds.aligned _ List.mem_cons_self)) (by simpa using base_lt) unlisted
    (((flagged.setBlock (base * NORMAL_PAGE_SIZE)
      { prev := 0, next := pmm.freelist order }).setPrevAt (pmm.freelist order)
        (base * NORMAL_PAGE_SIZE)).setHead order (base * NORMAL_PAGE_SIZE))
    (by simp [flagged_def, Allocator.setFrame, Allocator.setBlock, setHead])
    (by simp [flagged_def, Allocator.setFrame, Allocator.setBlock, setHead])
    (by simp [flagged_def, Allocator.setFrame, Allocator.setBlock, setHead])
    (by
      change listLinks ((flagged.setBlock (base * NORMAL_PAGE_SIZE)
        { prev := 0, next := pmm.freelist order }).setPrevAt (pmm.freelist order)
          (base * NORMAL_PAGE_SIZE)).memory = _
      rw [listLinks_setPrevAt, listLinks_setBlock, pointer_of_ne ne_zero]
      rfl)
  have pushed := freeBlocks_push lists (base * NORMAL_PAGE_SIZE) order_le
  rw [mul_page_div] at pushed
  refine ⟨_, _, ?_, ⟨listed, ?_, ?_, ?_⟩, ?_, ?_, pushed, fun alone coalesced => ?_⟩
  · simp only [pushBlock, mul_page_div, order_small, frame_of_lt base_lt]
    change (if order > ORDER_MAX then _ else _) = _
    rw [if_neg (Nat.not_lt.mpr order_le)]
    rfl
  · exact holds.tiles.perm (List.perm_middle.trans (pushed.append_right blocks).symm)
  · exact fun block mem => holds.aligned block (List.mem_cons_of_mem _ mem)
  · exact fun block mem => holds.order_le block (List.mem_cons_of_mem _ mem)
  · simp [flagged_def, Allocator.setFrame, Allocator.setBlock, setHead]
  · intro block mem
    have outside := holds.base_not_covered mem
    have base_ne : block.base ≠ base := by
      intro equal
      exact outside (equal ▸ covers_base ⟨base, order⟩)
    simp [flagged_def, Allocator.setFrame, Allocator.setBlock, setHead, base_ne]
  · exact (coalesced.cons alone).mono pushed.subset

/-- Freeing a live block lists its frames again. -/
theorem freeOrder_spec {managed : Set Nat} {pmm : Allocator} {lists : Nat → List Nat}
    {base order : Nat} {blocks : List DyadicBlock} (covers : Covers managed pmm.pfndbLen)
    (holds : Holds managed pmm lists (⟨base, order⟩ :: blocks))
    (notFree : (pmm.pfndb base).flags &&& PF_FREE = 0) :
    ∃ after lists', pmm.freeOrder (base * NORMAL_PAGE_SIZE) order = .ok after ∧
      Holds managed after lists' blocks ∧ after.pfndbLen = pmm.pfndbLen ∧
      (∀ block ∈ blocks, after.pfndb block.base = pmm.pfndb block.base) ∧
      (Coalesced ORDER_MAX (freeBlocks lists) → Coalesced ORDER_MAX (freeBlocks lists')) := by
  have order_le : order ≤ ORDER_MAX := holds.order_le _ List.mem_cons_self
  have base_mem := holds.managed_of_covers List.mem_cons_self (covers_base ⟨base, order⟩)
  have base_lt := covers.frame_lt base base_mem
  obtain ⟨middle, lists₁, base', order', coalesce_eq, middleHolds, middle_len, middle_kept,
      middle_coalesced, alone⟩ :=
    coalesce_spec covers (show order + (ORDER_MAX - order) = ORDER_MAX by omega) holds
  obtain ⟨after, lists₂, push_eq, afterHolds, after_len, after_kept, -, after_coalesced⟩ :=
    pushBlock_spec (middle_len ▸ covers).reaches middleHolds
  refine ⟨after, lists₂, ?_, afterHolds, after_len.trans middle_len, ?_,
    after_coalesced alone ∘ middle_coalesced⟩
  · simp only [freeOrder, mul_page_div, frame_of_lt base_lt]
    change (if (pmm.pfndb base).flags &&& PF_FREE ≠ 0 then _ else _) = _
    rw [if_neg (not_not.mpr notFree), coalesce_eq]
    exact push_eq
  · intro block mem
    rw [after_kept block mem, middle_kept block mem]

end Allocator
end Vespertine
