import Vespertine.Memory.BuddyRun

/-!
# Coalescing is canonical

Merging goes on while the buddy is listed, so that two buddies below the largest order are never
both listed.  A set of frames has only one tiling of this kind: once everything has been freed, the
lists are those of the beginning, in whatever orders blocks were taken and given back.
-/

namespace Vespertine

open DyadicBlock

namespace Allocator

/-- No two buddies of an order below the largest are both listed. -/
def Merged (lists : Nat → List Nat) : Prop :=
  ∀ order < ORDER_MAX, ∀ addr ∈ lists order, addr ^^^ (NORMAL_PAGE_SIZE <<< order) ∉ lists order

section Lists

variable {pmm : Allocator} {lists : Nat → List Nat}

/-- A listed block is listed under the address of its first frame. -/
theorem FreeLists.mem_iff (free : FreeLists pmm lists) {base order : Nat}
    (order_le : order ≤ ORDER_MAX) :
    ⟨base, order⟩ ∈ freeBlocks lists ↔ base * NORMAL_PAGE_SIZE ∈ lists order := by
  rw [mem_freeBlocks]
  constructor
  · rintro ⟨-, addr, mem, rfl⟩
    rwa [free.page_of_mem order_le mem]
  · exact fun mem => ⟨order_le, _, mem, mul_page_div base⟩

theorem FreeLists.aligned_blocks (free : FreeLists pmm lists) {block : DyadicBlock}
    (mem : block ∈ freeBlocks lists) : block.Aligned ∧ block.order ≤ ORDER_MAX := by
  obtain ⟨order_le, addr, listed, base_eq⟩ := mem_freeBlocks.mp mem
  have divides := free.aligned block.order order_le addr listed
  rw [← free.page_of_mem order_le listed, base_eq, Nat.shiftLeft_eq,
    Nat.mul_comm NORMAL_PAGE_SIZE] at divides
  exact ⟨Nat.dvd_of_mul_dvd_mul_right (by decide) divides, order_le⟩

theorem FreeLists.merged_iff (free : FreeLists pmm lists) :
    Merged lists ↔ Coalesced ORDER_MAX (freeBlocks lists) := by
  constructor
  · rintro merged ⟨base, order⟩ mem lower buddy_mem
    refine merged order lower _ ((free.mem_iff lower.le).mp mem) ?_
    rw [page_xor]
    exact (free.mem_iff lower.le).mp buddy_mem
  · intro coalesced order lower addr mem buddy_mem
    have page := free.page_of_mem lower.le mem
    rw [← page] at mem buddy_mem
    rw [page_xor] at buddy_mem
    exact coalesced _ ((free.mem_iff lower.le).mpr mem) lower
      ((free.mem_iff lower.le).mpr buddy_mem)

end Lists

/-- Lists without buddies that hold the same frames are equal as sets. -/
theorem lists_subset {managed : Set Nat} {left right : Allocator} {lists lists' : Nat → List Nat}
    (holds : Holds managed left lists []) (holds' : Holds managed right lists' [])
    (coalesced : Coalesced ORDER_MAX (freeBlocks lists))
    (coalesced' : Coalesced ORDER_MAX (freeBlocks lists')) {order : Nat}
    (order_le : order ≤ ORDER_MAX) {addr : Nat} (mem : addr ∈ lists order) :
    addr ∈ lists' order := by
  have tiles := holds.tiles
  have tiles' := holds'.tiles
  rw [List.append_nil] at tiles tiles'
  have subset := coalesced.subset tiles (fun block mem => (holds.free.aligned_blocks mem).1)
    (fun block mem => (holds.free.aligned_blocks mem).2) coalesced' tiles'
    (fun block mem => (holds'.free.aligned_blocks mem).1)
    fun block mem => (holds'.free.aligned_blocks mem).2
  have page := holds.free.page_of_mem order_le mem
  rw [← page] at mem ⊢
  exact (holds'.free.mem_iff order_le).mp (subset ((holds.free.mem_iff order_le).mpr mem))

/-- The tiling is part of the buddy invariant. -/
theorem BuddyInvariant.holds {managed : Set Nat} {pmm : Allocator} {lists : Nat → List Nat}
    (covers : Covers managed pmm.pfndbLen) (invariant : BuddyInvariant managed ⟨pmm, []⟩ lists) :
    Holds managed pmm lists [] := by
  have listed (order : Nat) (order_le : order ≤ ORDER_MAX) (addr : Nat) (mem : addr ∈ lists order) :
      addr / NORMAL_PAGE_SIZE ∈ managed := by
    have block_mem : (⟨addr / NORMAL_PAGE_SIZE, order⟩ : DyadicBlock) ∈ freeBlocks lists :=
      mem_freeBlocks.mpr ⟨order_le, addr, mem, rfl⟩
    exact (invariant.union _).mpr ⟨_, List.mem_append_left _ block_mem, covers_base _⟩
  refine ⟨⟨invariant.linked, fun order order_le addr mem => ?_, invariant.aligned,
    fun order order_le addr mem => covers.frame_lt _ (listed order order_le addr mem),
    invariant.flagged, invariant.only⟩, .of_pairwise invariant.disjoint invariant.union, ?_, ?_⟩
  · rintro rfl
    exact covers.zero_not_mem (by simpa using listed order order_le 0 mem)
  · exact fun block mem => absurd mem List.not_mem_nil
  · exact fun block mem => absurd mem List.not_mem_nil

/-- The state between two calls, with no two buddies listed. -/
structure Canonical (managed : Set Nat) (pfndbLen : Nat) (state : Served) : Prop where
  /-- Some listing agrees with the frame table and has no two buddies. -/
  holds : ∃ lists, Holds managed state.pmm lists state.live ∧
    Coalesced ORDER_MAX (freeBlocks lists)
  /-- The frame table keeps its length. -/
  len_eq : state.pmm.pfndbLen = pfndbLen
  /-- Freeing a live block passes the double-free check. -/
  notFree : HeadsNotFree state.pmm state.live

theorem Canonical.serve {managed : Set Nat} {pfndbLen : Nat} (covers : Covers managed pfndbLen)
    (state : Served) (call : Call) (canonical : Canonical managed pfndbLen state)
    (allowed : Allowed state call) :
    ∃ next, serve state call = .ok next ∧ Canonical managed pfndbLen next := by
  obtain ⟨⟨lists, holds, coalesced⟩, len_eq, notFree⟩ := canonical
  obtain ⟨next, lists', serve_eq, next_holds, next_len, next_notFree, keeps⟩ :=
    serve_spec covers holds len_eq notFree allowed
  exact ⟨next, serve_eq, ⟨lists', next_holds, keeps coalesced⟩, next_len, next_notFree⟩

/-- In every state that is reached no two buddies are both listed, and whenever nothing is live the
lists hold the blocks that they held at first. -/
theorem coalescing_canonical {managed : Set Nat} {pmm : Allocator} {lists : Nat → List Nat}
    {calls : List Call} (covers : Covers managed pmm.pfndbLen)
    (invariant : BuddyInvariant managed ⟨pmm, []⟩ lists) (merged : Merged lists)
    (permits : service.Permits ⟨pmm, []⟩ calls) :
    ∃ final lists', service.run ⟨pmm, []⟩ calls = .ok final ∧
      BuddyInvariant managed final lists' ∧ Merged lists' ∧
      (final.live = [] →
        ∀ order ≤ ORDER_MAX, ∀ addr, addr ∈ lists' order ↔ addr ∈ lists order) := by
  have holds := invariant.holds covers
  have coalesced := holds.free.merged_iff.mp merged
  have start : Canonical managed pmm.pfndbLen ⟨pmm, []⟩ :=
    ⟨⟨lists, holds, coalesced⟩, rfl, fun block mem => absurd mem List.not_mem_nil⟩
  obtain ⟨final, run_eq, ⟨lists', holds', coalesced'⟩, -, -⟩ :=
    service.run_ok (Canonical.serve covers) start permits
  refine ⟨final, lists', run_eq, holds'.buddyInvariant, holds'.free.merged_iff.mpr coalesced', ?_⟩
  intro nothing order order_le addr
  rw [nothing] at holds'
  constructor
  · exact lists_subset holds' holds coalesced' coalesced order_le
  · exact lists_subset holds holds' coalesced coalesced' order_le

/-- Two frames are taken apart and put together again. -/
theorem coalescing_canonical_two_frames :
    ∃ (pmm : Allocator) (lists : Nat → List Nat),
      init (fun _ => ⟨0, 0⟩) 4 (fun frame => frame == 2 || frame == 3) 4 = .ok pmm ∧
      ∃ final lists', service.run ⟨pmm, []⟩ [.alloc 0, .free 0x2000 0] = .ok final ∧
        BuddyInvariant {frame | frame < 4 ∧ (frame == 2 || frame == 3) = true} final lists' ∧
        Merged lists' ∧ (final.live = [] →
          ∀ order ≤ ORDER_MAX, ∀ addr, addr ∈ lists' order ↔ addr ∈ lists order) := by
  obtain ⟨pmm, lists, init_eq, holds, len_eq, coalesced⟩ :=
    init_spec (fun _ => ⟨0, 0⟩) two_frames_covers
  have covers : Covers {frame | frame < 4 ∧ (frame == 2 || frame == 3) = true} pmm.pfndbLen := by
    rw [len_eq]
    exact two_frames_covers
  have invariant : BuddyInvariant _ ⟨pmm, []⟩ lists := Holds.buddyInvariant holds
  exact ⟨pmm, lists, init_eq, coalescing_canonical covers invariant
    (holds.free.merged_iff.mpr coalesced) (two_frames_permitted init_eq)⟩

end Allocator
end Vespertine
