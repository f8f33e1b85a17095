import Vespertine.Memory.BuddyRun

/-!
# When an allocation succeeds

An allocation walks up the orders to the first nonempty list, so it finds a block exactly when one
that is large enough is listed.  The orders themselves are only checked on the way up: the first
list is indexed with whatever order the caller computed.
-/

namespace Vespertine

open DyadicBlock

namespace Allocator

/-- The frames of the listed blocks together. -/
def freeFrames (lists : Nat → List Nat) : Nat := total (freeBlocks lists)

section Lists

variable {pmm after : Allocator} {lists : Nat → List Nat} {order : Nat}

theorem FreeLists.not_listed (free : FreeLists pmm lists) (empty : pmm.freelist order = 0)
    {block : DyadicBlock} (order_eq : block.order = order) : block ∉ freeBlocks lists := by
  intro mem
  obtain ⟨order_le, addr, listed, -⟩ := mem_freeBlocks.mp mem
  have list := free.linked block.order order_le
  rw [order_eq, empty, pointer_zero] at list
  have nil := List.head?_eq_none_iff.mp list.head_eq.symm
  rw [order_eq, nil] at listed
  cases listed

/-- What a call of `alloc_order` that returns has found. -/
theorem allocOrder_cases (free : FreeLists pmm lists) {result : Option Nat}
    (alloc_eq : pmm.allocOrder order = .ok (result, after)) :
    (result = none ∧ after = pmm ∧ ∀ block ∈ freeBlocks lists, block.order < order) ∨
      ∃ addr found, result = some addr ∧ order ≤ found ∧ found ≤ ORDER_MAX ∧
        addr ∈ lists found := by
  rw [allocOrder] at alloc_eq
  split at alloc_eq
  · cases alloc_eq
  · next order_le =>
      have fuel : order + (ORDER_MAX + 1 - order) = ORDER_MAX + 1 := by omega
      rcases findOrder_spec pmm fuel with
        ⟨found, find_eq, lower, upper, nonempty⟩ | ⟨find_eq, empty⟩
      · rw [find_eq] at alloc_eq
        obtain ⟨entry, -, rest_eq⟩ := bind_eq_ok.mp alloc_eq
        obtain ⟨split, -, rest_eq⟩ := bind_eq_ok.mp rest_eq
        obtain ⟨last, -, result_eq⟩ := bind_eq_ok.mp rest_eq
        obtain ⟨rfl, -⟩ := Prod.mk.inj (Except.ok.inj result_eq)
        obtain ⟨rest, list_eq⟩ := free.head_cons upper nonempty
        exact Or.inr ⟨_, found, rfl, lower, upper, by simp [list_eq]⟩
      · rw [find_eq] at alloc_eq
        obtain ⟨rfl, rfl⟩ := Prod.mk.inj (Except.ok.inj alloc_eq)
        refine Or.inl ⟨rfl, rfl, fun block mem => ?_⟩
        by_contra large
        have block_le := (mem_freeBlocks.mp mem).1
        exact free.not_listed (empty block.order (by omega) block_le) rfl mem

end Lists

section Count

variable {managed : Set Nat} {pfndbLen : Nat} {pmm after : Allocator}
  {lists lists' : Nat → List Nat} {live : List DyadicBlock} {order addr : Nat}

/-- Every frame is free or in a live block. -/
theorem Holds.freeFrames_add (covers : Covers managed pfndbLen)
    (holds : Holds managed pmm lists live) {blocks : List DyadicBlock}
    (holds' : Holds managed after lists' blocks) :
    freeFrames lists + total live = freeFrames lists' + total blocks := by
  have same := holds.tiles.total_eq holds'.tiles covers.frame_lt
  rwa [total_append, total_append] at same

/-- An allocation in a sound state finds nothing, or hands out one of the free blocks. -/
theorem alloc_sound (covers : Covers managed pfndbLen) (order_le : order ≤ ORDER_MAX)
    (holds : Holds managed pmm lists live) (len_eq : pmm.pfndbLen = pfndbLen)
    (notFree : HeadsNotFree pmm live) :
    (pmm.allocOrder order = .ok (none, pmm) ∧ ∀ block ∈ freeBlocks lists, block.order < order) ∨
      ∃ base after lists', pmm.allocOrder order = .ok (some (base * NORMAL_PAGE_SIZE), after) ∧
        Holds managed after lists' (⟨base, order⟩ :: live) ∧ after.pfndbLen = pfndbLen ∧
        HeadsNotFree after (⟨base, order⟩ :: live) ∧
        freeFrames lists = freeFrames lists' + 2 ^ order := by
  obtain ⟨next, lists', serve_eq, next_holds, next_len, next_notFree, -⟩ :=
    @serve_spec managed pfndbLen covers ⟨pmm, live⟩ (.alloc order) lists holds len_eq notFree
      order_le
  obtain ⟨⟨result, after⟩, alloc_eq, rest_eq⟩ := bind_eq_ok.mp serve_eq
  rcases allocOrder_cases holds.free alloc_eq with
    ⟨rfl, rfl, small⟩ | ⟨addr, found, rfl, -, found_le, listed⟩
  · exact Or.inl ⟨alloc_eq, small⟩
  · obtain rfl := Except.ok.inj rest_eq
    have counted : freeFrames lists + total live = freeFrames lists' + (2 ^ order + total live) :=
      holds.freeFrames_add covers next_holds
    refine Or.inr ⟨addr / NORMAL_PAGE_SIZE, after, lists', ?_, next_holds, next_len, next_notFree,
      by omega⟩
    rw [holds.free.page_of_mem found_le listed]
    exact alloc_eq

/-- A single frame is found exactly when one is free. -/
theorem alloc_frame (covers : Covers managed pfndbLen) (holds : Holds managed pmm lists live)
    (len_eq : pmm.pfndbLen = pfndbLen) (notFree : HeadsNotFree pmm live) :
    (pmm.alloc .Normal = .ok (none, pmm) ∧ freeFrames lists = 0) ∨
      ∃ frame after lists', pmm.alloc .Normal = .ok (some (frame * NORMAL_PAGE_SIZE), after) ∧
        Holds managed after lists' (⟨frame, 0⟩ :: live) ∧ after.pfndbLen = pfndbLen ∧
        HeadsNotFree after (⟨frame, 0⟩ :: live) ∧ freeFrames lists = freeFrames lists' + 1 := by
  rcases alloc_sound covers (Nat.zero_le _) holds len_eq notFree with ⟨alloc_eq, small⟩ | found
  · refine Or.inl ⟨alloc_eq, ?_⟩
    have empty : freeBlocks lists = [] :=
      List.eq_nil_iff_forall_not_mem.mpr fun block mem => Nat.not_lt_zero _ (small block mem)
    rw [freeFrames, empty, total_nil]
  · exact Or.inr found

end Count

section Exact

variable {managed : Set Nat} {state : Served} {lists : Nat → List Nat}

/-- A link of a free list does not lead to the null address. -/
theorem BuddyInvariant.ne_zero (invariant : BuddyInvariant managed state lists) {order addr : Nat}
    (order_le : order ≤ ORDER_MAX) (mem : addr ∈ lists order) : addr ≠ 0 := by
  rintro rfl
  have not_null (word : Nat) : pointer word ≠ some 0 := by
    intro equal
    by_cases null : word = 0
    · simp [null] at equal
    · rw [pointer_of_ne null] at equal
      exact null (Option.some.inj equal)
  have list := invariant.linked order order_le
  obtain ⟨front, back, list_eq⟩ := List.append_of_mem mem
  rw [list_eq] at list
  cases front using List.reverseRecOn with
  | nil => exact not_null _ list.head_eq
  | append_singleton front last =>
      rw [List.append_assoc, List.singleton_append] at list
      exact not_null _ list.neighbours.2

/-- The listed blocks alone are a sound state of the allocator over their own frames. -/
theorem BuddyInvariant.holds_free (invariant : BuddyInvariant managed state lists)
    (frame_lt : ∀ frame ∈ managed, frame < state.pmm.pfndbLen) :
    Reaches {frame | ∃ block ∈ freeBlocks lists, block.Covers frame} state.pmm.pfndbLen ∧
      Holds {frame | ∃ block ∈ freeBlocks lists, block.Covers frame} state.pmm lists [] := by
  have inTable (block : DyadicBlock) (mem : block ∈ freeBlocks lists) (frame : Nat)
      (covers : block.Covers frame) : frame < state.pmm.pfndbLen :=
    frame_lt frame ((invariant.union frame).mpr ⟨block, List.mem_append_left _ mem, covers⟩)
  refine ⟨⟨?_, ?_⟩, ⟨invariant.linked, fun order order_le addr mem => ?_, invariant.aligned,
    fun order order_le addr mem => ?_, invariant.flagged, invariant.only⟩, ?_, ?_, ?_⟩
  · rintro ⟨block, mem, covers⟩
    obtain ⟨order_le, addr, listed, base_eq⟩ := mem_freeBlocks.mp mem
    have page := page_mul_div (invariant.aligned _ order_le addr listed)
    have base_zero : block.base = 0 := Nat.le_zero.mp covers.1
    rw [base_eq, base_zero, Nat.zero_mul] at page
    exact invariant.ne_zero order_le listed page.symm
  · rintro frame ⟨block, mem, covers⟩
    exact inTable block mem frame covers
  · exact invariant.ne_zero order_le mem
  · exact inTable _ (mem_freeBlocks.mpr ⟨order_le, addr, mem, rfl⟩) _ (covers_base ⟨_, order⟩)
  · rw [List.append_nil]
    refine .of_pairwise (List.pairwise_append.mp invariant.disjoint).1 fun frame => Iff.rfl
  · exact fun block mem => absurd mem List.not_mem_nil
  · exact fun block mem => absurd mem List.not_mem_nil

/-- An allocation takes part of a free block that is large enough whenever there is one, and
otherwise returns nothing and changes nothing. -/
def AllocatesExactly (pmm : Allocator) (lists : Nat → List Nat) (order : Nat) : Prop :=
  ((∃ block ∈ freeBlocks lists, order ≤ block.order) →
    ∃ addr after, pmm.allocOrder order = .ok (some addr, after) ∧
      NORMAL_PAGE_SIZE <<< order ∣ addr ∧ ∃ block ∈ freeBlocks lists, ∀ frame,
        (⟨addr / NORMAL_PAGE_SIZE, order⟩ : DyadicBlock).Covers frame → block.Covers frame) ∧
  ((∀ block ∈ freeBlocks lists, block.order < order) → pmm.allocOrder order = .ok (none, pmm))

theorem covers_mono {base lower upper frame : Nat} (le : lower ≤ upper)
    (covers : (⟨base, lower⟩ : DyadicBlock).Covers frame) :
    (⟨base, upper⟩ : DyadicBlock).Covers frame := by
  have longer := Nat.pow_le_pow_right (n := 2) (by decide) le
  exact ⟨covers.1, covers.2.trans_le (by simpa using longer)⟩

/-- Under the buddy invariant, allocation of an order is exact up to the largest one. -/
theorem allocatesExactly_iff (invariant : BuddyInvariant managed state lists)
    (frame_lt : ∀ frame ∈ managed, frame < state.pmm.pfndbLen) (order : Nat) :
    AllocatesExactly state.pmm lists order ↔ order ≤ ORDER_MAX := by
  constructor
  · rintro ⟨-, refuses⟩
    by_contra large
    have none_free (block : DyadicBlock) (mem : block ∈ freeBlocks lists) : block.order < order :=
      ((mem_freeBlocks.mp mem).1).trans_lt (Nat.lt_of_not_le large)
    have refused := refuses none_free
    rw [allocOrder, if_pos (Nat.lt_of_not_le large)] at refused
    cases refused
  · intro order_le
    obtain ⟨reaches, holds⟩ := invariant.holds_free frame_lt
    rcases allocOrder_spec reaches order_le holds with
      alloc_eq | ⟨base, after, lists', alloc_eq, after_holds, -⟩
    · rcases allocOrder_cases holds.free alloc_eq with ⟨-, -, small⟩ | ⟨_, _, result_eq, -⟩
      · refine ⟨?_, fun _ => alloc_eq⟩
        rintro ⟨block, mem, large⟩
        exact absurd (small block mem) (Nat.not_lt.mpr large)
      · cases result_eq
    · rcases allocOrder_cases holds.free alloc_eq with
        ⟨result_eq, -⟩ | ⟨addr, found, result_eq, le, found_le, listed⟩
      · cases result_eq
      · cases result_eq
        have mem : ⟨base * NORMAL_PAGE_SIZE / NORMAL_PAGE_SIZE, found⟩ ∈ freeBlocks lists :=
          mem_freeBlocks.mpr ⟨found_le, _, listed, rfl⟩
        refine ⟨fun _ => ⟨_, after, alloc_eq, ?_, _, mem, fun frame => covers_mono le⟩, ?_⟩
        · exact page_aligned (after_holds.aligned _ List.mem_cons_self)
        · exact fun small => absurd (small _ mem) (Nat.not_lt.mpr le)

end Exact

end Allocator
end Vespertine
