import Mathlib.Algebra.BigOperators.Group.Finset.Basic
import Mathlib.Algebra.BigOperators.Group.Finset.Piecewise
import Mathlib.Data.Nat.Bitwise
import Mathlib.Data.List.Count
import Mathlib.Data.List.Perm.Basic
import Mathlib.Data.Set.Defs
import Mathlib.Order.Interval.Finset.Nat
import Mathlib.Tactic.Ring

/-!
# Tilings by dyadic blocks

A dyadic block of order `k` is a run of `2 ^ k` consecutive numbers.  A family of blocks tiles a
set when every element of the set lies in exactly one block of the family and no other number
lies in any.  Splitting a block and merging two buddies keep the number of blocks over every
number, so both keep a tiling.
-/

namespace Vespertine

/-- A run of `2 ^ order` consecutive numbers. -/
@[ext]
structure DyadicBlock where
  /-- The lowest number of the block. -/
  base : Nat
  /-- Binary logarithm of the length. -/
  order : Nat
deriving DecidableEq, Repr

namespace DyadicBlock

/-- The block contains the number. -/
def Covers (block : DyadicBlock) (number : Nat) : Prop :=
  block.base ≤ number ∧ number < block.base + 2 ^ block.order

instance (block : DyadicBlock) (number : Nat) : Decidable (block.Covers number) :=
  inferInstanceAs (Decidable (_ ∧ _))

/-- The block starts at a multiple of its length. -/
def Aligned (block : DyadicBlock) : Prop := 2 ^ block.order ∣ block.base

/-- Two blocks share no number. -/
def Apart (left right : DyadicBlock) : Prop := ∀ number, ¬(left.Covers number ∧ right.Covers number)

/-- The number of blocks of a family over one number. -/
def owners (blocks : List DyadicBlock) (number : Nat) : Nat :=
  blocks.countP fun block => block.Covers number

/-- Every number of the set lies in exactly one block, every other number in none. -/
def Tiles (blocks : List DyadicBlock) (numbers : Set Nat) : Prop :=
  ∀ number, owners blocks number ≤ 1 ∧ (0 < owners blocks number ↔ number ∈ numbers)

theorem covers_base (block : DyadicBlock) : block.Covers block.base :=
  ⟨le_refl _, Nat.lt_add_of_pos_right (Nat.two_pow_pos _)⟩

/-- The buddy of an aligned block is its other half inside the next larger aligned block. -/
theorem xor_two_pow_cases {base order : Nat} (aligned : 2 ^ order ∣ base) :
    (base ^^^ 2 ^ order = base + 2 ^ order ∧ 2 ^ (order + 1) ∣ base) ∨
      (base = (base ^^^ 2 ^ order) + 2 ^ order ∧ 2 ^ (order + 1) ∣ base ^^^ 2 ^ order) := by
  obtain ⟨index, rfl⟩ := aligned
  have flip : (2 ^ order * index) ^^^ 2 ^ order = 2 ^ order * (index ^^^ 1) := by
    have shifted := Nat.shiftLeft_xor_distrib (a := index) (b := 1) (i := order)
    simpa [Nat.shiftLeft_eq, Nat.mul_comm] using shifted.symm
  rw [flip, Nat.pow_succ]
  rcases Nat.even_or_odd index with even | odd
  · left
    refine ⟨by rw [Nat.xor_one_of_even even, Nat.mul_add, Nat.mul_one], ?_⟩
    exact Nat.mul_dvd_mul_left _ even.two_dvd
  · right
    obtain ⟨half, rfl⟩ := odd
    have lower : (2 * half + 1) ^^^ 1 = 2 * half := by
      rw [Nat.xor_one_of_odd ⟨half, rfl⟩, Nat.add_sub_cancel]
    rw [lower]
    refine ⟨by ring, ?_⟩
    exact Nat.mul_dvd_mul_left _ (Dvd.intro half rfl)

theorem owners_cons (block : DyadicBlock) (blocks : List DyadicBlock) (number : Nat) :
    owners (block :: blocks) number =
      owners blocks number + if block.Covers number then 1 else 0 := by
  simp [owners, List.countP_cons]

theorem owners_perm {left right : List DyadicBlock} (perm : left.Perm right) (number : Nat) :
    owners left number = owners right number := perm.countP_eq _

/-- A block covers exactly what its two halves cover. -/
theorem owners_halves (base order : Nat) (blocks : List DyadicBlock) (number : Nat) :
    owners (⟨base, order⟩ :: ⟨base + 2 ^ order, order⟩ :: blocks) number =
      owners (⟨base, order + 1⟩ :: blocks) number := by
  have length_eq : 2 ^ (order + 1) = 2 ^ order + 2 ^ order := by ring
  have whole : (⟨base, order + 1⟩ : DyadicBlock).Covers number ↔
      (⟨base, order⟩ : DyadicBlock).Covers number ∨
        (⟨base + 2 ^ order, order⟩ : DyadicBlock).Covers number := by
    simp only [Covers, length_eq]
    omega
  have apart : ¬((⟨base, order⟩ : DyadicBlock).Covers number ∧
      (⟨base + 2 ^ order, order⟩ : DyadicBlock).Covers number) := by
    simp only [Covers]
    omega
  by_cases lower : (⟨base, order⟩ : DyadicBlock).Covers number
  · have upper : ¬(⟨base + 2 ^ order, order⟩ : DyadicBlock).Covers number :=
      fun also => apart ⟨lower, also⟩
    simp [owners_cons, whole, lower, upper]
  · simp [owners_cons, whole, lower]

theorem pos_owners_iff {blocks : List DyadicBlock} {number : Nat} :
    0 < owners blocks number ↔ ∃ block ∈ blocks, block.Covers number := by
  simp [owners, List.countP_pos_iff]

theorem Tiles.of_owners_eq {left right : List DyadicBlock} {numbers : Set Nat}
    (tiles : Tiles left numbers) (same : ∀ number, owners right number = owners left number) :
    Tiles right numbers := by
  intro number
  rw [same number]
  exact tiles number

theorem Tiles.perm {left right : List DyadicBlock} {numbers : Set Nat} (tiles : Tiles left numbers)
    (perm : left.Perm right) : Tiles right numbers :=
  tiles.of_owners_eq fun number => (owners_perm perm number).symm

/-- Replacing a block by its halves keeps a tiling. -/
theorem Tiles.split {base order : Nat} {blocks : List DyadicBlock} {numbers : Set Nat}
    (tiles : Tiles (⟨base, order + 1⟩ :: blocks) numbers) :
    Tiles (⟨base, order⟩ :: ⟨base + 2 ^ order, order⟩ :: blocks) numbers :=
  tiles.of_owners_eq (owners_halves base order blocks)

/-- Replacing an aligned block and its buddy by their union keeps a tiling. -/
theorem Tiles.merge {base order : Nat} {blocks : List DyadicBlock} {numbers : Set Nat}
    (aligned : 2 ^ order ∣ base)
    (tiles : Tiles (⟨base, order⟩ :: ⟨base ^^^ 2 ^ order, order⟩ :: blocks) numbers) :
    Tiles (⟨min base (base ^^^ 2 ^ order), order + 1⟩ :: blocks) numbers := by
  rcases xor_two_pow_cases aligned with ⟨buddy_eq, -⟩ | ⟨base_eq, -⟩
  · rw [buddy_eq] at tiles ⊢
    rw [Nat.min_eq_left (Nat.le_add_right _ _)]
    exact tiles.of_owners_eq fun number => (owners_halves base order blocks number).symm
  · have low : min base (base ^^^ 2 ^ order) = base ^^^ 2 ^ order := by omega
    rw [low]
    apply tiles.of_owners_eq
    intro number
    rw [← owners_halves, ← base_eq]
    exact owners_perm (List.Perm.swap _ _ _) number

/-- The union of an aligned block and its buddy is aligned. -/
theorem aligned_merge {base order : Nat} (aligned : 2 ^ order ∣ base) :
    2 ^ (order + 1) ∣ min base (base ^^^ 2 ^ order) := by
  have positive := Nat.two_pow_pos order
  rcases xor_two_pow_cases aligned with ⟨buddy_eq, divides⟩ | ⟨base_eq, divides⟩
  · rwa [buddy_eq, Nat.min_eq_left (Nat.le_add_right _ _)]
  · rwa [show min base (base ^^^ 2 ^ order) = base ^^^ 2 ^ order by omega]

/-- The union of an aligned block and its buddy contains the buddy. -/
theorem merge_covers_buddy {base order : Nat} (aligned : 2 ^ order ∣ base) :
    (⟨min base (base ^^^ 2 ^ order), order + 1⟩ : DyadicBlock).Covers (base ^^^ 2 ^ order) := by
  have positive := Nat.two_pow_pos order
  simp only [Covers, Nat.pow_succ]
  rcases xor_two_pow_cases aligned with ⟨buddy_eq, -⟩ | ⟨base_eq, -⟩
  · omega
  · omega

theorem Tiles.covered {blocks : List DyadicBlock} {numbers : Set Nat} (tiles : Tiles blocks numbers)
    {block : DyadicBlock} (mem : block ∈ blocks) {number : Nat} (covers : block.Covers number) :
    number ∈ numbers :=
  (tiles number).2.mp (pos_owners_iff.mpr ⟨block, mem, covers⟩)

/-- Where no number has two owners, the first block is apart from all the others. -/
theorem apart_of_owners_le {block other : DyadicBlock} {blocks : List DyadicBlock}
    (bounds : ∀ number, owners (block :: blocks) number ≤ 1) (mem : other ∈ blocks) :
    block.Apart other := by
  rintro number ⟨here, there⟩
  have bound := bounds number
  have positive : 0 < owners blocks number := pos_owners_iff.mpr ⟨other, mem, there⟩
  rw [owners_cons, if_pos here] at bound
  omega

theorem Tiles.head_apart {block : DyadicBlock} {blocks : List DyadicBlock} {numbers : Set Nat}
    (tiles : Tiles (block :: blocks) numbers) {other : DyadicBlock} (mem : other ∈ blocks) :
    block.Apart other :=
  apart_of_owners_le (fun number => (tiles number).1) mem

/-- A tiling consists of pairwise disjoint blocks. -/
theorem Tiles.pairwise_apart {blocks : List DyadicBlock} {numbers : Set Nat}
    (tiles : Tiles blocks numbers) : blocks.Pairwise Apart := by
  suffices general : (∀ number, owners blocks number ≤ 1) → blocks.Pairwise Apart from
    general fun number => (tiles number).1
  clear tiles
  intro bounds
  induction blocks with
  | nil => exact List.Pairwise.nil
  | cons block blocks ih =>
      refine List.pairwise_cons.mpr ⟨fun other mem => apart_of_owners_le bounds mem, ?_⟩
      apply ih
      intro number
      have bound := bounds number
      rw [owners_cons] at bound
      omega

/-- Disjoint blocks tile their union. -/
theorem Tiles.of_pairwise {blocks : List DyadicBlock} {numbers : Set Nat}
    (apart : blocks.Pairwise Apart)
    (union : ∀ number, number ∈ numbers ↔ ∃ block ∈ blocks, block.Covers number) :
    Tiles blocks numbers := by
  refine fun number => ⟨?_, pos_owners_iff.trans (union number).symm⟩
  clear union
  induction blocks with
  | nil => exact Nat.zero_le 1
  | cons block blocks ih =>
      obtain ⟨head_apart, rest_apart⟩ := List.pairwise_cons.mp apart
      rw [owners_cons]
      split
      next covers =>
        have none : owners blocks number = 0 := by
          by_contra some
          obtain ⟨other, mem, other_covers⟩ := pos_owners_iff.mp (Nat.pos_of_ne_zero some)
          exact head_apart other mem number ⟨covers, other_covers⟩
        rw [none]
      next => exact ih rest_apart

/-- A tiling covers exactly its set. -/
theorem Tiles.mem_iff {blocks : List DyadicBlock} {numbers : Set Nat} (tiles : Tiles blocks numbers)
    (number : Nat) : number ∈ numbers ↔ ∃ block ∈ blocks, block.Covers number :=
  (tiles number).2.symm.trans pos_owners_iff

/-- The lengths of the blocks of a family together. -/
def total (blocks : List DyadicBlock) : Nat := (blocks.map fun block => 2 ^ block.order).sum

@[simp] theorem total_nil : total [] = 0 := rfl

@[simp] theorem total_cons (block : DyadicBlock) (blocks : List DyadicBlock) :
    total (block :: blocks) = 2 ^ block.order + total blocks := rfl

@[simp] theorem total_append (left right : List DyadicBlock) :
    total (left ++ right) = total left + total right := by
  simp [total]

theorem sum_covers {block : DyadicBlock} {bound : Nat}
    (below : block.base + 2 ^ block.order ≤ bound) :
    (∑ number ∈ Finset.range bound, if block.Covers number then 1 else 0) = 2 ^ block.order := by
  have filter_eq : (Finset.range bound).filter block.Covers =
      Finset.Ico block.base (block.base + 2 ^ block.order) := by
    ext number
    simp only [Finset.mem_filter, Finset.mem_range, Finset.mem_Ico, Covers]
    omega
  rw [← Finset.card_filter, filter_eq, Nat.card_Ico, Nat.add_sub_cancel_left]

/-- The total length of a family counts every number as often as blocks lie over it. -/
theorem sum_owners {blocks : List DyadicBlock} {bound : Nat}
    (below : ∀ block ∈ blocks, block.base + 2 ^ block.order ≤ bound) :
    ∑ number ∈ Finset.range bound, owners blocks number = total blocks := by
  induction blocks with
  | nil => simp [owners]
  | cons block blocks ih =>
      simp only [owners_cons, Finset.sum_add_distrib, total_cons]
      rw [ih fun other mem => below other (List.mem_cons_of_mem _ mem),
        sum_covers (below block List.mem_cons_self), Nat.add_comm]

/-- Two tilings of a bounded set have the same total length. -/
theorem Tiles.total_eq {left right : List DyadicBlock} {numbers : Set Nat} {bound : Nat}
    (tiles : Tiles left numbers) (tiles' : Tiles right numbers)
    (bounded : ∀ number ∈ numbers, number < bound) : total left = total right := by
  have below {blocks : List DyadicBlock} (tiles : Tiles blocks numbers) (block : DyadicBlock)
      (mem : block ∈ blocks) : block.base + 2 ^ block.order ≤ bound := by
    have positive := Nat.two_pow_pos block.order
    have last : block.Covers (block.base + 2 ^ block.order - 1) := by
      simp only [Covers]
      omega
    have last_lt := bounded _ (tiles.covered mem last)
    omega
  rw [← sum_owners (below tiles), ← sum_owners (below tiles')]
  refine Finset.sum_congr rfl fun number _ => ?_
  have left_owners := tiles number
  have right_owners := tiles' number
  have same := left_owners.2.trans right_owners.2.symm
  omega

/-! ## Coalesced families -/

/-- The other half of the next larger block. -/
def buddy (block : DyadicBlock) : DyadicBlock := ⟨block.base ^^^ 2 ^ block.order, block.order⟩

/-- No block below the largest order is in the family together with its buddy. -/
def Coalesced (largest : Nat) (blocks : List DyadicBlock) : Prop :=
  ∀ block ∈ blocks, block.order < largest → block.buddy ∉ blocks

/-- An aligned block covers the numbers with the leading digits of its base. -/
theorem Aligned.covers_iff {block : DyadicBlock} (aligned : block.Aligned) {number : Nat} :
    block.Covers number ↔ number / 2 ^ block.order = block.base / 2 ^ block.order := by
  have positive := Nat.two_pow_pos block.order
  obtain ⟨index, base_eq⟩ := aligned
  rw [Covers, base_eq, Nat.mul_div_cancel_left _ positive, Nat.div_eq_iff positive,
    Nat.mul_comm index]
  omega

/-- An aligned block that shares a number with a block of at most its order covers all of it. -/
theorem Aligned.covers_of_covers {block larger : DyadicBlock} (aligned : block.Aligned)
    (larger_aligned : larger.Aligned) (order_le : block.order ≤ larger.order) {shared : Nat}
    (block_covers : block.Covers shared) (larger_covers : larger.Covers shared) {number : Nat}
    (covers : block.Covers number) : larger.Covers number := by
  have same : number / 2 ^ block.order = shared / 2 ^ block.order :=
    (aligned.covers_iff.mp covers).trans (aligned.covers_iff.mp block_covers).symm
  have leading (value : Nat) :
      value / 2 ^ larger.order =
        value / 2 ^ block.order / 2 ^ (larger.order - block.order) := by
    rw [Nat.div_div_eq_div_mul, ← Nat.pow_add, Nat.add_sub_cancel' order_le]
  rw [larger_aligned.covers_iff, leading number, same, ← leading]
  exact larger_aligned.covers_iff.mp larger_covers

/-- Aligned blocks of one order that share a number are equal. -/
theorem Aligned.eq_of_covers {left right : DyadicBlock} (left_aligned : left.Aligned)
    (right_aligned : right.Aligned) (order_eq : left.order = right.order) {number : Nat}
    (left_covers : left.Covers number) (right_covers : right.Covers number) : left = right := by
  have lower := left_aligned.covers_of_covers right_aligned order_eq.le left_covers right_covers
    (covers_base left)
  have upper := right_aligned.covers_of_covers left_aligned order_eq.ge right_covers left_covers
    (covers_base right)
  exact DyadicBlock.ext (Nat.le_antisymm upper.1 lower.1) order_eq

/-- The halves of a larger aligned block are buddies. -/
theorem upper_buddy {base order : Nat} (aligned : 2 ^ (order + 1) ∣ base) :
    (⟨base, order⟩ : DyadicBlock).buddy = ⟨base + 2 ^ order, order⟩ := by
  have half_aligned : 2 ^ order ∣ base := (Nat.pow_dvd_pow 2 (Nat.le_succ order)).trans aligned
  rcases xor_two_pow_cases half_aligned with ⟨buddy_eq, -⟩ | ⟨base_eq, divides⟩
  · rw [buddy, buddy_eq]
  · -- the base would be an odd multiple
    have rest : 2 ^ (order + 1) ∣ 2 ^ order := by
      rw [base_eq] at aligned
      exact (Nat.dvd_add_right divides).mp aligned
    have := Nat.le_of_dvd (Nat.two_pow_pos order) rest
    have := Nat.two_pow_pos order
    rw [Nat.pow_succ] at *
    omega

theorem buddy_buddy (block : DyadicBlock) : block.buddy.buddy = block := by
  simp [buddy]

theorem Aligned.buddy {block : DyadicBlock} (aligned : block.Aligned) : block.buddy.Aligned := by
  rcases xor_two_pow_cases aligned with ⟨buddy_eq, -⟩ | ⟨-, divides⟩
  · exact (Nat.dvd_add aligned (Nat.dvd_refl _)).trans (dvd_of_eq buddy_eq.symm)
  · exact (Nat.pow_dvd_pow 2 (Nat.le_succ _)).trans divides

/-- A larger aligned block covers a block if it covers the buddy. -/
theorem Aligned.covers_buddy_iff {block larger : DyadicBlock} (larger_aligned : larger.Aligned)
    (order_lt : block.order < larger.order) :
    larger.Covers block.buddy.base ↔ larger.Covers block.base := by
  have small : 2 ^ block.order < 2 ^ larger.order :=
    Nat.pow_lt_pow_right (by decide) order_lt
  have leading : block.buddy.base / 2 ^ larger.order = block.base / 2 ^ larger.order := by
    have none : (2 ^ block.order) >>> larger.order = 0 := by
      rw [Nat.shiftRight_eq_div_pow, Nat.div_eq_of_lt small]
    have split := Nat.shiftRight_xor_distrib (a := block.base) (b := 2 ^ block.order)
      (i := larger.order)
    rw [none, Nat.xor_zero, Nat.shiftRight_eq_div_pow, Nat.shiftRight_eq_div_pow] at split
    exact split
  rw [larger_aligned.covers_iff, larger_aligned.covers_iff, leading]

/-- A number of a tiling has one block. -/
theorem Tiles.eq_of_covers {blocks : List DyadicBlock} {numbers : Set Nat}
    (tiles : Tiles blocks numbers) {left right : DyadicBlock} (left_mem : left ∈ blocks)
    (right_mem : right ∈ blocks) {number : Nat} (left_covers : left.Covers number)
    (right_covers : right.Covers number) : left = right := by
  by_contra ne
  have right_rest : right ∈ blocks.erase left := (List.mem_erase_of_ne (Ne.symm ne)).mpr right_mem
  have apart := (tiles.perm (List.perm_cons_erase left_mem)).head_apart right_rest
  exact apart number ⟨left_covers, right_covers⟩

section Coalesced

variable {largest : Nat} {blocks other : List DyadicBlock} {numbers : Set Nat}

theorem Coalesced.mono (coalesced : Coalesced largest blocks) (subset : other ⊆ blocks) :
    Coalesced largest other :=
  fun block mem lower buddy_mem => coalesced block (subset mem) lower (subset buddy_mem)

theorem buddy_ne (block : DyadicBlock) : block.buddy ≠ block := by
  intro same
  have flipped : block.base ^^^ 2 ^ block.order = block.base := congrArg DyadicBlock.base same
  have bit := congrArg (Nat.testBit · block.order) flipped
  simp at bit

/-- A block joins a coalesced family if its buddy is not there. -/
theorem Coalesced.cons (coalesced : Coalesced largest blocks) {block : DyadicBlock}
    (alone : block.order < largest → block.buddy ∉ blocks) :
    Coalesced largest (block :: blocks) := by
  intro found mem lower buddy_mem
  rcases List.mem_cons.mp mem with rfl | old
  · exact alone lower ((List.mem_cons.mp buddy_mem).resolve_left (buddy_ne _))
  · rcases List.mem_cons.mp buddy_mem with buddy_eq | buddy_old
    · have found_eq : block.buddy = found := buddy_eq ▸ buddy_buddy found
      have order_eq : found.order = block.order := (congrArg DyadicBlock.order found_eq).symm
      exact alone (order_eq ▸ lower) (found_eq ▸ old)
    · exact coalesced found old lower buddy_old

/-- A coalesced tiling has no block inside a larger aligned block of its set. -/
theorem Coalesced.order_le (coalesced : Coalesced largest blocks) (tiles : Tiles blocks numbers)
    (aligned : ∀ block ∈ blocks, block.Aligned) {whole : DyadicBlock}
    (whole_aligned : whole.Aligned) (whole_le : whole.order ≤ largest)
    (inside : ∀ number, whole.Covers number → number ∈ numbers) {block : DyadicBlock}
    (mem : block ∈ blocks) (within : whole.Covers block.base) : whole.order ≤ block.order := by
  -- a smallest block inside would have its buddy beside it
  induction order_eq : block.order using Nat.strong_induction_on generalizing block with
  | _ order ih =>
      subst order_eq
      by_contra! finer
      have buddy_within := (whole_aligned.covers_buddy_iff finer).mpr within
      obtain ⟨beside, beside_mem, covers⟩ := (tiles.mem_iff _).mp (inside _ buddy_within)
      have beside_aligned := aligned beside beside_mem
      rcases Nat.lt_trichotomy beside.order block.order with smaller | same | larger
      · have beside_within := beside_aligned.covers_of_covers whole_aligned
          (smaller.le.trans finer.le) covers buddy_within (covers_base beside)
        have := ih beside.order smaller beside_mem beside_within rfl
        omega
      · have beside_eq := beside_aligned.eq_of_covers (aligned block mem).buddy same covers
          (covers_base block.buddy)
        exact coalesced block mem (finer.trans_le whole_le) (beside_eq ▸ beside_mem)
      · have covers_block := (beside_aligned.covers_buddy_iff larger).mp covers
        have beside_eq := tiles.eq_of_covers beside_mem mem covers_block (covers_base block)
        exact absurd (congrArg DyadicBlock.order beside_eq) larger.ne'

/-- A set has one coalesced tiling. -/
theorem Coalesced.subset (coalesced : Coalesced largest blocks) (tiles : Tiles blocks numbers)
    (aligned : ∀ block ∈ blocks, block.Aligned) (order_le : ∀ block ∈ blocks, block.order ≤ largest)
    (other_coalesced : Coalesced largest other) (other_tiles : Tiles other numbers)
    (other_aligned : ∀ block ∈ other, block.Aligned)
    (other_le : ∀ block ∈ other, block.order ≤ largest) : blocks ⊆ other := by
  intro block mem
  have managed := tiles.covered mem (covers_base block)
  obtain ⟨found, found_mem, covers⟩ := (other_tiles.mem_iff _).mp managed
  have found_aligned := other_aligned found found_mem
  have orders : found.order = block.order := by
    apply Nat.le_antisymm
    · exact coalesced.order_le tiles aligned found_aligned (other_le found found_mem)
        (fun number => other_tiles.covered found_mem) mem covers
    · by_contra! smaller
      have within := found_aligned.covers_of_covers (aligned block mem) smaller.le covers
        (covers_base block) (covers_base found)
      have := other_coalesced.order_le other_tiles other_aligned (aligned block mem)
        (order_le block mem) (fun number => tiles.covered mem) found_mem within
      omega
  have found_eq := found_aligned.eq_of_covers (aligned block mem) orders covers (covers_base block)
  exact found_eq ▸ found_mem

end Coalesced

end DyadicBlock
end Vespertine
