import Mathlib.Data.List.Nodup
import Mathlib.Order.BooleanAlgebra.Set

/-!
# Exclusive ownership

Every item of a set has exactly one of several holders.  An operation that hands one item from its
holder to another keeps this true.
-/

namespace Vespertine

variable {α π : Type*} {items : Set α} {held after : π → Set α}

/-- Each item has exactly one holder. -/
structure Partition (items : Set α) (held : π → Set α) : Prop where
  apart : ∀ item left right, item ∈ held left → item ∈ held right → left = right
  union : ∀ item, item ∈ items ↔ ∃ holder, item ∈ held holder

/-- An item has passed from its holder to another. -/
structure Passes (held after : π → Set α) (source target : π) (item : α) : Prop where
  owned : item ∈ held source
  passed : ∀ holder other,
    other ∈ after holder ↔ other ∈ held holder ∧ other ≠ item ∨ holder = target ∧ other = item

/-- Handing over an item keeps the ownership exclusive. -/
theorem Partition.pass {source target : π} {item : α} (partition : Partition items held)
    (passes : Passes held after source target item) : Partition items after := by
  constructor
  · intro other left right in_left in_right
    rw [passes.passed] at in_left in_right
    rcases in_left with ⟨was_left, ne⟩ | ⟨rfl, same⟩
    · rcases in_right with ⟨was_right, -⟩ | ⟨-, same⟩
      · exact partition.apart other left right was_left was_right
      · exact absurd same ne
    · rcases in_right with ⟨-, ne⟩ | ⟨rfl, -⟩
      · exact absurd same ne
      · rfl
  · intro other
    rw [partition.union]
    constructor
    · rintro ⟨holder, mem⟩
      by_cases same : other = item
      · exact ⟨target, (passes.passed target other).mpr (.inr ⟨rfl, same⟩)⟩
      · exact ⟨holder, (passes.passed holder other).mpr (.inl ⟨mem, same⟩)⟩
    · rintro ⟨holder, mem⟩
      rcases (passes.passed holder other).mp mem with ⟨was, -⟩ | ⟨-, rfl⟩
      · exact ⟨holder, was⟩
      · exact ⟨source, passes.owned⟩

/-- An item is with its holder only. -/
theorem Partition.not_mem {item : α} {holder other : π} (partition : Partition items held)
    (mem : item ∈ held holder) (ne : other ≠ holder) : item ∉ held other :=
  fun elsewhere => ne (partition.apart item other holder elsewhere mem)

/-- Only the holders between which an item passes are changed. -/
theorem Partition.passes {source target : π} {item : α} (partition : Partition items held)
    (owned : item ∈ held source) (ne : source ≠ target)
    (source_eq : after source = held source \ {item})
    (target_eq : after target = insert item (held target))
    (others : ∀ holder, holder ≠ source → holder ≠ target → after holder = held holder) :
    Passes held after source target item := by
  refine ⟨owned, fun holder other => ?_⟩
  by_cases at_target : holder = target
  · subst at_target
    have outside := partition.not_mem owned ne.symm
    rw [target_eq, Set.mem_insert_iff]
    constructor
    · rintro (rfl | mem)
      · exact .inr ⟨rfl, rfl⟩
      · exact .inl ⟨mem, fun same => outside (same ▸ mem)⟩
    · rintro (⟨mem, -⟩ | ⟨-, same⟩)
      · exact .inr mem
      · exact .inl same
  · rw [or_iff_left fun both : holder = target ∧ other = item => at_target both.1]
    by_cases at_source : holder = source
    · subst at_source
      rw [source_eq]
      rfl
    · rw [others holder at_source at_target]
      refine (and_iff_left_of_imp fun mem => ?_).symm
      rintro rfl
      exact partition.not_mem owned at_source mem

/-!
### Holders that keep their items in a list
-/

section Lists

variable {list : List α} {item : α}

theorem setOf_mem_cons : {other | other ∈ item :: list} = insert item {other | other ∈ list} :=
  Set.ext fun _ => List.mem_cons

theorem setOf_mem_snoc : {other | other ∈ list ++ [item]} = insert item {other | other ∈ list} := by
  ext other
  simp [or_comm]

theorem setOf_mem_of_snoc (nodup : (list ++ [item]).Nodup) :
    {other | other ∈ list} = {other | other ∈ list ++ [item]} \ {item} := by
  have outside : item ∉ {other | other ∈ list} := fun mem =>
    List.disjoint_of_nodup_append nodup mem List.mem_cons_self
  rw [setOf_mem_snoc, Set.insert_sdiff_self_of_notMem outside]

theorem setOf_mem_erase [DecidableEq α] (nodup : list.Nodup) :
    {other | other ∈ list.erase item} = {other | other ∈ list} \ {item} := by
  ext other
  simp [nodup.mem_erase_iff, and_comm]

end Lists

/-!
### Items of a stock that changes
-/

/-- The holders list items of a stock, none of them twice. -/
structure Shares (stock : List α) (lists : π → List α) : Prop where
  nodup : ∀ holder, (lists holder).Nodup
  stocked : ∀ holder, ∀ item ∈ lists holder, item ∈ stock
  apart : ∀ item left right, item ∈ lists left → item ∈ lists right → left = right

namespace Shares

variable {stock : List α} {lists after : π → List α} {item : α}

theorem perm {other : List α} (shares : Shares stock lists) (same : stock.Perm other) :
    Shares other lists :=
  ⟨shares.nodup, fun holder item mem => same.mem_iff.mp (shares.stocked holder item mem),
    shares.apart⟩

/-- A new item of the stock goes to a holder. -/
theorem put (shares : Shares stock lists) (holder : π) (fresh : item ∉ stock)
    (perm : (after holder).Perm (item :: lists holder))
    (others : ∀ other ≠ holder, after other = lists other) : Shares (item :: stock) after := by
  have listed (other : π) (entry : α) (mem : entry ∈ after other) :
      (other = holder ∧ entry = item) ∨ entry ∈ lists other := by
    by_cases same : other = holder
    · subst same
      exact (List.mem_cons.mp (perm.mem_iff.mp mem)).imp_left fun equal => ⟨rfl, equal⟩
    · exact .inr (others other same ▸ mem)
  have outside (other : π) : item ∉ lists other := fun mem => fresh (shares.stocked other item mem)
  refine ⟨fun other => ?_, fun other entry mem => ?_, fun entry left right in_left in_right => ?_⟩
  · by_cases same : other = holder
    · subst same
      exact perm.nodup_iff.mpr (List.nodup_cons.mpr ⟨outside other, shares.nodup other⟩)
    · rw [others other same]
      exact shares.nodup other
  · rcases listed other entry mem with ⟨-, rfl⟩ | old
    · exact List.mem_cons_self
    · exact List.mem_cons_of_mem _ (shares.stocked other entry old)
  · rcases listed left entry in_left with ⟨rfl, rfl⟩ | old_left
    · rcases listed right entry in_right with ⟨rfl, -⟩ | old_right
      · rfl
      · exact absurd old_right (outside right)
    · rcases listed right entry in_right with ⟨rfl, rfl⟩ | old_right
      · exact absurd old_left (outside left)
      · exact shares.apart entry left right old_left old_right

/-- An item of a holder leaves the stock. -/
theorem drop [DecidableEq α] (shares : Shares stock lists) (holder : π)
    (perm : (lists holder).Perm (item :: after holder))
    (others : ∀ other ≠ holder, after other = lists other) : Shares (stock.erase item) after := by
  have nodup := perm.nodup_iff.mp (shares.nodup holder)
  have owned : item ∈ lists holder := perm.mem_iff.mpr List.mem_cons_self
  have remains (other : π) (entry : α) (mem : entry ∈ after other) :
      entry ∈ lists other ∧ entry ≠ item := by
    by_cases same : other = holder
    · subst same
      refine ⟨perm.mem_iff.mpr (List.mem_cons_of_mem _ mem), ?_⟩
      rintro rfl
      exact (List.nodup_cons.mp nodup).1 mem
    · rw [others other same] at mem
      refine ⟨mem, ?_⟩
      rintro rfl
      exact same (shares.apart entry other holder mem owned)
  refine ⟨fun other => ?_, fun other entry mem => ?_, fun entry left right in_left in_right => ?_⟩
  · by_cases same : other = holder
    · exact same ▸ (List.nodup_cons.mp nodup).2
    · rw [others other same]
      exact shares.nodup other
  · obtain ⟨old, ne⟩ := remains other entry mem
    exact (List.mem_erase_of_ne ne).mpr (shares.stocked other entry old)
  · exact shares.apart entry left right (remains left entry in_left).1
      (remains right entry in_right).1

/-- An item passes from one holder to another. -/
theorem pass [DecidableEq α] (shares : Shares stock lists) (nodup : stock.Nodup)
    (source target : π) {middle : π → List α} (taken : (lists source).Perm (item :: middle source))
    (kept : ∀ other ≠ source, middle other = lists other)
    (given : (after target).Perm (item :: middle target))
    (others : ∀ other ≠ target, after other = middle other) : Shares stock after := by
  have owned := shares.stocked source item (taken.mem_iff.mpr List.mem_cons_self)
  have passed := (shares.drop source taken kept).put target nodup.not_mem_erase given others
  exact passed.perm (List.perm_cons_erase owned).symm

end Shares

end Vespertine
