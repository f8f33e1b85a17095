import Vespertine.Memory.TableFrames

/-!
# The kernel half of an address space

Every address space shares the page tables of the kernel half with the kernel.  As long as no table
of the user half is read for a kernel address, writing user tables changes no kernel translation.
-/

namespace Vespertine
namespace UserTree

open RadixTree

/-- The table is read when an address of the kernel half is translated: it lies one or two levels
below the kernel half of the root table, or behind an entry of such a table that is not a 2 MiB
page. -/
def KernelTable (tables : Tables) (root table : Nat) : Prop :=
  ∃ index path above, 256 ≤ index ∧ path.length ≤ 1 ∧
    walk nextTable tables root (index :: path) = some above ∧
    (table = above ∨ ∃ slot, child (tables above slot) = some table)

/-- Without a present entry in the kernel half there are no tables of the kernel half. -/
theorem not_kernelTable_of_empty {tables : Tables} {root table : Nat}
    (empty : ∀ index, 256 ≤ index → (tables root index).isPresent = false) :
    ¬KernelTable tables root table := by
  rintro ⟨index, path, above, upper, -, reached, -⟩
  rw [walk, nextTable, empty index upper] at reached
  cases reached

/-- No table of the user half, and not the root, is a table of the kernel half. -/
def KernelApart (tables : Tables) (root : Nat) : Prop :=
  ∀ table, UserTable tables root table → ¬ KernelTable tables root table

/-- Two versions of the page tables have the same kernel half. -/
structure SameKernel (before after : Tables) (root : Nat) : Prop where
  /-- The kernel half of the root table. -/
  top : ∀ index, 256 ≤ index → after root index = before root index
  /-- The tables below it. -/
  below : ∀ table, KernelTable before root table → after table = before table

variable {before after : Tables} {root : Nat}

theorem SameKernel.walk (same : SameKernel before after root) {index : Nat} (upper : 256 ≤ index)
    {path : List Nat} (short : path.length ≤ 1) :
    walk nextTable after root (index :: path) = walk nextTable before root (index :: path) := by
  apply walk_cons_congr (same.top index upper)
  intro front table shorter reached
  exact same.below table ⟨index, front, table, upper, by omega, reached, .inl rfl⟩

theorem SameKernel.kernelTable_iff (same : SameKernel before after root) {table : Nat} :
    KernelTable after root table ↔ KernelTable before root table := by
  have kept (index : Nat) (path : List Nat) (above : Nat) (upper : 256 ≤ index)
      (short : path.length ≤ 1)
      (reached : RadixTree.walk nextTable before root (index :: path) = some above) :
      after above = before above :=
    same.below above ⟨index, path, above, upper, short, reached, .inl rfl⟩
  constructor
  · rintro ⟨index, path, above, upper, short, reached, here⟩
    rw [same.walk upper short] at reached
    rw [kept index path above upper short reached] at here
    exact ⟨index, path, above, upper, short, reached, here⟩
  · rintro ⟨index, path, above, upper, short, reached, here⟩
    rw [← kept index path above upper short reached] at here
    rw [← same.walk upper short] at reached
    exact ⟨index, path, above, upper, short, reached, here⟩

/-- Kernel addresses are translated as before. -/
theorem SameKernel.translate (same : SameKernel before after root) {virt : Nat}
    (upper : 256 ≤ (getIdxs virt).l4) :
    PageTable.translate after root virt = PageTable.translate before root virt := by
  rw [PageTable.translate, PageTable.translate]
  dsimp only
  rw [same.top _ upper]
  cases first : nextTable (before root (getIdxs virt).l4) with
  | none => rfl
  | some l3Table =>
      have l3_reached :
          RadixTree.walk nextTable before root [(getIdxs virt).l4] = some l3Table := by
        simp [RadixTree.walk, first]
      simp only [Option.bind_eq_bind, Option.bind_some]
      rw [same.below l3Table ⟨_, [], l3Table, upper, by simp, l3_reached, .inl rfl⟩]
      cases second : nextTable (before l3Table (getIdxs virt).l3) with
      | none => rfl
      | some l2Table =>
          have l2_reached : RadixTree.walk nextTable before root
              [(getIdxs virt).l4, (getIdxs virt).l3] = some l2Table := by
            simp [RadixTree.walk, first, second]
          simp only [Option.bind_some]
          rw [same.below l2Table ⟨_, [_], l2Table, upper, by simp, l2_reached, .inl rfl⟩]
          cases third : child (before l2Table (getIdxs virt).l2) with
          | some l1Table =>
              rw [nextTable_of_child third, Option.bind_some, Option.bind_some,
                same.below l1Table ⟨_, [_], l2Table, upper, by simp, l2_reached, .inr ⟨_, third⟩⟩]
          | none =>
              -- The entry is not present, or that of a 2 MiB page.
              cases present : (before l2Table (getIdxs virt).l2).isPresent with
              | false => simp
              | true =>
                  have huge : (before l2Table (getIdxs virt).l2).isHuge = true := by
                    simpa [child, present] using third
                  simp [huge]

/-- Where the user half grows by frames that are no kernel tables, the kernel half is kept, and kept
apart. -/
theorem Grown.kernel {taken : List Nat} (grown : Grown before after root taken)
    (apart : KernelApart before root) (fresh : ∀ frame ∈ taken, ¬ KernelTable before root frame) :
    SameKernel before after root ∧ KernelApart after root := by
  have same : SameKernel before after root := by
    refine ⟨grown.top, fun table kernel => ?_⟩
    exact grown.outside table (fun user => apart table user kernel) fun mem =>
      fresh table mem kernel
  refine ⟨same, fun table user => ?_⟩
  rw [same.kernelTable_iff]
  rcases (grown.tables_iff table).mp user with old | new
  · exact apart table old
  · exact fresh table new

end UserTree
end Vespertine
