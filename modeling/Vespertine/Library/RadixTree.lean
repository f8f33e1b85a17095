import Mathlib.Data.List.Infix
import Mathlib.Data.List.Nodup
import Mathlib.Logic.Function.Basic

/-!
# Radix trees in a heap of tables

A heap stores an entry for every table and index, and a decoding says which entries point to a
further table.  Walks follow a path of indices from a root.  When no two live paths reach the same
table, a write through one path is seen by exactly the walks that continue through the written
entry; the lemmas below say so for an overwritten entry, a cut subtree and a freshly grafted table.
Then a post-order traversal meets each table that can be reached, and each of them once.
-/

namespace Vespertine
namespace RadixTree

variable {τ ι ε : Type*}

/-- Overwrite the entry at one index of one table. -/
def write [DecidableEq τ] [DecidableEq ι] (heap : τ → ι → ε) (table : τ) (index : ι) (entry : ε) :
    τ → ι → ε :=
  Function.update heap table (Function.update (heap table) index entry)

/-- Fill a table with one entry. -/
def fill [DecidableEq τ] (heap : τ → ι → ε) (table : τ) (entry : ε) : τ → ι → ε :=
  Function.update heap table fun _ => entry

/-- The table reached from a root along a path of indices. -/
def walk (next : ε → Option τ) (heap : τ → ι → ε) : τ → List ι → Option τ
  | table, [] => some table
  | table, index :: path => (next (heap table index)).bind fun child => walk next heap child path

/-- No two live paths reach the same table. -/
def Separate (next : ε → Option τ) (live : List ι → Prop) (heap : τ → ι → ε) (root : τ) : Prop :=
  ∀ ⦃left right table⦄, live left → live right → walk next heap root left = some table →
    walk next heap root right = some table → left = right

/-- The table is reached by no live path. -/
def Unused (next : ε → Option τ) (live : List ι → Prop) (heap : τ → ι → ε) (root table : τ) :
    Prop :=
  ∀ ⦃path⦄, live path → walk next heap root path ≠ some table

theorem write_same [DecidableEq τ] [DecidableEq ι] (heap : τ → ι → ε) (table : τ) (index : ι)
    (entry : ε) :
    write heap table index entry table index = entry := by
  simp [write]

theorem write_other [DecidableEq τ] [DecidableEq ι] {heap : τ → ι → ε} {table other : τ}
    {index slot : ι} {entry : ε} (ne : ¬(other = table ∧ slot = index)) :
    write heap table index entry other slot = heap other slot := by
  by_cases same : other = table
  · subst same
    have slot_ne : slot ≠ index := fun slot_eq => ne ⟨rfl, slot_eq⟩
    simp [write, slot_ne]
  · simp [write, same]

theorem fill_same [DecidableEq τ] (heap : τ → ι → ε) (table : τ) (entry : ε) (index : ι) :
    fill heap table entry table index = entry := by
  simp [fill]

theorem fill_other [DecidableEq τ] {heap : τ → ι → ε} {table other : τ} {entry : ε}
    (ne : other ≠ table) (index : ι) : fill heap table entry other index = heap other index := by
  simp [fill, ne]

section Walk

variable {next : ε → Option τ} {heap heap' : τ → ι → ε} {root : τ}

theorem walk_append (table : τ) (front back : List ι) :
    walk next heap table (front ++ back) =
      (walk next heap table front).bind fun child => walk next heap child back := by
  induction front generalizing table with
  | nil => rfl
  | cons index front ih =>
      rw [List.cons_append, walk, walk, Option.bind_assoc]
      congr 1
      funext child
      exact ih child

theorem walk_snoc (table : τ) (path : List ι) (index : ι) :
    walk next heap table (path ++ [index]) =
      (walk next heap table path).bind fun child => next (heap child index) := by
  rw [walk_append]
  congr 1
  funext child
  simp [walk]

/-- A walk only depends on the entries along its path. -/
theorem walk_congr {path : List ι}
    (same : ∀ front index table, front ++ [index] <+: path →
      walk next heap root front = some table →
      next (heap' table index) = next (heap table index)) :
    walk next heap' root path = walk next heap root path := by
  induction path using List.reverseRecOn with
  | nil => rfl
  | append_singleton front index ih =>
      have front_eq := ih fun before slot table isPrefix reached =>
        same before slot table (isPrefix.trans (List.prefix_append front [index])) reached
      rw [walk_snoc, walk_snoc, front_eq]
      cases reached : walk next heap root front with
      | none => rfl
      | some table => exact same front index table List.prefix_rfl reached

/-- Walks that start at the same entry, and pass only tables that are the same. -/
theorem walk_cons_congr {index : ι} {path : List ι} (top : heap' root index = heap root index)
    (below : ∀ front table, front.length < path.length →
      walk next heap root (index :: front) = some table → heap' table = heap table) :
    walk next heap' root (index :: path) = walk next heap root (index :: path) := by
  apply walk_congr
  intro front slot table isPrefix reached
  obtain ⟨back, back_eq⟩ := isPrefix
  cases front with
  | nil =>
      cases reached
      simp only [List.nil_append, List.singleton_append, List.cons.injEq] at back_eq
      rw [back_eq.1, top]
  | cons first front =>
      simp only [List.cons_append, List.cons.injEq] at back_eq
      obtain ⟨rfl, rfl⟩ := back_eq
      rw [below front table (by simp) reached]

theorem not_prefix_self (path : List ι) (index : ι) : ¬path ++ [index] <+: path := by
  intro isPrefix
  have length_le := isPrefix.length_le
  rw [List.length_append, List.length_singleton] at length_le
  omega

end Walk

section Update

variable [DecidableEq τ] {next : ε → Option τ} {live : List ι → Prop} {heap : τ → ι → ε}
  {root table : τ} {path : List ι} {index : ι} {entry : ε}

theorem walk_fill (closed : ∀ ⦃front back⦄, live (front ++ back) → live front) {fresh : τ}
    (unused : Unused next live heap root fresh) {other : List ι} (other_live : live other) :
    walk next (fill heap fresh entry) root other = walk next heap root other := by
  refine walk_congr fun front slot child isPrefix child_eq => ?_
  obtain ⟨back, rfl⟩ := isPrefix
  rw [List.append_assoc] at other_live
  have front_live : live front := closed other_live
  rw [fill_other]
  rintro rfl
  exact unused front_live child_eq

theorem Separate.fill (separate : Separate next live heap root) (entry : ε)
    (closed : ∀ ⦃front back⦄, live (front ++ back) → live front) {fresh : τ}
    (unused : Unused next live heap root fresh) :
    Separate next live (fill heap fresh entry) root := by
  intro left right child left_live right_live left_eq right_eq
  rw [walk_fill closed unused left_live] at left_eq
  rw [walk_fill closed unused right_live] at right_eq
  exact separate left_live right_live left_eq right_eq

variable [DecidableEq ι]

theorem walk_write (entry : ε) (separate : Separate next live heap root)
    (closed : ∀ ⦃front back⦄, live (front ++ back) → live front) (path_live : live path)
    (reached : walk next heap root path = some table) {other : List ι} (other_live : live other)
    (off : ¬path ++ [index] <+: other) :
    walk next (write heap table index entry) root other = walk next heap root other := by
  refine walk_congr fun front slot child isPrefix child_eq => ?_
  rw [write_other]
  rintro ⟨rfl, rfl⟩
  obtain ⟨back, rfl⟩ := isPrefix
  rw [List.append_assoc] at other_live
  have front_live : live front := closed other_live
  obtain rfl := separate path_live front_live reached child_eq
  exact off (List.prefix_append _ _)

/-- Walks through the written entry continue from the table it decodes to. -/
theorem walk_write_through (index : ι) (entry : ε) (separate : Separate next live heap root)
    (closed : ∀ ⦃front back⦄, live (front ++ back) → live front) (path_live : live path)
    (reached : walk next heap root path = some table) (back : List ι) :
    walk next (write heap table index entry) root (path ++ [index] ++ back) =
      (next entry).bind fun child => walk next (write heap table index entry) child back := by
  have kept := walk_write entry separate closed path_live reached path_live
    (not_prefix_self path index)
  rw [walk_append, walk_snoc, kept, reached]
  simp [write_same]

/-- Entries other than the written one are unchanged in every table a live path reaches. -/
theorem write_entry (separate : Separate next live heap root) (path_live : live path)
    (reached : walk next heap root path = some table) {other : List ι} {child : τ}
    (other_live : live other) (child_eq : walk next heap root other = some child) {slot : ι}
    (ne : ¬(other = path ∧ slot = index)) :
    write heap table index entry child slot = heap child slot := by
  refine write_other fun ⟨child_table, slot_eq⟩ => ne ⟨?_, slot_eq⟩
  exact separate other_live path_live child_eq (child_table ▸ reached)

/-- An entry that points nowhere cuts off every walk through it and changes no other walk. -/
theorem walk_cut (index : ι) (separate : Separate next live heap root)
    (closed : ∀ ⦃front back⦄, live (front ++ back) → live front) (path_live : live path)
    (reached : walk next heap root path = some table) (nowhere : next entry = none)
    {other : List ι} (other_live : live other) :
    walk next (write heap table index entry) root other =
      if path ++ [index] <+: other then none else walk next heap root other := by
  split
  next through =>
    obtain ⟨back, rfl⟩ := through
    rw [walk_write_through index entry separate closed path_live reached, nowhere]
    rfl
  next off => exact walk_write entry separate closed path_live reached other_live off

/-- Hanging a fresh blank table below an entry that pointed nowhere adds exactly one path. -/
theorem walk_graft (separate : Separate next live heap root)
    (closed : ∀ ⦃front back⦄, live (front ++ back) → live front) (path_live : live path)
    (reached : walk next heap root path = some table) {fresh : τ} {blank : ε}
    (unused : Unused next live heap root fresh) (vacant : next (heap table index) = none)
    (blank_nowhere : next blank = none) (points : next entry = some fresh)
    {other : List ι} (other_live : live other) :
    walk next (write (fill heap fresh blank) table index entry) root other =
      if other = path ++ [index] then some fresh else walk next heap root other := by
  have filled := separate.fill blank closed unused
  have filled_reached : walk next (RadixTree.fill heap fresh blank) root path = some table := by
    rw [walk_fill closed unused path_live, reached]
  have table_ne : fresh ≠ table := fun same => unused path_live (same ▸ reached)
  by_cases through : path ++ [index] <+: other
  · obtain ⟨back, rfl⟩ := through
    rw [walk_write_through index entry filled closed path_live filled_reached, points]
    cases back with
    | nil => simp [walk]
    | cons slot back =>
        have blank_at :
            write (RadixTree.fill heap fresh blank) table index entry fresh slot = blank := by
          rw [write_other fun both => table_ne both.1, fill_same]
        rw [walk_append, walk_snoc, reached]
        simp [walk, blank_at, blank_nowhere, vacant]
  · have other_ne : other ≠ path ++ [index] := fun same => through (same ▸ List.prefix_rfl)
    rw [walk_write entry filled closed path_live filled_reached other_live through,
      walk_fill closed unused other_live, if_neg other_ne]

/-- Hanging a fresh blank table into a tree leaves a tree. -/
theorem Separate.graft (separate : Separate next live heap root)
    (closed : ∀ ⦃front back⦄, live (front ++ back) → live front) (path_live : live path)
    (reached : walk next heap root path = some table) {fresh : τ} {blank : ε}
    (unused : Unused next live heap root fresh) (vacant : next (heap table index) = none)
    (blank_nowhere : next blank = none) (points : next entry = some fresh) :
    Separate next live (write (RadixTree.fill heap fresh blank) table index entry) root := by
  have walks {other : List ι} (other_live : live other) :=
    walk_graft separate closed path_live reached unused vacant blank_nowhere points other_live
  intro left right below left_live right_live left_eq right_eq
  rw [walks left_live] at left_eq
  rw [walks right_live] at right_eq
  split at left_eq <;> split at right_eq
  · next left_new right_new => rw [left_new, right_new]
  · next => exact absurd (left_eq ▸ right_eq) (unused right_live)
  · next => exact absurd (right_eq ▸ left_eq) (unused left_live)
  · next => exact separate left_live right_live left_eq right_eq

end Update

/-! ### Visiting every table -/

section Postorder

variable {next : ε → Option τ} {heap : τ → Nat → ε}

/-- Each index of the path is below the width of its level. -/
def Within : (widths path : List Nat) → Prop
  | _, [] => True
  | [], _ :: _ => False
  | width :: widths, index :: path => index < width ∧ Within widths path

/-- The tables reached from a table, each behind the tables below it. -/
def postorder (next : ε → Option τ) (heap : τ → Nat → ε) : (widths : List Nat) → τ → List τ
  | [], table => [table]
  | width :: widths, table =>
      ((List.range width).flatMap fun index =>
        (next (heap table index)).elim [] (postorder next heap widths)) ++ [table]

theorem mem_elim_postorder {widths : List Nat} {below : Option τ} {found : τ} :
    found ∈ below.elim [] (postorder next heap widths) ↔
      ∃ table, below = some table ∧ found ∈ postorder next heap widths table := by
  cases below <;> simp

/-- The traversal meets exactly the tables that some path reaches. -/
theorem mem_postorder {widths : List Nat} {table found : τ} :
    found ∈ postorder next heap widths table ↔
      ∃ path, Within widths path ∧ walk next heap table path = some found := by
  induction widths generalizing table with
  | nil =>
      rw [postorder, List.mem_singleton]
      constructor
      · rintro rfl
        exact ⟨[], trivial, rfl⟩
      · rintro ⟨path, within, reached⟩
        cases path with
        | nil => exact (Option.some.inj reached).symm
        | cons index path => exact within.elim
  | cons width widths ih =>
      rw [postorder, List.mem_append, List.mem_singleton, List.mem_flatMap]
      constructor
      · rintro (⟨index, index_mem, mem⟩ | rfl)
        · obtain ⟨below, below_eq, mem⟩ := mem_elim_postorder.mp mem
          obtain ⟨path, within, reached⟩ := ih.mp mem
          refine ⟨index :: path, ⟨List.mem_range.mp index_mem, within⟩, ?_⟩
          rw [walk, below_eq, Option.bind_some, reached]
        · exact ⟨[], trivial, rfl⟩
      · rintro ⟨path, within, reached⟩
        cases path with
        | nil => exact .inr (Option.some.inj reached).symm
        | cons index path =>
            obtain ⟨below, below_eq, reached⟩ := Option.bind_eq_some_iff.mp reached
            refine .inl ⟨index, List.mem_range.mpr within.1, ?_⟩
            exact mem_elim_postorder.mpr ⟨below, below_eq, ih.mpr ⟨path, within.2, reached⟩⟩

/-- Where no table is reached along two paths, the traversal meets no table twice. -/
theorem postorder_nodup {widths : List Nat} {table : τ}
    (separate : Separate next (Within widths) heap table) :
    (postorder next heap widths table).Nodup := by
  induction widths generalizing table with
  | nil => exact List.nodup_singleton table
  | cons width widths ih =>
      -- A path from a table below continues the index of that table.
      have through {index : Nat} (index_mem : index ∈ List.range width) {found : τ}
          (mem : found ∈ (next (heap table index)).elim [] (postorder next heap widths)) :
          ∃ path, Within (width :: widths) (index :: path) ∧
            walk next heap table (index :: path) = some found := by
        obtain ⟨below, below_eq, mem⟩ := mem_elim_postorder.mp mem
        obtain ⟨path, within, reached⟩ := mem_postorder.mp mem
        refine ⟨path, ⟨List.mem_range.mp index_mem, within⟩, ?_⟩
        rw [walk, below_eq, Option.bind_some, reached]
      rw [postorder, List.nodup_append]
      refine ⟨List.nodup_flatMap.mpr ⟨fun index index_mem => ?_, ?_⟩,
        List.nodup_singleton table, ?_⟩
      · cases below_eq : next (heap table index) with
        | none => exact List.nodup_nil
        | some below =>
            apply ih
            intro left right found left_within right_within left_eq right_eq
            have index_lt := List.mem_range.mp index_mem
            have same : index :: left = index :: right :=
              @separate (index :: left) (index :: right) found ⟨index_lt, left_within⟩
                ⟨index_lt, right_within⟩ (by rw [walk, below_eq, Option.bind_some, left_eq])
                (by rw [walk, below_eq, Option.bind_some, right_eq])
            exact (List.cons.inj same).2
      · refine List.nodup_range.imp_of_mem fun {left right} left_mem right_mem ne => ?_
        intro found in_left in_right
        obtain ⟨leftPath, left_within, left_eq⟩ := through left_mem in_left
        obtain ⟨rightPath, right_within, right_eq⟩ := through right_mem in_right
        exact ne (List.cons.inj (separate left_within right_within left_eq right_eq)).1
      · rintro found mem other own rfl
        obtain rfl := List.mem_singleton.mp own
        obtain ⟨index, index_mem, mem⟩ := List.mem_flatMap.mp mem
        obtain ⟨path, within, reached⟩ := through index_mem mem
        cases @separate (index :: path) [] _ within trivial reached rfl

end Postorder

end RadixTree
end Vespertine
