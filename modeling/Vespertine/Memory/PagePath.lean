import Vespertine.Memory.FaultSafety

/-!
# The tables above one page

A page fault reads and writes the tables on the path to one entry.  As long as no two of them are
the same table and the page allocator hands out none of them, entering a page makes `translate`
find its frame, in either half of the address space, whatever the other tables hold.
-/

namespace Vespertine

open RadixTree UserTree

/-- The path to the entry of a page is a chain of distinct tables. -/
structure PagePath (tables : Tables) (root virt : Nat) (size : BlockSize) (frames : List Nat) :
    Prop where
  /-- No table occurs twice on the path. -/
  separate : Separate nextTable (· <+: (slot size virt).1) tables root
  /-- No 2 MiB page lies above the entry of a 4 KiB page. -/
  noHuge : size = .Normal → ∀ table, walk nextTable tables root (slot .Huge virt).1 = some table →
    (tables table (slot .Huge virt).2).isPresent = true →
    (tables table (slot .Huge virt).2).isHuge = false
  nodup : frames.Nodup
  aligned : ∀ frame ∈ frames, NORMAL_PAGE_SIZE ∣ frame
  small : ∀ frame ∈ frames, frame < 2 ^ 52
  /-- No frame is a table on the path. -/
  unused : ∀ frame ∈ frames, Unused nextTable (· <+: (slot size virt).1) tables root frame

section Path

variable {tables : Tables} {root virt : Nat} {size : BlockSize} {frames : List Nat}

theorem prefix_closed {path : List Nat} ⦃front back : List Nat⦄ (live : front ++ back <+: path) :
    front <+: path := (List.prefix_append front back).trans live

theorem slot_normal (virt : Nat) :
    (slot .Normal virt).1 = (slot .Huge virt).1 ++ [(slot .Huge virt).2] := rfl

/-- Fewer frames are as good. -/
theorem PagePath.shrink {frame : Nat} (holds : PagePath tables root virt size (frame :: frames)) :
    PagePath tables root virt size frames :=
  ⟨holds.separate, holds.noHuge, (List.nodup_cons.mp holds.nodup).2,
    fun other mem => holds.aligned other (List.mem_cons_of_mem _ mem),
    fun other mem => holds.small other (List.mem_cons_of_mem _ mem),
    fun other mem => holds.unused other (List.mem_cons_of_mem _ mem)⟩

theorem nextTable_unused : nextTable .unused = none := rfl

theorem nextTable_new {frame : Nat} (aligned : NORMAL_PAGE_SIZE ∣ frame) (small : frame < 2 ^ 52) :
    nextTable (PageTableEntry.new frame 0x7) = some frame :=
  nextTable_of_child (child_new_table aligned small)

/-- Creating a table on the path. -/
theorem PagePath.graft {frame table index : Nat} {path : List Nat}
    (holds : PagePath tables root virt size (frame :: frames))
    (on_path : path ++ [index] <+: (slot size virt).1)
    (reached : walk nextTable tables root path = some table)
    (next_eq : nextTable (tables table index) = none) :
    PagePath (created tables table index frame) root virt size frames ∧
      walk nextTable (created tables table index frame) root (path ++ [index]) = some frame := by
  obtain ⟨not_mem, nodup⟩ := List.nodup_cons.mp holds.nodup
  have unused := holds.unused frame List.mem_cons_self
  have points :=
    nextTable_new (holds.aligned frame List.mem_cons_self) (holds.small frame List.mem_cons_self)
  have path_on : path <+: (slot size virt).1 := prefix_closed on_path
  have walks {other : List Nat} (other_on : other <+: (slot size virt).1) :=
    walk_graft holds.separate prefix_closed path_on reached unused next_eq nextTable_unused points
      other_on
  have table_ne : frame ≠ table := fun same => unused path_on (same ▸ reached)
  refine ⟨⟨holds.separate.graft prefix_closed path_on reached unused next_eq nextTable_unused
    points, fun normal other other_eq present => ?_, nodup,
    fun other mem => holds.aligned other (List.mem_cons_of_mem _ mem),
    fun other mem => holds.small other (List.mem_cons_of_mem _ mem),
    fun other mem other_path other_on other_eq => ?_⟩, by rw [created, walks on_path, if_pos rfl]⟩
  · subst normal
    have above_on : (slot .Huge virt).1 <+: (slot .Normal virt).1 := List.prefix_append _ _
    rw [created, walks above_on] at other_eq
    split at other_eq
    next =>
      -- The created table is blank.
      obtain rfl := Option.some.inj other_eq
      rw [created, write_other fun both => table_ne both.1, fill_same] at present
      exact absurd present (by decide)
    next =>
      have other_ne : other ≠ frame := fun same => unused above_on (same ▸ other_eq)
      by_cases written : other = table ∧ (slot .Huge virt).2 = index
      · rw [created, written.1, written.2, write_same, PageTableEntry.isHuge_new]
        rfl
      · rw [created, write_other written, fill_other other_ne] at present ⊢
        exact holds.noHuge rfl other other_eq present
  · rw [created, walks other_on] at other_eq
    split at other_eq
    next =>
      obtain rfl := Option.some.inj other_eq
      exact not_mem mem
    next => exact holds.unused other (List.mem_cons_of_mem _ mem) other_on other_eq

/-- Descending one level of the path. -/
theorem PagePath.getOrCreateNext {state after : PagingState} {table index below : Nat}
    {path : List Nat} (holds : PagePath state.tables root virt size state.frames)
    (on_path : path ++ [index] <+: (slot size virt).1)
    (reached : walk nextTable state.tables root path = some table)
    (next_eq : getOrCreateNext state table index = .ok (below, after)) :
    PagePath after.tables root virt size after.frames ∧
      walk nextTable after.tables root (path ++ [index]) = some below ∧
      after.frames <:+ state.frames := by
  obtain ⟨tables, frames⟩ := state
  cases entry_eq : nextTable (tables table index) with
  | some found =>
      rw [getOrCreateNext_of_some entry_eq] at next_eq
      cases next_eq
      refine ⟨holds, ?_, List.suffix_rfl⟩
      rw [walk_snoc, show walk nextTable tables root path = some table from reached]
      exact entry_eq
  | none =>
      cases frames with
      | nil =>
          rw [getOrCreateNext_of_none entry_eq] at next_eq
          cases next_eq
      | cons frame frames =>
          rw [getOrCreateNext_fresh entry_eq (holds.aligned frame List.mem_cons_self)
            (holds.small frame List.mem_cons_self)] at next_eq
          cases next_eq
          obtain ⟨next, found⟩ := holds.graft on_path reached entry_eq
          exact ⟨next, found, List.suffix_cons below frames⟩

/-- Writing the entry of the page. -/
theorem PagePath.leaf {table : Nat} (holds : PagePath tables root virt size frames)
    (reached : walk nextTable tables root (slot size virt).1 = some table)
    (entry : PageTableEntry) :
    PagePath (write tables table (slot size virt).2 entry) root virt size frames ∧
      walk nextTable (write tables table (slot size virt).2 entry) root (slot size virt).1 =
        some table := by
  have walks {other : List Nat} (other_on : other <+: (slot size virt).1) :
      walk nextTable (write tables table (slot size virt).2 entry) root other =
        walk nextTable tables root other := by
    refine walk_write entry holds.separate prefix_closed List.prefix_rfl reached other_on ?_
    intro longer
    exact not_prefix_self _ _ (longer.trans other_on)
  refine ⟨⟨fun left right below left_on right_on left_eq right_eq => ?_,
    fun normal other other_eq present => ?_, holds.nodup, holds.aligned, holds.small,
    fun frame mem other other_on other_eq => ?_⟩, by rw [walks List.prefix_rfl, reached]⟩
  · rw [walks left_on] at left_eq
    rw [walks right_on] at right_eq
    exact holds.separate left_on right_on left_eq right_eq
  · subst normal
    have above_on : (slot .Huge virt).1 <+: (slot .Normal virt).1 := List.prefix_append _ _
    rw [walks above_on] at other_eq
    have other_ne : other ≠ table := by
      rintro rfl
      have same := holds.separate above_on List.prefix_rfl other_eq reached
      simp [slot] at same
    rw [write_other fun both => other_ne both.1] at present ⊢
    exact holds.noHuge rfl other other_eq present
  · rw [walks other_on] at other_eq
    exact holds.unused frame mem other_on other_eq

/-- What `translate` reads at the end of the path to a 2 MiB page. -/
theorem translate_of_walk_huge {table : Nat} {entry : PageTableEntry}
    (reached : walk nextTable tables root (slot .Huge virt).1 = some table)
    (entry_eq : tables table (slot .Huge virt).2 = entry) (present : entry.isPresent = true)
    (huge : entry.isHuge = true) :
    PageTable.translate tables root virt = some (entry.getAddr + virt % HUGE_PAGE_SIZE) := by
  obtain ⟨l3Table, first, rest⟩ := Option.bind_eq_some_iff.mp reached
  obtain ⟨l2Table, second, rest⟩ := Option.bind_eq_some_iff.mp rest
  obtain rfl : l2Table = table := Option.some.inj rest
  simp only [slot] at entry_eq
  simp [PageTable.translate, first, second, entry_eq, present, huge, getHugeOffset_eq,
    HUGE_PAGE_SIZE]

/-- What `translate` reads at the end of the path to a 4 KiB page. -/
theorem translate_of_walk_normal {above table : Nat} {entry : PageTableEntry}
    (above_eq : walk nextTable tables root (slot .Huge virt).1 = some above)
    (noHuge : (tables above (slot .Huge virt).2).isPresent = true →
      (tables above (slot .Huge virt).2).isHuge = false)
    (below_eq : nextTable (tables above (slot .Huge virt).2) = some table)
    (entry_eq : tables table (slot .Normal virt).2 = entry) (present : entry.isPresent = true) :
    PageTable.translate tables root virt = some (entry.getAddr + virt % NORMAL_PAGE_SIZE) := by
  obtain ⟨l3Table, first, rest⟩ := Option.bind_eq_some_iff.mp above_eq
  obtain ⟨l2Table, second, rest⟩ := Option.bind_eq_some_iff.mp rest
  obtain rfl : l2Table = above := Option.some.inj rest
  have above_present : (tables l2Table (getIdxs virt).l2).isPresent = true := by
    rw [nextTable] at below_eq
    split at below_eq
    next present => exact present
    next => cases below_eq
  simp only [slot] at entry_eq noHuge below_eq
  simp [PageTable.translate, first, second, below_eq, above_present, noHuge above_present, entry_eq,
    present, getIdxs_offset, NORMAL_PAGE_SIZE]

end Path

/-- The flags of a page: present, and no address bits. -/
theorem convertVmFlags_valid (flags : Nat) : ValidFlags (convertVmFlags flags) := by
  rw [convertVmFlags]
  generalize decide (flags &&& VM_FLAG_WRITE ≠ 0) = writable
  generalize decide (flags &&& VM_FLAG_USER ≠ 0) = userAccess
  generalize decide (flags &&& VM_FLAG_WRITE_THROUGH ≠ 0) = writethru
  generalize decide (flags &&& VM_FLAG_CACHE_DISABLE ≠ 0) = noCache
  generalize decide (flags &&& VM_FLAG_GLOBAL ≠ 0) = global
  generalize (!decide (flags &&& VM_FLAG_EXEC ≠ 0)) = noExecute
  cases writable <;> cases userAccess <;> cases writethru <;> cases noCache <;> cases global <;>
    cases noExecute <;> exact ⟨rfl, rfl⟩

section Enter

variable {root virt phys flags : Nat} {size : BlockSize} {state after : PagingState}

/-- Once a page is entered, `translate` finds its frame. -/
theorem PagePath.mapPage (holds : PagePath state.tables root virt size state.frames)
    (valid : ValidFlags flags)
    (map_eq : PageTable.mapPage state root virt phys flags size = .ok after) :
    PagePath after.tables root virt size after.frames ∧
      PageTable.translate after.tables root virt =
        some ((phys &&& ADDR_MASK) + virt % size.bytes) ∧
      after.frames <:+ state.frames := by
  rw [mapPage_eq] at map_eq
  obtain ⟨⟨l3Table, state₁⟩, first_eq, map_eq⟩ := bind_eq_ok.mp map_eq
  obtain ⟨⟨l2Table, state₂⟩, second_eq, map_eq⟩ := bind_eq_ok.mp map_eq
  have two_on : [(getIdxs virt).l4, (getIdxs virt).l3] <+: (slot size virt).1 := by
    cases size with
    | Huge => exact List.prefix_rfl
    | Normal => exact List.prefix_append _ _
  have one_on : [(getIdxs virt).l4] <+: (slot size virt).1 :=
    (List.prefix_append [_] [_]).trans two_on
  obtain ⟨holds₁, reached₁, suffix₁⟩ :=
    @PagePath.getOrCreateNext _ _ _ _ _ _ _ _ [] holds one_on rfl first_eq
  obtain ⟨holds₂, reached₂, suffix₂⟩ :=
    @PagePath.getOrCreateNext _ _ _ _ _ _ _ _ [(getIdxs virt).l4] holds₁ two_on reached₁ second_eq
  obtain ⟨present, no_addr⟩ := leafFlags_valid size valid
  have entry_present : (PageTableEntry.new phys (leafFlags size flags)).isPresent = true := by
    rw [PageTableEntry.isPresent_new, present]
  have entry_addr : (PageTableEntry.new phys (leafFlags size flags)).getAddr = phys &&& ADDR_MASK :=
    PageTableEntry.getAddr_new no_addr
  cases size with
  | Huge =>
      cases map_eq
      obtain ⟨final, walked⟩ := holds₂.leaf reached₂ (.new phys (leafFlags .Huge flags))
      have found := translate_of_walk_huge walked (write_same _ _ _ _) entry_present
        (isHuge_leaf phys flags)
      rw [entry_addr] at found
      exact ⟨final, found, suffix₂.trans suffix₁⟩
  | Normal =>
      obtain ⟨⟨l1Table, state₃⟩, third_eq, map_eq⟩ := bind_eq_ok.mp map_eq
      cases map_eq
      obtain ⟨holds₃, reached₃, suffix₃⟩ := @PagePath.getOrCreateNext _ _ _ _ _ _ _ _
        [(getIdxs virt).l4, (getIdxs virt).l3] holds₂ (slot_normal virt ▸ List.prefix_rfl)
        reached₂ third_eq
      obtain ⟨final, walked⟩ := holds₃.leaf reached₃ (.new phys (leafFlags .Normal flags))
      rw [slot_normal, walk_snoc] at walked
      obtain ⟨above, above_eq, below_eq⟩ := Option.bind_eq_some_iff.mp walked
      have found := translate_of_walk_normal above_eq (final.noHuge rfl above above_eq) below_eq
        (write_same _ _ _ _) entry_present
      rw [entry_addr] at found
      exact ⟨final, found, (suffix₃.trans suffix₂).trans suffix₁⟩

end Enter

end Vespertine
