import Vespertine.Memory.PagingRefinement

/-!
# Frames of page tables

Every table of the user half but the root came from the page allocator when a page was entered
below it.  `Grown` says what entering and clearing pages do to memory as a whole: the frames taken
become tables of the user half, no table is given up, and nothing outside the user half is written.
-/

namespace Vespertine
namespace UserTree

open RadixTree

/-- The table is the root, or is reached through the user half of the root table. -/
def UserTable (tables : Tables) (root table : Nat) : Prop :=
  ∃ path, userPath path ∧ walk child tables root path = some table

/-- Tables of the user half hang below the 512 entries of other tables. -/
def Indexed (tables : Tables) (root : Nat) : Prop :=
  ∀ path table, userPath path → walk child tables root path = some table →
    ∀ index ∈ path, index < 512

/-- Frames of the page allocator: distinct, aligned, and no table of the user half. -/
structure FreeFrames (tables : Tables) (root : Nat) (frames : List Nat) : Prop where
  nodup : frames.Nodup
  aligned : ∀ frame ∈ frames, NORMAL_PAGE_SIZE ∣ frame
  small : ∀ frame ∈ frames, frame < 2 ^ 52
  unused : ∀ frame ∈ frames, ¬ UserTable tables root frame

/-- The user half gained the tables taken, and nothing outside it was written. -/
structure Grown (before after : Tables) (root : Nat) (taken : List Nat) : Prop where
  /-- The kernel half of the root table. -/
  top : ∀ index, 256 ≤ index → after root index = before root index
  /-- Memory that holds no table of the user half. -/
  outside : ∀ table, ¬ UserTable before root table → table ∉ taken → after table = before table
  tables_iff : ∀ table, UserTable after root table ↔ UserTable before root table ∨ table ∈ taken
  indexed : Indexed before root → Indexed after root

section Growth

variable {tables before after : Tables} {root : Nat} {space : AddressSpace}

theorem userPath_nil : userPath [] := ⟨by simp, by simp⟩

theorem userTable_root (tables : Tables) (root : Nat) : UserTable tables root root :=
  ⟨[], userPath_nil, rfl⟩

/-- Below an empty user half there is no table. -/
theorem userTable_of_empty (empty : ∀ index < 256, (tables root index).isPresent = false)
    {table : Nat} : UserTable tables root table ↔ table = root := by
  constructor
  · rintro ⟨path, live, reached⟩
    cases path with
    | nil => exact (Option.some.inj reached).symm
    | cons index path =>
        rw [Pager.walk_of_empty empty live (by simp)] at reached
        cases reached
  · rintro rfl
    exact userTable_root tables table

/-- Free frames are fit to become tables. -/
theorem FreeFrames.supplies {frames : List Nat} {count : Nat} (free : FreeFrames tables root frames)
    (enough : count ≤ frames.length) : Supplies tables root frames count :=
  ⟨enough, free.nodup, free.aligned, free.small,
    fun frame mem path live reached => free.unused frame mem ⟨path, live, reached⟩⟩

theorem Grown.refl (tables : Tables) (root : Nat) : Grown tables tables root [] :=
  ⟨fun _ _ => rfl, fun _ _ _ => rfl, by simp, id⟩

theorem Grown.trans {middle : Tables} {first second : List Nat}
    (one : Grown before middle root first) (two : Grown middle after root second) :
    Grown before after root (first ++ second) := by
  refine ⟨fun index upper => ?_, fun table unused untaken => ?_, fun table => ?_,
    two.indexed ∘ one.indexed⟩
  · rw [two.top index upper, one.top index upper]
  · rw [List.mem_append, not_or] at untaken
    have still : ¬ UserTable middle root table := by
      rw [one.tables_iff, not_or]
      exact ⟨unused, untaken.1⟩
    rw [two.outside table still untaken.2, one.outside table unused untaken.1]
  · rw [two.tables_iff, one.tables_iff, List.mem_append, or_assoc]

/-- The frames that are left are still free. -/
theorem FreeFrames.rest {taken left : List Nat} (free : FreeFrames before root (taken ++ left))
    (grown : Grown before after root taken) : FreeFrames after root left := by
  have later {frame : Nat} (mem : frame ∈ left) : frame ∈ taken ++ left :=
    List.mem_append_right taken mem
  refine ⟨(List.nodup_append.mp free.nodup).2.1, fun frame mem => free.aligned frame (later mem),
    fun frame mem => free.small frame (later mem), fun frame mem => ?_⟩
  rw [grown.tables_iff]
  rintro (old | new)
  · exact free.unused frame (later mem) old
  · exact (List.nodup_append.mp free.nodup).2.2 frame new frame mem rfl

/-- Hanging a fresh table below another one takes its frame. -/
theorem Represents.grown_graft (holds : Represents tables root space) {path : List Nat}
    {table index frame : Nat} (live : userPath (path ++ [index]))
    (reached : walk child tables root path = some table)
    (absent : (tables table index).isPresent = false) (index_lt : index < 512)
    (aligned : NORMAL_PAGE_SIZE ∣ frame) (small : frame < 2 ^ 52)
    (free : ¬ UserTable tables root frame) :
    Grown tables (write (fill tables frame .unused) table index (.new frame 0x7)) root [frame] := by
  have path_live := userPath_closed live
  have unused : Unused child userPath tables root frame :=
    fun other other_live other_eq => free ⟨other, other_live, other_eq⟩
  have vacant : child (tables table index) = none := by simp [child, absent]
  have walks {other : List Nat} (other_live : userPath other) :=
    walk_graft holds.separate userPath_closed path_live reached unused vacant child_unused
      (child_new_table aligned small) other_live
  have root_ne : root ≠ frame := fun same => free (same ▸ userTable_root tables root)
  refine ⟨fun slot upper => ?_, fun other other_free other_ne => ?_, fun found => ?_,
    fun indexed other found other_live other_eq => ?_⟩
  · rw [write_other, fill_other root_ne]
    rintro ⟨rfl, rfl⟩
    obtain rfl := holds.separate path_live userPath_nil reached rfl
    have lower := live.2 slot (by simp)
    omega
  · funext slot
    rw [List.mem_singleton] at other_ne
    rw [write_other, fill_other other_ne]
    rintro ⟨rfl, -⟩
    exact other_free ⟨path, path_live, reached⟩
  · rw [List.mem_singleton]
    constructor
    · rintro ⟨other, other_live, other_eq⟩
      rw [walks other_live] at other_eq
      split at other_eq
      next => exact .inr (Option.some.inj other_eq).symm
      next => exact .inl ⟨other, other_live, other_eq⟩
    · rintro (⟨other, other_live, other_eq⟩ | rfl)
      · refine ⟨other, other_live, ?_⟩
        rw [walks other_live, if_neg, other_eq]
        rintro rfl
        rw [walk_snoc, reached, Option.bind_some, vacant] at other_eq
        cases other_eq
      · exact ⟨path ++ [index], live, by rw [walks live, if_pos rfl]⟩
  · rw [walks other_live] at other_eq
    split at other_eq
    next new =>
      rw [new]
      intro slot mem
      rcases List.mem_append.mp mem with above | own
      · exact indexed path table path_live reached slot above
      · rwa [List.mem_singleton.mp own]
    next => exact indexed other found other_live other_eq

/-- Writing the entry of a page that led to no table, and leads to none, takes no frame. -/
theorem Represents.grown_leaf (holds : Represents tables root space) {size : BlockSize}
    {virt table : Nat} (user : virt < USER_END)
    (reached : walk child tables root (slot size virt).1 = some table) {entry : PageTableEntry}
    (old : size = .Huge → child (tables table (slot size virt).2) = none)
    (new : size = .Huge → child entry = none) :
    Grown tables (write tables table (slot size virt).2 entry) root [] := by
  have live := slot_live size user
  have walks {other : List Nat} (other_live : userPath other) :
      walk child (write tables table (slot size virt).2 entry) root other =
        walk child tables root other := by
    rcases holds.walk_leaf user reached new other_live with kept | ⟨huge, through, cut⟩
    · exact kept
    · obtain ⟨back, rfl⟩ := through
      rw [cut, walk_append, walk_snoc, reached, Option.bind_some, old huge]
      rfl
  refine ⟨fun index upper => ?_, fun other free _ => ?_, fun found => ?_,
    fun indexed other found other_live other_eq => ?_⟩
  · rw [write_other]
    rintro ⟨rfl, -⟩
    have path_eq := holds.separate live userPath_nil reached rfl
    have length_eq := slot_length size virt
    rw [path_eq] at length_eq
    split at length_eq <;> simp at length_eq
  · funext index
    rw [write_other]
    rintro ⟨rfl, -⟩
    exact free ⟨_, live, reached⟩
  · rw [UserTable, UserTable, or_iff_left List.not_mem_nil]
    exact exists_congr fun other => and_congr_right fun other_live => by rw [walks other_live]
  · rw [walks other_live] at other_eq
    exact indexed other found other_live other_eq

/-- Clearing a stored page takes no frame. -/
theorem Represents.grown_unmapPage (holds : Represents tables root space) {size : BlockSize}
    {virt phys : Nat} (user : virt < USER_END)
    (some_eq : space size (virt / size.bytes) = some phys) :
    Grown tables (PageTable.unmapPage tables root virt size) root [] := by
  obtain ⟨table, reached, stored⟩ := holds.reached_of_some user some_eq
  rw [holds.unmapPage_eq user reached]
  refine holds.grown_leaf user reached (fun huge => ?_) fun _ => rfl
  subst huge
  cases points : child (tables table (slot .Huge virt).2) with
  | none => rfl
  | some below =>
      rw [leafAddr_huge_of_child points] at stored
      cases stored

/-- Descending one level takes at most the frame of the table below. -/
theorem getOrCreateNext_grown {state after : PagingState} {path : List Nat}
    {table index below : Nat} (holds : Represents state.tables root space)
    (free : FreeFrames state.tables root state.frames) (live : userPath (path ++ [index]))
    (index_lt : index < 512) (reached : walk child state.tables root path = some table)
    (noHuge : (state.tables table index).isPresent = true →
      (state.tables table index).isHuge = false)
    (next_eq : getOrCreateNext state table index = .ok (below, after)) :
    ∃ taken, state.frames = taken ++ after.frames ∧ Grown state.tables after.tables root taken ∧
      Represents after.tables root space ∧
      walk child after.tables root (path ++ [index]) = some below := by
  rw [getOrCreateNext] at next_eq
  by_cases present : (state.tables table index).isPresent = true
  · rw [if_pos present] at next_eq
    cases next_eq
    refine ⟨[], rfl, .refl _ _, holds, ?_⟩
    rw [walk_snoc, reached]
    simp [child, present, noHuge present]
  · rw [if_neg present] at next_eq
    have absent : (state.tables table index).isPresent = false := Bool.eq_false_iff.mpr present
    cases frames_eq : state.frames with
    | nil =>
        rw [frames_eq] at next_eq
        cases next_eq
    | cons frame frames =>
        rw [frames_eq] at next_eq
        have mem : frame ∈ state.frames := frames_eq ▸ List.mem_cons_self
        have aligned := free.aligned frame mem
        have small := free.small frame mem
        have unused : Unused child userPath state.tables root frame :=
          fun other other_live other_eq => free.unused frame mem ⟨other, other_live, other_eq⟩
        have addr_eq : (PageTableEntry.new frame 0x7).getAddr = frame := by
          rw [PageTableEntry.getAddr_new (by decide),
            PageTableEntry.and_mask_of_aligned aligned small]
        obtain ⟨below_eq, after_eq⟩ := Prod.mk.inj (Except.ok.inj next_eq)
        rw [addr_eq] at below_eq
        subst below_eq after_eq
        refine ⟨[frame], rfl, holds.grown_graft live reached absent index_lt aligned small
          (free.unused frame mem), holds.graft live reached absent aligned small unused, ?_⟩
        rw [walk_graft holds.separate userPath_closed (userPath_closed live) reached unused
          (by simp [child, absent]) child_unused (child_new_table aligned small) live, if_pos rfl]

theorem getIdxs_lt (virt : Nat) :
    (getIdxs virt).l4 < 512 ∧ (getIdxs virt).l3 < 512 ∧ (getIdxs virt).l2 < 512 := by
  rw [getIdxs_l4, getIdxs_l3, getIdxs_l2]
  omega

/-- Entering a 4 KiB page: the map gains the page, and the frames taken became its tables. -/
theorem mapPage_grown {state after : PagingState} {virt phys flags : Nat}
    (holds : Represents state.tables root space)
    (free : FreeFrames state.tables root state.frames) (user : virt < USER_END)
    (aligned : NORMAL_PAGE_SIZE ∣ phys) (small : phys < 2 ^ 52) (valid : ValidFlags flags)
    (noOther : space .Huge (virt / HUGE_PAGE_SIZE) = none)
    (map_eq : PageTable.mapPage state root virt phys flags .Normal = .ok after) :
    ∃ taken, state.frames = taken ++ after.frames ∧ Grown state.tables after.tables root taken ∧
      Represents after.tables root (space.set .Normal (virt / NORMAL_PAGE_SIZE) (some phys)) := by
  have live : userPath ([(getIdxs virt).l4] ++ [(getIdxs virt).l3]) := slot_live .Huge user
  have top : userPath ([] ++ [(getIdxs virt).l4]) := userPath_closed live
  have leaf_live : userPath ([(getIdxs virt).l4, (getIdxs virt).l3] ++ [(getIdxs virt).l2]) :=
    slot_live .Normal user
  obtain ⟨l4_lt, l3_lt, l2_lt⟩ := getIdxs_lt virt
  obtain ⟨⟨l3Table, state₁⟩, first_eq, rest_eq⟩ := bind_eq_ok.mp map_eq
  obtain ⟨⟨l2Table, state₂⟩, second_eq, rest_eq⟩ := bind_eq_ok.mp rest_eq
  obtain ⟨⟨l1Table, state₃⟩, third_eq, rest_eq⟩ := bind_eq_ok.mp rest_eq
  cases rest_eq
  obtain ⟨taken₁, frames₁, grown₁, holds₁, reached₁⟩ := getOrCreateNext_grown holds free top l4_lt
    rfl (holds.upper (by simp) top rfl) first_eq
  have free₁ := (frames₁ ▸ free).rest grown₁
  obtain ⟨taken₂, frames₂, grown₂, holds₂, reached₂⟩ := getOrCreateNext_grown holds₁ free₁ live
    l3_lt reached₁ (holds₁.upper (by simp) live reached₁) second_eq
  have free₂ := (frames₂ ▸ free₁).rest grown₂
  obtain ⟨taken₃, frames₃, grown₃, holds₃, reached₃⟩ := getOrCreateNext_grown holds₂ free₂
    leaf_live l2_lt reached₂ (holds₂.not_huge user noOther reached₂) third_eq
  have grown₄ : Grown state₃.tables
      (write state₃.tables l1Table (getIdxs virt).l1 (.new phys flags)) root [] :=
    @Represents.grown_leaf _ _ _ holds₃ .Normal _ _ user reached₃ _
      (fun huge => by cases huge) fun huge => by cases huge
  have written := holds₃.write_leaf .Normal (.new phys (leafFlags .Normal flags)) user reached₃
    (fun huge => by cases huge) (fun huge => by cases huge)
  rw [leafAddr_new .Normal valid, PageTableEntry.and_mask_of_aligned aligned small] at written
  refine ⟨_, ?_, ((grown₁.trans grown₂).trans grown₃).trans grown₄, written⟩
  rw [frames₁, frames₂, frames₃]
  simp only [List.append_assoc, List.append_nil]

end Growth

end UserTree
end Vespertine
