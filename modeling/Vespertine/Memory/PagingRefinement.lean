import Mathlib.Tactic.SplitIfs
import Vespertine.Library.Transition
import Vespertine.Memory.Paging

/-!
# Page tables refine a partial map

The user half of the page tables is a radix tree of depth three whose leaves are the entries of
4 KiB and 2 MiB pages.  `Represents` relates it to a partial map from pages to physical addresses.
Each pager call has one specification lemma against that map, and runs of calls follow.
-/

namespace Vespertine

/-- End of the user half of the address space. -/
def USER_END : Nat := 2 ^ 47

section Entries

theorem shift_and_mask (virt bits : Nat) : (virt >>> bits) &&& 0o777 = virt / 2 ^ bits % 512 := by
  rw [Nat.shiftRight_eq_div_pow]
  exact Nat.and_two_pow_sub_one_eq_mod _ 9

theorem getIdxs_l4 (virt : Nat) : (getIdxs virt).l4 = virt / 2 ^ 39 % 512 :=
  shift_and_mask virt 39

theorem getIdxs_l3 (virt : Nat) : (getIdxs virt).l3 = virt / 2 ^ 30 % 512 :=
  shift_and_mask virt 30

theorem getIdxs_l2 (virt : Nat) : (getIdxs virt).l2 = virt / 2 ^ 21 % 512 :=
  shift_and_mask virt 21

theorem getIdxs_l1 (virt : Nat) : (getIdxs virt).l1 = virt / 2 ^ 12 % 512 :=
  shift_and_mask virt 12

theorem getIdxs_offset (virt : Nat) : (getIdxs virt).offset = virt % 2 ^ 12 :=
  Nat.and_two_pow_sub_one_eq_mod _ 12

theorem getOffset_eq (virt : Nat) : getOffset virt = virt % 2 ^ 12 :=
  Nat.and_two_pow_sub_one_eq_mod _ 12

theorem getHugeOffset_eq (virt : Nat) : getHugeOffset virt = virt % 2 ^ 21 :=
  Nat.and_two_pow_sub_one_eq_mod _ 21

namespace PageTableEntry

theorem isPresent_eq (entry : PageTableEntry) : entry.isPresent = entry.bits.testBit 0 := by
  rw [isPresent, Nat.and_one_is_mod, Nat.testBit_zero]
  rfl

theorem isHuge_eq (entry : PageTableEntry) : entry.isHuge = entry.bits.testBit 7 := by
  rw [isHuge, show (1 <<< 7 : Nat) = 2 ^ 7 from rfl, Nat.and_two_pow]
  cases entry.bits.testBit 7 <;> rfl

theorem testBit_mask (bit : Nat) :
    ADDR_MASK.testBit bit = (decide (12 ≤ bit) && decide (bit < 52)) := by
  rw [show ADDR_MASK = 2 ^ 12 * (2 ^ 40 - 1) from rfl, Nat.testBit_two_pow_mul,
    Nat.testBit_two_pow_sub_one]
  by_cases low : 12 ≤ bit
  · have shifted : bit - 12 < 40 ↔ bit < 52 := by omega
    simp [low, shifted]
  · simp [low]

theorem isPresent_new (phys flags : Nat) : (new phys flags).isPresent = flags.testBit 0 := by
  rw [isPresent_eq, new, Nat.testBit_or, Nat.testBit_and, testBit_mask]
  simp

theorem isHuge_new (phys flags : Nat) : (new phys flags).isHuge = flags.testBit 7 := by
  rw [isHuge_eq, new, Nat.testBit_or, Nat.testBit_and, testBit_mask]
  simp

theorem getAddr_new {phys flags : Nat} (no_addr : flags &&& ADDR_MASK = 0) :
    (new phys flags).getAddr = phys &&& ADDR_MASK := by
  rw [getAddr, new, Nat.and_or_distrib_right, no_addr, Nat.or_zero, Nat.and_assoc, Nat.and_self]

theorem getAddr_and_mask (entry : PageTableEntry) :
    entry.getAddr &&& ADDR_MASK = entry.getAddr := by
  rw [getAddr, Nat.and_assoc, Nat.and_self]

/-- The address bits hold every aligned physical address below `2 ^ 52`. -/
theorem and_mask_of_aligned {phys : Nat} (aligned : NORMAL_PAGE_SIZE ∣ phys)
    (small : phys < 2 ^ 52) : phys &&& ADDR_MASK = phys := by
  obtain ⟨frame, rfl⟩ := aligned
  apply Nat.eq_of_testBit_eq
  intro bit
  rw [Nat.testBit_and, testBit_mask]
  by_cases low : 12 ≤ bit
  · by_cases high : bit < 52
    · simp [low, high]
    · have clear : (NORMAL_PAGE_SIZE * frame).testBit bit = false := by
        apply Nat.testBit_lt_two_pow
        exact lt_of_lt_of_le small (Nat.pow_le_pow_right (by decide) (by omega))
      simp [clear]
  · rw [show NORMAL_PAGE_SIZE = 2 ^ 12 from rfl, Nat.testBit_two_pow_mul]
    simp [low]

@[simp] theorem isPresent_unused : unused.isPresent = false := rfl

end PageTableEntry
end Entries

/-- A partial map from pages of each size to physical addresses. -/
abbrev AddressSpace := BlockSize → Nat → Option Nat

namespace AddressSpace

/-- Overwrite one page. -/
def set (space : AddressSpace) (size : BlockSize) (page : Nat) (phys : Option Nat) :
    AddressSpace :=
  fun other number => if other = size ∧ number = page then phys else space other number

/-- The address behind a virtual address: that of its page, plus the offset in the page. -/
def translate (space : AddressSpace) (virt : Nat) : Option Nat :=
  match space .Huge (virt / HUGE_PAGE_SIZE) with
  | some phys => some (phys + virt % HUGE_PAGE_SIZE)
  | none => (space .Normal (virt / NORMAL_PAGE_SIZE)).map (· + virt % NORMAL_PAGE_SIZE)

theorem set_same {space : AddressSpace} {size : BlockSize}
    {page : Nat} {phys : Option Nat} (same : space size page = phys) :
    space.set size page phys = space := by
  funext other number
  rw [AddressSpace.set]
  split
  · next here => rw [here.1, here.2, same]
  · rfl

end AddressSpace

namespace UserTree

open RadixTree

/-- The table below an entry of the tree; the entry of a 2 MiB page is a leaf. -/
def child (entry : PageTableEntry) : Option Nat :=
  if entry.isPresent && !entry.isHuge then some entry.getAddr else none

/-- Paths to tables of the user half. -/
def userPath (path : List Nat) : Prop := path.length ≤ 3 ∧ ∀ index ∈ path.head?, index < 256

/-- Path and index of the entry of a page. -/
def slot : BlockSize → Nat → List Nat × Nat
  | .Normal, virt => ([(getIdxs virt).l4, (getIdxs virt).l3, (getIdxs virt).l2], (getIdxs virt).l1)
  | .Huge, virt => ([(getIdxs virt).l4, (getIdxs virt).l3], (getIdxs virt).l2)

/-- The physical address a leaf entry stores. -/
def leafAddr : BlockSize → PageTableEntry → Option Nat
  | .Normal, entry => if entry.isPresent then some entry.getAddr else none
  | .Huge, entry => if entry.isPresent && entry.isHuge then some entry.getAddr else none

/-- The address stored for the page of a virtual address. -/
def mapped (tables : Tables) (root : Nat) (size : BlockSize) (virt : Nat) : Option Nat :=
  (walk child tables root (slot size virt).1).bind fun table =>
    leafAddr size (tables table (slot size virt).2)

/-- The user half of the tables is a tree that stores exactly the given pages. -/
structure Represents (tables : Tables) (root : Nat) (space : AddressSpace) : Prop where
  /-- No table is reached along two paths. -/
  separate : Separate child userPath tables root
  /-- Entries of the upper two levels point to tables. -/
  upper : ∀ ⦃path table index⦄, path.length < 2 → userPath (path ++ [index]) →
    walk child tables root path = some table → (tables table index).isPresent = true →
    (tables table index).isHuge = false
  /-- Leaves store the map. -/
  agrees : ∀ size virt, virt < USER_END →
    mapped tables root size virt = space size (virt / size.bytes)

theorem userPath_closed ⦃front back : List Nat⦄ (live : userPath (front ++ back)) :
    userPath front := by
  refine ⟨?_, fun index head => live.2 index ?_⟩
  · have length_le := live.1
    rw [List.length_append] at length_le
    omega
  · cases front with
    | nil => simp at head
    | cons first front => simpa using head

theorem slot_live (size : BlockSize) {virt : Nat} (user : virt < USER_END) :
    userPath (slot size virt).1 := by
  have small : (getIdxs virt).l4 < 256 := by
    rw [getIdxs_l4]
    simp only [USER_END] at user
    omega
  cases size <;> exact ⟨by simp [slot], by simpa [slot] using small⟩

theorem slot_length (size : BlockSize) (virt : Nat) :
    (slot size virt).1.length = if size = .Normal then 3 else 2 := by
  cases size <;> rfl

/-- Two addresses below the user end share an entry exactly when they share the page. -/
theorem slot_eq_iff {size : BlockSize} {left right : Nat} (left_user : left < USER_END)
    (right_user : right < USER_END) :
    slot size left = slot size right ↔ left / size.bytes = right / size.bytes := by
  simp only [USER_END] at left_user right_user
  cases size with
  | Normal =>
      simp only [slot, BlockSize.bytes, NORMAL_PAGE_SIZE, getIdxs_l4, getIdxs_l3, getIdxs_l2,
        getIdxs_l1, Prod.mk.injEq, List.cons.injEq, and_true]
      omega
  | Huge =>
      simp only [slot, BlockSize.bytes, HUGE_PAGE_SIZE, getIdxs_l4, getIdxs_l3, getIdxs_l2,
        Prod.mk.injEq, List.cons.injEq, and_true]
      omega

/-- The entry of a 2 MiB page lies above the entries of exactly its 4 KiB pages. -/
theorem huge_prefix_iff {left right : Nat} (left_user : left < USER_END)
    (right_user : right < USER_END) :
    (slot .Huge left).1 ++ [(slot .Huge left).2] <+: (slot .Normal right).1 ↔
      left / HUGE_PAGE_SIZE = right / HUGE_PAGE_SIZE := by
  simp only [USER_END] at left_user right_user
  simp only [slot, getIdxs_l4, getIdxs_l3, getIdxs_l2, HUGE_PAGE_SIZE, List.cons_append,
    List.nil_append, List.cons_prefix_cons, List.prefix_rfl, and_true]
  omega

section Read

variable {tables : Tables} {root : Nat} {space : AddressSpace}

theorem Represents.nextTable_eq (holds : Represents tables root space) {path : List Nat}
    {table index : Nat} (live : userPath (path ++ [index])) (short : path.length < 2)
    (reached : walk child tables root path = some table) :
    nextTable (tables table index) = child (tables table index) := by
  have noHuge := holds.upper short live reached
  rw [nextTable, child]
  cases present : (tables table index).isPresent with
  | false => rfl
  | true => simp [noHuge present]

/-- The code's two upper table reads are the walk to the table of 2 MiB entries. -/
theorem Represents.walk_two (holds : Represents tables root space) {virt : Nat}
    (user : virt < USER_END) :
    ((nextTable (tables root (getIdxs virt).l4)).bind fun l3Table =>
      nextTable (tables l3Table (getIdxs virt).l3)) =
        walk child tables root (slot .Huge virt).1 := by
  have live : userPath ([(getIdxs virt).l4] ++ [(getIdxs virt).l3]) := slot_live .Huge user
  have top : userPath ([] ++ [(getIdxs virt).l4]) := userPath_closed live
  rw [holds.nextTable_eq top (by simp) rfl]
  simp only [slot, walk]
  cases first : child (tables root (getIdxs virt).l4) with
  | none => rfl
  | some l3Table =>
      have reached : walk child tables root [(getIdxs virt).l4] = some l3Table := by
        simp [walk, first]
      rw [Option.bind_some, Option.bind_some,
        holds.nextTable_eq live (by simp) reached]
      simp

/-- Where the tree represents a map, `translate` computes it. -/
theorem Represents.translate_eq (holds : Represents tables root space) {virt : Nat}
    (user : virt < USER_END) : PageTable.translate tables root virt = space.translate virt := by
  have huge := holds.agrees .Huge virt user
  have normal := holds.agrees .Normal virt user
  have split_walk : walk child tables root (slot .Normal virt).1 =
      (walk child tables root (slot .Huge virt).1).bind fun table =>
        child (tables table (getIdxs virt).l2) :=
    walk_snoc root (slot .Huge virt).1 _
  have code : PageTable.translate tables root virt =
      (walk child tables root (slot .Huge virt).1).bind fun l2Table =>
        let l2Entry := tables l2Table (getIdxs virt).l2
        if !l2Entry.isPresent then none
        else if l2Entry.isHuge then some (l2Entry.getAddr + getHugeOffset virt)
        else (nextTable l2Entry).bind fun l1Table =>
          if !(tables l1Table (getIdxs virt).l1).isPresent then none
          else some ((tables l1Table (getIdxs virt).l1).getAddr + (getIdxs virt).offset) := by
    rw [← holds.walk_two user, Option.bind_assoc]
    simp [PageTable.translate]
  rw [code, AddressSpace.translate]
  simp only [mapped, split_walk, BlockSize.bytes] at huge normal
  rw [← huge, ← normal]
  cases walk child tables root (slot .Huge virt).1 with
  | none => rfl
  | some l2Table =>
      -- Present and page-size bit of the level-2 entry decide which leaf is read.
      simp only [Option.bind_some, slot, leafAddr, child, nextTable]
      by_cases present : (tables l2Table (getIdxs virt).l2).isPresent
      · by_cases isHuge : (tables l2Table (getIdxs virt).l2).isHuge
        · simp [present, isHuge, getHugeOffset_eq, HUGE_PAGE_SIZE]
        · by_cases leaf : (tables (tables l2Table (getIdxs virt).l2).getAddr
            (getIdxs virt).l1).isPresent <;>
            simp [present, isHuge, leaf, getIdxs_offset, NORMAL_PAGE_SIZE]
      · simp [present]

end Read

section Write

variable {tables : Tables} {root : Nat} {space : AddressSpace}

/-- Overwriting the entry of a page either keeps a walk or, at a 2 MiB entry, cuts it off. -/
theorem Represents.walk_leaf (holds : Represents tables root space) {size : BlockSize}
    {virt table : Nat} {entry : PageTableEntry} (user : virt < USER_END)
    (reached : walk child tables root (slot size virt).1 = some table)
    (leaf : size = .Huge → child entry = none) {other : List Nat} (live : userPath other) :
    walk child (write tables table (slot size virt).2 entry) root other =
        walk child tables root other ∨
      size = .Huge ∧ (slot size virt).1 ++ [(slot size virt).2] <+: other ∧
        walk child (write tables table (slot size virt).2 entry) root other = none := by
  by_cases through : (slot size virt).1 ++ [(slot size virt).2] <+: other
  · cases size with
    | Normal =>
        have length_le := through.length_le
        have other_le := live.1
        simp only [slot, List.length_append, List.length_cons, List.length_nil] at length_le
        omega
    | Huge =>
        have cut := walk_cut (slot .Huge virt).2 holds.separate userPath_closed (slot_live _ user)
          reached (leaf rfl) live
        rw [if_pos through] at cut
        exact .inr ⟨rfl, through, cut⟩
  · exact .inl (walk_write entry holds.separate userPath_closed (slot_live _ user) reached live
      through)

/-- Writing the entry of a page changes the represented map at that page only. -/
theorem Represents.write_leaf (holds : Represents tables root space) (size : BlockSize)
    (entry : PageTableEntry) {virt table : Nat} (user : virt < USER_END)
    (reached : walk child tables root (slot size virt).1 = some table)
    (leaf : size = .Huge → child entry = none)
    (no_small : size = .Huge → ∀ other < USER_END,
      other / HUGE_PAGE_SIZE = virt / HUGE_PAGE_SIZE →
        space .Normal (other / NORMAL_PAGE_SIZE) = none) :
    Represents (write tables table (slot size virt).2 entry) root
      (space.set size (virt / size.bytes) (leafAddr size entry)) := by
  have before {path : List Nat} {child_ : Nat} (live : userPath path)
      (after : walk child (write tables table (slot size virt).2 entry) root path = some child_) :
      walk child tables root path = some child_ := by
    obtain same | ⟨-, -, cut⟩ := holds.walk_leaf user reached leaf live
    · rwa [same] at after
    · rw [cut] at after
      cases after
  refine ⟨fun left right child_ left_live right_live left_eq right_eq => ?_, ?_, ?_⟩
  · exact holds.separate left_live right_live (before left_live left_eq)
      (before right_live right_eq)
  · intro path child_ index short live path_eq
    have path_live := userPath_closed live
    have reached_before := before path_live path_eq
    rw [write_entry holds.separate (slot_live _ user) reached path_live reached_before]
    · exact holds.upper short live reached_before
    · rintro ⟨rfl, -⟩
      rw [slot_length] at short
      split at short <;> omega
  · intro other_size other other_user
    by_cases same : other_size = size ∧ other / other_size.bytes = virt / size.bytes
    · obtain ⟨rfl, page_eq⟩ := same
      have slot_eq := (slot_eq_iff other_user user).mpr page_eq
      have kept := walk_write entry holds.separate userPath_closed (slot_live _ user) reached
        (slot_live _ user) (not_prefix_self _ (slot other_size virt).2)
      rw [mapped, slot_eq, kept, reached, AddressSpace.set, if_pos ⟨rfl, page_eq⟩]
      simp [write_same]
    · rw [AddressSpace.set, if_neg same, ← holds.agrees other_size other other_user]
      obtain kept | ⟨rfl, through, cut⟩ :=
        holds.walk_leaf user reached leaf (slot_live other_size other_user)
      · rw [mapped, mapped, kept]
        cases other_reached : walk child tables root (slot other_size other).1 with
        | none => rfl
        | some child_ =>
            simp only [Option.bind_some]
            rw [write_entry holds.separate (slot_live _ user) reached (slot_live _ other_user)
              other_reached]
            rintro ⟨path_eq, index_eq⟩
            have size_eq : other_size = size := by
              have lengths := congrArg List.length path_eq
              rw [slot_length, slot_length] at lengths
              cases other_size <;> cases size <;> simp_all
            subst size_eq
            exact same ⟨rfl, (slot_eq_iff other_user user).mp (Prod.ext path_eq index_eq)⟩
      · -- Only walks to the 4 KiB entries of the same 2 MiB region run through the entry.
        cases other_size with
        | Huge =>
            have length_le := through.length_le
            simp [slot] at length_le
        | Normal =>
            have region := (huge_prefix_iff user other_user).mp through
            have vacant := no_small rfl other other_user region.symm
            rw [holds.agrees .Normal other other_user, mapped, cut]
            simpa [BlockSize.bytes] using vacant.symm

end Write

section Create

variable {tables : Tables} {root : Nat} {space : AddressSpace}

/-- The allocator will hand out at least `count` distinct aligned frames that hold no table. -/
structure Supplies (tables : Tables) (root : Nat) (frames : List Nat) (count : Nat) : Prop where
  /-- Enough frames are left. -/
  enough : count ≤ frames.length
  /-- No frame is handed out twice. -/
  nodup : frames.Nodup
  /-- Frames are page aligned. -/
  aligned : ∀ frame ∈ frames, NORMAL_PAGE_SIZE ∣ frame
  /-- Frames are physical addresses. -/
  small : ∀ frame ∈ frames, frame < 2 ^ 52
  /-- No frame is in use as a table. -/
  unused : ∀ frame ∈ frames, Unused child userPath tables root frame

theorem child_new_table {frame : Nat} (aligned : NORMAL_PAGE_SIZE ∣ frame)
    (small : frame < 2 ^ 52) : child (PageTableEntry.new frame 0x7) = some frame := by
  have addr : (PageTableEntry.new frame 0x7).getAddr = frame := by
    rw [PageTableEntry.getAddr_new (by decide), PageTableEntry.and_mask_of_aligned aligned small]
  have present : (PageTableEntry.new frame 0x7).isPresent = true := by
    rw [PageTableEntry.isPresent_new]
    rfl
  have notHuge : (PageTableEntry.new frame 0x7).isHuge = false := by
    rw [PageTableEntry.isHuge_new]
    rfl
  simp [child, present, notHuge, addr]

@[simp] theorem child_unused : child .unused = none := rfl

@[simp] theorem leafAddr_unused (size : BlockSize) : leafAddr size .unused = none := by
  cases size <;> rfl

theorem leafAddr_of_absent {entry : PageTableEntry} (size : BlockSize)
    (absent : entry.isPresent = false) : leafAddr size entry = none := by
  cases size <;> simp [leafAddr, absent]

theorem leafAddr_huge_of_child {entry : PageTableEntry} {table : Nat}
    (points : child entry = some table) : leafAddr .Huge entry = none := by
  simp only [child, Option.ite_none_right_eq_some, Bool.and_eq_true, Bool.not_eq_true'] at points
  simp [leafAddr, points.1.2]

/-- Creating a table leaves the represented map as it was. -/
theorem Represents.graft (holds : Represents tables root space) {path : List Nat}
    {table index frame : Nat} (live : userPath (path ++ [index]))
    (reached : walk child tables root path = some table)
    (absent : (tables table index).isPresent = false)
    (aligned : NORMAL_PAGE_SIZE ∣ frame) (small : frame < 2 ^ 52)
    (unused : Unused child userPath tables root frame) :
    Represents (write (fill tables frame .unused) table index (.new frame 0x7)) root space := by
  have path_live := userPath_closed live
  have points := child_new_table aligned small
  have vacant : child (tables table index) = none := by simp [child, absent]
  have walks {other : List Nat} (other_live : userPath other) :=
    walk_graft holds.separate userPath_closed path_live reached unused vacant child_unused points
      other_live
  have table_ne : table ≠ frame := fun same => unused path_live (same ▸ reached)
  have short : path.length < 3 := by
    have length_le := live.1
    simp only [List.length_append, List.length_singleton] at length_le
    omega
  -- Tables reached along other paths keep every entry but the one that was written.
  have entries {other : List Nat} {below slot : Nat} (other_live : userPath other)
      (other_eq : walk child tables root other = some below)
      (ne : ¬(other = path ∧ slot = index)) :
      write (fill tables frame .unused) table index (.new frame 0x7) below slot =
        tables below slot := by
    have below_ne : below ≠ frame := fun same => unused other_live (same ▸ other_eq)
    rw [write_other, fill_other below_ne]
    rintro ⟨rfl, rfl⟩
    exact ne ⟨holds.separate other_live path_live other_eq reached, rfl⟩
  refine ⟨holds.separate.graft userPath_closed path_live reached unused vacant child_unused points,
    ?_, ?_⟩
  · intro other below slot other_short slot_live other_eq present
    have other_live := userPath_closed slot_live
    rw [walks other_live] at other_eq
    split at other_eq
    · -- The fresh table holds no present entry.
      obtain rfl : frame = below := Option.some.inj other_eq
      rw [write_other fun both => table_ne both.1.symm, fill_same] at present
      exact absurd present (by simp)
    · by_cases written : other = path ∧ slot = index
      · obtain ⟨rfl, rfl⟩ := written
        obtain rfl : table = below := Option.some.inj (reached.symm.trans other_eq)
        rw [write_same, PageTableEntry.isHuge_new]
        rfl
      · rw [entries other_live other_eq written] at present ⊢
        exact holds.upper other_short slot_live other_eq present
  · intro size virt user
    rw [← holds.agrees size virt user, mapped, mapped, walks (slot_live size user)]
    split
    · next created =>
        have gone : walk child tables root (slot size virt).1 = none := by
          rw [created, walk_snoc, reached]
          exact vacant
        rw [gone, Option.bind_some, write_other fun both => table_ne both.1.symm, fill_same,
          leafAddr_unused]
        rfl
    · cases other_eq : walk child tables root (slot size virt).1 with
      | none => rfl
      | some below =>
          simp only [Option.bind_some]
          by_cases written : (slot size virt).1 = path ∧ (slot size virt).2 = index
          · -- Only a 2 MiB entry sits where a table can hang.
            obtain ⟨path_eq, index_eq⟩ := written
            rw [path_eq, reached] at other_eq
            obtain rfl : table = below := Option.some.inj other_eq
            have isHuge : size = .Huge := by
              have length_eq := congrArg List.length path_eq
              rw [slot_length] at length_eq
              cases size with
              | Huge => rfl
              | Normal =>
                  simp only [if_true] at length_eq
                  omega
            subst isHuge
            rw [index_eq, write_same, leafAddr_huge_of_child points, leafAddr_of_absent _ absent]
          · rw [entries (slot_live size user) other_eq written]

/-- Descending one level reaches the table below, creating it if needed, and keeps the map. -/
theorem getOrCreateNext_spec (state : PagingState) (holds : Represents state.tables root space)
    {path : List Nat} {table index count : Nat} (live : userPath (path ++ [index]))
    (reached : walk child state.tables root path = some table)
    (noHuge : (state.tables table index).isPresent = true →
      (state.tables table index).isHuge = false)
    (supplies : Supplies state.tables root state.frames (count + 1)) :
    ∃ below after, getOrCreateNext state table index = .ok (below, after) ∧
      Represents after.tables root space ∧
      walk child after.tables root (path ++ [index]) = some below ∧
      Supplies after.tables root after.frames count := by
  rw [getOrCreateNext]
  by_cases present : (state.tables table index).isPresent = true
  · simp only [present, if_true]
    refine ⟨_, state, rfl, holds, ?_, ?_⟩
    · rw [walk_snoc, reached]
      simp [child, present, noHuge present]
    · exact { supplies with enough := (Nat.le_succ count).trans supplies.enough }
  · have absent : (state.tables table index).isPresent = false := Bool.eq_false_iff.mpr present
    simp only [absent, Bool.false_eq_true, if_false]
    obtain ⟨enough, nodup, aligned, small, unused⟩ := supplies
    cases frames_eq : state.frames with
    | nil =>
        rw [frames_eq] at enough
        simp at enough
    | cons frame frames =>
        rw [frames_eq] at enough nodup aligned small unused
        have frame_aligned := aligned frame List.mem_cons_self
        have frame_small := small frame List.mem_cons_self
        have frame_unused := unused frame List.mem_cons_self
        have points := child_new_table frame_aligned frame_small
        have walks {other : List Nat} (other_live : userPath other) :=
          walk_graft holds.separate userPath_closed (userPath_closed live) reached frame_unused
            (show child (state.tables table index) = none by simp [child, absent]) child_unused
            points other_live
        refine ⟨_, _, rfl, holds.graft live reached absent frame_aligned frame_small frame_unused,
          ?_, ⟨?_, (List.nodup_cons.mp nodup).2, ?_, ?_, ?_⟩⟩
        · rw [walks live, if_pos rfl, PageTableEntry.getAddr_new (by decide),
            PageTableEntry.and_mask_of_aligned frame_aligned frame_small]
        · simpa using enough
        · exact fun other mem => aligned other (List.mem_cons_of_mem _ mem)
        · exact fun other mem => small other (List.mem_cons_of_mem _ mem)
        · intro other mem path other_live other_eq
          rw [walks other_live] at other_eq
          split at other_eq
          · obtain rfl : frame = other := Option.some.inj other_eq
            exact (List.nodup_cons.mp nodup).1 mem
          · exact unused other (List.mem_cons_of_mem _ mem) other_live other_eq

end Create

section Calls

variable {tables : Tables} {root : Nat} {space : AddressSpace}

/-- Flags a caller may pass: the present bit and no address bits. -/
def ValidFlags (flags : Nat) : Prop := flags.testBit 0 = true ∧ flags &&& ADDR_MASK = 0

/-- The flags stored for a page: 2 MiB pages also carry the page-size bit. -/
def leafFlags (size : BlockSize) (flags : Nat) : Nat :=
  if size = .Huge then flags ||| (1 <<< 7) else flags

theorem leafFlags_valid {flags : Nat} (size : BlockSize) (valid : ValidFlags flags) :
    ValidFlags (leafFlags size flags) := by
  cases size with
  | Normal => exact valid
  | Huge =>
      refine ⟨?_, ?_⟩
      · rw [leafFlags, if_pos rfl, Nat.testBit_or, valid.1]
        rfl
      · rw [leafFlags, if_pos rfl, Nat.and_or_distrib_right, valid.2]
        rfl

theorem isHuge_leaf (phys flags : Nat) :
    (PageTableEntry.new phys (leafFlags .Huge flags)).isHuge = true := by
  rw [PageTableEntry.isHuge_new, leafFlags, if_pos rfl, Nat.testBit_or,
    show (1 <<< 7 : Nat).testBit 7 = true by decide, Bool.or_true]

theorem child_leaf_huge (phys flags : Nat) :
    child (.new phys (leafFlags .Huge flags)) = none := by
  simp [child, isHuge_leaf]

/-- A leaf entry built from valid flags stores its masked address. -/
theorem leafAddr_new {phys flags : Nat} (size : BlockSize) (valid : ValidFlags flags) :
    leafAddr size (.new phys (leafFlags size flags)) = some (phys &&& ADDR_MASK) := by
  obtain ⟨present, no_addr⟩ := leafFlags_valid size valid
  cases size with
  | Normal =>
      rw [leafAddr, PageTableEntry.isPresent_new, present, PageTableEntry.getAddr_new no_addr]
      rfl
  | Huge =>
      rw [leafAddr, PageTableEntry.isPresent_new, present, isHuge_leaf,
        PageTableEntry.getAddr_new no_addr]
      rfl

/-- Rewriting the flags of a stored leaf keeps its address. -/
theorem leafAddr_setFlags {entry : PageTableEntry} {phys flags : Nat} (size : BlockSize)
    (valid : ValidFlags flags) (stored : leafAddr size entry = some phys) :
    leafAddr size (entry.setFlags entry.getAddr (leafFlags size flags)) = some phys := by
  have addr : entry.getAddr = phys := by
    cases size <;> simp_all [leafAddr]
  change leafAddr size (.new entry.getAddr (leafFlags size flags)) = some phys
  rw [leafAddr_new size valid, PageTableEntry.getAddr_and_mask, addr]

theorem isPresent_of_leafAddr {entry : PageTableEntry} {phys : Nat} (size : BlockSize)
    (stored : leafAddr size entry = some phys) : entry.isPresent = true := by
  cases size <;> simp_all [leafAddr]

theorem nextTable_of_child {entry : PageTableEntry} {below : Nat}
    (points : child entry = some below) : nextTable entry = some below := by
  simp only [child, Option.ite_none_right_eq_some, Bool.and_eq_true] at points
  simp [nextTable, points.1.1, points.2]

/-- Where the tree reaches the table of a page, the code's table reads reach it too. -/
theorem Represents.reads_above (holds : Represents tables root space) {virt l2Table : Nat}
    (user : virt < USER_END)
    (reached : walk child tables root (slot .Huge virt).1 = some l2Table) :
    ∃ l3Table, nextTable (tables root (getIdxs virt).l4) = some l3Table ∧
      nextTable (tables l3Table (getIdxs virt).l3) = some l2Table := by
  rw [← holds.walk_two user] at reached
  exact Option.bind_eq_some_iff.mp reached

theorem split_normal {virt l1Table : Nat}
    (reached : walk child tables root (slot .Normal virt).1 = some l1Table) :
    ∃ l2Table, walk child tables root (slot .Huge virt).1 = some l2Table ∧
      child (tables l2Table (getIdxs virt).l2) = some l1Table := by
  have snoc : walk child tables root (slot .Normal virt).1 = _ :=
    walk_snoc root (slot .Huge virt).1 (getIdxs virt).l2
  exact Option.bind_eq_some_iff.mp (snoc.symm.trans reached)

/-- Unmapping writes the cleared entry of a page that the tree reaches. -/
theorem Represents.unmapPage_eq (holds : Represents tables root space) {size : BlockSize}
    {virt table : Nat} (user : virt < USER_END)
    (reached : walk child tables root (slot size virt).1 = some table) :
    PageTable.unmapPage tables root virt size =
      write tables table (slot size virt).2 .unused := by
  cases size with
  | Huge =>
      obtain ⟨l3Table, first, second⟩ := holds.reads_above user reached
      simp [PageTable.unmapPage, first, second, slot]
  | Normal =>
      obtain ⟨l2Table, above, below⟩ := split_normal reached
      obtain ⟨l3Table, first, second⟩ := holds.reads_above user above
      simp [PageTable.unmapPage, first, second, nextTable_of_child below, slot]

/-- Changing flags rewrites the entry of a page that the tree stores. -/
theorem Represents.changeFlags_eq (holds : Represents tables root space) {size : BlockSize}
    {virt table phys : Nat} (newFlags : Nat) (user : virt < USER_END)
    (reached : walk child tables root (slot size virt).1 = some table)
    (stored : leafAddr size (tables table (slot size virt).2) = some phys) :
    PageTable.changeFlags tables root virt newFlags size =
      write tables table (slot size virt).2
        ((tables table (slot size virt).2).setFlags (tables table (slot size virt).2).getAddr
          (leafFlags size newFlags)) := by
  have present := isPresent_of_leafAddr size stored
  cases size with
  | Huge =>
      obtain ⟨l3Table, first, second⟩ := holds.reads_above user reached
      simp only [slot] at present
      simp [PageTable.changeFlags, first, second, slot, present, leafFlags]
  | Normal =>
      obtain ⟨l2Table, above, below⟩ := split_normal reached
      obtain ⟨l3Table, first, second⟩ := holds.reads_above user above
      simp only [slot] at present
      simp [PageTable.changeFlags, first, second, nextTable_of_child below, slot, present,
        leafFlags]

/-- A stored page has its table and its leaf entry. -/
theorem Represents.reached_of_some (holds : Represents tables root space) {size : BlockSize}
    {virt phys : Nat} (user : virt < USER_END)
    (some_eq : space size (virt / size.bytes) = some phys) :
    ∃ table, walk child tables root (slot size virt).1 = some table ∧
      leafAddr size (tables table (slot size virt).2) = some phys := by
  rw [← holds.agrees size virt user, mapped] at some_eq
  exact Option.bind_eq_some_iff.mp some_eq

/-- No 4 KiB page is stored below a stored 2 MiB page. -/
theorem Represents.no_small (holds : Represents tables root space) {virt phys other : Nat}
    (some_eq : space .Huge (virt / HUGE_PAGE_SIZE) = some phys)
    (other_user : other < USER_END)
    (region : other / HUGE_PAGE_SIZE = virt / HUGE_PAGE_SIZE) :
    space .Normal (other / NORMAL_PAGE_SIZE) = none := by
  rw [← region] at some_eq
  obtain ⟨l2Table, above, stored⟩ := holds.reached_of_some other_user some_eq
  have normal := holds.agrees .Normal other other_user
  cases reached : walk child tables root (slot .Normal other).1 with
  | none =>
      rw [mapped, reached] at normal
      exact normal.symm
  | some l1Table =>
      obtain ⟨table, above', below⟩ := split_normal reached
      obtain rfl : l2Table = table := Option.some.inj (above.symm.trans above')
      have huge_none := leafAddr_huge_of_child below
      rw [show (slot .Huge other).2 = (getIdxs other).l2 from rfl, huge_none] at stored
      cases stored

/-- No page of the other size is mapped in the 2 MiB region of an address. -/
def NoOtherSize (space : AddressSpace) (virt : Nat) : BlockSize → Prop
  | .Normal => space .Huge (virt / HUGE_PAGE_SIZE) = none
  | .Huge => ∀ other < USER_END, other / HUGE_PAGE_SIZE = virt / HUGE_PAGE_SIZE →
      space .Normal (other / NORMAL_PAGE_SIZE) = none

/-- Where no 2 MiB page is mapped, the entry at its level holds a table or nothing. -/
theorem Represents.not_huge (holds : Represents tables root space) {virt l2Table : Nat}
    (user : virt < USER_END) (vacant : space .Huge (virt / HUGE_PAGE_SIZE) = none)
    (reached : walk child tables root (slot .Huge virt).1 = some l2Table)
    (present : (tables l2Table (getIdxs virt).l2).isPresent = true) :
    (tables l2Table (getIdxs virt).l2).isHuge = false := by
  have none_eq := holds.agrees .Huge virt user
  rw [show BlockSize.bytes .Huge = HUGE_PAGE_SIZE from rfl, vacant, mapped, reached] at none_eq
  simpa [leafAddr, slot, present] using none_eq

/-- Mapping a page stores its address and nothing else, whatever tables it has to create. -/
theorem mapPage_spec {size : BlockSize} {virt phys flags : Nat} {frames : List Nat}
    (holds : Represents tables root space) (user : virt < USER_END)
    (aligned : NORMAL_PAGE_SIZE ∣ phys) (small : phys < 2 ^ 52) (valid : ValidFlags flags)
    (noOther : NoOtherSize space virt size) (supplies : Supplies tables root frames 3) :
    ∃ after, PageTable.mapPage ⟨tables, frames⟩ root virt phys flags size = .ok after ∧
      Represents after.tables root (space.set size (virt / size.bytes) (some phys)) := by
  have live : userPath ([(getIdxs virt).l4] ++ [(getIdxs virt).l3]) := slot_live .Huge user
  have top : userPath ([] ++ [(getIdxs virt).l4]) := userPath_closed live
  obtain ⟨l3Table, state₁, first_eq, holds₁, reached₁, supplies₁⟩ :=
    getOrCreateNext_spec ⟨tables, frames⟩ holds top rfl
      (holds.upper (by simp) top rfl) supplies
  obtain ⟨l2Table, state₂, second_eq, holds₂, reached₂, supplies₂⟩ :=
    getOrCreateNext_spec state₁ holds₁ live reached₁ (holds₁.upper (by simp) live reached₁)
      supplies₁
  have stored : leafAddr size (.new phys (leafFlags size flags)) = some phys := by
    rw [leafAddr_new size valid, PageTableEntry.and_mask_of_aligned aligned small]
  cases size with
  | Huge =>
      have after := holds₂.write_leaf .Huge _ user reached₂ (fun _ => child_leaf_huge phys flags)
        (fun _ => noOther)
      rw [stored] at after
      refine ⟨⟨_, state₂.frames⟩, ?_, after⟩
      simp only [PageTable.mapPage, first_eq, bind, Except.bind, second_eq]
      rfl
  | Normal =>
      have leaf_live : userPath ([(getIdxs virt).l4, (getIdxs virt).l3] ++ [(getIdxs virt).l2]) :=
        slot_live .Normal user
      obtain ⟨l1Table, state₃, third_eq, holds₃, reached₃, -⟩ :=
        getOrCreateNext_spec state₂ holds₂ leaf_live reached₂
          (holds₂.not_huge user noOther reached₂) supplies₂
      have after := holds₃.write_leaf .Normal (.new phys (leafFlags .Normal flags)) user reached₃
        (by rintro ⟨⟩) (by rintro ⟨⟩)
      rw [stored] at after
      refine ⟨⟨_, state₃.frames⟩, ?_, after⟩
      simp only [PageTable.mapPage, first_eq, bind, Except.bind, second_eq, third_eq]
      rfl

/-- Unmapping a stored page removes it and nothing else. -/
theorem unmapPage_spec {size : BlockSize} {virt phys : Nat} (holds : Represents tables root space)
    (user : virt < USER_END) (some_eq : space size (virt / size.bytes) = some phys) :
    Represents (PageTable.unmapPage tables root virt size) root
      (space.set size (virt / size.bytes) none) := by
  obtain ⟨table, reached, -⟩ := holds.reached_of_some user some_eq
  rw [holds.unmapPage_eq user reached, ← leafAddr_unused size]
  refine holds.write_leaf size _ user reached (fun _ => rfl) ?_
  rintro rfl other other_user region
  exact holds.no_small some_eq other_user region

/-- Changing the flags of a stored page keeps the map. -/
theorem changeFlags_spec {size : BlockSize} {virt phys flags : Nat}
    (holds : Represents tables root space) (user : virt < USER_END) (valid : ValidFlags flags)
    (some_eq : space size (virt / size.bytes) = some phys) :
    Represents (PageTable.changeFlags tables root virt flags size) root space := by
  obtain ⟨table, reached, stored⟩ := holds.reached_of_some user some_eq
  rw [holds.changeFlags_eq flags user reached stored]
  have kept := leafAddr_setFlags size valid stored
  rw [← AddressSpace.set_same some_eq, ← kept]
  refine holds.write_leaf size _ user reached ?_ ?_
  · rintro rfl
    exact child_leaf_huge _ flags
  · rintro rfl other other_user region
    exact holds.no_small some_eq other_user region

end Calls

end UserTree

namespace Pager

open RadixTree UserTree

/-- A call to the pager; `frames` are the frames the allocator returns during it. -/
inductive Call
  | mapPage (size : BlockSize) (virt phys flags : Nat) (frames : List Nat)
  | unmapPage (size : BlockSize) (virt : Nat)
  | changeFlags (size : BlockSize) (virt flags : Nat)

/-- The page a call is about. -/
def Call.page : Call → BlockSize × Nat
  | .mapPage size virt .. | .unmapPage size virt | .changeFlags size virt _ =>
      (size, virt / size.bytes)

/-- What a call does to the map of pages: the latest mapping of a page counts until unmapped. -/
def record (space : AddressSpace) : Call → AddressSpace
  | .mapPage size virt phys _ _ => space.set size (virt / size.bytes) (some phys)
  | .unmapPage size virt => space.set size (virt / size.bytes) none
  | .changeFlags .. => space

/-- The page tables below one root, and the map of pages the calls so far amount to. -/
structure Paged where
  /-- Page tables in memory. -/
  tables : Tables
  /-- Pages mapped and not since unmapped. -/
  space : AddressSpace

/-- The page tables after one call. -/
def perform (root : Nat) (tables : Tables) : Call → Kernel Tables
  | .mapPage size virt phys flags frames =>
      (mapPage ⟨tables, frames⟩ root virt phys flags size).map PagingState.tables
  | .unmapPage size virt => unmapPage tables root virt size
  | .changeFlags size virt flags => changeFlags tables root virt flags size

/-- Serve one call. -/
def serve (root : Nat) (state : Paged) (call : Call) : Kernel Paged :=
  (perform root state.tables call).map fun tables => ⟨tables, record state.space call⟩

/-- Calls are made on aligned user addresses; only mapped pages are unmapped or changed. -/
def Permitted (root : Nat) (state : Paged) : Call → Prop
  | .mapPage size virt phys flags frames =>
      virt < USER_END ∧ size.bytes ∣ virt ∧ size.bytes ∣ phys ∧ phys < 2 ^ 52 ∧
        ValidFlags flags ∧ NoOtherSize state.space virt size ∧
        Supplies state.tables root frames 3
  | .unmapPage size virt =>
      virt < USER_END ∧ size.bytes ∣ virt ∧ (state.space size (virt / size.bytes)).isSome
  | .changeFlags size virt flags =>
      virt < USER_END ∧ size.bytes ∣ virt ∧ ValidFlags flags ∧
        (state.space size (virt / size.bytes)).isSome

/-- The pager of one address space serving calls. -/
def service (root : Nat) : Machine Paged Call Panic := ⟨serve root, Permitted root⟩

theorem service_step (root : Nat) : (service root).step = serve root := rfl

theorem bytes_dvd (size : BlockSize) : NORMAL_PAGE_SIZE ∣ size.bytes := by
  cases size <;> decide

theorem assertVirt_ok {virt : Nat} {size : BlockSize} (aligned : size.bytes ∣ virt) :
    assertVirt virt size = .ok () := by
  cases size with
  | Normal => exact if_pos ((getOffset_eq virt).trans (Nat.mod_eq_zero_of_dvd aligned))
  | Huge => exact if_pos ((getHugeOffset_eq virt).trans (Nat.mod_eq_zero_of_dvd aligned))

theorem dvd_of_assertVirt {virt : Nat} {size : BlockSize}
    (assert_eq : assertVirt virt size = .ok ()) : size.bytes ∣ virt := by
  cases size with
  | Normal =>
      rw [assertVirt] at assert_eq
      split at assert_eq
      next offset => exact Nat.dvd_of_mod_eq_zero ((getOffset_eq virt).symm.trans offset)
      next => cases assert_eq
  | Huge =>
      rw [assertVirt] at assert_eq
      split at assert_eq
      next offset => exact Nat.dvd_of_mod_eq_zero ((getHugeOffset_eq virt).symm.trans offset)
      next => cases assert_eq

theorem assertPhys_ok {phys : Nat} {size : BlockSize} (aligned : size.bytes ∣ phys) :
    assertPhys phys size = .ok () := by
  cases size with
  | Normal => exact if_pos ((getOffset_eq phys).trans (Nat.mod_eq_zero_of_dvd aligned))
  | Huge => exact if_pos ((getHugeOffset_eq phys).trans (Nat.mod_eq_zero_of_dvd aligned))

/-- Every permitted call succeeds and keeps the tables representing the recorded map. -/
theorem serve_represents {root : Nat} {state : Paged} {call : Call}
    (holds : Represents state.tables root state.space) (permitted : Permitted root state call) :
    ∃ next, serve root state call = .ok next ∧ next.space = record state.space call ∧
      Represents next.tables root next.space := by
  cases call with
  | mapPage size virt phys flags frames =>
      obtain ⟨user, virt_aligned, phys_aligned, small, valid, noOther, supplies⟩ := permitted
      obtain ⟨after, map_eq, after_holds⟩ := mapPage_spec holds user
        ((bytes_dvd size).trans phys_aligned) small valid noOther supplies
      refine ⟨⟨after.tables, _⟩, ?_, rfl, after_holds⟩
      simp only [serve, perform, mapPage, assertPhys_ok phys_aligned, assertVirt_ok virt_aligned,
        map_eq]
      rfl
  | unmapPage size virt =>
      obtain ⟨user, virt_aligned, mapped_page⟩ := permitted
      obtain ⟨phys, some_eq⟩ := Option.isSome_iff_exists.mp mapped_page
      refine ⟨⟨_, _⟩, ?_, rfl, unmapPage_spec holds user some_eq⟩
      simp only [serve, perform, unmapPage, assertVirt_ok virt_aligned]
      rfl
  | changeFlags size virt flags =>
      obtain ⟨user, virt_aligned, valid, mapped_page⟩ := permitted
      obtain ⟨phys, some_eq⟩ := Option.isSome_iff_exists.mp mapped_page
      refine ⟨⟨PageTable.changeFlags state.tables root virt flags size, state.space⟩, ?_, rfl,
        changeFlags_spec holds user valid some_eq⟩
      simp only [serve, perform, changeFlags, assertVirt_ok virt_aligned]
      rfl

theorem serve_space {root : Nat} {state next : Paged} {call : Call}
    (step_eq : serve root state call = .ok next) : next.space = record state.space call := by
  rw [serve] at step_eq
  cases perform_eq : perform root state.tables call with
  | error panic =>
      rw [perform_eq] at step_eq
      cases step_eq
  | ok tables =>
      rw [perform_eq] at step_eq
      cases step_eq
      rfl

theorem run_space {root : Nat} {state final : Paged} {calls : List Call}
    (run_eq : (service root).run state calls = .ok final) :
    final.space = calls.foldl record state.space := by
  induction calls generalizing state with
  | nil =>
      obtain rfl : state = final := by simpa using run_eq
      rfl
  | cons call calls ih =>
      obtain ⟨next, step_eq, rest_eq⟩ := (service root).run_cons_eq_ok run_eq
      rw [ih rest_eq, serve_space step_eq, List.foldl_cons]

theorem walk_of_empty {tables : Tables} {root : Nat} {path : List Nat}
    (empty : ∀ index < 256, (tables root index).isPresent = false) (live : userPath path)
    (nonempty : path ≠ []) : walk child tables root path = none := by
  cases path with
  | nil => exact absurd rfl nonempty
  | cons index path =>
      have absent := empty index (live.2 index rfl)
      simp [walk, child, absent]

/-- An empty user half represents the map without pages. -/
theorem represents_empty {tables : Tables} {root : Nat}
    (empty : ∀ index < 256, (tables root index).isPresent = false) :
    Represents tables root fun _ _ => none := by
  have gone {path : List Nat} := @walk_of_empty tables root path empty
  refine ⟨?_, ?_, ?_⟩
  · intro left right table left_live right_live left_eq right_eq
    have left_nil : left = [] := by
      by_contra nonempty
      rw [gone left_live nonempty] at left_eq
      cases left_eq
    have right_nil : right = [] := by
      by_contra nonempty
      rw [gone right_live nonempty] at right_eq
      cases right_eq
    rw [left_nil, right_nil]
  · intro path table index short live path_eq present
    cases path with
    | nil =>
        obtain rfl : root = table := Option.some.inj path_eq
        rw [empty index (live.2 index rfl)] at present
        cases present
    | cons first path =>
        rw [gone (userPath_closed live) (by simp)] at path_eq
        cases path_eq
  · intro size virt user
    have nonempty : (slot size virt).1 ≠ [] := by cases size <;> simp [slot]
    rw [mapped, gone (slot_live size user) nonempty]
    rfl

/-- Where the tables represent a map, `translate` finds exactly the mapped pages. -/
theorem translate_iff {tables : Tables} {root : Nat} {space : AddressSpace}
    (holds : Represents tables root space) {virt : Nat} (user : virt < USER_END) (addr : Nat) :
    translate tables root virt = some addr ↔
      ∃ size phys, space size (virt / size.bytes) = some phys ∧
        addr = phys + virt % size.bytes := by
  rw [translate, holds.translate_eq user, AddressSpace.translate]
  cases huge : space .Huge (virt / HUGE_PAGE_SIZE) with
  | some phys =>
      have no_small := holds.no_small huge user rfl
      constructor
      · intro found
        exact ⟨.Huge, phys, huge, (Option.some.inj found).symm⟩
      · rintro ⟨size, other, stored, rfl⟩
        cases size with
        | Huge =>
            obtain rfl : phys = other := Option.some.inj (huge.symm.trans stored)
            rfl
        | Normal =>
            rw [show BlockSize.bytes .Normal = NORMAL_PAGE_SIZE from rfl, no_small] at stored
            cases stored
  | none =>
      constructor
      · intro found
        obtain ⟨phys, stored, addr_eq⟩ := Option.map_eq_some_iff.mp found
        exact ⟨.Normal, phys, stored, addr_eq.symm⟩
      · rintro ⟨size, phys, stored, rfl⟩
        cases size with
        | Huge =>
            rw [show BlockSize.bytes .Huge = HUGE_PAGE_SIZE from rfl, huge] at stored
            cases stored
        | Normal => exact Option.map_eq_some_iff.mpr ⟨phys, stored, rfl⟩

/-- A call changes the map at its own page only. -/
theorem record_translate (space : AddressSpace) (call : Call) {virt : Nat}
    (outside : virt / call.page.1.bytes ≠ call.page.2) :
    (record space call).translate virt = space.translate virt := by
  have set_translate (size : BlockSize) (page : Nat) (phys : Option Nat)
      (other : virt / size.bytes ≠ page) :
      (space.set size page phys).translate virt = space.translate virt := by
    cases size with
    | Normal =>
        have ne : virt / NORMAL_PAGE_SIZE ≠ page := other
        simp [AddressSpace.translate, AddressSpace.set, ne]
    | Huge =>
        have ne : virt / HUGE_PAGE_SIZE ≠ page := other
        simp [AddressSpace.translate, AddressSpace.set, ne]
  cases call with
  | mapPage size target phys flags frames => exact set_translate size _ _ outside
  | unmapPage size target => exact set_translate size _ _ outside
  | changeFlags size target flags => rfl

/-- From an empty user half on, every run of permitted calls succeeds, `translate` finds exactly
the pages mapped last and not since unmapped, and a further call leaves every translation outside
its page, or with `change_flags` every translation, as it was. -/
theorem pager_refines {tables : Tables} {root : Nat}
    (empty : ∀ index < 256, (tables root index).isPresent = false) (calls : List Call)
    (permits : (service root).Permits ⟨tables, fun _ _ => none⟩ calls) :
    ∃ final, (service root).run ⟨tables, fun _ _ => none⟩ calls = .ok final ∧
      (∀ virt < USER_END, ∀ addr, translate final.tables root virt = some addr ↔
        ∃ size phys, calls.foldl record (fun _ _ => none) size (virt / size.bytes) = some phys ∧
          addr = phys + virt % size.bytes) ∧
      ∀ call, Permitted root final call → ∃ next, serve root final call = .ok next ∧
        (∀ virt < USER_END, virt / call.page.1.bytes ≠ call.page.2 →
          translate next.tables root virt = translate final.tables root virt) ∧
        ∀ size target flags, call = .changeFlags size target flags → ∀ virt < USER_END,
          translate next.tables root virt = translate final.tables root virt := by
  have keeps (state : Paged) (call : Call) (holds : Represents state.tables root state.space)
      (permitted : Permitted root state call) : ∃ next, serve root state call = .ok next ∧
        Represents next.tables root next.space := by
    obtain ⟨next, step_eq, -, next_holds⟩ := serve_represents holds permitted
    exact ⟨next, step_eq, next_holds⟩
  obtain ⟨final, run_eq, holds⟩ := (service root).run_ok keeps (represents_empty empty) permits
  have space_eq := run_space run_eq
  refine ⟨final, run_eq, ?_, ?_⟩
  · intro virt user addr
    rw [translate_iff holds user, space_eq]
  · intro call permitted
    obtain ⟨next, step_eq, next_space, next_holds⟩ := serve_represents holds permitted
    refine ⟨next, step_eq, ?_, ?_⟩
    · intro virt user outside
      rw [translate, translate, next_holds.translate_eq user, holds.translate_eq user, next_space,
        record_translate final.space call outside]
    · rintro size target flags rfl virt user
      rw [translate, translate, next_holds.translate_eq user, holds.translate_eq user, next_space]
      rfl

/-- One page is mapped below an empty root and its flags are changed. -/
theorem pager_refines_one_page :
    ∃ final, (service 0x1000).run ⟨fun _ _ => .unused, fun _ _ => none⟩
        [.mapPage .Normal 0x2000 0x5000 0x3 [0x6000, 0x7000, 0x8000],
          .changeFlags .Normal 0x2000 0x1] = .ok final ∧
      translate final.tables 0x1000 0x2345 = some 0x5345 := by
  have empty : ∀ index < 256, ((fun _ _ => .unused : Tables) 0x1000 index).isPresent = false :=
    fun _ _ => PageTableEntry.isPresent_unused
  have supplies : Supplies (fun _ _ => .unused) 0x1000 [0x6000, 0x7000, 0x8000] 3 := by
    refine ⟨by decide, by decide, by decide, by decide, ?_⟩
    intro frame mem path live reached
    by_cases nonempty : path = []
    · subst nonempty
      obtain rfl : 0x1000 = frame := Option.some.inj reached
      exact absurd mem (by decide)
    · rw [walk_of_empty empty live nonempty] at reached
      cases reached
  have permits : (service 0x1000).Permits ⟨fun _ _ => .unused, fun _ _ => none⟩
      [.mapPage .Normal 0x2000 0x5000 0x3 [0x6000, 0x7000, 0x8000],
        .changeFlags .Normal 0x2000 0x1] := by
    refine ⟨⟨by decide, by decide, by decide, by decide, ⟨rfl, rfl⟩, rfl, supplies⟩, ?_⟩
    intro next step_eq
    rw [service_step] at step_eq
    refine ⟨⟨by decide, by decide, ⟨rfl, rfl⟩, ?_⟩, fun _ _ => trivial⟩
    rw [serve_space step_eq]
    rfl
  obtain ⟨final, run_eq, found, -⟩ := pager_refines empty _ permits
  exact ⟨final, run_eq, (found 0x2345 (by decide) 0x5345).mpr ⟨.Normal, 0x5000, rfl, rfl⟩⟩

end Pager
end Vespertine
