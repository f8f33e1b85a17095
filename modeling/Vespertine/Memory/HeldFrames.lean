import Mathlib.Data.List.Pairwise
import Vespertine.Memory.ExactUnmap
import Vespertine.Memory.PagePath

/-!
# Frames of an address space

An address space takes frames from the page allocators for its root table, for the tables that page
faults create and for anonymous pages, and `munmap` gives those of an anonymous area back.  `Space`
carries a ledger of the frames that were taken and not given back, beside the frames that belong to
memory objects; `Owned` says that the ledger holds each table of the user half and each anonymous
page once and nothing else, whatever was mapped, touched and unmapped before.
-/

namespace Vespertine

open UserTree

/-- `init_process_pager`: a cleared root table with the kernel half of the current one. -/
def Pager.initProcessPager (state : PagingState) (cr3 : Nat) : Option (Nat × PagingState) :=
  match state.frames with
  | [] => none
  | frame :: frames =>
      let cleared := RadixTree.fill state.tables frame .unused
      let old := cr3 &&& ADDR_MASK
      let tables := (List.range' 256 256).foldl
        (fun tables idx => RadixTree.write tables frame idx (tables old idx)) cleared
      some (frame, ⟨tables, frames⟩)

namespace VirtMemManager

/-- `VirtMemManager::new`. -/
def create (nodes : Nat → VmaNode) (state : PagingState) (cr3 : Nat) : Kernel VirtMemManager :=
  match Pager.initProcessPager state cr3 with
  | some (l4Addr, state) => .ok (new nodes l4Addr state.tables)
  | none => .error .unwrapNone

/-- `handle_page_fault`, with the frames that it takes from the page allocator. -/
def takeFault (vmm : VirtMemManager) (env : FaultEnv) (addr errorCode : Nat) :
    Kernel (List Nat × VirtMemManager) := do
  match ← vmm.containsLoop addr vmm.live.length vmm.head with
  | none => return ([], vmm)
  | some ptr =>
      let node := vmm.nodes ptr
      if errorCode &&& (1 <<< 1) ≠ 0 ∧ node.flags &&& VM_FLAG_WRITE = 0 then
        return ([], vmm)
      else
        let faultPage := andNot addr (pageMask node.flags)
        let offsetInVma := wrappingSub faultPage node.start
        let vmoOffset := wrappingAdd offsetInVma node.vmoOffset
        let frame := match node.backingVmo with
          | some vmo => env.requestPage vmo vmoOffset
          | none => some env.frame
        match frame with
        | none => return ([], vmm)
        | some phys =>
            let state ← Pager.mapPage ⟨vmm.tables, env.frames⟩ vmm.l4Addr faultPage phys
              (convertVmFlags node.flags) (blockSize node.flags)
            let tableFrames := env.frames.take (env.frames.length - state.frames.length)
            return (if node.backingVmo.isNone then env.frame :: tableFrames else tableFrames,
              { vmm with
                tables := state.tables
                effects := vmm.effects ++
                  [.mapPage faultPage phys (blockSize node.flags), .flushTlb addr] })

/-- The frames that the effects of a call give back. -/
def returned (before after : VirtMemManager) : List Nat :=
  ((after.effects.drop before.effects.length).filterMap Effect.freed).map Prod.fst

end VirtMemManager

/-- An address space, the frames it has taken and not given back, and the frames that belong to
memory objects. -/
structure Space where
  vmm : VirtMemManager
  held : List Nat
  objects : Set Nat

namespace Space

/-- What happens to an address space. -/
inductive Event
  | mmap (size flags nodePtr : Nat)
  | mmapVmo (size flags vmo nodePtr : Nat)
  | mmapVmoAt (startAddr size flags vmo nodePtr : Nat)
  | munmap (startAddr size : Nat)
  | pageFault (env : VirtMemManager.FaultEnv) (addr errorCode : Nat)
  /-- Memory objects take and give back frames. -/
  | objects (frames : Set Nat)

/-- The address space after an event. -/
def react (space : Space) : Event → Kernel Space
  | .mmap size flags nodePtr => do
      let (_, vmm) ← space.vmm.mmap size flags nodePtr
      return { space with vmm }
  | .mmapVmo size flags vmo nodePtr => do
      let (_, vmm) ← space.vmm.mmapVmo size flags vmo nodePtr
      return { space with vmm }
  | .mmapVmoAt startAddr size flags vmo nodePtr => do
      let (_, vmm) ← space.vmm.mmapVmoAt startAddr size flags vmo nodePtr
      return { space with vmm }
  | .munmap startAddr size => do
      let (_, vmm) ← space.vmm.munmap startAddr size
      return { space with vmm, held := space.held.diff (space.vmm.returned vmm) }
  | .pageFault env addr errorCode => do
      let (taken, vmm) ← space.vmm.takeFault env addr errorCode
      return { space with vmm, held := taken ++ space.held }
  | .objects objects => .ok { space with objects }

/-- No part of the kernel uses the frame. -/
def Unused (space : Space) (frame : Nat) : Prop :=
  frame ∉ space.held ∧ frame ∉ space.objects ∧
    ¬KernelTable space.vmm.tables space.vmm.l4Addr frame

/-- The frames that the page allocator hands out next. -/
structure Supply (space : Space) (frames : List Nat) : Prop where
  nodup : frames.Nodup
  aligned : ∀ frame ∈ frames, NORMAL_PAGE_SIZE ∣ frame
  small : ∀ frame ∈ frames, frame < 2 ^ 52
  unused : ∀ frame ∈ frames, space.Unused frame

/-- The frame is that of a page, in an area that is backed by a memory object or not. -/
def Mapped (vmm : VirtMemManager) (anonymous : Bool) (addr frame : Nat) : Prop :=
  ∃ ptr ∈ vmm.live, (vmm.nodes ptr).backingVmo.isNone = anonymous ∧
    (vmm.nodes ptr).start ≤ addr ∧ addr < VirtMemManager.endOf (vmm.nodes ptr) ∧
    NORMAL_PAGE_SIZE ∣ addr ∧ Pager.translate vmm.tables vmm.l4Addr addr = some frame

/-- Areas have small pages and lie in the lower half, a page is faulted in at most once while it is
mapped, and frames are handed out to one owner. -/
def Permitted (space : Space) : Event → Prop
  | .mmap size flags nodePtr =>
      blockSize flags = .Normal ∧ nodePtr ∉ space.vmm.live ∧
        ∀ start next, space.vmm.mmap size flags nodePtr = .ok (some start, next) →
          start + alignUp size ≤ USER_END
  | .mmapVmo size flags vmo nodePtr =>
      blockSize flags = .Normal ∧ nodePtr ∉ space.vmm.live ∧
        ∀ start next, space.vmm.mmapVmo size flags vmo nodePtr = .ok (some start, next) →
          start + alignUp size ≤ USER_END
  | .mmapVmoAt startAddr size flags vmo nodePtr =>
      blockSize flags = .Normal ∧ nodePtr ∉ space.vmm.live ∧ NORMAL_PAGE_SIZE ∣ startAddr ∧
        ∀ start next, space.vmm.mmapVmoAt startAddr size flags vmo nodePtr =
          .ok (some start, next) → start + alignUp size ≤ USER_END
  | .munmap _ _ => True
  | .pageFault env addr errorCode =>
      space.Supply (env.frame :: env.frames) ∧
        (∀ vmo offset frame, env.requestPage vmo offset = some frame →
          frame ∈ space.objects ∧ frame < 2 ^ 52) ∧
        ∀ next, space.vmm.handlePageFault env addr errorCode = .ok (.ok (), next) →
          Pager.translate space.vmm.tables space.vmm.l4Addr addr = none
  | .objects frames =>
      (∀ frame ∈ frames, frame ∈ space.objects ∨ space.Unused frame) ∧
        ∀ addr frame, Mapped space.vmm false addr frame → frame ∈ frames

/-- An address space under its events. -/
def life : Machine Space Event Panic := ⟨react, Permitted⟩

/-! ## The ledger -/

open VirtMemManager (AreaList Opening endOf content)

/-- An area of small pages in the lower half. -/
structure LowArea (node : VmaNode) : Prop where
  small : blockSize node.flags = .Normal
  start_page : NORMAL_PAGE_SIZE ∣ node.start
  size_page : NORMAL_PAGE_SIZE ∣ node.size
  below : endOf node ≤ USER_END

/-- The page lies in the area. -/
def Covers (node : VmaNode) (page : Nat) : Prop :=
  node.start ≤ page * NORMAL_PAGE_SIZE ∧ page * NORMAL_PAGE_SIZE < endOf node

/-- A page that is present, in an area that is backed by a memory object or not. -/
def Present (nodes : Nat → VmaNode) (vmas : List Nat) (pages : AddressSpace) (anonymous : Bool)
    (page frame : Nat) : Prop :=
  ∃ ptr ∈ vmas, (nodes ptr).backingVmo.isNone = anonymous ∧ Covers (nodes ptr) page ∧
    pages .Normal page = some frame

/-- The ledger of an address space is right. -/
structure Owned (space : Space) (vmas : List Nat) (pages : AddressSpace) : Prop where
  list : AreaList space.vmm vmas
  areas : ∀ ptr ∈ vmas, LowArea (space.vmm.nodes ptr)
  represents : Represents space.vmm.tables space.vmm.l4Addr pages
  indexed : Indexed space.vmm.tables space.vmm.l4Addr
  noHuge : ∀ page, pages .Huge page = none
  /-- Every page lies in an area. -/
  inside : ∀ page frame, pages .Normal page = some frame →
    ∃ ptr ∈ vmas, Covers (space.vmm.nodes ptr) page
  /-- Pages of memory objects have frames of memory objects. -/
  backed : ∀ page frame, Present space.vmm.nodes vmas pages false page frame →
    frame ∈ space.objects
  /-- No two anonymous pages share a frame. -/
  once : ∀ left right frame, Present space.vmm.nodes vmas pages true left frame →
    Present space.vmm.nodes vmas pages true right frame → left = right
  /-- No frame is an anonymous page and a table. -/
  apart : ∀ page frame, Present space.vmm.nodes vmas pages true page frame →
    ¬UserTable space.vmm.tables space.vmm.l4Addr frame
  nodup : space.held.Nodup
  /-- The ledger holds the tables and the anonymous pages. -/
  held_iff : ∀ frame, frame ∈ space.held ↔
    UserTable space.vmm.tables space.vmm.l4Addr frame ∨
      ∃ page, Present space.vmm.nodes vmas pages true page frame
  /-- It holds no frame of a memory object or of the kernel half. -/
  foreign : ∀ frame ∈ space.held, frame ∉ space.objects ∧
    ¬KernelTable space.vmm.tables space.vmm.l4Addr frame

section Areas

variable {vmm : VirtMemManager} {vmas : List Nat} {pages : AddressSpace}

/-- Areas are disjoint, so a page lies in one of them at most. -/
theorem eq_of_covers (list : AreaList vmm vmas) {left right page : Nat} (left_mem : left ∈ vmas)
    (right_mem : right ∈ vmas) (in_left : Covers (vmm.nodes left) page)
    (in_right : Covers (vmm.nodes right) page) : left = right := by
  by_contra ne
  have symmetric : Std.Symm fun one other => endOf (vmm.nodes one) ≤ (vmm.nodes other).start ∨
      endOf (vmm.nodes other) ≤ (vmm.nodes one).start := ⟨fun _ _ => Or.symm⟩
  have apart : vmas.Pairwise fun one other => endOf (vmm.nodes one) ≤ (vmm.nodes other).start ∨
      endOf (vmm.nodes other) ≤ (vmm.nodes one).start := list.ordered.imp .inl
  have order := apart.forall left_mem right_mem ne
  obtain ⟨left_ge, left_lt⟩ := in_left
  obtain ⟨right_ge, right_lt⟩ := in_right
  omega

theorem covers_congr {node other : VmaNode} (same : content other = content node) {page : Nat} :
    Covers other page ↔ Covers node page := by
  rw [Covers, Covers, VirtMemManager.start_of_content same, VirtMemManager.endOf_of_content same]

/-- Presence depends on the contents of the nodes only. -/
theorem present_congr {nodes nodes' : Nat → VmaNode} {anonymous : Bool} {page frame : Nat}
    (same : ∀ ptr ∈ vmas, content (nodes' ptr) = content (nodes ptr)) :
    Present nodes' vmas pages anonymous page frame ↔
      Present nodes vmas pages anonymous page frame := by
  refine exists_congr fun ptr => and_congr_right fun mem => ?_
  rw [VirtMemManager.backing_of_content (same ptr mem), covers_congr (same ptr mem)]

theorem LowArea.congr {node other : VmaNode} (low : LowArea node)
    (same : content other = content node) : LowArea other := by
  refine ⟨?_, ?_, ?_, ?_⟩
  · rw [VirtMemManager.flags_of_content same]
    exact low.small
  · rw [VirtMemManager.start_of_content same]
    exact low.start_page
  · rw [VirtMemManager.size_of_content same]
    exact low.size_page
  · rw [VirtMemManager.endOf_of_content same]
    exact low.below

/-- A page of an area of the lower half. -/
theorem LowArea.page_lt {node : VmaNode} (low : LowArea node) {page : Nat}
    (covers : Covers node page) : page * NORMAL_PAGE_SIZE < USER_END :=
  covers.2.trans_le low.below

end Areas

/-! ## Placing an area -/

section Placing

variable {space : Space} {front back vmas : List Nat} {pages : AddressSpace}

/-- A new area is placed where no page is. -/
theorem Owned.place (owned : Owned space (front ++ back) pages) {nodePtr : Nat} {node : VmaNode}
    (fresh : nodePtr ∉ space.vmm.live)
    (opening : Opening space.vmm node.size ⟨node.start, node.prev, node.next⟩ front back)
    (low : LowArea node) :
    Owned { space with vmm := space.vmm.insertNode nodePtr node } (front ++ nodePtr :: back)
      pages := by
  have top : USER_END + 2 ^ 21 ≤ wordSize := by decide
  have list := owned.list.insertNode fresh opening.prev_eq opening.next_eq opening.before
    opening.after ((Nat.add_le_add_right low.below _).trans top)
  have unlisted : nodePtr ∉ front ++ back := fun mem => fresh (owned.list.heap.mem_iff.mp mem)
  obtain ⟨tables_eq, l4_eq⟩ := VirtMemManager.insertNode_tables space.vmm nodePtr node
  have own : content ((space.vmm.insertNode nodePtr node).nodes nodePtr) = content node := by
    rw [VirtMemManager.insertNode_content, Function.update_self]
  have others (ptr : Nat) (mem : ptr ∈ front ++ back) :
      content ((space.vmm.insertNode nodePtr node).nodes ptr) =
        content (space.vmm.nodes ptr) := by
    have ne : ptr ≠ nodePtr := fun same => unlisted (same ▸ mem)
    rw [VirtMemManager.insertNode_content, Function.update_of_ne ne]
  have listed (ptr : Nat) : ptr ∈ front ++ nodePtr :: back ↔ ptr = nodePtr ∨ ptr ∈ front ++ back :=
    List.perm_middle.mem_iff.trans List.mem_cons
  -- A page of the new area would lie in an old one, too.
  have present_iff (anonymous : Bool) (page frame : Nat) :
      Present (space.vmm.insertNode nodePtr node).nodes (front ++ nodePtr :: back) pages anonymous
          page frame ↔
        Present space.vmm.nodes (front ++ back) pages anonymous page frame := by
    rw [← present_congr others]
    constructor
    · rintro ⟨ptr, mem, backing_eq, covers, page_eq⟩
      obtain ⟨other, other_mem, other_covers⟩ := owned.inside page frame page_eq
      have old : Covers ((space.vmm.insertNode nodePtr node).nodes other) page :=
        (covers_congr (others other other_mem)).mpr other_covers
      obtain rfl := eq_of_covers list mem ((listed other).mpr (.inr other_mem)) covers old
      exact ⟨ptr, other_mem, backing_eq, covers, page_eq⟩
    · rintro ⟨ptr, mem, rest⟩
      exact ⟨ptr, (listed ptr).mpr (.inr mem), rest⟩
  refine ⟨list, fun ptr mem => ?_, ?_, ?_, owned.noHuge, fun page frame page_eq => ?_,
    fun page frame present => ?_, fun left right frame in_left in_right => ?_,
    fun page frame present => ?_, owned.nodup, fun frame => ?_, fun frame mem => ?_⟩
  · rcases (listed ptr).mp mem with rfl | old
    · exact low.congr own
    · exact (owned.areas ptr old).congr (others ptr old)
  · rw [tables_eq, l4_eq]
    exact owned.represents
  · rw [tables_eq, l4_eq]
    exact owned.indexed
  · obtain ⟨ptr, mem, covers⟩ := owned.inside page frame page_eq
    exact ⟨ptr, (listed ptr).mpr (.inr mem), (covers_congr (others ptr mem)).mpr covers⟩
  · exact owned.backed page frame ((present_iff false page frame).mp present)
  · exact owned.once left right frame ((present_iff true left frame).mp in_left)
      ((present_iff true right frame).mp in_right)
  · rw [tables_eq, l4_eq]
    exact owned.apart page frame ((present_iff true page frame).mp present)
  · rw [tables_eq, l4_eq, owned.held_iff]
    exact or_congr_right (exists_congr fun page => (present_iff true page frame).symm)
  · rw [tables_eq, l4_eq]
    exact owned.foreign frame mem

theorem pageMask_small {flags : Nat} (small : blockSize flags = .Normal) :
    pageMask flags = 0xFFF := by
  rw [pageMask_eq, small]
  rfl

theorem dvd_alignUp (size : Nat) : NORMAL_PAGE_SIZE ∣ alignUp size := by
  rw [alignUp, roundUp, show (0xFFF : Nat) = BlockSize.Normal.bytes - 1 from rfl,
    andNot_bytes]
  exact Nat.dvd_mul_left _ _

/-- `mmap_internal` in the lower half. -/
theorem Owned.mmapInternal (owned : Owned space vmas pages) {size flags vmoOffset nodePtr : Nat}
    {backingVmo result : Option Nat} {next : VirtMemManager}
    (small : blockSize flags = .Normal) (fresh : nodePtr ∉ space.vmm.live)
    (below : ∀ start next, space.vmm.mmapInternal size flags backingVmo vmoOffset nodePtr =
      .ok (some start, next) → start + alignUp size ≤ USER_END)
    (call_eq : space.vmm.mmapInternal size flags backingVmo vmoOffset nodePtr =
      .ok (result, next)) :
    ∃ vmas', Owned { space with vmm := next } vmas' pages := by
  rcases owned.list.mmapInternal size flags backingVmo vmoOffset nodePtr with
    none_eq | ⟨gap, front, back, rfl, opening, aligned, some_eq⟩
  · cases none_eq.symm.trans call_eq
    exact ⟨vmas, owned⟩
  · have fits := below _ _ some_eq
    rw [pageMask_small small] at opening some_eq
    cases some_eq.symm.trans call_eq
    refine ⟨_, owned.place fresh opening ⟨small, ?_, dvd_alignUp size, fits⟩⟩
    rwa [small] at aligned

/-- `mmap_vmo_at` in the lower half. -/
theorem Owned.mmapVmoAt (owned : Owned space vmas pages) {startAddr size flags vmo nodePtr : Nat}
    {result : Option Nat} {next : VirtMemManager}
    (small : blockSize flags = .Normal) (fresh : nodePtr ∉ space.vmm.live)
    (aligned : NORMAL_PAGE_SIZE ∣ startAddr)
    (below : ∀ start next, space.vmm.mmapVmoAt startAddr size flags vmo nodePtr =
      .ok (some start, next) → start + alignUp size ≤ USER_END)
    (call_eq : space.vmm.mmapVmoAt startAddr size flags vmo nodePtr = .ok (result, next)) :
    ∃ vmas', Owned { space with vmm := next } vmas' pages := by
  have top : USER_END < wordSize := by decide
  rcases owned.list.mmapVmoAt fun after after_eq =>
      (below startAddr after after_eq).trans_lt top with
    none_eq | ⟨front, back, rfl, opening, some_eq⟩
  · cases none_eq.symm.trans call_eq
    exact ⟨vmas, owned⟩
  · have fits := below _ _ some_eq
    cases some_eq.symm.trans call_eq
    exact ⟨_, owned.place fresh opening ⟨small, aligned, dvd_alignUp size, fits⟩⟩

end Placing

/-! ## Entering a page -/

section Entering

variable {space : Space} {vmas : List Nat} {pages : AddressSpace}

theorem Owned.kernelApart (owned : Owned space vmas pages) :
    KernelApart space.vmm.tables space.vmm.l4Addr :=
  fun table user => (owned.foreign table ((owned.held_iff table).mpr (.inl user))).2

/-- A frame that nobody uses is neither a table nor an anonymous page. -/
theorem Owned.not_used (owned : Owned space vmas pages) {frame : Nat} (free : frame ∉ space.held) :
    ¬UserTable space.vmm.tables space.vmm.l4Addr frame ∧
      ∀ page, ¬Present space.vmm.nodes vmas pages true page frame := by
  rw [owned.held_iff, not_or, not_exists] at free
  exact free

/-- Frames that the page allocator hands out for page tables. -/
theorem Supply.freeFrames (owned : Owned space vmas pages) {frames : List Nat}
    (supply : space.Supply frames) : FreeFrames space.vmm.tables space.vmm.l4Addr frames :=
  ⟨supply.nodup, supply.aligned, supply.small, fun frame mem =>
    (owned.not_used (supply.unused frame mem).1).1⟩

theorem Supply.tail {frame : Nat} {frames : List Nat} (supply : space.Supply (frame :: frames)) :
    space.Supply frames :=
  ⟨supply.nodup.of_cons, fun other mem => supply.aligned other (List.mem_cons_of_mem frame mem),
    fun other mem => supply.small other (List.mem_cons_of_mem frame mem),
    fun other mem => supply.unused other (List.mem_cons_of_mem frame mem)⟩

/-- The frames that a fault takes. -/
def takenBy (node : VmaNode) (frame : Nat) (tableFrames : List Nat) : List Nat :=
  if node.backingVmo.isNone then frame :: tableFrames else tableFrames

theorem mem_takenBy {node : VmaNode} {frame other : Nat} {tableFrames : List Nat} :
    other ∈ takenBy node frame tableFrames ↔
      other ∈ tableFrames ∨ node.backingVmo.isNone = true ∧ other = frame := by
  rw [takenBy]
  split
  next anonymous => rw [List.mem_cons, or_comm, anonymous, eq_self, true_and]
  next backed => rw [Bool.eq_false_iff.mpr backed, Bool.false_eq_true, false_and, or_false]

theorem takenBy_nodup {node : VmaNode} {frame : Nat} {tableFrames : List Nat}
    (nodup : (frame :: tableFrames).Nodup) : (takenBy node frame tableFrames).Nodup := by
  rw [takenBy]
  split
  · exact nodup
  · exact nodup.of_cons

theorem dvd_of_assertPhys {phys : Nat} (assert_eq : Pager.assertPhys phys .Normal = .ok ()) :
    NORMAL_PAGE_SIZE ∣ phys := by
  rw [Pager.assertPhys] at assert_eq
  split at assert_eq
  next offset => exact Nat.dvd_of_mod_eq_zero ((getOffset_eq phys).symm.trans offset)
  next => cases assert_eq

/-- Entering a page of an area makes it present, and changes no other page. -/
theorem present_set_iff {vmm : VirtMemManager} (list : AreaList vmm vmas) {ptr page phys : Nat}
    (mem : ptr ∈ vmas) (covers : Covers (vmm.nodes ptr) page) (absent : pages .Normal page = none)
    (anonymous : Bool) (other frame : Nat) :
    Present vmm.nodes vmas (pages.set .Normal page (some phys)) anonymous other frame ↔
      Present vmm.nodes vmas pages anonymous other frame ∨
        (vmm.nodes ptr).backingVmo.isNone = anonymous ∧ other = page ∧ frame = phys := by
  constructor
  · rintro ⟨found, found_mem, backing_eq, found_covers, set_eq⟩
    rw [AddressSpace.set] at set_eq
    split at set_eq
    next here =>
      obtain rfl := here.2
      obtain rfl := eq_of_covers list found_mem mem found_covers covers
      exact .inr ⟨backing_eq, rfl, (Option.some.inj set_eq).symm⟩
    next => exact .inl ⟨found, found_mem, backing_eq, found_covers, set_eq⟩
  · rintro (⟨found, found_mem, backing_eq, found_covers, old⟩ | ⟨backing_eq, rfl, rfl⟩)
    · refine ⟨found, found_mem, backing_eq, found_covers, ?_⟩
      rw [AddressSpace.set, if_neg, old]
      rintro ⟨-, rfl⟩
      cases absent.symm.trans old
    · exact ⟨ptr, mem, backing_eq, covers, if_pos ⟨rfl, rfl⟩⟩

/-- A page of an area that is not present is entered. -/
theorem Owned.enter (owned : Owned space vmas pages) {ptr addr phys flags frame : Nat}
    {frames : List Nat} {state : PagingState} (effects : List Effect) (mem : ptr ∈ vmas)
    (covers : Covers (space.vmm.nodes ptr) (addr / NORMAL_PAGE_SIZE))
    (supply : space.Supply (frame :: frames))
    (absent : pages .Normal (addr / NORMAL_PAGE_SIZE) = none)
    (source : (space.vmm.nodes ptr).backingVmo.isNone = true ∧ phys = frame ∨
      (space.vmm.nodes ptr).backingVmo.isNone = false ∧ phys ∈ space.objects ∧ phys < 2 ^ 52)
    (map_eq : Pager.mapPage ⟨space.vmm.tables, frames⟩ space.vmm.l4Addr
      (addr / NORMAL_PAGE_SIZE * NORMAL_PAGE_SIZE) phys (convertVmFlags flags) .Normal =
        .ok state) :
    ∃ tableFrames, frames = tableFrames ++ state.frames ∧
      Owned { space with
        vmm := { space.vmm with tables := state.tables, effects }
        held := takenBy (space.vmm.nodes ptr) frame tableFrames ++ space.held } vmas
        (pages.set .Normal (addr / NORMAL_PAGE_SIZE) (some phys)) := by
  obtain ⟨_, phys_eq, rest_eq⟩ := bind_eq_ok.mp map_eq
  obtain ⟨_, -, page_eq⟩ := bind_eq_ok.mp rest_eq
  have aligned := dvd_of_assertPhys phys_eq
  have small : phys < 2 ^ 52 := by
    rcases source with ⟨-, rfl⟩ | ⟨-, -, small⟩
    · exact supply.small phys (List.mem_cons_self ..)
    · exact small
  obtain ⟨tableFrames, frames_eq, grown, represents⟩ := mapPage_grown owned.represents
    (supply.tail.freeFrames owned) ((owned.areas ptr mem).page_lt covers) aligned small
    (convertVmFlags_valid flags) (owned.noHuge _) page_eq
  replace frames_eq : frames = tableFrames ++ state.frames := frames_eq
  rw [Nat.mul_div_cancel _ (by decide : 0 < NORMAL_PAGE_SIZE)] at represents
  have table_mem (other : Nat) (other_mem : other ∈ tableFrames) : other ∈ frames :=
    frames_eq ▸ List.mem_append_left _ other_mem
  have new_table (other : Nat) (other_mem : other ∈ tableFrames) : space.Unused other :=
    supply.tail.unused other (table_mem other other_mem)
  have frame_new : frame ∉ tableFrames :=
    fun new => (List.nodup_cons.mp supply.nodup).1 (table_mem frame new)
  have taken_mem (other : Nat)
      (other_mem : other ∈ takenBy (space.vmm.nodes ptr) frame tableFrames) :
      other ∈ frame :: frames := by
    rcases mem_takenBy.mp other_mem with table | ⟨-, rfl⟩
    · exact List.mem_cons_of_mem frame (table_mem other table)
    · exact List.mem_cons_self ..
  obtain ⟨kernel, -⟩ := grown.kernel owned.kernelApart fun other other_mem =>
    (new_table other other_mem).2.2
  have present_iff := @present_set_iff _ pages _ owned.list _ _ phys mem covers absent
  -- An anonymous page that was entered has the frame that was handed out for it.
  have entered (anonymous : (space.vmm.nodes ptr).backingVmo.isNone = true) : phys = frame := by
    rcases source with ⟨-, same⟩ | ⟨backed, -⟩
    · exact same
    · cases anonymous.symm.trans backed
  have unheld : frame ∉ space.held := (supply.unused frame (List.mem_cons_self ..)).1
  have held_of_present {page other : Nat}
      (present : Present space.vmm.nodes vmas pages true page other) : other ∈ space.held :=
    (owned.held_iff other).mpr (.inr ⟨page, present⟩)
  refine ⟨tableFrames, frames_eq, ⟨owned.list.linked, owned.list.ordered, owned.list.bounded,
    owned.list.heap⟩, owned.areas, represents, grown.indexed owned.indexed, fun page => ?_,
    fun page other set_eq => ?_, fun page other present => ?_,
    fun left right other in_left in_right => ?_, fun page other present => ?_, ?_, fun other => ?_,
    fun other other_mem => ?_⟩
  · exact (if_neg fun here => nomatch here.1).trans (owned.noHuge page)
  · rw [AddressSpace.set] at set_eq
    split at set_eq
    next here => exact ⟨ptr, mem, here.2 ▸ covers⟩
    next => exact owned.inside page other set_eq
  · rcases (present_iff false page other).mp present with old | ⟨backed, -, rfl⟩
    · exact owned.backed page other old
    · rcases source with ⟨anonymous, -⟩ | ⟨-, object, -⟩
      · cases anonymous.symm.trans backed
      · exact object
  · rcases (present_iff true left other).mp in_left with old_left | ⟨anonymous, rfl, rfl⟩
    · rcases (present_iff true right other).mp in_right with old_right | ⟨anonymous, rfl, rfl⟩
      · exact owned.once left right other old_left old_right
      · exact absurd (entered anonymous ▸ held_of_present old_left) unheld
    · rcases (present_iff true right _).mp in_right with old_right | ⟨-, rfl, -⟩
      · exact absurd (entered anonymous ▸ held_of_present old_right) unheld
      · rfl
  · change ¬UserTable state.tables space.vmm.l4Addr other
    rw [grown.tables_iff, not_or]
    rcases (present_iff true page other).mp present with old | ⟨anonymous, -, rfl⟩
    · exact ⟨owned.apart page other old,
        fun new => (new_table other new).1 (held_of_present old)⟩
    · rw [entered anonymous]
      exact ⟨(owned.not_used unheld).1, frame_new⟩
  · have tables_nodup : tableFrames.Nodup :=
      (List.nodup_append.mp (frames_eq ▸ supply.nodup.of_cons)).1
    refine List.nodup_append.mpr
      ⟨takenBy_nodup (List.nodup_cons.mpr ⟨frame_new, tables_nodup⟩), owned.nodup, ?_⟩
    rintro other new _ old rfl
    exact (supply.unused other (taken_mem other new)).1 old
  · change other ∈ takenBy _ frame tableFrames ++ space.held ↔
      UserTable state.tables space.vmm.l4Addr other ∨ _
    rw [List.mem_append, mem_takenBy, grown.tables_iff, owned.held_iff]
    simp only [present_iff, exists_or]
    constructor
    · rintro ((table | ⟨anonymous, rfl⟩) | table | present)
      · exact .inl (.inr table)
      · exact .inr (.inr ⟨_, anonymous, rfl, (entered anonymous).symm⟩)
      · exact .inl (.inl table)
      · exact .inr (.inl present)
    · rintro ((table | table) | present | ⟨_, anonymous, -, rfl⟩)
      · exact .inr (.inl table)
      · exact .inl (.inl table)
      · exact .inr (.inr present)
      · exact .inl (.inr ⟨anonymous, entered anonymous⟩)
  · change other ∉ space.objects ∧ ¬KernelTable state.tables space.vmm.l4Addr other
    rw [kernel.kernelTable_iff]
    rcases List.mem_append.mp other_mem with new | old
    · exact (supply.unused other (taken_mem other new)).2
    · exact owned.foreign other old

end Entering

/-! ## Page faults -/

section Faults

variable {vmm next : VirtMemManager} {vmas taken : List Nat} {env : VirtMemManager.FaultEnv}
  {addr errorCode : Nat}

/-- A fault changes nothing, or it enters the page of an area. -/
theorem takeFault_cases (list : AreaList vmm vmas)
    (fault_eq : vmm.takeFault env addr errorCode = .ok (taken, next)) :
    taken = [] ∧ next = vmm ∨
      ∃ ptr ∈ vmas, ((vmm.nodes ptr).start ≤ addr ∧ addr < endOf (vmm.nodes ptr)) ∧
        ∃ phys state effects,
          ((vmm.nodes ptr).backingVmo.isNone = true ∧ phys = env.frame ∨
            (vmm.nodes ptr).backingVmo.isNone = false ∧
              ∃ vmo offset, env.requestPage vmo offset = some phys) ∧
          Pager.mapPage ⟨vmm.tables, env.frames⟩ vmm.l4Addr
            (andNot addr (pageMask (vmm.nodes ptr).flags)) phys
            (convertVmFlags (vmm.nodes ptr).flags) (blockSize (vmm.nodes ptr).flags) =
              .ok state ∧
          taken = takenBy (vmm.nodes ptr) env.frame
            (env.frames.take (env.frames.length - state.frames.length)) ∧
          next = { vmm with tables := state.tables, effects } ∧
          vmm.handlePageFault env addr errorCode = .ok (.ok (), next) := by
  obtain ⟨found, loop_eq, rest_eq⟩ := bind_eq_ok.mp fault_eq
  cases found with
  | none =>
      cases rest_eq
      exact .inl ⟨rfl, rfl⟩
  | some ptr =>
      have searched := loop_eq
      rw [list.linked.head_eq] at searched
      obtain ⟨mem, inside⟩ :=
        VirtMemManager.containsLoop_spec (show AreaList vmm ([] ++ vmas) from list) searched
      dsimp only at rest_eq
      split at rest_eq
      · cases rest_eq
        exact .inl ⟨rfl, rfl⟩
      next allowed =>
        split at rest_eq
        · cases rest_eq
          exact .inl ⟨rfl, rfl⟩
        next phys frame_eq =>
          obtain ⟨state, map_eq, next_eq⟩ := bind_eq_ok.mp rest_eq
          cases next_eq
          refine .inr ⟨ptr, mem, inside, phys, state, _, ?_, map_eq, rfl, rfl, ?_⟩
          · cases backing_eq : (vmm.nodes ptr).backingVmo with
            | none =>
                rw [backing_eq] at frame_eq
                exact .inl ⟨rfl, (Option.some.inj frame_eq).symm⟩
            | some vmo =>
                rw [backing_eq] at frame_eq
                exact .inr ⟨rfl, vmo, _, frame_eq⟩
          · rw [VirtMemManager.handlePageFault, loop_eq]
            cases backing_eq : (vmm.nodes ptr).backingVmo with
            | none =>
                rw [backing_eq] at frame_eq
                cases frame_eq
                simp only [bind, Except.bind, if_neg allowed, backing_eq, map_eq]
                rfl
            | some vmo =>
                rw [backing_eq] at frame_eq
                simp only [bind, Except.bind, if_neg allowed, backing_eq, frame_eq, map_eq]
                rfl

/-- The ledger leaves the fault itself alone. -/
theorem takeFault_forget : (vmm.takeFault env addr errorCode).map Prod.snd =
    (vmm.handlePageFault env addr errorCode).map Prod.snd := by
  rw [VirtMemManager.takeFault, VirtMemManager.handlePageFault]
  cases vmm.containsLoop addr vmm.live.length vmm.head with
  | error _ => rfl
  | ok found =>
      cases found with
      | none => rfl
      | some ptr =>
          simp only [bind, Except.bind]
          split
          · rfl
          · cases (vmm.nodes ptr).backingVmo with
            | none =>
                dsimp only
                split <;> rfl
            | some vmo =>
                dsimp only
                cases env.requestPage vmo (wrappingAdd (wrappingSub (andNot addr
                  (pageMask (vmm.nodes ptr).flags)) (vmm.nodes ptr).start)
                  (vmm.nodes ptr).vmoOffset) with
                | none => rfl
                | some phys =>
                    dsimp only
                    split <;> rfl

/-- A permitted fault keeps the ledger right. -/
theorem Owned.takeFault {space : Space} {pages : AddressSpace} (owned : Owned space vmas pages)
    (permitted : space.Permitted (.pageFault env addr errorCode))
    (fault_eq : space.vmm.takeFault env addr errorCode = .ok (taken, next)) :
    ∃ pages', Owned { space with vmm := next, held := taken ++ space.held } vmas pages' := by
  obtain ⟨supply, answers, once⟩ := permitted
  rcases takeFault_cases owned.list fault_eq with
    ⟨rfl, rfl⟩ | ⟨ptr, mem, ⟨ge, lt⟩, phys, state, effects, source, map_eq, rfl, rfl, call_eq⟩
  · exact ⟨pages, owned⟩
  · have low := owned.areas ptr mem
    have page_le := Nat.div_mul_le_self addr NORMAL_PAGE_SIZE
    have covers : Covers (space.vmm.nodes ptr) (addr / NORMAL_PAGE_SIZE) := by
      obtain ⟨first, start_eq⟩ := low.start_page
      refine ⟨?_, page_le.trans_lt lt⟩
      rw [start_eq, Nat.mul_comm] at ge ⊢
      exact Nat.mul_le_mul_right _ ((Nat.le_div_iff_mul_le (by decide)).mpr ge)
    have absent : pages .Normal (addr / NORMAL_PAGE_SIZE) = none := by
      rw [Option.eq_none_iff_forall_ne_some]
      intro frame page_eq
      have translated := (Pager.translate_iff owned.represents (lt.trans_le low.below) _).mpr
        ⟨.Normal, frame, page_eq, rfl⟩
      cases (once _ call_eq).symm.trans translated
    rw [low.small, pageMask_small low.small,
      show (0xFFF : Nat) = BlockSize.Normal.bytes - 1 from rfl, andNot_bytes] at map_eq
    have source : (space.vmm.nodes ptr).backingVmo.isNone = true ∧ phys = env.frame ∨
        (space.vmm.nodes ptr).backingVmo.isNone = false ∧ phys ∈ space.objects ∧
          phys < 2 ^ 52 :=
      source.imp_right fun ⟨backed, vmo, offset, answer⟩ => ⟨backed, answers vmo offset phys answer⟩
    obtain ⟨tableFrames, frames_eq, entered⟩ :=
      owned.enter effects mem covers supply absent source map_eq
    have taken_eq : env.frames.take (env.frames.length - state.frames.length) = tableFrames := by
      rw [frames_eq, List.length_append, Nat.add_sub_cancel, List.take_left]
    rw [taken_eq]
    exact ⟨_, entered⟩

end Faults

/-! ## Unmapping an area -/

section Unmapping

variable {space : Space} {front back : List Nat} {ptr : Nat} {pages : AddressSpace}

/-- The frames of the present pages of an area that has no memory object. -/
def anonymousFrames (node : VmaNode) (pages : AddressSpace) : List Nat :=
  if node.backingVmo.isNone then
    (presentFrom pages .Normal (node.size / NORMAL_PAGE_SIZE) node.start).map Prod.snd
  else
    []

/-- The pages of an area, by their numbers. -/
theorem mem_presentFrom_iff {node : VmaNode} (low : LowArea node) {addr frame : Nat} :
    (addr, frame) ∈ presentFrom pages .Normal (node.size / NORMAL_PAGE_SIZE) node.start ↔
      ∃ page, addr = page * NORMAL_PAGE_SIZE ∧ Covers node page ∧
        pages .Normal page = some frame := by
  have positive : 0 < NORMAL_PAGE_SIZE := by decide
  have base := @VirtMemManager.base_iff NORMAL_PAGE_SIZE node.start node.size addr positive
    low.start_page low.size_page
  rw [mem_presentFrom, show BlockSize.Normal.bytes = NORMAL_PAGE_SIZE from rfl, base]
  constructor
  · rintro ⟨⟨⟨page, rfl⟩, ge, lt⟩, page_eq⟩
    rw [Nat.mul_div_cancel_left page positive] at page_eq
    rw [Nat.mul_comm] at ge lt
    exact ⟨page, Nat.mul_comm _ _, ⟨ge, lt⟩, page_eq⟩
  · rintro ⟨page, rfl, ⟨ge, lt⟩, page_eq⟩
    rw [Nat.mul_div_cancel page positive]
    exact ⟨⟨Nat.dvd_mul_left _ _, ge, lt⟩, page_eq⟩

theorem mem_anonymousFrames {node : VmaNode} (low : LowArea node) {frame : Nat} :
    frame ∈ anonymousFrames node pages ↔
      node.backingVmo.isNone = true ∧
        ∃ page, Covers node page ∧ pages .Normal page = some frame := by
  rw [anonymousFrames]
  split
  next anonymous =>
    rw [List.mem_map, and_iff_right anonymous]
    constructor
    · rintro ⟨⟨addr, found⟩, mem, rfl⟩
      obtain ⟨page, -, covers, page_eq⟩ := (mem_presentFrom_iff low).mp mem
      exact ⟨page, covers, page_eq⟩
    · rintro ⟨page, covers, page_eq⟩
      exact ⟨_, (mem_presentFrom_iff low).mpr ⟨page, rfl, covers, page_eq⟩, rfl⟩
  next backed => exact iff_of_false List.not_mem_nil fun both => backed both.1

/-- What the ledger says about the frames of an area that is unmapped. -/
theorem Owned.area_frames (owned : Owned space (front ++ ptr :: back) pages) :
    (anonymousFrames (space.vmm.nodes ptr) pages).Nodup ∧
      ∀ frame, frame ∈ anonymousFrames (space.vmm.nodes ptr) pages ↔
        ∃ page, Covers (space.vmm.nodes ptr) page ∧
          Present space.vmm.nodes (front ++ ptr :: back) pages true page frame := by
  have mem : ptr ∈ front ++ ptr :: back := by simp
  have low := owned.areas ptr mem
  have present_of {page frame : Nat} (anonymous : (space.vmm.nodes ptr).backingVmo.isNone = true)
      (covers : Covers (space.vmm.nodes ptr) page) (page_eq : pages .Normal page = some frame) :
      Present space.vmm.nodes (front ++ ptr :: back) pages true page frame :=
    ⟨ptr, mem, anonymous, covers, page_eq⟩
  constructor
  · rw [anonymousFrames]
    split
    next anonymous =>
      refine List.Nodup.map_on ?_ (List.Nodup.of_map Prod.fst (presentFrom_nodup _ _))
      rintro ⟨left, frame⟩ left_mem ⟨right, _⟩ right_mem rfl
      obtain ⟨leftPage, rfl, left_covers, left_eq⟩ := (mem_presentFrom_iff low).mp left_mem
      obtain ⟨rightPage, rfl, right_covers, right_eq⟩ := (mem_presentFrom_iff low).mp right_mem
      rw [owned.once leftPage rightPage _ (present_of anonymous left_covers left_eq)
        (present_of anonymous right_covers right_eq)]
    next => exact List.nodup_nil
  · intro frame
    rw [mem_anonymousFrames low]
    constructor
    · rintro ⟨anonymous, page, covers, page_eq⟩
      exact ⟨page, covers, present_of anonymous covers page_eq⟩
    · rintro ⟨page, covers, other, other_mem, anonymous, other_covers, page_eq⟩
      obtain rfl := eq_of_covers owned.list other_mem mem other_covers covers
      exact ⟨anonymous, page, covers, page_eq⟩

/-- The pages that are present without those of an area. -/
theorem present_cut_iff {vmm next : VirtMemManager}
    (list : AreaList vmm (front ++ ptr :: back))
    (contents : ∀ other, content (next.nodes other) = content (vmm.nodes other))
    (anonymous : Bool) (page frame : Nat) :
    Present next.nodes (front ++ back)
        (pages.cut .Normal (vmm.nodes ptr).start (endOf (vmm.nodes ptr))) anonymous page frame ↔
      Present vmm.nodes (front ++ ptr :: back) pages anonymous page frame ∧
        ¬Covers (vmm.nodes ptr) page := by
  rw [present_congr fun other _ => contents other]
  constructor
  · rintro ⟨other, mem, backing_eq, covers, cut_eq⟩
    rw [AddressSpace.cut] at cut_eq
    split at cut_eq
    next => cases cut_eq
    next outside =>
      exact ⟨⟨other, (VirtMemManager.sublist_without front back ptr).subset mem, backing_eq, covers,
        cut_eq⟩, fun inside => outside ⟨rfl, inside⟩⟩
  · rintro ⟨⟨other, mem, backing_eq, covers, page_eq⟩, outside⟩
    have other_ne : other ≠ ptr := by
      rintro rfl
      exact outside covers
    have other_mem : other ∈ front ++ back :=
      (List.mem_cons.mp (List.perm_middle.mem_iff.mp mem)).resolve_left other_ne
    refine ⟨other, other_mem, backing_eq, covers, ?_⟩
    rw [AddressSpace.cut, if_neg fun inside => outside inside.2, page_eq]

/-- The pages of an area are taken out of the tables, which stay where they are. -/
theorem Owned.unmapArea (owned : Owned space (front ++ ptr :: back) pages) :
    ∃ unmapped trace,
      (space.vmm.detach ptr).unmapArea ((space.vmm.detach ptr).nodes ptr) = .ok unmapped ∧
      unmapped.effects = space.vmm.effects ++ trace ∧
      trace.filterMap Effect.freed =
        (anonymousFrames (space.vmm.nodes ptr) pages).map (·, .Normal) ∧
      Represents unmapped.tables space.vmm.l4Addr
        (pages.cut .Normal (space.vmm.nodes ptr).start (endOf (space.vmm.nodes ptr))) ∧
      Grown space.vmm.tables unmapped.tables space.vmm.l4Addr [] := by
  have mem : ptr ∈ front ++ ptr :: back := by simp
  have low := owned.areas ptr mem
  have same := VirtMemManager.detach_content space.vmm ptr ptr
  obtain ⟨tables_eq, root_eq⟩ := VirtMemManager.detach_tables space.vmm ptr
  have detached : VirtMemManager.UserArea (space.vmm.detach ptr) ((space.vmm.detach ptr).nodes ptr)
      pages := by
    refine ⟨?_, ?_, fun addr _ _ size other => ?_⟩
    · rw [tables_eq, root_eq]
      exact owned.represents
    · rw [VirtMemManager.endOf_of_content same]
      exact low.below
    · rw [VirtMemManager.flags_of_content same, low.small] at other
      cases size with
      | Normal => exact absurd rfl other
      | Huge => exact owned.noHuge _
  have found := VirtMemManager.unmapArea_exact
    (by rw [VirtMemManager.flags_of_content same, VirtMemManager.start_of_content same, low.small]
        exact low.start_page)
    (by rw [VirtMemManager.flags_of_content same, VirtMemManager.size_of_content same, low.small]
        exact low.size_page) detached
  rw [VirtMemManager.flags_of_content same, VirtMemManager.start_of_content same,
    VirtMemManager.size_of_content same, VirtMemManager.endOf_of_content same,
    VirtMemManager.backing_of_content same, tables_eq, root_eq, VirtMemManager.detach_effects,
    low.small] at found
  obtain ⟨unmapped, trace, unmap_eq, trace_eq, -, freed_eq, represents, grown⟩ := found
  refine ⟨unmapped, trace, unmap_eq, trace_eq, ?_, represents, grown⟩
  rw [freed_eq, anonymousFrames]
  split
  · rw [List.map_map]
    rfl
  · rfl

/-- Unmapping an area gives the frames of its anonymous pages back. -/
theorem Owned.unmap (owned : Owned space (front ++ ptr :: back) pages) :
    ∃ unmapped trace,
      (space.vmm.detach ptr).unmapArea ((space.vmm.detach ptr).nodes ptr) = .ok unmapped ∧
      unmapped.effects = space.vmm.effects ++ trace ∧
      trace.filterMap Effect.freed =
        (anonymousFrames (space.vmm.nodes ptr) pages).map (·, .Normal) ∧
      Owned { space with
        vmm := { unmapped with live := unmapped.live.erase ptr }
        held := space.held.diff (anonymousFrames (space.vmm.nodes ptr) pages) }
        (front ++ back)
        (pages.cut .Normal (space.vmm.nodes ptr).start (endOf (space.vmm.nodes ptr))) := by
  obtain ⟨unmapped, trace, unmap_eq, trace_eq, freed_eq, represents, grown⟩ := owned.unmapArea
  obtain ⟨kernel, -⟩ := grown.kernel owned.kernelApart (by simp)
  obtain ⟨list, contents, -, l4_eq⟩ := owned.list.removed unmap_eq
  have tables_iff (table : Nat) : UserTable unmapped.tables space.vmm.l4Addr table ↔
      UserTable space.vmm.tables space.vmm.l4Addr table := by
    rw [grown.tables_iff, or_iff_left List.not_mem_nil]
  have present_iff := @present_cut_iff front back ptr pages space.vmm unmapped owned.list contents
  obtain ⟨-, frames_iff⟩ := owned.area_frames
  have kept (other : Nat) (other_mem : other ∈ front ++ back) : other ∈ front ++ ptr :: back :=
    (VirtMemManager.sublist_without front back ptr).subset other_mem
  refine ⟨unmapped, trace, unmap_eq, trace_eq, freed_eq, list, fun other other_mem => ?_, ?_, ?_,
    fun page => ?_, fun page frame cut_eq => ?_, fun page frame present => ?_,
    fun left right frame in_left in_right => ?_, fun page frame present => ?_, ?_, fun frame => ?_,
    fun frame frame_mem => ?_⟩
  · exact (owned.areas other (kept other other_mem)).congr (contents other)
  · change Represents unmapped.tables unmapped.l4Addr _
    rw [l4_eq]
    exact represents
  · change Indexed unmapped.tables unmapped.l4Addr
    rw [l4_eq]
    exact grown.indexed owned.indexed
  · exact (cut_other (by decide) _ _ page).trans (owned.noHuge page)
  · rw [AddressSpace.cut] at cut_eq
    split at cut_eq
    next => cases cut_eq
    next outside =>
      obtain ⟨other, other_mem, covers⟩ := owned.inside page frame cut_eq
      have other_ne : other ≠ ptr := by
        rintro rfl
        exact outside ⟨rfl, covers⟩
      exact ⟨other, (List.mem_cons.mp (List.perm_middle.mem_iff.mp other_mem)).resolve_left
        other_ne, (covers_congr (contents other)).mpr covers⟩
  · exact owned.backed page frame ((present_iff false page frame).mp present).1
  · exact owned.once left right frame ((present_iff true left frame).mp in_left).1
      ((present_iff true right frame).mp in_right).1
  · change ¬UserTable unmapped.tables unmapped.l4Addr frame
    rw [l4_eq, tables_iff]
    exact owned.apart page frame ((present_iff true page frame).mp present).1
  · exact owned.nodup.diff
  · change frame ∈ space.held.diff _ ↔ UserTable unmapped.tables unmapped.l4Addr frame ∨ _
    rw [owned.nodup.mem_sdiff_iff, l4_eq, tables_iff, owned.held_iff, frames_iff]
    constructor
    · rintro ⟨table | ⟨page, present⟩, staying⟩
      · exact .inl table
      · exact .inr ⟨page, (present_iff true page frame).mpr
          ⟨present, fun covers => staying ⟨page, covers, present⟩⟩⟩
    · rintro (table | ⟨page, present⟩)
      · refine ⟨.inl table, ?_⟩
        rintro ⟨page, -, present⟩
        exact owned.apart page frame present table
      · obtain ⟨present, outside⟩ := (present_iff true page frame).mp present
        refine ⟨.inr ⟨page, present⟩, ?_⟩
        rintro ⟨other, covers, in_other⟩
        rw [← owned.once page other frame present in_other] at covers
        exact outside covers
  · change frame ∉ space.objects ∧ ¬KernelTable unmapped.tables unmapped.l4Addr frame
    rw [l4_eq, kernel.kernelTable_iff]
    exact owned.foreign frame (List.diff_subset _ _ frame_mem)

/-- A frame of the ledger is given back or stays. -/
theorem Owned.held_perm (owned : Owned space (front ++ ptr :: back) pages) :
    space.held.Perm (anonymousFrames (space.vmm.nodes ptr) pages ++
      space.held.diff (anonymousFrames (space.vmm.nodes ptr) pages)) := by
  obtain ⟨nodup, frames_iff⟩ := owned.area_frames
  have held {frame : Nat} (mem : frame ∈ anonymousFrames (space.vmm.nodes ptr) pages) :
      frame ∈ space.held := by
    obtain ⟨page, -, present⟩ := (frames_iff frame).mp mem
    exact (owned.held_iff frame).mpr (.inr ⟨page, present⟩)
  exact (List.subperm_append_diff_self_of_count_le fun frame mem => by
    rw [List.count_eq_one_of_mem nodup mem]
    exact List.count_pos_iff.mpr (held mem)).symm

end Unmapping

/-! ## Runs -/

section Runs

variable {nodes : Nat → VmaNode} {state : PagingState} {cr3 : Nat} {vmm : VirtMemManager}
  {objects : Set Nat}

/-- Entries are copied from another table. -/
theorem copied_entry {old frame : Nat} (ne : old ≠ frame) (tables : Tables)
    (first count table index : Nat) :
    (List.range' first count).foldl
        (fun tables idx => RadixTree.write tables frame idx (tables old idx)) tables table index =
      if table = frame ∧ first ≤ index ∧ index < first + count then tables old index
      else tables table index := by
  induction count generalizing first tables with
  | zero => exact (if_neg (by omega)).symm
  | succ count ih =>
      rw [List.range'_succ, List.foldl_cons, ih, RadixTree.write_other fun both => ne both.1]
      by_cases here : table = frame ∧ index = first
      · obtain ⟨rfl, rfl⟩ := here
        rw [if_neg (by omega), if_pos (by omega), RadixTree.write_same]
      · rw [RadixTree.write_other here]
        congr 1
        refine propext (and_congr_right fun same => ?_)
        have other : index ≠ first := fun equal => here ⟨same, equal⟩
        omega

/-- The frame for a root table is free. -/
structure RootFree (state : PagingState) (cr3 : Nat) (objects : Set Nat) : Prop where
  other : ∀ frame ∈ state.frames.head?, cr3 &&& ADDR_MASK ≠ frame
  notKernel : ∀ frame ∈ state.frames.head?, ¬KernelTable state.tables (cr3 &&& ADDR_MASK) frame
  notObject : ∀ frame ∈ state.frames.head?, frame ∉ objects

/-- A new root table has an empty user half and the kernel half of the current one. -/
theorem create_tables (free : RootFree state cr3 objects)
    (create_eq : VirtMemManager.create nodes state cr3 = .ok vmm) :
    vmm.l4Addr ∈ state.frames.head? ∧
      vmm = VirtMemManager.new nodes vmm.l4Addr vmm.tables ∧
      (∀ table ≠ vmm.l4Addr, vmm.tables table = state.tables table) ∧
      ∀ index, vmm.tables vmm.l4Addr index =
        if 256 ≤ index ∧ index < 512 then state.tables (cr3 &&& ADDR_MASK) index
        else .unused := by
  rw [VirtMemManager.create, Pager.initProcessPager] at create_eq
  cases frames_eq : state.frames with
  | nil =>
      rw [frames_eq] at create_eq
      cases create_eq
  | cons frame frames =>
      have ne := free.other frame (by rw [frames_eq]; rfl)
      have entries := copied_entry ne (RadixTree.fill state.tables frame .unused) 256 256
      rw [frames_eq] at create_eq
      dsimp only at create_eq
      generalize (List.range' 256 256).foldl (fun tables idx =>
          RadixTree.write tables frame idx (tables (cr3 &&& ADDR_MASK) idx))
        (RadixTree.fill state.tables frame .unused) = copied at create_eq entries
      cases create_eq
      refine ⟨rfl, rfl, fun table other => ?_, fun index => ?_⟩
      · funext index
        exact (entries table index).trans
          ((if_neg fun both => other both.1).trans (RadixTree.fill_other other index))
      · refine (entries frame index).trans ?_
        rw [RadixTree.fill_same, RadixTree.fill_other ne]
        exact if_congr (and_iff_right rfl) rfl rfl

/-- The kernel half of a new root table leads to the tables of the kernel. -/
theorem kernelTable_of_create (free : RootFree state cr3 objects)
    (create_eq : VirtMemManager.create nodes state cr3 = .ok vmm) {table : Nat}
    (kernel : KernelTable vmm.tables vmm.l4Addr table) :
    KernelTable state.tables (cr3 &&& ADDR_MASK) table := by
  obtain ⟨head, -, others, root⟩ := create_tables free create_eq
  have foreign := free.notKernel _ head
  have same {above : Nat} (here : KernelTable state.tables (cr3 &&& ADDR_MASK) above) :
      vmm.tables above = state.tables above :=
    others above fun equal => foreign (equal ▸ here)
  obtain ⟨index, path, above, upper, short, reached, leads⟩ := kernel
  rw [RadixTree.walk, root] at reached
  split at reached
  next =>
    obtain ⟨first, first_eq, reached⟩ := Option.bind_eq_some_iff.mp reached
    have first_reached : RadixTree.walk nextTable state.tables (cr3 &&& ADDR_MASK) [index] =
        some first := by
      rw [RadixTree.walk, first_eq]
      rfl
    have first_same := same ⟨index, [], first, upper, Nat.zero_le _, first_reached, .inl rfl⟩
    have above_reached : RadixTree.walk nextTable state.tables (cr3 &&& ADDR_MASK)
        (index :: path) = some above := by
      rw [RadixTree.walk, first_eq, Option.bind_some]
      cases path with
      | nil => exact reached
      | cons slot rest =>
          obtain rfl : rest = [] := List.eq_nil_of_length_eq_zero (by simpa using short)
          rwa [RadixTree.walk, first_same] at reached
    have above_same := same ⟨index, path, above, upper, short, above_reached, .inl rfl⟩
    rw [above_same] at leads
    exact ⟨index, path, above, upper, short, above_reached, leads⟩
  next => cases reached

/-- A new address space holds its root table. -/
theorem Owned.create (free : RootFree state cr3 objects)
    (create_eq : VirtMemManager.create nodes state cr3 = .ok vmm) :
    Owned ⟨vmm, [vmm.l4Addr], objects⟩ [] fun _ _ => none := by
  obtain ⟨head, new_eq, others, root⟩ := create_tables free create_eq
  have empty : ∀ index < 256, (vmm.tables vmm.l4Addr index).isPresent = false := by
    intro index lower
    rw [root, if_neg (by omega)]
    rfl
  have only {table : Nat} : UserTable vmm.tables vmm.l4Addr table ↔ table = vmm.l4Addr :=
    userTable_of_empty empty
  have nothing (anonymous : Bool) (page frame : Nat) :
      ¬Present vmm.nodes [] (fun _ _ => none) anonymous page frame := by
    rintro ⟨ptr, mem, -⟩
    cases mem
  refine ⟨?_, by simp, Pager.represents_empty empty, ?_, fun _ => rfl, nofun,
    fun page frame present => absurd present (nothing false page frame),
    fun left _ frame present => absurd present (nothing true left frame),
    fun page frame present => absurd present (nothing true page frame), List.nodup_singleton _,
    fun frame => ?_, fun frame mem => ?_⟩
  · rw [new_eq]
    exact (VirtMemManager.new_list nodes vmm.l4Addr vmm.tables).areas
  · intro path table live reached index mem
    rw [Pager.walk_of_empty empty live (List.ne_nil_of_mem mem)] at reached
    cases reached
  · rw [List.mem_singleton, only]
    exact (or_iff_left fun ⟨page, present⟩ => nothing true page frame present).symm
  · rw [List.mem_singleton.mp mem]
    exact ⟨free.notObject _ head, fun kernel =>
      free.notKernel _ head (kernelTable_of_create free create_eq kernel)⟩

/-- Pages that are present, in the terms of `translate`. -/
theorem Owned.mapped_iff {space : Space} {vmas : List Nat} {pages : AddressSpace}
    (owned : Owned space vmas pages) {anonymous : Bool} {addr frame : Nat} :
    Mapped space.vmm anonymous addr frame ↔
      ∃ page, addr = page * NORMAL_PAGE_SIZE ∧
        Present space.vmm.nodes vmas pages anonymous page frame := by
  have positive : 0 < NORMAL_PAGE_SIZE := by decide
  have found (page : Nat) (user : page * NORMAL_PAGE_SIZE < USER_END) :
      Pager.translate space.vmm.tables space.vmm.l4Addr (page * NORMAL_PAGE_SIZE) = some frame ↔
        pages .Normal page = some frame := by
    rw [Pager.translate_iff owned.represents user]
    constructor
    · rintro ⟨size, phys, stored, rfl⟩
      cases size with
      | Huge => cases (owned.noHuge _).symm.trans stored
      | Normal =>
          rw [BlockSize.bytes, Nat.mul_div_cancel page positive] at stored
          rw [BlockSize.bytes, Nat.mul_mod_left, Nat.add_zero, stored]
    · intro stored
      refine ⟨.Normal, frame, ?_, ?_⟩
      · rwa [BlockSize.bytes, Nat.mul_div_cancel page positive]
      · rw [BlockSize.bytes, Nat.mul_mod_left, Nat.add_zero]
  constructor
  · rintro ⟨ptr, live, backing_eq, ge, lt, ⟨page, rfl⟩, translated⟩
    have mem := owned.list.heap.mem_iff.mpr live
    rw [Nat.mul_comm] at ge lt translated ⊢
    have user := lt.trans_le (owned.areas ptr mem).below
    exact ⟨page, rfl, ptr, mem, backing_eq, ⟨ge, lt⟩, (found page user).mp translated⟩
  · rintro ⟨page, rfl, ptr, mem, backing_eq, covers, stored⟩
    exact ⟨ptr, owned.list.heap.mem_iff.mp mem, backing_eq, covers.1, covers.2,
      Nat.dvd_mul_left _ _, (found page ((owned.areas ptr mem).page_lt covers)).mpr stored⟩

theorem returned_of_append {before after : VirtMemManager} {trace : List Effect}
    (effects_eq : after.effects = before.effects ++ trace) :
    before.returned after = (trace.filterMap Effect.freed).map Prod.fst := by
  rw [VirtMemManager.returned, effects_eq, List.drop_left]

/-- Every permitted event keeps the ledger right. -/
theorem Owned.react {space next : Space} {event : Event}
    (holds : ∃ vmas pages, Owned space vmas pages) (permitted : space.Permitted event)
    (react_eq : space.react event = .ok next) : ∃ vmas pages, Owned next vmas pages := by
  obtain ⟨vmas, pages, owned⟩ := holds
  cases event with
  | mmap size flags nodePtr =>
      obtain ⟨⟨result, vmm⟩, call_eq, next_eq⟩ := bind_eq_ok.mp react_eq
      cases next_eq
      obtain ⟨small, fresh, below⟩ := permitted
      obtain ⟨vmas', placed⟩ := owned.mmapInternal small fresh below call_eq
      exact ⟨vmas', pages, placed⟩
  | mmapVmo size flags vmo nodePtr =>
      obtain ⟨⟨result, vmm⟩, call_eq, next_eq⟩ := bind_eq_ok.mp react_eq
      cases next_eq
      obtain ⟨small, fresh, below⟩ := permitted
      obtain ⟨vmas', placed⟩ := owned.mmapInternal small fresh below call_eq
      exact ⟨vmas', pages, placed⟩
  | mmapVmoAt startAddr size flags vmo nodePtr =>
      obtain ⟨⟨result, vmm⟩, call_eq, next_eq⟩ := bind_eq_ok.mp react_eq
      cases next_eq
      obtain ⟨small, fresh, aligned, below⟩ := permitted
      obtain ⟨vmas', placed⟩ := owned.mmapVmoAt small fresh aligned below call_eq
      exact ⟨vmas', pages, placed⟩
  | munmap startAddr size =>
      obtain ⟨⟨result, vmm⟩, call_eq, next_eq⟩ := bind_eq_ok.mp react_eq
      cases next_eq
      rcases owned.list.munmap startAddr size with
        ⟨message, error_eq, -⟩ | ⟨front, ptr, back, rfl, -, -, munmap_eq⟩
      · cases error_eq.symm.trans call_eq
        have returned_eq : space.vmm.returned space.vmm = [] :=
          returned_of_append (List.append_nil _).symm
        refine ⟨vmas, pages, ?_⟩
        rw [returned_eq]
        exact owned
      · obtain ⟨unmapped, trace, unmap_eq, trace_eq, freed_eq, after⟩ := owned.unmap
        rw [munmap_eq, unmap_eq] at call_eq
        cases call_eq
        have returned_eq : space.vmm.returned { unmapped with live := unmapped.live.erase ptr } =
            anonymousFrames (space.vmm.nodes ptr) pages := by
          refine (@returned_of_append space.vmm { unmapped with live := unmapped.live.erase ptr }
            trace trace_eq).trans ?_
          rw [freed_eq, List.map_map]
          exact List.map_id _
        rw [← returned_eq] at after
        exact ⟨_, _, after⟩
  | pageFault env addr errorCode =>
      obtain ⟨⟨taken, vmm⟩, fault_eq, next_eq⟩ := bind_eq_ok.mp react_eq
      cases next_eq
      obtain ⟨pages', after⟩ := owned.takeFault permitted fault_eq
      exact ⟨vmas, pages', after⟩
  | objects frames =>
      cases react_eq
      obtain ⟨gained, kept⟩ := permitted
      refine ⟨vmas, pages, { owned with
        backed := fun page frame present => ?_, foreign := fun frame mem => ?_ }⟩
      · exact kept _ frame (owned.mapped_iff.mpr ⟨page, rfl, present⟩)
      · obtain ⟨foreign, notKernel⟩ := owned.foreign frame mem
        refine ⟨fun object => ?_, notKernel⟩
        rcases gained frame object with old | unused
        · exact foreign old
        · exact unused.1 mem

/-- In every run the ledger is right. -/
theorem Owned.run {space final : Space} {events : List Event}
    (holds : ∃ vmas pages, Owned space vmas pages) (permits : life.Permits space events)
    (run_eq : life.run space events = .ok final) : ∃ vmas pages, Owned final vmas pages :=
  life.run_keeps (fun _ _ _ holds permitted step_eq => Owned.react holds permitted step_eq) holds
    permits run_eq

end Runs

end Space
end Vespertine
