import Vespertine.Memory.HeldFrames

/-!
# Teardown of an address space

`teardown` removes the areas one by one with `munmap` and then walks the tables of the lower half,
freeing each behind the tables below it.  The first part gives back the anonymous pages, the second
one the tables, which `munmap` leaves where they are; together they give back the ledger.
-/

namespace Vespertine

open UserTree

namespace VirtMemManager

/-- The loop of `teardown` over the areas; what `munmap` returns is dropped. -/
def unmapAll : (fuel : Nat) → VirtMemManager → Kernel VirtMemManager
  | 0, vmm => if vmm.head.isSome then .error .diverges else .ok vmm
  | fuel + 1, vmm =>
      match vmm.head with
      | none => .ok vmm
      | some nodePtr => do
          let start := (vmm.nodes nodePtr).start
          let size := (vmm.nodes nodePtr).size
          let (_, vmm) ← vmm.munmap start size
          unmapAll fuel vmm

/-- Free the tables below a third-level table. -/
def freeL2 (tables : Tables) (l2Phys : Nat) : List Effect :=
  (List.range 512).flatMap fun l2Idx =>
    let l2Entry := tables l2Phys l2Idx
    if l2Entry.isPresent && !l2Entry.isHuge then [.free l2Entry.getAddr .Normal] else []

/-- Free the tables below a second-level table. -/
def freeL3 (tables : Tables) (l3Phys : Nat) : List Effect :=
  (List.range 512).flatMap fun l3Idx =>
    let l3Entry := tables l3Phys l3Idx
    if l3Entry.isPresent then
      freeL2 tables l3Entry.getAddr ++ [.free l3Entry.getAddr .Normal]
    else
      []

/-- Free the tables of the lower half and the root table. -/
def freeTables (tables : Tables) (pml4Phys : Nat) : List Effect :=
  ((List.range 256).flatMap fun idx =>
    let entry := tables pml4Phys idx
    if entry.isPresent then
      freeL3 tables entry.getAddr ++ [.free entry.getAddr .Normal]
    else
      []) ++ [.free pml4Phys .Normal]

/-- `teardown`. -/
def teardown (vmm : VirtMemManager) : Kernel VirtMemManager := do
  let vmm ← unmapAll vmm.live.length vmm
  return { vmm with effects := vmm.effects ++ freeTables vmm.tables vmm.l4Addr }

end VirtMemManager

namespace Space

open VirtMemManager (AreaList freeL2 freeL3 freeTables alignUp_of_dvd)
open RadixTree (Within postorder walk)

/-! ## The areas -/

section Areas

variable {space : Space} {vmas : List Nat} {pages : AddressSpace}

/-- `munmap` finds the first area at once. -/
theorem munmap_head {vmm : VirtMemManager} {ptr : Nat} {rest : List Nat}
    (list : AreaList vmm (ptr :: rest)) (rounded : alignUp (vmm.nodes ptr).size =
      (vmm.nodes ptr).size) :
    vmm.munmap (vmm.nodes ptr).start (vmm.nodes ptr).size =
      ((vmm.detach ptr).unmapArea ((vmm.detach ptr).nodes ptr)).map fun unmapped =>
        (.ok (), { unmapped with live := unmapped.live.erase ptr }) := by
  have head_eq : vmm.head = some ptr := list.linked.head_eq
  have length_eq : vmm.live.length = rest.length + 1 := list.length_eq
  simp only [VirtMemManager.munmap, head_eq, length_eq, VirtMemManager.findLoop, if_true, bind,
    Except.bind, rounded, ne_eq, not_true_eq_false, if_false]
  cases (vmm.detach ptr).unmapArea ((vmm.detach ptr).nodes ptr) <;> rfl

/-- Removing all areas gives the anonymous pages back and leaves the tables in the ledger. -/
theorem Owned.unmapAll {fuel : Nat} (owned : Owned space vmas pages) (enough : vmas.length ≤ fuel) :
    ∃ after trace frames rest pages', VirtMemManager.unmapAll fuel space.vmm = .ok after ∧
      after.effects = space.vmm.effects ++ trace ∧
      trace.filterMap Effect.freed = frames.map (·, .Normal) ∧
      space.held.Perm (frames ++ rest) ∧ Owned ⟨after, rest, space.objects⟩ [] pages' := by
  induction vmas generalizing space pages fuel with
  | nil =>
      have head_eq : space.vmm.head = none := owned.list.linked.head_eq
      have done : VirtMemManager.unmapAll fuel space.vmm = .ok space.vmm := by
        cases fuel with
        | zero => rw [VirtMemManager.unmapAll, head_eq]; rfl
        | succ fuel => rw [VirtMemManager.unmapAll, head_eq]
      exact ⟨space.vmm, [], [], space.held, pages, done, (List.append_nil _).symm, rfl, .refl _,
        owned⟩
  | cons ptr vmas ih =>
      obtain ⟨fuel, rfl⟩ : ∃ less, fuel = less + 1 :=
        Nat.exists_eq_succ_of_ne_zero (Nat.ne_of_gt (Nat.lt_of_lt_of_le (Nat.succ_pos _) enough))
      have low := owned.areas ptr (List.mem_cons_self ..)
      have rounded : alignUp (space.vmm.nodes ptr).size = (space.vmm.nodes ptr).size :=
        alignUp_of_dvd low.size_page ((Nat.le_add_left _ _).trans low.below)
      have head_eq : space.vmm.head = some ptr := owned.list.linked.head_eq
      have first : Owned space ([] ++ ptr :: vmas) pages := owned
      obtain ⟨unmapped, trace, unmap_eq, trace_eq, freed_eq, owned'⟩ := first.unmap
      obtain ⟨after, later, frames, rest, pages', rest_eq, later_eq, later_freed, perm, final⟩ :=
        ih owned' (Nat.le_of_succ_le_succ enough)
      refine ⟨after, trace ++ later, anonymousFrames (space.vmm.nodes ptr) pages ++ frames, rest,
        pages', ?_, ?_, ?_, ?_, final⟩
      · rw [VirtMemManager.unmapAll, head_eq]
        simp only [munmap_head owned.list rounded, unmap_eq]
        exact rest_eq
      · rw [later_eq, ← List.append_assoc]
        exact congrArg (· ++ later) trace_eq
      · rw [List.filterMap_append, freed_eq, later_freed, List.map_append]
      · rw [List.append_assoc]
        exact first.held_perm.trans (perm.append_left _)

end Areas

/-! ## The tables -/

section Tables

variable {tables : Tables} {root : Nat} {pages : AddressSpace}

theorem freed_flatMap {indices : List Nat} {effects : Nat → List Effect} {found : Nat → List Nat}
    (same : ∀ index ∈ indices,
      (effects index).filterMap Effect.freed = (found index).map (·, .Normal)) :
    (indices.flatMap effects).filterMap Effect.freed =
      (indices.flatMap found).map (·, .Normal) := by
  rw [List.filterMap_flatMap, List.map_flatMap]
  exact List.flatMap_congr same

theorem freeL2_eq (l2Phys : Nat) :
    (freeL2 tables l2Phys ++ [Effect.free l2Phys .Normal]).filterMap Effect.freed =
      (postorder child tables [512] l2Phys).map (·, .Normal) := by
  rw [freeL2, postorder, List.filterMap_append, List.map_append]
  refine congrArg₂ (· ++ ·) (freed_flatMap fun index _ => ?_) rfl
  simp only [child]
  split <;> rfl

/-- One level of the walk, above tables that are freed in post-order. -/
theorem freed_level {widths : List Nat} {table width : Nat} (below : Nat → List Effect)
    (noHuge : ∀ index < width, (tables table index).isPresent = true →
      (tables table index).isHuge = false)
    (below_eq : ∀ index < width, (tables table index).isPresent = true →
      (below (tables table index).getAddr).filterMap Effect.freed =
        (postorder child tables widths (tables table index).getAddr).map (·, .Normal)) :
    (((List.range width).flatMap fun index =>
        if (tables table index).isPresent then below (tables table index).getAddr else []) ++
      [Effect.free table .Normal]).filterMap Effect.freed =
      (postorder child tables (width :: widths) table).map (·, .Normal) := by
  rw [postorder, List.filterMap_append, List.map_append]
  refine congrArg₂ (· ++ ·) (freed_flatMap fun index mem => ?_) rfl
  have index_lt := List.mem_range.mp mem
  split
  next present =>
    rw [child, present, noHuge index index_lt present]
    exact below_eq index index_lt present
  next absent =>
    rw [child, Bool.eq_false_iff.mpr absent]
    rfl

/-- The walk frees the tables of the lower half in post-order. -/
theorem freeTables_eq (represents : Represents tables root pages) :
    (freeTables tables root).filterMap Effect.freed =
      (postorder child tables [256, 512, 512] root).map (·, .Normal) := by
  have top (index : Nat) (lower : index < 256) : userPath ([] ++ [index]) :=
    ⟨by simp, fun first head => by cases head; exact lower⟩
  have second (index slot : Nat) (lower : index < 256) : userPath ([index] ++ [slot]) :=
    ⟨by simp, fun first head => by cases head; exact lower⟩
  have upper (index : Nat) (lower : index < 256) : (tables root index).isPresent = true →
      (tables root index).isHuge = false :=
    represents.upper (by simp) (top index lower) rfl
  have below (index : Nat) (lower : index < 256) (present : (tables root index).isPresent = true) :
      (freeL3 tables (tables root index).getAddr ++
          [Effect.free (tables root index).getAddr .Normal]).filterMap Effect.freed =
        (postorder child tables [512, 512] (tables root index).getAddr).map (·, .Normal) := by
    have reached : walk child tables root [index] = some (tables root index).getAddr := by
      simp [walk, child, present, upper index lower present]
    simp only [freeL3]
    rw [freed_level (fun addr => freeL2 tables addr ++ [Effect.free addr .Normal])
      (fun slot _ => represents.upper (by simp) (second index slot lower) reached)
      fun slot _ _ => freeL2_eq _]
  simp only [freeTables]
  rw [freed_level (fun addr => freeL3 tables addr ++ [Effect.free addr .Normal]) upper below]

theorem userPath_of_within {path : List Nat} (within : Within [256, 512, 512] path) :
    userPath path := by
  match path, within with
  | [], _ => exact userPath_nil
  | [first], ⟨lower, _⟩ => exact ⟨by simp, fun index head => by cases head; exact lower⟩
  | [first, _], ⟨lower, _⟩ => exact ⟨by simp, fun index head => by cases head; exact lower⟩
  | [first, _, _], ⟨lower, _⟩ => exact ⟨by simp, fun index head => by cases head; exact lower⟩

theorem within_of_userPath {path : List Nat} (live : userPath path)
    (small : ∀ index ∈ path, index < 512) : Within [256, 512, 512] path := by
  match path, live.1 with
  | [], _ => exact trivial
  | [first], _ => exact ⟨live.2 first rfl, trivial⟩
  | [first, second], _ => exact ⟨live.2 first rfl, small second (by simp), trivial⟩
  | [first, second, third], _ =>
      exact ⟨live.2 first rfl, small second (by simp), small third (by simp), trivial⟩

/-- The walk meets each table of the lower half, once. -/
theorem postorder_tables (represents : Represents tables root pages)
    (indexed : Indexed tables root) :
    (postorder child tables [256, 512, 512] root).Nodup ∧
      ∀ table, table ∈ postorder child tables [256, 512, 512] root ↔
        UserTable tables root table := by
  constructor
  · apply RadixTree.postorder_nodup
    intro left right table left_within right_within left_eq right_eq
    exact represents.separate (userPath_of_within left_within) (userPath_of_within right_within)
      left_eq right_eq
  · intro table
    rw [RadixTree.mem_postorder]
    constructor
    · rintro ⟨path, within, reached⟩
      exact ⟨path, userPath_of_within within, reached⟩
    · rintro ⟨path, live, reached⟩
      exact ⟨path, within_of_userPath live (indexed path table live reached), reached⟩

end Tables

/-! ## The ledger, returned -/

section Return

variable {nodes : Nat → VmaNode} {state : PagingState} {cr3 : Nat} {vmm : VirtMemManager}
  {objects : Set Nat} {events : List Event} {space final : Space}

/-- What `teardown` leaves, and what its effects give back. -/
structure TornDown (space : Space) (after : VirtMemManager) (trace : List Effect) : Prop where
  head_eq : after.head = none
  live_eq : after.live = []
  effects_eq : after.effects = space.vmm.effects ++ trace
  /-- The frames that the address space took and did not give back before. -/
  whole : (trace.filterMap Effect.freed).Perm (space.held.map (·, .Normal))
  once : (trace.filterMap Effect.freed).Nodup
  /-- They are the tables and the anonymous pages. -/
  frames : ∀ frame size, (frame, size) ∈ trace.filterMap Effect.freed ↔
    size = .Normal ∧ (UserTable space.vmm.tables space.vmm.l4Addr frame ∨
      ∃ addr, Mapped space.vmm true addr frame)
  /-- None of them belongs to a memory object or to the kernel half. -/
  foreign : ∀ frame size, (frame, size) ∈ trace.filterMap Effect.freed →
    frame ∉ space.objects ∧ ¬KernelTable space.vmm.tables space.vmm.l4Addr frame ∧
      ∀ addr, ¬Mapped space.vmm false addr frame

/-- Without areas the ledger holds the tables that the walk meets. -/
theorem Owned.held_tables {pages : AddressSpace} (owned : Owned space [] pages) :
    space.held.Perm (postorder child space.vmm.tables [256, 512, 512] space.vmm.l4Addr) := by
  obtain ⟨nodup, met⟩ := postorder_tables owned.represents owned.indexed
  refine (List.perm_ext_iff_of_nodup owned.nodup nodup).mpr fun table => ?_
  rw [owned.held_iff, met]
  exact or_iff_left fun ⟨_, _, mem, _⟩ => List.not_mem_nil mem

/-- Pages of memory objects and anonymous pages have different frames. -/
theorem Owned.not_mapped {vmas : List Nat} {pages : AddressSpace} (owned : Owned space vmas pages)
    {frame : Nat} (held : frame ∈ space.held) (addr : Nat) :
    ¬Mapped space.vmm false addr frame := by
  intro mapped
  obtain ⟨page, -, present⟩ := owned.mapped_iff.mp mapped
  exact (owned.foreign frame held).1 (owned.backed page frame present)

theorem Owned.mem_held {vmas : List Nat} {pages : AddressSpace} (owned : Owned space vmas pages)
    {frame : Nat} : frame ∈ space.held ↔ UserTable space.vmm.tables space.vmm.l4Addr frame ∨
      ∃ addr, Mapped space.vmm true addr frame := by
  rw [owned.held_iff]
  refine or_congr_right ⟨fun ⟨page, present⟩ => ?_, fun ⟨addr, mapped⟩ => ?_⟩
  · exact ⟨_, owned.mapped_iff.mpr ⟨page, rfl, present⟩⟩
  · obtain ⟨page, -, present⟩ := owned.mapped_iff.mp mapped
    exact ⟨page, present⟩

/-- `teardown` gives back the ledger. -/
theorem Owned.teardown {vmas : List Nat} {pages : AddressSpace} (owned : Owned space vmas pages) :
    ∃ after trace, space.vmm.teardown = .ok after ∧ TornDown space after trace := by
  obtain ⟨emptied, unmaps, frames, rest, pages', unmap_eq, unmaps_eq, unmaps_freed, perm, left⟩ :=
    owned.unmapAll (Nat.le_of_eq owned.list.length_eq.symm)
  have walk_freed := freeTables_eq left.represents
  have freed_eq : (unmaps ++ freeTables emptied.tables emptied.l4Addr).filterMap Effect.freed =
      (frames ++ postorder child emptied.tables [256, 512, 512] emptied.l4Addr).map
        (·, .Normal) := by
    rw [List.filterMap_append, unmaps_freed, walk_freed, List.map_append]
  have whole : ((unmaps ++ freeTables emptied.tables emptied.l4Addr).filterMap
      Effect.freed).Perm (space.held.map (·, .Normal)) := by
    rw [freed_eq]
    exact ((perm.trans (left.held_tables.append_left frames)).map _).symm
  have freed_mem (frame : Nat) (size : BlockSize) :
      (frame, size) ∈ (unmaps ++ freeTables emptied.tables emptied.l4Addr).filterMap
        Effect.freed ↔ size = .Normal ∧ frame ∈ space.held := by
    rw [whole.mem_iff, List.mem_map]
    constructor
    · rintro ⟨_, held, pair_eq⟩
      cases pair_eq
      exact ⟨rfl, held⟩
    · rintro ⟨rfl, held⟩
      exact ⟨frame, held, rfl⟩
  refine ⟨{ emptied with effects := emptied.effects ++ freeTables emptied.tables emptied.l4Addr },
    _, ?_, left.list.linked.head_eq, left.list.heap.nil_eq.symm, ?_, whole, ?_, ?_, ?_⟩
  · rw [VirtMemManager.teardown, unmap_eq]
    rfl
  · rw [unmaps_eq, List.append_assoc]
  · refine whole.nodup_iff.mpr (owned.nodup.map fun left right pair_eq => ?_)
    exact congrArg Prod.fst pair_eq
  · intro frame size
    rw [freed_mem, owned.mem_held]
  · intro frame size mem
    obtain ⟨-, held⟩ := (freed_mem frame size).mp mem
    obtain ⟨notObject, notKernel⟩ := owned.foreign frame held
    exact ⟨notObject, notKernel, owned.not_mapped held⟩

/-- After every run `teardown` gives back what the address space holds: its tables and its
anonymous pages, each once. -/
theorem teardown_exact (free : RootFree state cr3 objects)
    (create_eq : VirtMemManager.create nodes state cr3 = .ok vmm)
    (permits : life.Permits ⟨vmm, [vmm.l4Addr], objects⟩ events)
    (run_eq : life.run ⟨vmm, [vmm.l4Addr], objects⟩ events = .ok final) :
    ∃ after trace, final.vmm.teardown = .ok after ∧ TornDown final after trace := by
  obtain ⟨vmas, pages, owned⟩ := Owned.run ⟨_, _, Owned.create free create_eq⟩ permits run_eq
  exact owned.teardown

/-- An address space without areas whose root table is at `0x1000`. -/
def newSpace : VirtMemManager :=
  .new (fun _ => ⟨0, 0, 0, none, none, none, 0⟩) 0x1000 fun _ _ => .unused

/-- An anonymous page gets frame `0x5000`, page tables get `0x6000` and up. -/
def anonymousPage : VirtMemManager.FaultEnv := ⟨fun _ _ => none, 0x5000, [0x6000, 0x7000, 0x8000]⟩

/-- An anonymous area of two pages of which the first is touched. -/
def onePageTouched : List Event :=
  [.mmap 0x2000 (VM_FLAG_WRITE ||| VM_FLAG_USER) 7, .pageFault anonymousPage VM_BASE_ADDR 2]

theorem newSpace_free : RootFree ⟨fun _ _ => .unused, [0x1000]⟩ 0x9000 ∅ := by
  refine ⟨fun frame head => ?_, fun frame _ => ?_, fun frame _ object => object⟩
  · cases head
    decide
  · exact not_kernelTable_of_empty fun _ _ => PageTableEntry.isPresent_unused

theorem newSpace_created : VirtMemManager.create (fun _ => ⟨0, 0, 0, none, none, none, 0⟩)
    ⟨fun _ _ => .unused, [0x1000]⟩ 0x9000 = .ok newSpace := by
  obtain ⟨vmm, create_eq⟩ : ∃ vmm, VirtMemManager.create
      (fun _ => ⟨0, 0, 0, none, none, none, 0⟩) ⟨fun _ _ => .unused, [0x1000]⟩ 0x9000 = .ok vmm :=
    ⟨_, rfl⟩
  obtain ⟨head, new_eq, others, root⟩ := create_tables newSpace_free create_eq
  have l4_eq : vmm.l4Addr = 0x1000 := (Option.some.inj head).symm
  have tables_eq : vmm.tables = fun _ _ => .unused := by
    funext table index
    by_cases here : table = vmm.l4Addr
    · rw [here, root, ite_self]
    · rw [others table here]
  rw [create_eq, new_eq, l4_eq, tables_eq]
  rfl

theorem onePageTouched_permits : life.Permits ⟨newSpace, [0x1000], ∅⟩ onePageTouched := by
  refine ⟨⟨by decide, by simp [newSpace, VirtMemManager.new], fun start next call_eq => ?_⟩,
    fun next step_eq => ⟨?_, fun _ _ => trivial⟩⟩
  · have placed : (newSpace.mmap 0x2000 (VM_FLAG_WRITE ||| VM_FLAG_USER) 7).map Prod.fst =
        .ok (some VM_BASE_ADDR) := by rfl
    rw [call_eq] at placed
    cases placed
    decide
  · have kept : (life.step ⟨newSpace, [0x1000], ∅⟩
        (.mmap 0x2000 (VM_FLAG_WRITE ||| VM_FLAG_USER) 7)).map
          (fun space => (space.vmm.tables, space.vmm.l4Addr, space.held, space.objects)) =
        .ok (fun _ _ => .unused, 0x1000, [0x1000], ∅) := by rfl
    rw [step_eq] at kept
    obtain ⟨tables_eq, l4_eq, held_eq, objects_eq⟩ : next.vmm.tables = (fun _ _ => .unused) ∧
        next.vmm.l4Addr = 0x1000 ∧ next.held = [0x1000] ∧ next.objects = ∅ := by
      simpa only [Except.map, Except.ok.injEq, Prod.mk.injEq] using kept
    refine ⟨⟨by decide, by decide, by decide, fun frame mem => ⟨?_, ?_, ?_⟩⟩, by rintro _ _ _ ⟨⟩,
      fun _ _ => ?_⟩
    · rw [held_eq]
      rintro held
      cases List.mem_singleton.mp held
      exact absurd mem (by decide)
    · rw [objects_eq]
      exact id
    · rw [tables_eq]
      exact not_kernelTable_of_empty fun _ _ => PageTableEntry.isPresent_unused
    · rw [tables_eq, l4_eq]
      rfl

/-- A page, three tables above it and the root table are given back. -/
theorem teardown_exact_one_page : ∃ final after trace,
    life.run ⟨newSpace, [0x1000], ∅⟩ onePageTouched = .ok final ∧
    final.vmm.teardown = .ok after ∧ TornDown final after trace ∧
    (trace.filterMap Effect.freed).Perm [(0x5000, .Normal), (0x6000, .Normal), (0x7000, .Normal),
      (0x8000, .Normal), (0x1000, .Normal)] := by
  have held_eq : (life.run ⟨newSpace, [0x1000], ∅⟩ onePageTouched).map Space.held =
      .ok [0x5000, 0x6000, 0x7000, 0x8000, 0x1000] := by rfl
  obtain ⟨final, run_eq, final_held⟩ := map_eq_ok.mp held_eq
  obtain ⟨after, trace, teardown_eq, torn⟩ :=
    teardown_exact newSpace_free newSpace_created onePageTouched_permits run_eq
  refine ⟨final, after, trace, run_eq, teardown_eq, torn, ?_⟩
  have whole := torn.whole
  rwa [final_held] at whole

end Return

end Space
end Vespertine
