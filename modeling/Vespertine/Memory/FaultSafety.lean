import Vespertine.Memory.Backing
import Vespertine.Memory.PagingRefinement

/-!
# Page faults that stop the kernel

A process maps memory objects at any address, with any length and any flags.  A page fault rounds
its address down to the page size of the area and enters the frame of the memory object, which is a
4 KiB frame: in an area of 2 MiB pages the alignment assertion of the pager fails for most frames,
and in the first page of an area that does not start on a page boundary the offset of the fault
wraps.  Nothing else stops the kernel but a page allocator without frames for page tables.
-/

namespace Vespertine

/-! ## Page tables on demand -/

/-- How many page tables entering a page has to create. -/
def missingTables (tables : Tables) (root virt : Nat) (size : BlockSize) : Nat :=
  let idxs := getIdxs virt
  match nextTable (tables root idxs.l4) with
  | none => if size = .Huge then 2 else 3
  | some l3Table =>
      match nextTable (tables l3Table idxs.l3) with
      | none => if size = .Huge then 1 else 2
      | some l2Table =>
          if size = .Huge then
            0
          else
            match nextTable (tables l2Table idxs.l2) with
            | none => 1
            | some _ => 0

/-- The page allocator hands out distinct aligned frames that hold no table. -/
structure FreshFrames (tables : Tables) (root : Nat) (frames : List Nat) : Prop where
  nodup : frames.Nodup
  aligned : ∀ frame ∈ frames, NORMAL_PAGE_SIZE ∣ frame
  small : ∀ frame ∈ frames, frame < 2 ^ 52
  not_root : root ∉ frames
  not_next : ∀ index table, nextTable (tables root index) = some table → table ∉ frames

section OnDemand

variable {tables : Tables} {table index : Nat} {frames : List Nat}

theorem getOrCreateNext_of_some {below : Nat}
    (next_eq : nextTable (tables table index) = some below) :
    getOrCreateNext ⟨tables, frames⟩ table index = .ok (below, ⟨tables, frames⟩) := by
  rw [nextTable] at next_eq
  split at next_eq
  next present =>
    cases next_eq
    rw [getOrCreateNext, if_pos present]
  next => cases next_eq

theorem getOrCreateNext_of_none (next_eq : nextTable (tables table index) = none) :
    getOrCreateNext ⟨tables, []⟩ table index = .error .outOfMemory := by
  rw [nextTable] at next_eq
  split at next_eq
  next => cases next_eq
  next absent => rw [getOrCreateNext, if_neg absent]

/-- A table that has just been created. -/
def created (tables : Tables) (table index frame : Nat) : Tables :=
  RadixTree.write (RadixTree.fill tables frame PageTableEntry.unused) table index
    (PageTableEntry.new frame 0x7)

theorem getOrCreateNext_fresh {frame : Nat} (next_eq : nextTable (tables table index) = none)
    (aligned : NORMAL_PAGE_SIZE ∣ frame) (small : frame < 2 ^ 52) :
    getOrCreateNext ⟨tables, frame :: frames⟩ table index =
      .ok (frame, ⟨created tables table index frame, frames⟩) := by
  rw [nextTable] at next_eq
  split at next_eq
  next => cases next_eq
  next absent =>
    have addr_eq : (PageTableEntry.new frame 0x7).getAddr = frame := by
      rw [PageTableEntry.getAddr_new (by decide), PageTableEntry.and_mask_of_aligned aligned small]
    rw [getOrCreateNext, if_neg absent]
    dsimp only
    rw [addr_eq, created]

/-- Nothing lies below a table that has just been created. -/
theorem nextTable_created {frame : Nat} (ne : frame ≠ table) (slot : Nat) :
    nextTable (created tables table index frame frame slot) = none := by
  rw [created, RadixTree.write_other (fun same => ne same.1), RadixTree.fill_same]
  rfl

end OnDemand

section Enter

variable {tables : Tables} {root l3Table l2Table virt phys flags : Nat} {size : BlockSize}
  {frames : List Nat}

/-- The part of `map_page` below the second table. -/
def enterLeaf (state : PagingState) (l2Table virt phys flags : Nat) (size : BlockSize) :
    Kernel PagingState := do
  let idxs := getIdxs virt
  if size = .Huge then
    let entry := PageTableEntry.new phys (flags ||| (1 <<< 7))
    return { state with tables := RadixTree.write state.tables l2Table idxs.l2 entry }
  else
    let (l1Table, state) ← getOrCreateNext state l2Table idxs.l2
    let entry := PageTableEntry.new phys flags
    return { state with tables := RadixTree.write state.tables l1Table idxs.l1 entry }

/-- The part of `map_page` below the third table. -/
def enterBelow (state : PagingState) (l3Table virt phys flags : Nat) (size : BlockSize) :
    Kernel PagingState := do
  let (l2Table, state) ← getOrCreateNext state l3Table (getIdxs virt).l3
  enterLeaf state l2Table virt phys flags size

theorem mapPage_eq (state : PagingState) :
    PageTable.mapPage state root virt phys flags size =
      (getOrCreateNext state root (getIdxs virt).l4 >>= fun (l3Table, state) =>
        enterBelow state l3Table virt phys flags size) := rfl

/-- How many tables are missing below the second one. -/
def missingLeaf (tables : Tables) (l2Table virt : Nat) (size : BlockSize) : Nat :=
  if size = .Huge then
    0
  else
    match nextTable (tables l2Table (getIdxs virt).l2) with
    | none => 1
    | some _ => 0

/-- How many tables are missing below the third one. -/
def missingBelow (tables : Tables) (l3Table virt : Nat) (size : BlockSize) : Nat :=
  match nextTable (tables l3Table (getIdxs virt).l3) with
  | none => if size = .Huge then 1 else 2
  | some l2Table => missingLeaf tables l2Table virt size

theorem missingTables_eq : missingTables tables root virt size =
    match nextTable (tables root (getIdxs virt).l4) with
    | none => if size = .Huge then 2 else 3
    | some l3Table => missingBelow tables l3Table virt size := rfl

theorem enterLeaf_ok_iff (aligned : ∀ frame ∈ frames, NORMAL_PAGE_SIZE ∣ frame)
    (small : ∀ frame ∈ frames, frame < 2 ^ 52) :
    (∃ after, enterLeaf ⟨tables, frames⟩ l2Table virt phys flags size = .ok after) ↔
      missingLeaf tables l2Table virt size ≤ frames.length := by
  rw [enterLeaf, missingLeaf]
  by_cases huge : size = .Huge
  · rw [if_pos huge, if_pos huge]
    exact ⟨fun _ => Nat.zero_le _, fun _ => ⟨_, rfl⟩⟩
  · rw [if_neg huge, if_neg huge]
    cases next_eq : nextTable (tables l2Table (getIdxs virt).l2) with
    | some l1Table =>
        rw [getOrCreateNext_of_some next_eq]
        exact ⟨fun _ => Nat.zero_le _, fun _ => ⟨_, rfl⟩⟩
    | none =>
        cases frames with
        | nil =>
            rw [getOrCreateNext_of_none next_eq]
            exact iff_of_false (by rintro ⟨_, ⟨⟩⟩) (Nat.not_succ_le_zero 0)
        | cons frame frames =>
            rw [getOrCreateNext_fresh next_eq (aligned frame List.mem_cons_self)
              (small frame List.mem_cons_self)]
            exact ⟨fun _ => Nat.succ_le_succ (Nat.zero_le _), fun _ => ⟨_, rfl⟩⟩

theorem enterBelow_ok_iff (nodup : frames.Nodup)
    (aligned : ∀ frame ∈ frames, NORMAL_PAGE_SIZE ∣ frame)
    (small : ∀ frame ∈ frames, frame < 2 ^ 52) (fresh : l3Table ∉ frames) :
    (∃ after, enterBelow ⟨tables, frames⟩ l3Table virt phys flags size = .ok after) ↔
      missingBelow tables l3Table virt size ≤ frames.length := by
  rw [enterBelow, missingBelow]
  cases next_eq : nextTable (tables l3Table (getIdxs virt).l3) with
  | some l2Table =>
      rw [getOrCreateNext_of_some next_eq]
      exact enterLeaf_ok_iff aligned small
  | none =>
      cases frames with
      | nil =>
          rw [getOrCreateNext_of_none next_eq]
          apply iff_of_false (by rintro ⟨_, ⟨⟩⟩)
          dsimp only
          split
          next => exact Nat.not_succ_le_zero _
          next => exact Nat.not_succ_le_zero _
      | cons frame frames =>
          have ne : frame ≠ l3Table := fun same => fresh (same ▸ List.mem_cons_self)
          rw [getOrCreateNext_fresh next_eq (aligned frame List.mem_cons_self)
            (small frame List.mem_cons_self)]
          refine (enterLeaf_ok_iff (fun other mem => aligned other (List.mem_cons_of_mem _ mem))
            fun other mem => small other (List.mem_cons_of_mem _ mem)).trans ?_
          rw [missingLeaf, nextTable_created ne]
          dsimp only
          rw [List.length_cons]
          split
          next => omega
          next => omega

/-- Entering a page succeeds unless frames for page tables are missing. -/
theorem mapPage_ok_iff (fresh : FreshFrames tables root frames) :
    (∃ after, PageTable.mapPage ⟨tables, frames⟩ root virt phys flags size = .ok after) ↔
      missingTables tables root virt size ≤ frames.length := by
  obtain ⟨nodup, aligned, small, not_root, not_next⟩ := fresh
  rw [mapPage_eq, missingTables_eq]
  cases next_eq : nextTable (tables root (getIdxs virt).l4) with
  | some l3Table =>
      rw [getOrCreateNext_of_some next_eq]
      exact enterBelow_ok_iff nodup aligned small (not_next _ _ next_eq)
  | none =>
      cases frames with
      | nil =>
          rw [getOrCreateNext_of_none next_eq]
          apply iff_of_false (by rintro ⟨_, ⟨⟩⟩)
          dsimp only
          split
          next => exact Nat.not_succ_le_zero _
          next => exact Nat.not_succ_le_zero _
      | cons frame frames =>
          obtain ⟨not_mem, nodup⟩ := List.nodup_cons.mp nodup
          have ne : frame ≠ root := fun same => not_root (same ▸ List.mem_cons_self)
          rw [getOrCreateNext_fresh next_eq (aligned frame List.mem_cons_self)
            (small frame List.mem_cons_self)]
          refine (enterBelow_ok_iff nodup
            (fun other mem => aligned other (List.mem_cons_of_mem _ mem))
            (fun other mem => small other (List.mem_cons_of_mem _ mem)) not_mem).trans ?_
          rw [missingBelow, nextTable_created ne]
          dsimp only
          rw [List.length_cons]
          split
          next => omega
          next => omega

end Enter

/-! ## Lists of mapped objects -/

namespace VirtMemManager

/-- Two neighbours of the list, or an end of it. -/
def Around (vmas : List Nat) (prev next : Option Nat) : Prop :=
  ∃ front back, vmas = front ++ back ∧ prev = front.getLast? ∧ next = back.head?

/-- The areas form a list, and each of them maps a memory object from its start on.  Areas may be
anywhere and of any size. -/
structure Threaded (vmm : VirtMemManager) (vmas : List Nat) : Prop where
  linked : (links vmm.nodes).IsList vmm.head vmas
  heap : vmas.Perm vmm.live
  backed : ∀ ptr ∈ vmas, ∃ vmo, (vmm.nodes ptr).backingVmo = some vmo
  offset : ∀ ptr ∈ vmas, (vmm.nodes ptr).vmoOffset = 0

section Lists

variable {vmm next : VirtMemManager} {vmas front rest : List Nat}

theorem Threaded.congr (threaded : Threaded vmm vmas) (tables : Tables) (effects : List Effect) :
    Threaded { vmm with tables, effects } vmas :=
  ⟨threaded.linked, threaded.heap, threaded.backed, threaded.offset⟩

theorem Threaded.insertNode (threaded : Threaded vmm vmas) {nodePtr : Nat} {node : VmaNode}
    (fresh : nodePtr ∉ vmm.live) (around : Around vmas node.prev node.next)
    (backed : ∃ vmo, node.backingVmo = some vmo) (offset : node.vmoOffset = 0) :
    ∃ vmas', Threaded (vmm.insertNode nodePtr node) vmas' := by
  obtain ⟨front, back, rfl, prev_eq, next_eq⟩ := around
  have unlisted : nodePtr ∉ front ++ back := fun mem => fresh (threaded.heap.mem_iff.mp mem)
  refine ⟨front ++ nodePtr :: back, insertNode_isList threaded.linked unlisted prev_eq next_eq, ?_,
    fun ptr mem => ?_, fun ptr mem => ?_⟩
  · rw [insertNode_live]
    exact List.perm_middle.trans (threaded.heap.cons nodePtr)
  · rcases insertNode_cases unlisted mem with same | ⟨old, same⟩
    · rw [backing_of_content same]
      exact backed
    · rw [backing_of_content same]
      exact threaded.backed ptr old
  · rcases insertNode_cases unlisted mem with same | ⟨old, same⟩
    · rw [offset_of_content same]
      exact offset
    · rw [offset_of_content same]
      exact threaded.offset ptr old

/-- The search ends between two neighbours or behind the last area. -/
def SearchEnds (vmas : List Nat) : Search → Prop
  | .found gap => Around vmas gap.prev gap.next
  | .exhausted last => last = vmas.getLast?

theorem searchLoop_ends {size mask fuel : Nat} {result : Search}
    (linked : (links vmm.nodes).IsList vmm.head (front ++ rest))
    (loop_eq : vmm.searchLoop size mask fuel front.getLast? rest.head? = .ok result) :
    SearchEnds (front ++ rest) result := by
  induction rest generalizing front fuel with
  | nil =>
      have ended : vmm.searchLoop size mask fuel front.getLast? none =
          .ok (.exhausted front.getLast?) := by
        cases fuel <;> rfl
      obtain rfl := Except.ok.inj (ended.symm.trans loop_eq)
      rw [SearchEnds, List.append_nil]
  | cons curr rest ih =>
      cases fuel with
      | zero => cases loop_eq
      | succ fuel =>
          have shifted : front ++ curr :: rest = (front ++ [curr]) ++ rest := by simp
          have next_eq : (vmm.nodes curr).next = rest.head? := linked.neighbours.2
          have later {fuel : Nat} := @ih (front ++ [curr]) fuel (shifted ▸ linked)
          rw [List.getLast?_concat, ← shifted] at later
          rw [List.head?_cons, searchLoop, next_eq] at loop_eq
          cases rest with
          | nil => exact later loop_eq
          | cons following rest =>
              dsimp only [List.head?_cons] at loop_eq
              split at loop_eq
              next =>
                cases loop_eq
                exact ⟨front ++ [curr], following :: rest, shifted, List.getLast?_concat.symm, rfl⟩
              next => exact later loop_eq

theorem Threaded.findGap (threaded : Threaded vmm vmas) {size mask : Nat} {gap : Gap}
    (find_eq : vmm.findGap size mask = .ok (some gap)) : Around vmas gap.prev gap.next := by
  obtain ⟨result, search_eq, found⟩ := bind_eq_ok.mp find_eq
  have ends : SearchEnds vmas result := by
    rw [search, threaded.linked.head_eq] at search_eq
    cases vmas with
    | nil =>
        cases search_eq
        exact ⟨[], [], rfl, rfl, rfl⟩
    | cons head rest =>
        dsimp only [List.head?_cons] at search_eq
        split at search_eq
        next =>
          cases search_eq
          exact ⟨[], head :: rest, rfl, rfl, rfl⟩
        next => exact @searchLoop_ends vmm [] (head :: rest) _ _ _ _ threaded.linked search_eq
  cases result with
  | found inner =>
      cases found
      exact ends
  | exhausted last =>
      cases last with
      | none => cases found
      | some last =>
          dsimp only at found
          split at found
          next =>
            cases found
            exact ⟨vmas, [], (List.append_nil vmas).symm, ends, rfl⟩
          next => cases found

theorem spotLoop_around {startAddr fuel : Nat} {spot : Option Nat × Option Nat}
    (linked : (links vmm.nodes).IsList vmm.head (front ++ rest))
    (loop_eq : vmm.spotLoop startAddr fuel front.getLast? rest.head? = .ok spot) :
    Around (front ++ rest) spot.1 spot.2 := by
  induction rest generalizing front fuel with
  | nil =>
      have ended : vmm.spotLoop startAddr fuel front.getLast? none =
          .ok (front.getLast?, none) := by
        cases fuel <;> rfl
      obtain rfl := Except.ok.inj (ended.symm.trans loop_eq)
      exact ⟨front, [], rfl, rfl, rfl⟩
  | cons curr rest ih =>
      cases fuel with
      | zero => cases loop_eq
      | succ fuel =>
          have shifted : front ++ curr :: rest = (front ++ [curr]) ++ rest := by simp
          have next_eq : (vmm.nodes curr).next = rest.head? := linked.neighbours.2
          have later {fuel : Nat} := @ih (front ++ [curr]) fuel (shifted ▸ linked)
          rw [List.getLast?_concat, ← shifted] at later
          rw [List.head?_cons, spotLoop, next_eq] at loop_eq
          split at loop_eq
          next =>
            cases loop_eq
            exact ⟨front, curr :: rest, rfl, rfl, rfl⟩
          next => exact later loop_eq

/-- Mapping an object, wherever and however large. -/
theorem Threaded.mapIntoProc (threaded : Threaded vmm vmas)
    {vaddr len vmFlags vmo nodePtr : Nat} {result : Except InvocationError Nat}
    (fresh : nodePtr ∉ vmm.live)
    (call_eq : vmm.mapIntoProc vaddr len vmFlags vmo nodePtr = .ok (result, next)) :
    ∃ vmas', Threaded next vmas' := by
  obtain ⟨⟨mapped, after⟩, place_eq, rest_eq⟩ := bind_eq_ok.mp call_eq
  obtain rfl : after = next := by
    cases mapped <;> cases rest_eq <;> rfl
  split at place_eq
  next =>
    obtain ⟨found, find_eq, placed⟩ := bind_eq_ok.mp place_eq
    cases found with
    | none =>
        cases placed
        exact ⟨vmas, threaded⟩
    | some gap =>
        cases placed
        exact threaded.insertNode fresh (threaded.findGap find_eq) ⟨vmo, rfl⟩ rfl
  next =>
    obtain ⟨spot, loop_eq, placed⟩ := bind_eq_ok.mp place_eq
    rw [threaded.linked.head_eq] at loop_eq
    have around := @spotLoop_around vmm [] vmas _ _ _ threaded.linked loop_eq
    dsimp only at placed
    split at placed
    next =>
      cases placed
      exact ⟨vmas, threaded⟩
    next =>
      split at placed
      next =>
        cases placed
        exact ⟨vmas, threaded⟩
      next =>
        cases placed
        exact threaded.insertNode fresh around ⟨vmo, rfl⟩ rfl

/-- A page fault leaves the areas alone. -/
theorem Threaded.handlePageFault (threaded : Threaded vmm vmas) {env : FaultEnv}
    {addr errorCode : Nat} {result : Except FaultError Unit}
    (call_eq : vmm.handlePageFault env addr errorCode = .ok (result, next)) :
    Threaded next vmas := by
  obtain ⟨found, -, rest_eq⟩ := bind_eq_ok.mp call_eq
  cases found with
  | none =>
      cases rest_eq
      exact threaded
  | some ptr =>
      dsimp only at rest_eq
      split at rest_eq
      next =>
        cases rest_eq
        exact threaded
      next =>
        split at rest_eq
        next =>
          cases rest_eq
          exact threaded
        next =>
          obtain ⟨state, -, done⟩ := bind_eq_ok.mp rest_eq
          cases done
          exact threaded.congr _ _

/-- The search for the area of an address ends, in an area that starts at or below it. -/
theorem containsLoop_ends (linked : (links vmm.nodes).IsList vmm.head (front ++ rest))
    {addr fuel : Nat} (enough : rest.length ≤ fuel) :
    ∃ found, vmm.containsLoop addr fuel rest.head? = .ok found ∧
      ∀ ptr, found = some ptr → ptr ∈ rest ∧ (vmm.nodes ptr).start ≤ addr := by
  induction rest generalizing front fuel with
  | nil =>
      refine ⟨none, ?_, fun ptr impossible => by cases impossible⟩
      cases fuel <;> rfl
  | cons curr rest ih =>
      obtain ⟨fuel, rfl⟩ : ∃ less, fuel = less + 1 := ⟨fuel - 1, by simp at enough; omega⟩
      have shifted : front ++ curr :: rest = (front ++ [curr]) ++ rest := by simp
      have next_eq : (vmm.nodes curr).next = rest.head? := linked.neighbours.2
      rw [List.head?_cons, containsLoop, next_eq]
      split
      next inside =>
        refine ⟨some curr, rfl, fun ptr same => ?_⟩
        cases same
        exact ⟨List.mem_cons_self, inside.1⟩
      next =>
        obtain ⟨found, loop_eq, spec⟩ :=
          ih (shifted ▸ linked) (Nat.le_of_succ_le_succ enough)
        exact ⟨found, loop_eq, fun ptr same =>
          ⟨List.mem_cons_of_mem _ (spec ptr same).1, (spec ptr same).2⟩⟩

end Lists

/-! ## Page faults -/

/-- The page fault returns, and neither subtraction nor addition of the offset wraps. -/
structure FaultSurvives (vmm : VirtMemManager) (env : FaultEnv) (addr errorCode : Nat) : Prop where
  returns : ∃ outcome, vmm.handlePageFault env addr errorCode = .ok outcome
  start_le : ∀ node, vmm.faultArea addr errorCode = .ok (.ok node) →
    node.start ≤ andNot addr (pageMask node.flags)
  offset_lt : ∀ node, vmm.faultArea addr errorCode = .ok (.ok node) →
    andNot addr (pageMask node.flags) - node.start + node.vmoOffset < wordSize

/-- The area starts on a page boundary, or the address lies in a later page than its start; and a
frame that the memory object has is aligned to the page size, with frames left for the missing page
tables. -/
structure FaultFits (vmm : VirtMemManager) (env : FaultEnv) (addr : Nat) (node : VmaNode) :
    Prop where
  later : (blockSize node.flags).bytes ∣ node.start ∨
    node.start / (blockSize node.flags).bytes < addr / (blockSize node.flags).bytes
  frame : ∀ vmo phys, node.backingVmo = some vmo →
    env.requestPage vmo (faultOffset node addr) = some phys →
      (blockSize node.flags).bytes ∣ phys ∧
        missingTables vmm.tables vmm.l4Addr (andNot addr (pageMask node.flags))
          (blockSize node.flags) ≤ env.frames.length

section Faults

variable {vmm : VirtMemManager} {vmas : List Nat} {env : FaultEnv} {addr errorCode : Nat}

theorem assertPhys_ok_iff {phys : Nat} {size : BlockSize} :
    Pager.assertPhys phys size = .ok () ↔ size.bytes ∣ phys := by
  refine ⟨fun ok_eq => ?_, Pager.assertPhys_ok⟩
  cases size with
  | Normal =>
      obtain ⟨zero, -⟩ := guard_eq_ok.mp ok_eq
      exact Nat.dvd_of_mod_eq_zero ((getOffset_eq phys).symm.trans zero)
  | Huge =>
      obtain ⟨zero, -⟩ := guard_eq_ok.mp ok_eq
      exact Nat.dvd_of_mod_eq_zero ((getHugeOffset_eq phys).symm.trans zero)

/-- Rounding an address down passes the start of its area only in the page of the start. -/
theorem le_round_iff {start bytes : Nat} (positive : 0 < bytes) (start_le : start ≤ addr) :
    start ≤ addr / bytes * bytes ↔ bytes ∣ start ∨ start / bytes < addr / bytes := by
  have pages_le := Nat.div_le_div_right (c := bytes) start_le
  have start_lt := Nat.lt_div_mul_add (a := start) positive
  constructor
  · intro le
    by_cases divides : bytes ∣ start
    · exact .inl divides
    · right
      by_contra! same
      have exact_eq : start / bytes * bytes = start := by
        have rounded := Nat.mul_le_mul_right bytes same
        have below := Nat.div_mul_le_self start bytes
        omega
      exact divides ⟨start / bytes, by rw [Nat.mul_comm, exact_eq]⟩
  · rintro (divides | later)
    · rw [← Nat.div_mul_cancel divides]
      exact Nat.mul_le_mul_right bytes pages_le
    · have rounded := Nat.mul_le_mul_right bytes (Nat.succ_le_of_lt later)
      rw [Nat.succ_mul] at rounded
      omega

/-- Looking for the area of an address returns. -/
theorem Threaded.faultArea (threaded : Threaded vmm vmas) (addr errorCode : Nat) :
    ∃ outcome, vmm.faultArea addr errorCode = .ok outcome ∧
      ∀ node, outcome = .ok node → ∃ ptr ∈ vmas, node = vmm.nodes ptr ∧ node.start ≤ addr := by
  obtain ⟨found, loop_eq, spec⟩ :=
    @containsLoop_ends vmm [] vmas threaded.linked addr vmm.live.length threaded.heap.length_eq.le
  rw [VirtMemManager.faultArea, threaded.linked.head_eq, loop_eq]
  cases found with
  | none => exact ⟨_, rfl, fun node impossible => by cases impossible⟩
  | some ptr =>
      obtain ⟨mem, start_le⟩ := spec ptr rfl
      simp only [bind, Except.bind]
      split
      next => exact ⟨_, rfl, fun node impossible => by cases impossible⟩
      next =>
        refine ⟨_, rfl, fun node same => ?_⟩
        cases same
        exact ⟨ptr, mem, rfl, start_le⟩

/-- What remains of a page fault once its area is known. -/
theorem handlePageFault_of_area {node : VmaNode} {vmo : Nat}
    (area_eq : vmm.faultArea addr errorCode = .ok (.ok node))
    (backing_eq : node.backingVmo = some vmo) :
    (∃ outcome, vmm.handlePageFault env addr errorCode = .ok outcome) ↔
      ∀ phys, env.requestPage vmo (faultOffset node addr) = some phys →
        ∃ after, Pager.mapPage ⟨vmm.tables, env.frames⟩ vmm.l4Addr
          (andNot addr (pageMask node.flags)) phys (convertVmFlags node.flags)
          (blockSize node.flags) = .ok after := by
  rw [handlePageFault_eq area_eq, backing_eq]
  dsimp only
  cases request_eq : env.requestPage vmo (faultOffset node addr) with
  | none => exact ⟨fun _ phys impossible => (by cases impossible), fun _ => ⟨_, rfl⟩⟩
  | some phys =>
      dsimp only
      constructor
      · rintro ⟨outcome, outcome_eq⟩ other same
        cases same
        obtain ⟨after, map_eq, -⟩ := map_eq_ok.mp outcome_eq
        exact ⟨after, map_eq⟩
      · intro maps
        obtain ⟨after, map_eq⟩ := maps phys rfl
        exact ⟨_, map_eq_ok.mpr ⟨after, map_eq, rfl⟩⟩

theorem handlePageFault_of_refused {problem : FaultError}
    (area_eq : vmm.faultArea addr errorCode = .ok (.error problem)) :
    vmm.handlePageFault env addr errorCode = .ok (.error problem, vmm) := by
  obtain ⟨found, find_eq, rest_eq⟩ := bind_eq_ok.mp area_eq
  rw [VirtMemManager.handlePageFault, find_eq]
  cases found with
  | none =>
      cases rest_eq
      rfl
  | some ptr =>
      dsimp only at rest_eq
      split at rest_eq
      next refused =>
        cases rest_eq
        simp only [bind, Except.bind]
        rw [if_pos refused]
        rfl
      next => cases rest_eq

/-- The pager enters the page of a fault when the frame is aligned and page tables can be had. -/
theorem mapPage_rounded_iff {flags phys hwFlags : Nat}
    (fresh : FreshFrames vmm.tables vmm.l4Addr env.frames) :
    (∃ after, Pager.mapPage ⟨vmm.tables, env.frames⟩ vmm.l4Addr (andNot addr (pageMask flags)) phys
        hwFlags (blockSize flags) = .ok after) ↔
      (blockSize flags).bytes ∣ phys ∧
        missingTables vmm.tables vmm.l4Addr (andNot addr (pageMask flags)) (blockSize flags) ≤
          env.frames.length := by
  have rounded : (blockSize flags).bytes ∣ andNot addr (pageMask flags) := by
    rw [pageMask_eq, andNot_bytes]
    exact Nat.dvd_mul_left _ _
  rw [← mapPage_ok_iff fresh]
  constructor
  · rintro ⟨after, map_eq⟩
    obtain ⟨⟨⟩, phys_eq, map_eq⟩ := bind_eq_ok.mp map_eq
    obtain ⟨⟨⟩, -, map_eq⟩ := bind_eq_ok.mp map_eq
    exact ⟨assertPhys_ok_iff.mp phys_eq, after, map_eq⟩
  · rintro ⟨aligned, after, map_eq⟩
    refine ⟨after, ?_⟩
    rw [Pager.mapPage, assertPhys_ok_iff.mpr aligned, Pager.assertVirt_ok rounded]
    exact map_eq

/-- In a list of mapped objects a page fault survives exactly when it fits the area it meets. -/
theorem Threaded.survives_iff (threaded : Threaded vmm vmas) (user : addr < 2 ^ 47)
    (fresh : FreshFrames vmm.tables vmm.l4Addr env.frames) :
    FaultSurvives vmm env addr errorCode ↔
      ∀ node, vmm.faultArea addr errorCode = .ok (.ok node) → FaultFits vmm env addr node := by
  obtain ⟨outcome, area_eq, found⟩ := threaded.faultArea addr errorCode
  cases outcome with
  | error problem =>
      have none_found (node : VmaNode) : vmm.faultArea addr errorCode ≠ .ok (.ok node) := by
        rw [area_eq]
        nofun
      refine iff_of_true ⟨⟨_, handlePageFault_of_refused area_eq⟩, ?_, ?_⟩ ?_
      · exact fun node met => absurd met (none_found node)
      · exact fun node met => absurd met (none_found node)
      · exact fun node met => absurd met (none_found node)
  | ok node =>
      obtain ⟨ptr, mem, rfl, start_le⟩ := found node rfl
      obtain ⟨vmo, backing_eq⟩ := threaded.backed ptr mem
      have only (other : VmaNode) (met : vmm.faultArea addr errorCode = .ok (.ok other)) :
          other = vmm.nodes ptr := by
        rw [area_eq] at met
        cases met
        rfl
      have page_eq : andNot addr (pageMask (vmm.nodes ptr).flags) =
          addr / (blockSize (vmm.nodes ptr).flags).bytes *
            (blockSize (vmm.nodes ptr).flags).bytes := by
        rw [pageMask_eq, andNot_bytes]
      have page_le : andNot addr (pageMask (vmm.nodes ptr).flags) ≤ addr := by
        rw [page_eq]
        exact Nat.div_mul_le_self _ _
      have later_iff := le_round_iff (bytes_pos (blockSize (vmm.nodes ptr).flags)) start_le
      rw [← page_eq] at later_iff
      have returns_iff := (handlePageFault_of_area area_eq backing_eq).trans
        (forall₂_congr fun phys _ => mapPage_rounded_iff fresh)
      constructor
      · rintro ⟨returns, later, -⟩ other met
        obtain rfl := only other met
        refine ⟨later_iff.mp (later _ met), fun other phys other_eq request_eq => ?_⟩
        rw [backing_eq] at other_eq
        cases other_eq
        exact returns_iff.mp returns phys request_eq
      · intro fits
        have met := fits _ area_eq
        refine ⟨returns_iff.mpr (met.frame vmo · backing_eq), ?_, ?_⟩
        · intro other other_met
          obtain rfl := only other other_met
          exact later_iff.mpr met.later
        · intro other other_met
          obtain rfl := only other other_met
          rw [threaded.offset ptr mem, wordSize]
          omega

end Faults

end VirtMemManager
end Vespertine
