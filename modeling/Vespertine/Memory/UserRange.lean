import Vespertine.Library.Transition
import Vespertine.Memory.VmaList

/-!
# User mappings and the user address range

A process maps memory objects with `MapIntoProc`, unmaps areas and takes page faults, in any order
and with any 64-bit arguments.  Neither the address nor the length of a request is checked against
the user range: the chosen-address path has no bound at all, the empty-list path ignores the size,
the tail-gap subtraction and the rounding of the length wrap.  `StaysInRange` is what the address
space should keep; `RequestFits` is exactly what the caller has to respect for it.
-/

namespace Vespertine
namespace VirtMemManager

/-- `VmoOp::MapIntoProc`: address zero lets the kernel choose. -/
def mapIntoProc (vmm : VirtMemManager) (vaddr len vmFlags vmo nodePtr : Nat) :
    Kernel (Except InvocationError Nat × VirtMemManager) := do
  let place := if vaddr = 0 then vmm.mmapVmo len vmFlags vmo nodePtr
    else vmm.mmapVmoAt vaddr len vmFlags vmo nodePtr
  let (mapped, vmm) ← place
  match mapped with
  | some addr => return (.ok addr, vmm)
  | none => return (.error .OutOfMemory, vmm)

/-- `ProcOp::Unmap`. -/
def unmap (vmm : VirtMemManager) (vaddr len : Nat) :
    Kernel (Except InvocationError Nat × VirtMemManager) := do
  let (result, vmm) ← vmm.munmap vaddr len
  match result with
  | .ok () => return (.ok 0, vmm)
  | .error _ => return (.error .InvalidArgument, vmm)

/-- Address space events of a user process; `nodePtr` and `env` are what the kernel heap, the page
allocator and the memory object answer. -/
inductive UserEvent
  | mapIntoProc (vaddr len vmFlags vmo nodePtr : Nat)
  | unmap (vaddr len : Nat)
  | pageFault (env : FaultEnv) (addr errorCode : Nat)

/-- The address space after an event. -/
def react (vmm : VirtMemManager) : UserEvent → Kernel VirtMemManager
  | .mapIntoProc vaddr len vmFlags vmo nodePtr =>
      (vmm.mapIntoProc vaddr len vmFlags vmo nodePtr).map Prod.snd
  | .unmap vaddr len => (vmm.unmap vaddr len).map Prod.snd
  | .pageFault env addr errorCode => (vmm.handlePageFault env addr errorCode).map Prod.snd

/-- Every area of the list is nonempty, page aligned and in the user range, and no page was entered
through the kernel half of the root table. -/
def StaysInRange (vmm : VirtMemManager) : Prop :=
  (∃ vmas, (links vmm.nodes).IsList vmm.head vmas ∧ ∀ ptr ∈ vmas,
    0 < (vmm.nodes ptr).size ∧ NORMAL_PAGE_SIZE ∣ (vmm.nodes ptr).start ∧
      NORMAL_PAGE_SIZE ∣ (vmm.nodes ptr).size ∧ endOf (vmm.nodes ptr) ≤ VM_MAX_ALLOWED) ∧
  ∀ virt phys size, .mapPage virt phys size ∈ vmm.effects → (getIdxs virt).l4 < 256

/-- Any words may be passed; the kernel heap hands out a node that is not in use. -/
def AnyRequest (vmm : VirtMemManager) : UserEvent → Prop
  | .mapIntoProc vaddr len vmFlags _ nodePtr =>
      vaddr < wordSize ∧ len < wordSize ∧ vmFlags < wordSize ∧ nodePtr ∉ vmm.live
  | .unmap vaddr len => vaddr < wordSize ∧ len < wordSize
  | .pageFault _ addr _ => addr < wordSize

/-- The request meets an area that is already mapped, so that it is refused. -/
def Overlaps (vmm : VirtMemManager) (vaddr size : Nat) : Prop :=
  ∃ ptr ∈ vmm.live, (vmm.nodes ptr).start ≤ vaddr ∧ vaddr < endOf (vmm.nodes ptr) ∨
    vaddr < (vmm.nodes ptr).start ∧ (vmm.nodes ptr).start < wrappingAdd vaddr size

/-- The request leaves the user range alone. -/
def RequestFits (vmm : VirtMemManager) (vaddr len vmFlags : Nat) : Prop :=
  if vaddr = 0 then
    let size := exactRound len (blockSize vmFlags)
    0 < len ∧ size < wordSize ∧ (vmm.head = none → VM_BASE_ADDR + size ≤ VM_MAX_ALLOWED) ∧
      (GapBefore vmm size ∨ (∃ ptr ∈ vmm.live, GapBehind vmm size (pageMask vmFlags) ptr) ∨
        ∀ last ∈ vmm.live, (vmm.nodes last).next = none →
          vmm.tailBase last (pageMask vmFlags) ≤ VM_MAX_ALLOWED ∨
            wrappingSub VM_MAX_ALLOWED (vmm.tailBase last (pageMask vmFlags)) < size)
  else
    Overlaps vmm vaddr (roundUp len (NORMAL_PAGE_SIZE - 1)) ∨
      0 < len ∧ NORMAL_PAGE_SIZE ∣ vaddr ∧ vaddr + exactRound len .Normal ≤ VM_MAX_ALLOWED

/-- Every mapping request leaves the user range alone. -/
def FittingRequest (vmm : VirtMemManager) (event : UserEvent) : Prop :=
  AnyRequest vmm event ∧ match event with
    | .mapIntoProc vaddr len vmFlags _ _ => RequestFits vmm vaddr len vmFlags
    | _ => True

/-- A process under the given restriction on its requests. -/
def process (allowed : VirtMemManager → UserEvent → Prop) :
    Machine VirtMemManager UserEvent Panic := ⟨react, allowed⟩

/-- The list of areas with every area in the user range. -/
structure Confined (vmm : VirtMemManager) (vmas : List Nat) : Prop where
  /-- The areas form an ordered list. -/
  list : VmaList vmm vmas
  /-- Areas start and end at page boundaries. -/
  pages : ∀ ptr ∈ vmas, NORMAL_PAGE_SIZE ∣ (vmm.nodes ptr).start ∧
    NORMAL_PAGE_SIZE ∣ (vmm.nodes ptr).size
  /-- Areas end in the user range. -/
  below : ∀ ptr ∈ vmas, endOf (vmm.nodes ptr) ≤ VM_MAX_ALLOWED
  /-- Pages were entered through the user half only. -/
  entered : ∀ virt phys size, .mapPage virt phys size ∈ vmm.effects → (getIdxs virt).l4 < 256

theorem Confined.staysInRange {vmm : VirtMemManager} {vmas : List Nat}
    (confined : Confined vmm vmas) : StaysInRange vmm := by
  refine ⟨⟨vmas, confined.list.linked, fun ptr mem => ?_⟩, confined.entered⟩
  exact ⟨confined.list.nonempty ptr mem, (confined.pages ptr mem).1, (confined.pages ptr mem).2,
    confined.below ptr mem⟩

theorem insertNode_effects (vmm : VirtMemManager) (nodePtr : Nat) (node : VmaNode) :
    (vmm.insertNode nodePtr node).effects = vmm.effects := by
  simp only [insertNode, setNext, setPrev]
  cases node.prev <;> cases node.next <;> rfl

theorem normal_dvd_bytes (size : BlockSize) : NORMAL_PAGE_SIZE ∣ size.bytes := by
  cases size <;> decide

/-- A placed area in the user range keeps the address space confined. -/
theorem Confined.placed {vmm next : VirtMemManager} {vmas : List Nat} {nodePtr : Nat}
    {area : VmaNode} (confined : Confined vmm vmas) (placed : Placed vmm next vmas nodePtr area)
    (effects_eq : next.effects = vmm.effects) (start_page : NORMAL_PAGE_SIZE ∣ area.start)
    (size_page : NORMAL_PAGE_SIZE ∣ area.size) (below : endOf area ≤ VM_MAX_ALLOWED) :
    ∃ vmas', Confined next vmas' := by
  obtain ⟨front, back, rfl, list⟩ := placed.list
  refine ⟨_, list, fun ptr mem => ?_, fun ptr mem => ?_, by rw [effects_eq]; exact confined.entered⟩
  · rcases List.mem_cons.mp (List.perm_middle.mem_iff.mp mem) with rfl | mem
    · rw [start_of_content placed.own, size_of_content placed.own]
      exact ⟨start_page, size_page⟩
    · rw [start_of_content (placed.others ptr mem), size_of_content (placed.others ptr mem)]
      exact confined.pages ptr mem
  · rcases List.mem_cons.mp (List.perm_middle.mem_iff.mp mem) with rfl | mem
    · rw [endOf_of_content placed.own]
      exact below
    · rw [endOf_of_content (placed.others ptr mem)]
      exact confined.below ptr mem

/-- Under the caller's restriction, the gap that is chosen ends in the user range. -/
theorem Confined.gap_below {vmm : VirtMemManager} {vmas : List Nat} (confined : Confined vmm vmas)
    {size flags : Nat} {gap : Gap}
    (empty_fits : vmm.head = none → VM_BASE_ADDR + size ≤ VM_MAX_ALLOWED)
    (tail_fits : GapBefore vmm size ∨
      (∃ ptr ∈ vmm.live, GapBehind vmm size (pageMask flags) ptr) ∨
        ∀ last ∈ vmm.live, (vmm.nodes last).next = none →
          vmm.tailBase last (pageMask flags) ≤ VM_MAX_ALLOWED ∨
            wrappingSub VM_MAX_ALLOWED (vmm.tailBase last (pageMask flags)) < size)
    (gap_eq : vmm.findGap size (pageMask flags) = .ok (some gap)) :
    gap.start + size ≤ VM_MAX_ALLOWED := by
  obtain ⟨result, search_eq, outcome, noGap⟩ := search_spec confined.list.areas size flags
  simp only [findGap, search_eq, bind, Except.bind] at gap_eq
  cases result with
  | found other =>
      obtain rfl : other = gap := by cases gap_eq; rfl
      obtain ⟨-, front, back, rfl, opening, only⟩ := outcome
      cases back with
      | nil =>
          obtain ⟨empty, start_eq⟩ := only rfl
          rw [start_eq]
          apply empty_fits
          rw [confined.list.linked.head_eq, empty]
          rfl
      | cons next back =>
          have next_mem : next ∈ front ++ next :: back := by simp
          have below := confined.below next next_mem
          have fits := opening.after next (by simp)
          rw [endOf] at below
          omega
  | exhausted last =>
      obtain ⟨noBefore, noBehind⟩ := noGap last rfl
      obtain ⟨last_eq, nonempty⟩ := outcome
      obtain ⟨front, last, rfl⟩ := List.eq_nil_or_concat vmas |>.resolve_left nonempty
      rw [List.concat_eq_append, List.getLast?_concat] at last_eq
      rw [List.concat_eq_append] at confined noBehind
      subst last_eq
      have last_mem : last ∈ vmm.live := confined.list.heap.mem_iff.mp (by simp)
      have next_eq : (vmm.nodes last).next = none := confined.list.linked.neighbours.2
      have base_ok := (tail_fits.resolve_left noBefore).resolve_left (by
        rintro ⟨ptr, mem, behind⟩
        exact noBehind ptr (confined.list.heap.mem_iff.mpr mem) behind) last last_mem next_eq
      simp only at gap_eq
      split at gap_eq
      next room =>
        obtain rfl : _ = gap := by simpa [pure, Except.pure] using gap_eq
        rcases base_ok with base_le | refused
        · rw [wrappingSub_of_le base_le (by decide)] at room
          dsimp only
          omega
        · omega
      next => cases gap_eq

theorem mmapInternal_gap {vmm next : VirtMemManager} {size flags vmoOffset nodePtr start : Nat}
    {backingVmo : Option Nat}
    (call_eq : vmm.mmapInternal size flags backingVmo vmoOffset nodePtr = .ok (some start, next)) :
    next.effects = vmm.effects ∧
      ∃ gap, vmm.findGap (roundUp size (pageMask flags)) (pageMask flags) = .ok (some gap) ∧
        gap.start = start := by
  obtain ⟨found, gap_eq, result_eq⟩ := bind_eq_ok.mp call_eq
  cases found with
  | none => cases result_eq
  | some gap =>
      cases result_eq
      exact ⟨insertNode_effects _ _ _, gap, gap_eq, rfl⟩

/-- Mapping at an address the kernel chooses keeps the address space confined. -/
theorem Confined.mmapVmo {vmm next : VirtMemManager} {vmas : List Nat}
    (confined : Confined vmm vmas) {len vmFlags vmo nodePtr : Nat} {result : Option Nat}
    (word : len < wordSize) (fresh : nodePtr ∉ vmm.live) (fits : RequestFits vmm 0 len vmFlags)
    (call_eq : vmm.mmapVmo len vmFlags vmo nodePtr = .ok (result, next)) :
    ∃ vmas', Confined next vmas' := by
  rw [RequestFits, if_pos rfl] at fits
  obtain ⟨positive, exact_lt, empty_fits, tail_fits⟩ := fits
  have size_eq : roundUp len (pageMask vmFlags) = exactRound len (blockSize vmFlags) := by
    rw [pageMask_eq]
    rcases roundUp_cases word (blockSize vmFlags) with ⟨exact_eq, -⟩ | ⟨-, wraps⟩
    · exact exact_eq
    · omega
  have below (start : Nat) (after : VirtMemManager)
      (some_eq : vmm.mmapInternal len vmFlags (some vmo) 0 nodePtr = .ok (some start, after)) :
      start + exactRound len (blockSize vmFlags) ≤ VM_MAX_ALLOWED := by
    obtain ⟨-, gap, gap_eq, rfl⟩ := mmapInternal_gap some_eq
    rw [size_eq] at gap_eq
    exact confined.gap_below empty_fits tail_fits gap_eq
  have top : VM_MAX_ALLOWED + 2 ^ 21 ≤ wordSize := by decide
  rcases mmapInternal_spec confined.list fresh positive word (fun start after some_eq => by
      have start_below := below start after some_eq
      omega) with none_eq | ⟨start, after, some_eq, aligned, placed⟩
  · rw [VirtMemManager.mmapVmo, none_eq] at call_eq
    cases call_eq
    exact ⟨vmas, confined⟩
  · have effects_eq := (mmapInternal_gap some_eq).1
    have start_below := below start after some_eq
    rw [VirtMemManager.mmapVmo, some_eq] at call_eq
    cases call_eq
    exact confined.placed placed effects_eq ((normal_dvd_bytes _).trans aligned)
      ((normal_dvd_bytes _).trans (dvd_exactRound _ _)) start_below

/-- A request that meets a mapped area is refused. -/
theorem mmapVmoAt_of_overlaps {vmm : VirtMemManager} {vmas : List Nat} (list : VmaList vmm vmas)
    {startAddr size flags backingVmo nodePtr : Nat}
    (overlaps : Overlaps vmm startAddr (roundUp size (NORMAL_PAGE_SIZE - 1))) :
    vmm.mmapVmoAt startAddr size flags backingVmo nodePtr = .ok (none, vmm) := by
  obtain ⟨front, back, split_eq, loop_eq, front_le, back_gt⟩ :=
    spotLoop_spec (show AreaList vmm ([] ++ vmas) from list.areas)
      (le_of_eq list.heap.length_eq)
      (show ∀ ptr ∈ [], (vmm.nodes ptr).start ≤ startAddr by simp)
  rw [List.nil_append] at split_eq
  subst split_eq
  rw [List.getLast?_nil, ← list.linked.head_eq] at loop_eq
  simp only [mmapVmoAt, loop_eq, bind, Except.bind]
  obtain ⟨ptr, live_mem, met⟩ := overlaps
  have mem := list.heap.mem_iff.mpr live_mem
  rcases met with ⟨start_le, lt_end⟩ | ⟨lt_start, start_lt⟩
  · -- The area that contains the address lies before the spot, so the last one there overlaps.
    have in_front : ptr ∈ front := by
      rcases List.mem_append.mp mem with inFront | inBack
      · exact inFront
      · cases back with
        | nil => simp at inBack
        | cons next back =>
            have order := list.areas.start_le ptr inBack
            have beyond := back_gt next rfl
            omega
    obtain ⟨earlier, last, rfl⟩ := List.eq_nil_or_concat front |>.resolve_left (by
      rintro rfl
      simp at in_front)
    rw [List.concat_eq_append] at list in_front ⊢
    have overlap : vmm.overlapsPrev startAddr (earlier ++ [last]).getLast? = true := by
      rw [List.getLast?_concat, overlapsPrev, list.areas.end_fits (by simp)]
      rw [List.append_assoc] at list
      have end_le := list.areas.ends_le ptr in_front
      simpa using lt_of_lt_of_le lt_end end_le
    rw [if_pos overlap]
    rfl
  · -- The area starts behind the address, so the first one there starts in the request.
    have in_back : ptr ∈ back := by
      rcases List.mem_append.mp mem with inFront | inBack
      · have order := front_le ptr inFront
        omega
      · exact inBack
    cases back with
    | nil => simp at in_back
    | cons next back =>
        have order := list.areas.start_le ptr in_back
        have overlap : vmm.overlapsNext startAddr (roundUp size (NORMAL_PAGE_SIZE - 1))
            (next :: back).head? = true := by
          rw [List.head?_cons, overlapsNext]
          simpa using lt_of_le_of_lt order start_lt
        rw [if_pos overlap]
        split <;> rfl

theorem mmapVmoAt_effects {vmm next : VirtMemManager} {startAddr size flags vmo nodePtr : Nat}
    {result : Option Nat}
    (call_eq : vmm.mmapVmoAt startAddr size flags vmo nodePtr = .ok (result, next)) :
    next.effects = vmm.effects := by
  obtain ⟨⟨prev, behind⟩, -, rest_eq⟩ := bind_eq_ok.mp call_eq
  dsimp only at rest_eq
  split at rest_eq
  · cases rest_eq
    rfl
  · split at rest_eq
    · cases rest_eq
      rfl
    · cases rest_eq
      exact insertNode_effects _ _ _

/-- Mapping at a chosen address keeps the address space confined. -/
theorem Confined.mmapVmoAt {vmm next : VirtMemManager} {vmas : List Nat}
    (confined : Confined vmm vmas) {vaddr len vmFlags vmo nodePtr : Nat} {result : Option Nat}
    (chosen : vaddr ≠ 0) (fresh : nodePtr ∉ vmm.live)
    (fits : RequestFits vmm vaddr len vmFlags)
    (call_eq : vmm.mmapVmoAt vaddr len vmFlags vmo nodePtr = .ok (result, next)) :
    ∃ vmas', Confined next vmas' := by
  rw [RequestFits, if_neg chosen] at fits
  rcases fits with overlaps | ⟨positive, page, below⟩
  · rw [mmapVmoAt_of_overlaps confined.list overlaps] at call_eq
    cases call_eq
    exact ⟨vmas, confined⟩
  · have top : VM_MAX_ALLOWED + 2 ^ 21 ≤ wordSize := by decide
    have effects_eq := mmapVmoAt_effects call_eq
    rcases mmapVmoAt_spec confined.list fresh positive
        (show vaddr + exactRound len .Normal + 2 ^ 21 ≤ wordSize by omega) with
      none_eq | ⟨after, some_eq, placed⟩
    · rw [none_eq] at call_eq
      cases call_eq
      exact ⟨vmas, confined⟩
    · rw [some_eq] at call_eq
      cases call_eq
      exact confined.placed placed effects_eq page (dvd_exactRound _ _) below

/-- The effect enters a page. -/
def isMap : Effect → Bool
  | .mapPage .. => true
  | _ => false

theorem mem_of_filter_eq {before after : List Effect}
    (same : after.filter isMap = before.filter isMap)
    {virt phys : Nat} {size : BlockSize} (mem : .mapPage virt phys size ∈ after) :
    .mapPage virt phys size ∈ before := by
  have kept : .mapPage virt phys size ∈ after.filter isMap := List.mem_filter.mpr ⟨mem, rfl⟩
  rw [same] at kept
  exact (List.mem_filter.mp kept).1

theorem unmapOne_enters {l4Addr : Nat} {block : BlockSize} {batch after : Batch}
    (one_eq : unmapOne l4Addr block batch = .ok after) :
    after.effects.filter isMap = batch.effects.filter isMap := by
  rw [unmapOne] at one_eq
  split at one_eq
  · cases one_eq
    rfl
  · obtain ⟨tables, -, after_eq⟩ := bind_eq_ok.mp one_eq
    cases after_eq
    simp [isMap]

theorem unmapBatch_enters {l4Addr endPage step fuel : Nat} {block : BlockSize}
    {batch after : Batch} (batch_eq : unmapBatch l4Addr endPage step block fuel batch = .ok after) :
    after.effects.filter isMap = batch.effects.filter isMap := by
  induction fuel generalizing batch with
  | zero =>
      rw [unmapBatch] at batch_eq
      split at batch_eq
      · cases batch_eq
      · cases batch_eq
        rfl
  | succ fuel ih =>
      rw [unmapBatch] at batch_eq
      split at batch_eq
      · obtain ⟨cleared, one_eq, rest_eq⟩ := bind_eq_ok.mp batch_eq
        have cleared_eq := unmapOne_enters one_eq
        rw [ih rest_eq]
        exact cleared_eq
      · cases batch_eq
        rfl

theorem finishBatch_enters (batchStart : Nat) (block : BlockSize) (anonymous : Bool)
    (batch : Batch) :
    (finishBatch batchStart block anonymous batch).effects.filter isMap =
      batch.effects.filter isMap := by
  have frees : (batch.physBatch.map (Effect.free · block)).filter isMap = [] := by
    rw [List.filter_eq_nil_iff]
    intro effect mem
    obtain ⟨phys, -, rfl⟩ := List.mem_map.mp mem
    simp [isMap]
  rw [finishBatch]
  split
  · cases anonymous <;> simp [isMap, frees]
  · rfl

/-- Unmapping pages enters none. -/
theorem unmapPages_enters {l4Addr endPage step pages fuel : Nat} {block : BlockSize}
    {anonymous : Bool} {batch after : Batch}
    (pages_eq : unmapPages l4Addr endPage step pages block anonymous fuel batch = .ok after) :
    after.effects.filter isMap = batch.effects.filter isMap := by
  induction fuel generalizing batch with
  | zero =>
      rw [unmapPages] at pages_eq
      split at pages_eq
      · cases pages_eq
      · cases pages_eq
        rfl
  | succ fuel ih =>
      rw [unmapPages] at pages_eq
      split at pages_eq
      · obtain ⟨next, batch_eq, rest_eq⟩ := bind_eq_ok.mp pages_eq
        rw [ih rest_eq, finishBatch_enters, unmapBatch_enters batch_eq]
      · cases pages_eq
        rfl

theorem detach_effects (vmm : VirtMemManager) (ptr : Nat) :
    (vmm.detach ptr).effects = vmm.effects := by
  simp only [detach, setNext, setPrev]
  cases (vmm.nodes ptr).prev <;> cases (vmm.nodes ptr).next <;> rfl

/-- Unmapping an area keeps the address space confined. -/
theorem Confined.munmap {vmm next : VirtMemManager} {vmas : List Nat}
    (confined : Confined vmm vmas) {startAddr size : Nat} {result : Except String Unit}
    (call_eq : vmm.munmap startAddr size = .ok (result, next)) : ∃ vmas', Confined next vmas' := by
  rcases munmap_cases confined.list startAddr size with ⟨message, error_eq, -⟩ |
    ⟨front, ptr, back, rfl, -, -, munmap_eq⟩
  · rw [error_eq] at call_eq
    cases call_eq
    exact ⟨vmas, confined⟩
  · rw [munmap_eq] at call_eq
    obtain ⟨unmapped, unmap_eq, next_eq⟩ := map_eq_ok.mp call_eq
    cases next_eq
    have removed := confined.list.removed unmap_eq
    have entered : unmapped.effects.filter isMap = vmm.effects.filter isMap := by
      obtain ⟨batch, pages_eq, after_eq⟩ := bind_eq_ok.mp unmap_eq
      cases after_eq
      rw [unmapPages_enters pages_eq, detach_effects]
    have older (other : Nat) (mem : other ∈ front ++ back) : other ∈ front ++ ptr :: back := by
      rcases List.mem_append.mp mem with earlier | later <;> simp [*]
    refine ⟨_, removed.list, fun other mem => ?_, fun other mem => ?_,
      fun virt phys block mem => ?_⟩
    · rw [start_of_content (removed.others other), size_of_content (removed.others other)]
      exact confined.pages other (older other mem)
    · rw [endOf_of_content (removed.others other)]
      exact confined.below other (older other mem)
    · exact confined.entered virt phys block (mem_of_filter_eq entered mem)

theorem containsLoop_spec {vmm : VirtMemManager} {front rest : List Nat} {addr fuel : Nat}
    {found : Nat} (list : AreaList vmm (front ++ rest))
    (loop_eq : vmm.containsLoop addr fuel rest.head? = .ok (some found)) :
    found ∈ rest ∧ (vmm.nodes found).start ≤ addr ∧ addr < endOf (vmm.nodes found) := by
  induction rest generalizing front fuel with
  | nil => simp [containsLoop] at loop_eq
  | cons curr rest ih =>
      cases fuel with
      | zero => simp [containsLoop] at loop_eq
      | succ fuel =>
          have shifted : front ++ curr :: rest = (front ++ [curr]) ++ rest := by simp
          have next_eq : (vmm.nodes curr).next = rest.head? := list.linked.neighbours.2
          simp only [List.head?_cons, containsLoop, next_eq,
            list.end_fits (show curr ∈ _ by simp)] at loop_eq
          split at loop_eq
          next inside =>
            cases loop_eq
            exact ⟨List.mem_cons_self, inside⟩
          next =>
            obtain ⟨mem, inside⟩ := ih (shifted ▸ list) loop_eq
            exact ⟨List.mem_cons_of_mem _ mem, inside⟩

/-- Page faults resolved in confined areas enter pages of the user half only. -/
theorem Confined.handlePageFault {vmm next : VirtMemManager} {vmas : List Nat}
    (confined : Confined vmm vmas) {env : FaultEnv} {addr errorCode : Nat}
    {result : Except FaultError Unit}
    (call_eq : vmm.handlePageFault env addr errorCode = .ok (result, next)) :
    Confined next vmas := by
  obtain ⟨found, loop_eq, rest_eq⟩ := bind_eq_ok.mp call_eq
  cases found with
  | none =>
      cases rest_eq
      exact confined
  | some ptr =>
      rw [confined.list.linked.head_eq] at loop_eq
      obtain ⟨mem, -, lt_end⟩ :=
        containsLoop_spec (show AreaList vmm ([] ++ vmas) from confined.list.areas) loop_eq
      have below := confined.below ptr mem
      dsimp only at rest_eq
      split at rest_eq
      · cases rest_eq
        exact confined
      · split at rest_eq
        · cases rest_eq
          exact confined
        next phys frame_eq =>
          obtain ⟨state, -, next_eq⟩ := bind_eq_ok.mp rest_eq
          cases next_eq
          have kept : VmaList { vmm with
              tables := state.tables
              effects := vmm.effects ++ [.mapPage (andNot addr (pageMask (vmm.nodes ptr).flags))
                phys (blockSize (vmm.nodes ptr).flags), .flushTlb addr] } vmas :=
            ⟨confined.list.linked, confined.list.ordered, confined.list.nonempty,
              confined.list.bounded, confined.list.heap⟩
          refine ⟨kept, confined.pages, confined.below, fun virt frame block entered => ?_⟩
          rcases List.mem_append.mp entered with old | new
          · exact confined.entered virt frame block old
          · have virt_eq : virt = andNot addr (pageMask (vmm.nodes ptr).flags) := by
              simp only [List.mem_cons, Effect.mapPage.injEq, List.not_mem_nil, or_false,
                reduceCtorEq] at new
              exact new.1
            have rounded : virt ≤ addr := by
              rw [virt_eq, pageMask_eq, andNot_bytes]
              exact Nat.div_mul_le_self _ _
            have user : virt < 2 ^ 47 := by
              simp only [VM_MAX_ALLOWED] at below
              omega
            rw [getIdxs_l4]
            omega

/-- Every allowed event keeps the address space confined. -/
theorem react_confined {vmm next : VirtMemManager} {event : UserEvent}
    (holds : ∃ vmas, Confined vmm vmas) (allowed : FittingRequest vmm event)
    (react_eq : vmm.react event = .ok next) : ∃ vmas, Confined next vmas := by
  obtain ⟨vmas, confined⟩ := holds
  obtain ⟨words, fits⟩ := allowed
  cases event with
  | mapIntoProc vaddr len vmFlags vmo nodePtr =>
      obtain ⟨⟨result, after⟩, call_eq, rfl⟩ := map_eq_ok.mp react_eq
      obtain ⟨⟨mapped, mapped_vmm⟩, place_eq, rest_eq⟩ := bind_eq_ok.mp call_eq
      have same : mapped_vmm = after := by
        cases mapped <;> cases rest_eq <;> rfl
      subst same
      obtain ⟨-, len_word, -, fresh⟩ := words
      by_cases chosen : vaddr = 0
      · subst chosen
        exact confined.mmapVmo len_word fresh fits place_eq
      · rw [if_neg chosen] at place_eq
        exact confined.mmapVmoAt chosen fresh fits place_eq
  | unmap vaddr len =>
      obtain ⟨⟨result, after⟩, call_eq, rfl⟩ := map_eq_ok.mp react_eq
      obtain ⟨⟨outcome, unmapped⟩, munmap_eq, rest_eq⟩ := bind_eq_ok.mp call_eq
      have same : unmapped = after := by
        cases outcome <;> cases rest_eq <;> rfl
      subst same
      exact confined.munmap munmap_eq
  | pageFault env addr errorCode =>
      obtain ⟨⟨result, after⟩, call_eq, rfl⟩ := map_eq_ok.mp react_eq
      exact ⟨vmas, confined.handlePageFault call_eq⟩

/-- In every run whose mapping requests fit, every state reached stays in the user range. -/
theorem requests_stay_in_range {nodes : Nat → VmaNode} {l4Addr : Nat} {tables : Tables}
    {final : VirtMemManager} {events : List UserEvent}
    (permits : (process FittingRequest).Permits (new nodes l4Addr tables) events)
    (run_eq : (process FittingRequest).run (new nodes l4Addr tables) events = .ok final) :
    StaysInRange final := by
  have start : ∃ vmas, Confined (new nodes l4Addr tables) vmas :=
    ⟨[], new_list nodes l4Addr tables, by simp, by simp, by simp [new]⟩
  obtain ⟨vmas, confined⟩ := (process FittingRequest).run_keeps
    (fun state event next holds allowed step_eq => react_confined holds allowed step_eq) start
    permits run_eq
  exact confined.staysInRange

/-- A new process: no areas, an empty root table at `0x1000`. -/
def newProcess : VirtMemManager :=
  new (fun _ => ⟨0, 0, 0, none, none, none, 0⟩) 0x1000 fun _ _ => .unused

/-- The memory object has frame `0x5000`, page tables get `0x6000` and up. -/
def oneFrame : FaultEnv := ⟨fun _ _ => some 0x5000, 0, [0x6000, 0x7000, 0x8000]⟩

/-- A page mapped in the user range and touched. -/
theorem requests_stay_in_range_one_page :
    ∃ final, (process FittingRequest).run newProcess
        [.mapIntoProc 0 0x1000 (VM_FLAG_WRITE ||| VM_FLAG_USER) 3 7,
          .pageFault oneFrame VM_BASE_ADDR 2] = .ok final ∧ StaysInRange final := by
  have permits : (process FittingRequest).Permits newProcess
      [.mapIntoProc 0 0x1000 (VM_FLAG_WRITE ||| VM_FLAG_USER) 3 7,
        .pageFault oneFrame VM_BASE_ADDR 2] := by
    refine ⟨⟨⟨by decide, by decide, by decide, by simp [newProcess, new]⟩, ?_⟩, fun next _ =>
      ⟨⟨show VM_BASE_ADDR < wordSize by decide, trivial⟩, fun _ _ => trivial⟩⟩
    change RequestFits newProcess 0 0x1000 (VM_FLAG_WRITE ||| VM_FLAG_USER)
    rw [RequestFits, if_pos rfl]
    exact ⟨by decide, by decide, fun _ => by decide, .inr (.inr (by simp [newProcess, new]))⟩
  cases run_eq : (process FittingRequest).run newProcess
      [.mapIntoProc 0 0x1000 (VM_FLAG_WRITE ||| VM_FLAG_USER) 3 7,
        .pageFault oneFrame VM_BASE_ADDR 2] with
  | ok final => exact ⟨final, rfl, requests_stay_in_range permits run_eq⟩
  | error panic =>
      have returns : ((process FittingRequest).run newProcess
          [.mapIntoProc 0 0x1000 (VM_FLAG_WRITE ||| VM_FLAG_USER) 3 7,
            .pageFault oneFrame VM_BASE_ADDR 2]).map (fun _ => ()) = .ok () := by rfl
      rw [run_eq] at returns
      cases returns

/-- A page requested at the first kernel address is mapped there, and touching it enters a page
through the kernel half of the root table. -/
theorem kernel_half_mapped :
    ¬∀ events final, (process AnyRequest).Permits newProcess events →
      (process AnyRequest).run newProcess events = .ok final → StaysInRange final := by
  intro stays
  have permits : (process AnyRequest).Permits newProcess
      [.mapIntoProc 0xFFFF800000000000 0x1000 (VM_FLAG_WRITE ||| VM_FLAG_USER) 3 7,
        .pageFault oneFrame 0xFFFF800000000000 2] :=
    ⟨⟨by decide, by decide, by decide, by simp [newProcess, new]⟩, fun next _ =>
      ⟨show 0xFFFF800000000000 < wordSize by decide, fun _ _ => trivial⟩⟩
  have entered : ((process AnyRequest).run newProcess
      [.mapIntoProc 0xFFFF800000000000 0x1000 (VM_FLAG_WRITE ||| VM_FLAG_USER) 3 7,
        .pageFault oneFrame 0xFFFF800000000000 2]).map effects =
      .ok [.mapPage 0xFFFF800000000000 0x5000 .Normal, .flushTlb 0xFFFF800000000000] := by rfl
  obtain ⟨final, run_eq, effects_eq⟩ := map_eq_ok.mp entered
  have inRange := (stays _ final permits run_eq).2 0xFFFF800000000000 0x5000 .Normal
    (by rw [effects_eq]; exact List.mem_cons_self)
  exact absurd inRange (by decide)

end VirtMemManager
end Vespertine
