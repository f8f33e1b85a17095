import Mathlib.Data.Set.Insert
import Vespertine.Memory.UserRange

/-!
# Backing of areas

Which memory objects the areas of an address space refer to, and which frames it maps.  `Backed`
follows the pointers of the area list without asking that they form a list: every node that can be
reached has been placed by a mapping call with suitable flags and backing, whatever addresses and
sizes the calls asked for.

`mappedPages` is the map of pages that the calls to the pager so far amount to.
-/

namespace Vespertine

/-- What an effect does to the map of pages. -/
def AddressSpace.after (space : AddressSpace) : Effect → AddressSpace
  | .mapPage virt phys size => space.set size (virt / size.bytes) (some phys)
  | .unmapPage virt size => space.set size (virt / size.bytes) none
  | .changeFlags .. | .flushTlb _ | .shootdown .. | .free .. => space

/-- The pages that were entered and not since cleared. -/
def mappedPages (effects : List Effect) : AddressSpace :=
  effects.foldl AddressSpace.after fun _ _ => none

/-- The effect neither enters a page nor frees a frame. -/
def Effect.isClearing : Effect → Bool
  | .unmapPage .. | .shootdown .. => true
  | _ => false

theorem mappedPages_append (effects trace : List Effect) :
    mappedPages (effects ++ trace) = trace.foldl AddressSpace.after (mappedPages effects) :=
  List.foldl_append

/-- Clearing pages maps nothing. -/
theorem mappedPages_of_clearing {effects trace : List Effect}
    (clearing : ∀ effect ∈ trace, effect.isClearing = true) {size : BlockSize} {page phys : Nat}
    (mapped : mappedPages (effects ++ trace) size page = some phys) :
    mappedPages effects size page = some phys := by
  rw [mappedPages_append] at mapped
  generalize mappedPages effects = space at mapped ⊢
  induction trace generalizing space with
  | nil => exact mapped
  | cons effect trace ih =>
      have rest := ih (fun later mem => clearing later (List.mem_cons_of_mem _ mem)) _ mapped
      cases effect with
      | unmapPage virt other =>
          rw [AddressSpace.after, AddressSpace.set] at rest
          split at rest
          · cases rest
          · exact rest
      | shootdown addr length => exact rest
      | mapPage _ _ _ | changeFlags _ _ _ | flushTlb _ | free _ _ =>
          exact absurd (clearing _ List.mem_cons_self) (by simp [Effect.isClearing])

/-- Entering a page maps its frame and nothing else. -/
theorem mappedPages_of_mapPage {effects : List Effect} {virt frame addr : Nat}
    {block size : BlockSize} {page phys : Nat}
    (mapped : mappedPages (effects ++ [.mapPage virt frame block, .flushTlb addr]) size page =
      some phys) :
    size = block ∧ phys = frame ∨ mappedPages effects size page = some phys := by
  rw [mappedPages_append] at mapped
  simp only [List.foldl_cons, List.foldl_nil, AddressSpace.after, AddressSpace.set] at mapped
  split at mapped
  next here => exact .inl ⟨here.1, (Option.some.inj mapped).symm⟩
  next => exact .inr mapped

namespace VirtMemManager

/-- The first part of `handle_page_fault`: the area of the address, if the access is allowed. -/
def faultArea (vmm : VirtMemManager) (addr errorCode : Nat) :
    Kernel (Except FaultError VmaNode) := do
  match ← vmm.containsLoop addr vmm.live.length vmm.head with
  | none => return .error .InvalidAddress
  | some ptr =>
      if errorCode &&& (1 <<< 1) ≠ 0 ∧ (vmm.nodes ptr).flags &&& VM_FLAG_WRITE = 0 then
        return .error .AccessDenied
      else
        return .ok (vmm.nodes ptr)

/-- The offset in the backing object that a fault at an address asks for. -/
def faultOffset (node : VmaNode) (addr : Nat) : Nat :=
  wrappingAdd (wrappingSub (andNot addr (pageMask node.flags)) node.start) node.vmoOffset

/-- What remains of a page fault once its area is known. -/
theorem handlePageFault_eq {vmm : VirtMemManager} {addr errorCode : Nat} {node : VmaNode}
    (area_eq : vmm.faultArea addr errorCode = .ok (.ok node)) (env : FaultEnv) :
    vmm.handlePageFault env addr errorCode =
      match (match node.backingVmo with
        | some vmo => env.requestPage vmo (faultOffset node addr)
        | none => some env.frame) with
      | none => .ok (.error .MappingFailed, vmm)
      | some phys =>
          (Pager.mapPage ⟨vmm.tables, env.frames⟩ vmm.l4Addr
            (andNot addr (pageMask node.flags)) phys
            (convertVmFlags node.flags) (blockSize node.flags)).map fun after =>
              (.ok (), { vmm with
                tables := after.tables
                effects := vmm.effects ++ [.mapPage (andNot addr (pageMask node.flags)) phys
                  (blockSize node.flags), .flushTlb addr] }) := by
  obtain ⟨found, find_eq, rest_eq⟩ := bind_eq_ok.mp area_eq
  cases found with
  | none => cases rest_eq
  | some ptr =>
      dsimp only at rest_eq
      split at rest_eq
      next => cases rest_eq
      next allowed =>
        cases rest_eq
        rw [handlePageFault, find_eq]
        simp only [bind, Except.bind]
        rw [if_neg allowed, ← faultOffset]
        cases (vmm.nodes ptr).backingVmo with
        | none =>
            dsimp only
            cases Pager.mapPage ⟨vmm.tables, env.frames⟩ vmm.l4Addr
              (andNot addr (pageMask (vmm.nodes ptr).flags)) env.frame
              (convertVmFlags (vmm.nodes ptr).flags) (blockSize (vmm.nodes ptr).flags) <;> rfl
        | some vmo =>
            dsimp only
            cases env.requestPage vmo (faultOffset (vmm.nodes ptr) addr) with
            | none => rfl
            | some phys =>
                dsimp only
                cases Pager.mapPage ⟨vmm.tables, env.frames⟩ vmm.l4Addr
                  (andNot addr (pageMask (vmm.nodes ptr).flags)) phys
                  (convertVmFlags (vmm.nodes ptr).flags) (blockSize (vmm.nodes ptr).flags) <;> rfl

/-- Every area that can be reached has flags and a backing object with the given property. -/
structure Backed (vmm : VirtMemManager) (good : (flags : Nat) → (backingVmo : Option Nat) → Prop)
    (known : Set Nat) : Prop where
  head : ∀ ptr, vmm.head = some ptr → ptr ∈ known
  next : ∀ ptr ∈ known, ∀ other, (vmm.nodes ptr).next = some other → other ∈ known
  prev : ∀ ptr ∈ known, ∀ other, (vmm.nodes ptr).prev = some other → other ∈ known
  good : ∀ ptr ∈ known, good (vmm.nodes ptr).flags (vmm.nodes ptr).backingVmo

section Areas

variable {vmm next : VirtMemManager} {good : Nat → Option Nat → Prop} {known : Set Nat}

theorem Backed.weaken {weaker : Nat → Option Nat → Prop} (backed : Backed vmm good known)
    (weaken : ∀ flags vmo, good flags vmo → weaker flags vmo) : Backed vmm weaker known :=
  ⟨backed.head, backed.next, backed.prev, fun ptr mem => weaken _ _ (backed.good ptr mem)⟩

/-- The list is all that counts. -/
theorem Backed.congr (backed : Backed vmm good known) (head_eq : next.head = vmm.head)
    (nodes_eq : next.nodes = vmm.nodes) : Backed next good known := by
  refine ⟨?_, ?_, ?_, ?_⟩
  · rw [head_eq]
    exact backed.head
  all_goals rw [nodes_eq]
  · exact backed.next
  · exact backed.prev
  · exact backed.good

theorem Backed.setNext (backed : Backed vmm good known) {ptr target : Option Nat}
    (inside : ∀ other, target = some other → other ∈ known) :
    Backed (vmm.setNext ptr target) good known := by
  cases ptr with
  | none => exact ⟨inside, backed.next, backed.prev, backed.good⟩
  | some ptr =>
      refine ⟨backed.head, fun node mem => ?_, fun node mem => ?_, fun node mem => ?_⟩
      all_goals
        simp only [VirtMemManager.setNext]
        by_cases same : node = ptr
        · subst same
          rw [Function.update_self]
          first | exact inside | exact backed.prev node mem | exact backed.good node mem
        · rw [Function.update_of_ne same]
          first | exact backed.next node mem | exact backed.prev node mem |
            exact backed.good node mem

theorem Backed.setPrev (backed : Backed vmm good known) {ptr target : Option Nat}
    (inside : ∀ other, target = some other → other ∈ known) :
    Backed (vmm.setPrev ptr target) good known := by
  cases ptr with
  | none => exact backed
  | some ptr =>
      refine ⟨backed.head, fun node mem => ?_, fun node mem => ?_, fun node mem => ?_⟩
      all_goals
        simp only [VirtMemManager.setPrev]
        by_cases same : node = ptr
        · subst same
          rw [Function.update_self]
          first | exact inside | exact backed.next node mem | exact backed.good node mem
        · rw [Function.update_of_ne same]
          first | exact backed.next node mem | exact backed.prev node mem |
            exact backed.good node mem

/-- A suitable area may be placed between known nodes, whatever it covers. -/
theorem Backed.insertNode (backed : Backed vmm good known) {nodePtr : Nat} {node : VmaNode}
    (prev_known : ∀ other, node.prev = some other → other ∈ known)
    (next_known : ∀ other, node.next = some other → other ∈ known)
    (suits : good node.flags node.backingVmo) :
    Backed (vmm.insertNode nodePtr node) good (insert nodePtr known) := by
  have larger : known ⊆ insert nodePtr known := Set.subset_insert nodePtr known
  have stored : Backed { vmm with
      nodes := Function.update vmm.nodes nodePtr node, live := nodePtr :: vmm.live } good
      (insert nodePtr known) := by
    refine ⟨fun ptr head_eq => larger (backed.head ptr head_eq), fun ptr mem => ?_,
      fun ptr mem => ?_, fun ptr mem => ?_⟩
    all_goals
      dsimp only
      by_cases same : ptr = nodePtr
      · subst same
        rw [Function.update_self]
        first | exact fun other eq => larger (next_known other eq) |
          exact fun other eq => larger (prev_known other eq) | exact suits
      · have old : ptr ∈ known := (Set.mem_insert_iff.mp mem).resolve_left same
        rw [Function.update_of_ne same]
        first | exact fun other eq => larger (backed.next ptr old other eq) |
          exact fun other eq => larger (backed.prev ptr old other eq) | exact backed.good ptr old
  have own : ∀ other, some nodePtr = some other → other ∈ insert nodePtr known := by
    rintro other ⟨⟩
    exact Set.mem_insert nodePtr known
  exact (stored.setNext own).setPrev own

theorem Backed.detach (backed : Backed vmm good known) {ptr : Nat} (mem : ptr ∈ known) :
    Backed (vmm.detach ptr) good known :=
  (backed.setNext (backed.next ptr mem)).setPrev (backed.prev ptr mem)

/-- The nodes around a gap are known. -/
def GapKnown (known : Set Nat) (gap : Gap) : Prop :=
  (∀ other, gap.prev = some other → other ∈ known) ∧
    ∀ other, gap.next = some other → other ∈ known

theorem Backed.searchLoop (backed : Backed vmm good known) {size mask fuel : Nat}
    {prev current : Option Nat} {result : Search}
    (prev_known : ∀ other, prev = some other → other ∈ known)
    (current_known : ∀ other, current = some other → other ∈ known)
    (loop_eq : vmm.searchLoop size mask fuel prev current = .ok result) :
    (∀ gap, result = .found gap → GapKnown known gap) ∧
      ∀ last, result = .exhausted (some last) → last ∈ known := by
  induction fuel generalizing prev current with
  | zero =>
      cases current with
      | none =>
          cases loop_eq
          exact ⟨by rintro _ ⟨⟩, fun last same => prev_known last (Search.exhausted.inj same)⟩
      | some curr => cases loop_eq
  | succ fuel ih =>
      cases current with
      | none =>
          cases loop_eq
          exact ⟨by rintro _ ⟨⟩, fun last same => prev_known last (Search.exhausted.inj same)⟩
      | some curr =>
          have curr_known := current_known curr rfl
          have here : ∀ other, some curr = some other → other ∈ known := by
            rintro other ⟨⟩
            exact curr_known
          rw [VirtMemManager.searchLoop] at loop_eq
          split at loop_eq
          next => exact ih here (by rintro _ ⟨⟩) loop_eq
          next following following_eq =>
            have behind : ∀ other, some following = some other → other ∈ known := by
              rintro other ⟨⟩
              exact backed.next curr curr_known _ following_eq
            split at loop_eq
            · cases loop_eq
              refine ⟨fun gap same => ?_, by rintro _ ⟨⟩⟩
              cases same
              exact ⟨here, behind⟩
            · exact ih here behind loop_eq

theorem Backed.findGap (backed : Backed vmm good known) {size mask : Nat} {gap : Gap}
    (find_eq : vmm.findGap size mask = .ok (some gap)) : GapKnown known gap := by
  obtain ⟨result, search_eq, found⟩ := bind_eq_ok.mp find_eq
  have around : (∀ gap, result = .found gap → GapKnown known gap) ∧
      ∀ last, result = .exhausted (some last) → last ∈ known := by
    rw [search] at search_eq
    split at search_eq
    next =>
      cases search_eq
      refine ⟨fun gap same => ?_, by rintro _ ⟨⟩⟩
      cases same
      exact ⟨by rintro _ ⟨⟩, by rintro _ ⟨⟩⟩
    next head head_eq =>
      have head_known : ∀ other, some head = some other → other ∈ known := by
        rintro other ⟨⟩
        exact backed.head _ head_eq
      dsimp only at search_eq
      split at search_eq
      · cases search_eq
        refine ⟨fun gap same => ?_, by rintro _ ⟨⟩⟩
        cases same
        exact ⟨by rintro _ ⟨⟩, head_known⟩
      · exact backed.searchLoop (by rintro _ ⟨⟩) head_known search_eq
  cases result with
  | found inner =>
      cases found
      exact around.1 gap rfl
  | exhausted last =>
      cases last with
      | none => cases found
      | some last =>
          dsimp only at found
          split at found
          · cases found
            refine ⟨?_, by rintro _ ⟨⟩⟩
            rintro other ⟨⟩
            exact around.2 _ rfl
          · cases found

/-- Placing an area in a gap keeps the areas backed. -/
theorem Backed.mmapVmo (backed : Backed vmm good known) {size flags vmo nodePtr : Nat}
    {addr : Option Nat} (suits : good flags (some vmo))
    (call_eq : vmm.mmapVmo size flags vmo nodePtr = .ok (addr, next)) :
    (∃ larger, Backed next good larger) ∧ next.effects = vmm.effects ∧
      (addr = none → next = vmm) := by
  obtain ⟨found, find_eq, placed⟩ := bind_eq_ok.mp call_eq
  cases found with
  | none =>
      cases placed
      exact ⟨⟨known, backed⟩, rfl, fun _ => rfl⟩
  | some gap =>
      cases placed
      obtain ⟨prev_known, next_known⟩ := backed.findGap find_eq
      exact ⟨⟨_, backed.insertNode prev_known next_known suits⟩, insertNode_effects _ _ _, nofun⟩

theorem Backed.spotLoop (backed : Backed vmm good known) {startAddr fuel : Nat}
    {prev current : Option Nat} {spot : Option Nat × Option Nat}
    (prev_known : ∀ other, prev = some other → other ∈ known)
    (current_known : ∀ other, current = some other → other ∈ known)
    (loop_eq : vmm.spotLoop startAddr fuel prev current = .ok spot) :
    (∀ other, spot.1 = some other → other ∈ known) ∧
      ∀ other, spot.2 = some other → other ∈ known := by
  induction fuel generalizing prev current with
  | zero =>
      cases current with
      | none =>
          cases loop_eq
          exact ⟨prev_known, nofun⟩
      | some curr => cases loop_eq
  | succ fuel ih =>
      cases current with
      | none =>
          cases loop_eq
          exact ⟨prev_known, nofun⟩
      | some curr =>
          rw [VirtMemManager.spotLoop] at loop_eq
          split at loop_eq
          · cases loop_eq
            exact ⟨prev_known, current_known⟩
          · exact ih current_known (backed.next curr (current_known curr rfl)) loop_eq

/-- Placing an area at a chosen address keeps the areas backed. -/
theorem Backed.mmapVmoAt (backed : Backed vmm good known) {startAddr size flags vmo nodePtr : Nat}
    {addr : Option Nat} (suits : good flags (some vmo))
    (call_eq : vmm.mmapVmoAt startAddr size flags vmo nodePtr = .ok (addr, next)) :
    (∃ larger, Backed next good larger) ∧ next.effects = vmm.effects ∧
      (addr = none → next = vmm) := by
  obtain ⟨spot, loop_eq, placed⟩ := bind_eq_ok.mp call_eq
  obtain ⟨prev_known, next_known⟩ := backed.spotLoop (by nofun) backed.head loop_eq
  dsimp only at placed
  split at placed
  · cases placed
    exact ⟨⟨known, backed⟩, rfl, fun _ => rfl⟩
  · split at placed
    · cases placed
      exact ⟨⟨known, backed⟩, rfl, fun _ => rfl⟩
    · cases placed
      exact ⟨⟨_, backed.insertNode prev_known next_known suits⟩, insertNode_effects _ _ _, nofun⟩

end Areas

section Unmapping

/-- The effects grow by clearing pages. -/
def Clears (before after : List Effect) : Prop :=
  ∃ trace, after = before ++ trace ∧ ∀ effect ∈ trace, effect.isClearing = true

theorem Clears.refl (effects : List Effect) : Clears effects effects :=
  ⟨[], (List.append_nil effects).symm, by simp⟩

theorem Clears.single (effects : List Effect) {effect : Effect}
    (clearing : effect.isClearing = true) : Clears effects (effects ++ [effect]) :=
  ⟨[effect], rfl, by simpa using clearing⟩

theorem Clears.trans {first second third : List Effect} (left : Clears first second)
    (right : Clears second third) : Clears first third := by
  obtain ⟨front, rfl, front_clears⟩ := left
  obtain ⟨back, rfl, back_clears⟩ := right
  refine ⟨front ++ back, List.append_assoc _ _ _, fun effect mem => ?_⟩
  rcases List.mem_append.mp mem with earlier | later
  · exact front_clears effect earlier
  · exact back_clears effect later

variable {l4Addr endPage step pages fuel : Nat} {block : BlockSize} {batch after : Batch}

theorem unmapOne_clears (one_eq : unmapOne l4Addr block batch = .ok after) :
    Clears batch.effects after.effects := by
  rw [unmapOne] at one_eq
  split at one_eq
  · cases one_eq
    exact .refl _
  · obtain ⟨tables, -, after_eq⟩ := bind_eq_ok.mp one_eq
    cases after_eq
    exact .single _ rfl

theorem unmapBatch_clears (batch_eq : unmapBatch l4Addr endPage step block fuel batch = .ok after) :
    Clears batch.effects after.effects := by
  induction fuel generalizing batch with
  | zero =>
      rw [unmapBatch] at batch_eq
      split at batch_eq
      · cases batch_eq
      · cases batch_eq
        exact .refl _
  | succ fuel ih =>
      rw [unmapBatch] at batch_eq
      split at batch_eq
      · obtain ⟨cleared, one_eq, rest_eq⟩ := bind_eq_ok.mp batch_eq
        have rest := ih rest_eq
        exact (unmapOne_clears one_eq).trans rest
      · cases batch_eq
        exact .refl _

theorem finishBatch_clears (batchStart : Nat) :
    Clears batch.effects (finishBatch batchStart block false batch).effects := by
  rw [finishBatch]
  split
  · simp only [Bool.false_eq_true, if_false, List.append_nil]
    exact .single _ rfl
  · exact .refl _

/-- Unmapping the pages of an area with a backing object only clears pages. -/
theorem unmapPages_clears
    (pages_eq : unmapPages l4Addr endPage step pages block false fuel batch = .ok after) :
    Clears batch.effects after.effects := by
  induction fuel generalizing batch with
  | zero =>
      rw [unmapPages] at pages_eq
      split at pages_eq
      · cases pages_eq
      · cases pages_eq
        exact .refl _
  | succ fuel ih =>
      rw [unmapPages] at pages_eq
      split at pages_eq
      · obtain ⟨next, batch_eq, rest_eq⟩ := bind_eq_ok.mp pages_eq
        have cleared := unmapBatch_clears batch_eq
        exact (cleared.trans (finishBatch_clears batch.currentPage)).trans (ih rest_eq)
      · cases pages_eq
        exact .refl _

end Unmapping

section Calls

variable {vmm next : VirtMemManager} {good : Nat → Option Nat → Prop} {known : Set Nat}

theorem Backed.findLoop (backed : Backed vmm good known) {startAddr fuel ptr : Nat}
    {current : Option Nat} (current_known : ∀ other, current = some other → other ∈ known)
    (loop_eq : vmm.findLoop startAddr fuel current = .ok (some ptr)) : ptr ∈ known := by
  induction fuel generalizing current with
  | zero => cases current <;> cases loop_eq
  | succ fuel ih =>
      cases current with
      | none => cases loop_eq
      | some curr =>
          rw [VirtMemManager.findLoop] at loop_eq
          split at loop_eq
          · cases loop_eq
            exact current_known ptr rfl
          · exact ih (backed.next curr (current_known curr rfl)) loop_eq

theorem Backed.containsLoop (backed : Backed vmm good known) {addr fuel ptr : Nat}
    {current : Option Nat} (current_known : ∀ other, current = some other → other ∈ known)
    (loop_eq : vmm.containsLoop addr fuel current = .ok (some ptr)) : ptr ∈ known := by
  induction fuel generalizing current with
  | zero => cases current <;> cases loop_eq
  | succ fuel ih =>
      cases current with
      | none => cases loop_eq
      | some curr =>
          rw [VirtMemManager.containsLoop] at loop_eq
          split at loop_eq
          · cases loop_eq
            exact current_known ptr rfl
          · exact ih (backed.next curr (current_known curr rfl)) loop_eq

theorem Backed.faultArea (backed : Backed vmm good known) {addr errorCode : Nat} {node : VmaNode}
    (area_eq : vmm.faultArea addr errorCode = .ok (.ok node)) :
    ∃ ptr ∈ known, node = vmm.nodes ptr := by
  obtain ⟨found, find_eq, rest_eq⟩ := bind_eq_ok.mp area_eq
  cases found with
  | none => cases rest_eq
  | some ptr =>
      dsimp only at rest_eq
      split at rest_eq
      · cases rest_eq
      · cases rest_eq
        exact ⟨ptr, backed.containsLoop backed.head find_eq, rfl⟩

/-- Where every area has a backing object, unmapping keeps the areas backed and only clears
pages. -/
theorem Backed.munmap (backed : Backed vmm good known)
    (backs : ∀ flags vmo, good flags vmo → vmo ≠ none) {startAddr size : Nat}
    {result : Except String Unit} (call_eq : vmm.munmap startAddr size = .ok (result, next)) :
    Backed next good known ∧ Clears vmm.effects next.effects := by
  obtain ⟨found, find_eq, rest_eq⟩ := bind_eq_ok.mp call_eq
  cases found with
  | none =>
      cases rest_eq
      exact ⟨backed, .refl _⟩
  | some ptr =>
      have ptr_known := backed.findLoop backed.head find_eq
      dsimp only at rest_eq
      split at rest_eq
      · cases rest_eq
        exact ⟨backed, .refl _⟩
      · obtain ⟨unmapped, unmap_eq, done⟩ := bind_eq_ok.mp rest_eq
        cases done
        have detached := backed.detach ptr_known
        obtain ⟨nodes_eq, head_eq, -, -⟩ := unmapArea_frame unmap_eq
        refine ⟨detached.congr head_eq nodes_eq, ?_⟩
        have anonymous : ((vmm.detach ptr).nodes ptr).backingVmo.isNone = false := by
          simpa [Option.isSome_iff_ne_none] using backs _ _ (detached.good ptr ptr_known)
        obtain ⟨batch, pages_eq, batch_eq⟩ := bind_eq_ok.mp unmap_eq
        cases batch_eq
        rw [anonymous] at pages_eq
        have cleared := unmapPages_clears pages_eq
        rw [detach_effects] at cleared
        exact cleared

/-- A page fault changes nothing, or enters one page of an area with the frame it was given. -/
theorem Backed.handlePageFault (backed : Backed vmm good known) {env : FaultEnv}
    {addr errorCode : Nat} {result : Except FaultError Unit}
    (call_eq : vmm.handlePageFault env addr errorCode = .ok (result, next)) :
    next = vmm ∨ ∃ ptr ∈ known, ∃ virt phys tables,
      vmm.faultArea addr errorCode = .ok (.ok (vmm.nodes ptr)) ∧
      (∀ vmo, (vmm.nodes ptr).backingVmo = some vmo →
        ∃ offset, env.requestPage vmo offset = some phys) ∧
      next = { vmm with
        tables
        effects := vmm.effects ++
          [.mapPage virt phys (blockSize (vmm.nodes ptr).flags), .flushTlb addr] } := by
  obtain ⟨found, find_eq, rest_eq⟩ := bind_eq_ok.mp call_eq
  cases found with
  | none =>
      cases rest_eq
      exact .inl rfl
  | some ptr =>
      have ptr_known := backed.containsLoop backed.head find_eq
      dsimp only at rest_eq
      split at rest_eq
      · cases rest_eq
        exact .inl rfl
      next allowed =>
        split at rest_eq
        · cases rest_eq
          exact .inl rfl
        next phys frame_eq =>
          obtain ⟨state, map_eq, done⟩ := bind_eq_ok.mp rest_eq
          cases done
          refine .inr ⟨ptr, ptr_known, _, phys, _, ?_, fun vmo vmo_eq => ?_, rfl⟩
          · exact bind_eq_ok.mpr ⟨some ptr, find_eq, if_neg allowed⟩
          · rw [vmo_eq] at frame_eq
            exact ⟨_, frame_eq⟩

end Calls

end VirtMemManager
end Vespertine
