import Vespertine.Library.Transition
import Vespertine.Memory.VmaList

/-!
# Runs of the memory manager

Sequences of `mmap`, `mmap_vmo`, `mmap_vmo_at`, `munmap` and `mprotect` calls, with arbitrary
changes of the page tables in between, keep the list of areas.  Failed calls change nothing, new
areas are disjoint from all earlier ones, and `munmap` undoes a mapping call exactly.
-/

namespace Vespertine
namespace VirtMemManager

/-- A call to the memory manager; `nodePtr` is the node the kernel heap returns during it. -/
inductive Call
  | mmap (size flags nodePtr : Nat)
  | mmapVmo (size flags backingVmo nodePtr : Nat)
  | mmapVmoAt (startAddr size flags backingVmo nodePtr : Nat)
  | munmap (startAddr size : Nat)
  | mprotect (startAddr size newFlags : Nat)
  /-- Page faults and other address space changes between calls. -/
  | remap (tables : Tables)

/-- What a call returns. -/
inductive Outcome
  | mapped (addr : Option Nat)
  | done (result : Except String Unit)

/-- The call returned `None` or `Err`. -/
def Outcome.Failed : Outcome → Prop
  | .mapped addr => addr = none
  | .done result => ∃ message, result = .error message

/-- Perform one call. -/
def perform (vmm : VirtMemManager) : Call → Kernel (Outcome × VirtMemManager)
  | .mmap size flags nodePtr =>
      (vmm.mmap size flags nodePtr).map fun result => (.mapped result.1, result.2)
  | .mmapVmo size flags backingVmo nodePtr =>
      (vmm.mmapVmo size flags backingVmo nodePtr).map fun result => (.mapped result.1, result.2)
  | .mmapVmoAt startAddr size flags backingVmo nodePtr =>
      (vmm.mmapVmoAt startAddr size flags backingVmo nodePtr).map fun result =>
        (.mapped result.1, result.2)
  | .munmap startAddr size =>
      (vmm.munmap startAddr size).map fun result => (.done result.1, result.2)
  | .mprotect startAddr size newFlags =>
      (vmm.mprotect startAddr size newFlags).map fun result => (.done result.1, result.2)
  | .remap tables => .ok (.done (.ok ()), { vmm with tables })

/-- An area a mapping call asks for. -/
structure Request where
  /-- Size as passed by the caller. -/
  size : Nat
  /-- Flags as passed by the caller. -/
  flags : Nat
  /-- Size of the area, rounded without overflow. -/
  region : Nat

/-- The area asked for by a mapping call. -/
def Call.request : Call → Option Request
  | .mmap size flags _ | .mmapVmo size flags _ _ =>
      some ⟨size, flags, exactRound size (blockSize flags)⟩
  | .mmapVmoAt _ size flags _ _ => some ⟨size, flags, exactRound size .Normal⟩
  | .munmap .. | .mprotect .. | .remap _ => none

/-- Callers pass positive sizes and aligned addresses, keep the page size of an area, and no
region reaches the top of the 64-bit range. -/
def Permitted (vmm : VirtMemManager) : Call → Prop
  | .mmap size flags nodePtr =>
      0 < size ∧ size < wordSize ∧ nodePtr ∉ vmm.live ∧
        ∀ start next, vmm.mmap size flags nodePtr = .ok (some start, next) →
          start + exactRound size (blockSize flags) + 2 ^ 21 ≤ wordSize
  | .mmapVmo size flags backingVmo nodePtr =>
      0 < size ∧ size < wordSize ∧ nodePtr ∉ vmm.live ∧
        ∀ start next, vmm.mmapVmo size flags backingVmo nodePtr = .ok (some start, next) →
          start + exactRound size (blockSize flags) + 2 ^ 21 ≤ wordSize
  | .mmapVmoAt startAddr size flags _ nodePtr =>
      0 < size ∧ nodePtr ∉ vmm.live ∧ (blockSize flags).bytes ∣ startAddr ∧
        startAddr + exactRound size .Normal + 2 ^ 21 ≤ wordSize
  | .munmap _ size => 0 < size
  | .mprotect startAddr size newFlags => 0 < size ∧
      ∀ ptr ∈ vmm.live, (vmm.nodes ptr).start = startAddr →
        newFlags &&& VM_FLAG_HUGE = (vmm.nodes ptr).flags &&& VM_FLAG_HUGE
  | .remap _ => True

/-- A memory manager serving calls. -/
def service : Machine VirtMemManager Call Panic where
  step vmm call := (vmm.perform call).map Prod.snd
  permitted := Permitted

/-- Areas start at a multiple of their page size. -/
def Aligned (vmm : VirtMemManager) (vmas : List Nat) : Prop :=
  ∀ ptr ∈ vmas, (blockSize (vmm.nodes ptr).flags).bytes ∣ (vmm.nodes ptr).start

/-- What one call guarantees about the list it meets. -/
structure CallSpec (vmm : VirtMemManager) (vmas : List Nat) (call : Call) (outcome : Outcome)
    (next : VirtMemManager) : Prop where
  /-- The list stays a list of ordered disjoint areas. -/
  list : ∃ vmas', VmaList next vmas' ∧ Aligned next vmas'
  /-- A failed call changes nothing. -/
  failed : outcome.Failed → next = vmm
  /-- A new area is disjoint from every earlier one. -/
  apart : ∀ addr request, outcome = .mapped (some addr) → call.request = some request →
    ∀ ptr ∈ vmas, endOf (vmm.nodes ptr) ≤ addr ∨ addr + request.region ≤ (vmm.nodes ptr).start
  /-- Unmapping a new area of 4 KiB pages restores the previous list. -/
  restored : ∀ addr request, outcome = .mapped (some addr) → call.request = some request →
    request.flags &&& VM_FLAG_HUGE = 0 →
      ∃ last, next.munmap addr request.size = .ok (.ok (), last) ∧ VmaList last vmas ∧
        last.head = vmm.head ∧ ∀ ptr ∈ vmas, last.nodes ptr = vmm.nodes ptr

theorem eq_of_content {left right : VmaNode} (same : content left = content right)
    (prev_eq : left.prev = right.prev) (next_eq : left.next = right.next) : left = right := by
  cases left
  cases right
  simp only [content, VmaNode.mk.injEq] at same prev_eq next_eq ⊢
  tauto

/-- Two lists with the same nodes and contents agree on the nodes themselves. -/
theorem VmaList.nodes_eq {vmm after : VirtMemManager} {vmas : List Nat} (list : VmaList vmm vmas)
    (after_list : VmaList after vmas)
    (contents : ∀ ptr ∈ vmas, content (after.nodes ptr) = content (vmm.nodes ptr)) :
    ∀ ptr ∈ vmas, after.nodes ptr = vmm.nodes ptr := by
  intro ptr mem
  have same := contents ptr mem
  obtain ⟨front, back, rfl⟩ := List.append_of_mem mem
  have old := list.linked.neighbours
  have new := after_list.linked.neighbours
  exact eq_of_content same (new.1.trans old.1.symm) (new.2.trans old.2.symm)

theorem blockSize_of_huge_eq {left right : Nat}
    (same : left &&& VM_FLAG_HUGE = right &&& VM_FLAG_HUGE) : blockSize left = blockSize right := by
  rw [blockSize, blockSize, same]

/-- Unmapping an area right after placing it restores the list. -/
theorem Placed.restored {vmm next : VirtMemManager} {vmas : List Nat} {nodePtr size : Nat}
    {area : VmaNode} (list : VmaList vmm vmas) (placed : Placed vmm next vmas nodePtr area)
    (fresh : nodePtr ∉ vmm.live) (normal : area.flags &&& VM_FLAG_HUGE = 0)
    (aligned : NORMAL_PAGE_SIZE ∣ area.start) (size_eq : area.size = exactRound size .Normal)
    (fits : size < wordSize) :
    ∃ last, next.munmap area.start size = .ok (.ok (), last) ∧ VmaList last vmas ∧
      last.head = vmm.head ∧ ∀ ptr ∈ vmas, last.nodes ptr = vmm.nodes ptr := by
  obtain ⟨front, back, rfl, next_list⟩ := placed.list
  have unlisted : nodePtr ∉ front ++ back := fun mem => fresh (list.heap.mem_iff.mp mem)
  have own_mem : nodePtr ∈ front ++ nodePtr :: back := by simp
  have own_start : (next.nodes nodePtr).start = area.start := start_of_content placed.own
  have own_size : (next.nodes nodePtr).size = alignUp size := by
    rw [size_of_content placed.own, size_eq]
    have bounded := next_list.bounded nodePtr own_mem
    rw [endOf_of_content placed.own, endOf, size_eq] at bounded
    rcases roundUp_cases fits .Normal with ⟨exact_eq, -⟩ | ⟨-, wraps⟩
    · exact exact_eq.symm
    · omega
  rcases munmap_cases next_list area.start size with ⟨message, -, missed⟩ |
    ⟨front', ptr, back', split_eq, start_eq, -, munmap_eq⟩
  · exact absurd own_size (missed nodePtr own_mem own_start)
  · have ptr_mem : ptr ∈ front ++ nodePtr :: back := by simp [split_eq]
    obtain rfl : ptr = nodePtr :=
      next_list.eq_of_start ptr_mem own_mem (start_eq.trans own_start.symm)
    have erased : front' ++ back' = front ++ back := by
      have nodup := next_list.linked.nodup
      have not_front : ptr ∉ front := fun mem => unlisted (by simp [mem])
      have not_front' : ptr ∉ front' := by
        intro mem
        rw [split_eq] at nodup
        exact (List.nodup_append.mp nodup).2.2 ptr mem ptr List.mem_cons_self rfl
      have erase_eq := congrArg (List.erase · ptr) split_eq
      rw [List.erase_append_right _ not_front, List.erase_append_right _ not_front',
        List.erase_cons_head, List.erase_cons_head] at erase_eq
      exact erase_eq.symm
    have detached_content := detach_content next ptr ptr
    have area_block : blockSize ((next.detach ptr).nodes ptr).flags = .Normal := by
      rw [flags_of_content detached_content, flags_of_content placed.own, blockSize, normal]
      rfl
    obtain ⟨unmapped, unmap_eq⟩ := unmapArea_ok (next.detach ptr) ((next.detach ptr).nodes ptr) (by
        rw [area_block, start_of_content detached_content, own_start]
        exact aligned) (by
        rw [endOf_of_content detached_content]
        exact next_list.bounded ptr own_mem)
    rw [split_eq] at next_list
    have removed := next_list.removed unmap_eq
    have last_list := removed.list
    rw [erased] at last_list
    refine ⟨_, by rw [munmap_eq, unmap_eq]; rfl, last_list, ?_, ?_⟩
    · rw [last_list.linked.head_eq, list.linked.head_eq]
    · refine list.nodes_eq last_list fun other mem => ?_
      exact (removed.others other).trans (placed.others other mem)

theorem Placed.aligned {vmm next : VirtMemManager} {vmas : List Nat} {nodePtr : Nat}
    {area : VmaNode} (placed : Placed vmm next vmas nodePtr area) (aligned : Aligned vmm vmas)
    (own : (blockSize area.flags).bytes ∣ area.start) :
    ∃ vmas', VmaList next vmas' ∧ Aligned next vmas' := by
  obtain ⟨front, back, rfl, list⟩ := placed.list
  refine ⟨_, list, fun ptr mem => ?_⟩
  rcases List.mem_cons.mp (List.perm_middle.mem_iff.mp mem) with rfl | mem
  · rw [flags_of_content placed.own, start_of_content placed.own]
    exact own
  · rw [flags_of_content (placed.others ptr mem), start_of_content (placed.others ptr mem)]
    exact aligned ptr mem

/-- A placed area meets the specification of the call that placed it. -/
theorem Placed.callSpec {vmm next : VirtMemManager} {vmas : List Nat} {nodePtr : Nat}
    {area : VmaNode} {call : Call} {request : Request} (list : VmaList vmm vmas)
    (placed : Placed vmm next vmas nodePtr area) (aligned : Aligned vmm vmas)
    (fresh : nodePtr ∉ vmm.live) (own : (blockSize area.flags).bytes ∣ area.start)
    (request_eq : call.request = some request) (flags_eq : area.flags = request.flags)
    (region_eq : area.size = request.region)
    (normal_eq : request.flags &&& VM_FLAG_HUGE = 0 →
      request.region = exactRound request.size .Normal)
    (fits : request.size < wordSize) :
    CallSpec vmm vmas call (.mapped (some area.start)) next := by
  refine ⟨placed.aligned aligned own, (fun failed => nomatch failed), ?_, ?_⟩
  · intro addr other outcome_eq other_eq ptr mem
    obtain rfl : request = other := Option.some.inj (request_eq.symm.trans other_eq)
    obtain rfl : area.start = addr := by simpa using outcome_eq
    rw [← region_eq]
    exact placed.apart ptr mem
  · intro addr other outcome_eq other_eq normal
    obtain rfl : request = other := Option.some.inj (request_eq.symm.trans other_eq)
    obtain rfl : area.start = addr := by simpa using outcome_eq
    rw [← flags_eq] at normal
    have block : blockSize area.flags = .Normal := by
      rw [blockSize, normal]
      rfl
    rw [block] at own
    exact placed.restored list fresh normal own (region_eq.trans (normal_eq (flags_eq ▸ normal)))
      fits

/-- A call that changes nothing meets its specification. -/
theorem callSpec_unchanged {vmm : VirtMemManager} {vmas : List Nat} {call : Call}
    {outcome : Outcome} (list : VmaList vmm vmas) (aligned : Aligned vmm vmas)
    (failed : outcome.Failed) : CallSpec vmm vmas call outcome vmm := by
  refine ⟨⟨vmas, list, aligned⟩, fun _ => rfl, ?_, ?_⟩
  · rintro addr request rfl
    cases failed
  · rintro addr request rfl
    cases failed

/-- Placing an area in the first gap meets the specification, for either kind of backing. -/
theorem mmapInternal_callSpec {vmm : VirtMemManager} {vmas : List Nat} (list : VmaList vmm vmas)
    (aligned : Aligned vmm vmas) {size flags nodePtr : Nat} {backingVmo : Option Nat} (call : Call)
    (request_eq : call.request = some ⟨size, flags, exactRound size (blockSize flags)⟩)
    (fresh : nodePtr ∉ vmm.live) (positive : 0 < size) (word : size < wordSize)
    (fits : ∀ start next,
      vmm.mmapInternal size flags backingVmo 0 nodePtr = .ok (some start, next) →
        start + exactRound size (blockSize flags) + 2 ^ 21 ≤ wordSize) :
    ∃ addr next, vmm.mmapInternal size flags backingVmo 0 nodePtr = .ok (addr, next) ∧
      CallSpec vmm vmas call (.mapped addr) next := by
  rcases mmapInternal_spec list fresh positive word fits with
    none_eq | ⟨start, next, some_eq, start_aligned, placed⟩
  · exact ⟨none, vmm, none_eq, callSpec_unchanged list aligned rfl⟩
  · refine ⟨some start, next, some_eq, placed.callSpec list aligned fresh start_aligned request_eq
      rfl rfl (fun normal => ?_) word⟩
    dsimp only at normal
    rw [blockSize, normal]
    rfl

/-- Changing the flags of a node keeps the list. -/
theorem VmaList.setFlags {vmm : VirtMemManager} {vmas : List Nat} (list : VmaList vmm vmas)
    (ptr flags : Nat) (tables : Tables) (effects : List Effect) :
    VmaList { vmm with
      nodes := Function.update vmm.nodes ptr { vmm.nodes ptr with flags }
      tables
      effects } vmas := by
  have range_eq (other : Nat) :
      (Function.update vmm.nodes ptr { vmm.nodes ptr with flags } other).start =
          (vmm.nodes other).start ∧
        (Function.update vmm.nodes ptr { vmm.nodes ptr with flags } other).size =
          (vmm.nodes other).size := by
    by_cases same : other = ptr
    · subst same
      simp
    · simp [same]
  refine ⟨?_, ?_, ?_, ?_, list.heap⟩
  · have same : links (Function.update vmm.nodes ptr { vmm.nodes ptr with flags }) =
        links vmm.nodes := by
      rw [links_update]
      ext other : 2
      · exact congrFun (Function.update_eq_self ptr (links vmm.nodes).next) other
      · exact congrFun (Function.update_eq_self ptr (links vmm.nodes).prev) other
    simpa only [same] using list.linked
  · simpa only [endOf, range_eq] using list.ordered
  · simpa only [range_eq] using list.nonempty
  · simpa only [endOf, range_eq] using list.bounded

/-- Every permitted call returns and meets its specification. -/
theorem perform_spec {vmm : VirtMemManager} {vmas : List Nat} {call : Call}
    (list : VmaList vmm vmas) (aligned : Aligned vmm vmas) (permitted : Permitted vmm call) :
    ∃ outcome next, vmm.perform call = .ok (outcome, next) ∧
      CallSpec vmm vmas call outcome next := by
  cases call with
  | mmap size flags nodePtr =>
      obtain ⟨positive, word, fresh, fits⟩ := permitted
      obtain ⟨addr, next, call_eq, spec⟩ := mmapInternal_callSpec list aligned
        (.mmap size flags nodePtr) rfl fresh positive word fits
      exact ⟨_, next, by rw [perform, mmap, call_eq]; rfl, spec⟩
  | mmapVmo size flags backingVmo nodePtr =>
      obtain ⟨positive, word, fresh, fits⟩ := permitted
      obtain ⟨addr, next, call_eq, spec⟩ := mmapInternal_callSpec list aligned
        (.mmapVmo size flags backingVmo nodePtr) rfl fresh positive word fits
      exact ⟨_, next, by rw [perform, mmapVmo, call_eq]; rfl, spec⟩
  | mmapVmoAt startAddr size flags backingVmo nodePtr =>
      obtain ⟨positive, fresh, start_aligned, fits⟩ := permitted
      have rounded := le_exactRound size .Normal
      rcases mmapVmoAt_spec list fresh positive fits with none_eq | ⟨next, some_eq, placed⟩
      · exact ⟨.mapped none, vmm, by rw [perform, none_eq]; rfl,
          callSpec_unchanged list aligned rfl⟩
      · exact ⟨_, next, by rw [perform, some_eq]; rfl,
          placed.callSpec list aligned fresh start_aligned rfl rfl rfl (fun _ => rfl)
            (show size < wordSize by omega)⟩
  | munmap startAddr size =>
      rcases munmap_cases list startAddr size with ⟨message, error_eq, -⟩ |
        ⟨front, ptr, back, rfl, -, -, munmap_eq⟩
      · exact ⟨.done (.error message), vmm, by rw [perform, error_eq]; rfl,
          callSpec_unchanged list aligned ⟨message, rfl⟩⟩
      · have ptr_mem : ptr ∈ front ++ ptr :: back := by simp
        have detached := detach_content vmm ptr ptr
        obtain ⟨unmapped, unmap_eq⟩ := unmapArea_ok (vmm.detach ptr) ((vmm.detach ptr).nodes ptr)
          (by
            rw [flags_of_content detached, start_of_content detached]
            exact aligned ptr ptr_mem)
          (by
            rw [endOf_of_content detached]
            exact list.bounded ptr ptr_mem)
        have removed := list.removed unmap_eq
        refine ⟨.done (.ok ()), _, by rw [perform, munmap_eq, unmap_eq]; rfl, ?_⟩
        refine ⟨⟨_, removed.list, fun other mem => ?_⟩, ?_, nofun, nofun⟩
        · rw [flags_of_content (removed.others other), start_of_content (removed.others other)]
          exact aligned other (by
            rcases List.mem_append.mp mem with earlier | later <;> simp [*])
        · rintro ⟨message, ⟨⟩⟩
  | mprotect startAddr size newFlags =>
      obtain ⟨-, keeps⟩ := permitted
      have block_eq : ∀ ptr ∈ vmas, (vmm.nodes ptr).start = startAddr →
          blockSize newFlags = blockSize (vmm.nodes ptr).flags := fun ptr mem start_eq =>
        blockSize_of_huge_eq (keeps ptr (list.heap.mem_iff.mp mem) start_eq)
      have start_aligned : ∀ ptr ∈ vmas, (vmm.nodes ptr).start = startAddr →
          (blockSize newFlags).bytes ∣ startAddr := fun ptr mem start_eq => by
        rw [block_eq ptr mem start_eq, ← start_eq]
        exact aligned ptr mem
      rcases mprotect_cases list size newFlags start_aligned with
        ⟨message, error_eq⟩ | ⟨ptr, mem, start_eq, tables, effects, ok_eq⟩
      · exact ⟨.done (.error message), vmm, by rw [perform, error_eq]; rfl,
          callSpec_unchanged list aligned ⟨message, rfl⟩⟩
      · refine ⟨.done (.ok ()), _, by rw [perform, ok_eq]; rfl, ⟨⟨vmas, ?_, ?_⟩, ?_, nofun, nofun⟩⟩
        · exact list.setFlags ptr newFlags tables effects
        · intro other other_mem
          by_cases same : other = ptr
          · subst same
            simp only [Function.update_self, block_eq other mem start_eq]
            exact aligned other mem
          · simp only [Function.update_of_ne same]
            exact aligned other other_mem
        · rintro ⟨message, ⟨⟩⟩
  | remap tables =>
      refine ⟨_, _, rfl, ⟨⟨vmas, ?_, aligned⟩, ?_, nofun, nofun⟩⟩
      · exact ⟨list.linked, list.ordered, list.nonempty, list.bounded, list.heap⟩
      · rintro ⟨message, ⟨⟩⟩

/-- In every run of permitted calls on a new address space, no call panics, the nodes reached
from the head stay an acyclic doubly linked list of ordered disjoint areas, and every further
permitted call meets its specification. -/
theorem vma_list_invariant {nodes : Nat → VmaNode} {l4Addr : Nat} {tables : Tables}
    {calls : List Call} (permits : service.Permits (new nodes l4Addr tables) calls) :
    ∃ final vmas, service.run (new nodes l4Addr tables) calls = .ok final ∧ VmaList final vmas ∧
      ∀ call, Permitted final call → ∃ outcome next, final.perform call = .ok (outcome, next) ∧
        CallSpec final vmas call outcome next := by
  have start : ∃ vmas, VmaList (new nodes l4Addr tables) vmas ∧
      Aligned (new nodes l4Addr tables) vmas :=
    ⟨[], new_list nodes l4Addr tables, by simp [Aligned]⟩
  have keeps (state : VirtMemManager) (call : Call)
      (holds : ∃ vmas, VmaList state vmas ∧ Aligned state vmas) (permitted : Permitted state call) :
      ∃ next, (state.perform call).map Prod.snd = .ok next ∧
        ∃ vmas, VmaList next vmas ∧ Aligned next vmas := by
    obtain ⟨vmas, list, aligned⟩ := holds
    obtain ⟨outcome, next, call_eq, spec⟩ := perform_spec list aligned permitted
    exact ⟨next, by rw [call_eq]; rfl, spec.list⟩
  obtain ⟨final, run_eq, vmas, list, aligned⟩ := service.run_ok keeps start permits
  exact ⟨final, vmas, run_eq, list, fun call => perform_spec list aligned⟩

/-- One page is mapped, which permits unmapping it. -/
theorem vma_list_invariant_one_page :
    ∃ final vmas, service.run (new (fun _ => ⟨0, 0, 0, none, none, none, 0⟩) 0x1000
        fun _ _ => .unused) [.mmap 0x1000 VM_FLAG_WRITE 7] = .ok final ∧
      VmaList final vmas ∧
      ∃ outcome next, final.perform (.munmap VM_BASE_ADDR 0x1000) = .ok (outcome, next) ∧
        CallSpec final vmas (.munmap VM_BASE_ADDR 0x1000) outcome next := by
  have permits : service.Permits (new (fun _ => ⟨0, 0, 0, none, none, none, 0⟩) 0x1000
      fun _ _ => .unused) [.mmap 0x1000 VM_FLAG_WRITE 7] := by
    refine ⟨⟨by decide, by decide, by simp [new], ?_⟩, fun _ _ => trivial⟩
    intro start next call_eq
    have placed : ((new (fun _ => ⟨0, 0, 0, none, none, none, 0⟩) 0x1000
        fun _ _ => .unused).mmap 0x1000 VM_FLAG_WRITE 7).map Prod.fst =
          .ok (some VM_BASE_ADDR) := by
      rfl
    rw [call_eq] at placed
    obtain rfl : start = VM_BASE_ADDR := by simpa [Except.map] using placed
    decide
  obtain ⟨final, vmas, run_eq, list, further⟩ := vma_list_invariant permits
  exact ⟨final, vmas, run_eq, list, further (.munmap VM_BASE_ADDR 0x1000)
    (show 0 < 0x1000 by decide)⟩

end VirtMemManager
end Vespertine
