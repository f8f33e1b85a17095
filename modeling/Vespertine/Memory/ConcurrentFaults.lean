import Vespertine.Memory.FrameLifetime
import Vespertine.Memory.PagePath
import Vespertine.Memory.VmoLedger

/-!
# Concurrent faults on one page

Page faults keep the area list locked for reading only, so any number of threads resolve faults at
the same time.  The frame of the page is obtained under the lock of the memory object, or from the
page allocator, and the page is entered later under the lock of the pager, over whatever its entry
holds by then.

A run covers the time from the placement of an area to its removal; the page allocator is given by
the frames it returns next.
-/

namespace Vespertine
namespace ConcurrentFaults

open FrameSystem (Stop panics present guarded panics_eq_ok present_eq_ok guarded_eq_ok)
open VirtMemManager (faultOffset)

/-- The page that the threads fault on, and its area. -/
structure Target where
  node : VmaNode
  page : Nat

namespace Target

def size (target : Target) : BlockSize := blockSize target.node.flags

/-- The offset of the page in the backing object. -/
def offset (target : Target) : Nat :=
  wrappingAdd (wrappingSub target.page target.node.start) target.node.vmoOffset

end Target

/-- Where a thread is in `handle_page_fault`. -/
inductive Phase
  | outside
  /-- It has found the area, which stays locked for reading. -/
  | found (addr : Nat)
  /-- It has the frame of the page. -/
  | ready (addr frame : Nat)
deriving DecidableEq

structure State (θ : Type) where
  vmm : VirtMemManager
  stores : Nat → PagedBackingStore
  /-- The 4 KiB frames that the page allocator returns next. -/
  free : List Nat
  /-- The 2 MiB blocks that it returns next. -/
  freeHuge : List Nat
  phase : θ → Phase
  /-- Bytes of physical memory. -/
  memory : Nat → Nat
  /-- What the process has last written to each byte of the page. -/
  written : Nat → Option Nat
  /-- The frames allocated for the page. -/
  allocated : List Nat

/-- Steps of the threads; each is atomic under one lock. -/
inductive Action (θ : Type)
  /-- A fault finds its area. -/
  | find (thread : θ) (addr errorCode : Nat)
  /-- It obtains the frame; `disk` says which blocks can be read, and `content` what they hold. -/
  | obtain (thread : θ) (disk : Nat → Bool) (content : Nat → Nat)
  /-- It enters the page. -/
  | enter (thread : θ)
  /-- The process writes a byte of the page. -/
  | store (offset value : Nat)

variable {θ : Type} [DecidableEq θ]

namespace State

def setPhase (state : State θ) (thread : θ) (phase : Phase) : State θ :=
  { state with phase := Function.update state.phase thread phase }

/-- Where the page is mapped. -/
def translate (state : State θ) (target : Target) : Option Nat :=
  Pager.translate state.vmm.tables state.vmm.l4Addr target.page

/-- What a file leaves in the frames it fills. -/
def fill (store : PagedBackingStore) (frames : List Nat) (content memory : Nat → Nat) : Nat → Nat :=
  match store with
  | .plain _ => memory
  | .fileBacked _ => fun addr =>
      if andNot addr (NORMAL_PAGE_SIZE - 1) ∈ frames then content addr else memory addr

theorem fill_nil (store : PagedBackingStore) (content memory : Nat → Nat) :
    fill store [] content memory = memory := by
  cases store with
  | plain vmo => rfl
  | fileBacked file => simp [fill]

/-- The frame for an anonymous page. -/
def allocPage (state : State θ) : BlockSize → Kernel (Nat × State θ)
  | .Normal => do
      let (frame, free) ← allocFrame state.free
      return (frame, { state with free, allocated := frame :: state.allocated })
  | .Huge => do
      let (frame, freeHuge) ← allocFrame state.freeHuge
      return (frame, { state with freeHuge, allocated := frame :: state.allocated })

/-- The frame of the page, from its memory object or the page allocator. -/
def obtain (state : State θ) (target : Target) (disk : Nat → Bool) (content : Nat → Nat) :
    Kernel (Except Unit Nat × State θ) :=
  match target.node.backingVmo with
  | none => do
      let (frame, next) ← state.allocPage target.size
      return (.ok frame, next)
  | some id => do
      let (result, store, rest) ← (state.stores id).requestPage disk target.offset state.free
      let used := VmoLedger.taken state.free rest
      return (result, { state with
        stores := Function.update state.stores id store
        free := rest
        memory := fill store used content state.memory
        allocated := used ++ state.allocated })

omit [DecidableEq θ] in
theorem allocPage_vmm {state next : State θ} {size : BlockSize} {frame : Nat}
    (alloc_eq : state.allocPage size = .ok (frame, next)) : next.vmm = state.vmm := by
  cases size with
  | Normal =>
      obtain ⟨_, -, done⟩ := bind_eq_ok.mp alloc_eq
      cases done
      rfl
  | Huge =>
      obtain ⟨_, -, done⟩ := bind_eq_ok.mp alloc_eq
      cases done
      rfl

omit [DecidableEq θ] in
theorem obtain_vmm {state next : State θ} {target : Target} {disk : Nat → Bool}
    {content : Nat → Nat} {result : Except Unit Nat}
    (obtain_eq : state.obtain target disk content = .ok (result, next)) :
    next.vmm = state.vmm := by
  rw [obtain] at obtain_eq
  split at obtain_eq
  · obtain ⟨_, alloc_eq, done⟩ := bind_eq_ok.mp obtain_eq
    cases done
    exact allocPage_vmm alloc_eq
  · obtain ⟨_, -, done⟩ := bind_eq_ok.mp obtain_eq
    cases done
    rfl

/-- What a thread does with the answer to its request. -/
def answer (state : State θ) (thread : θ) (addr : Nat) : Except Unit Nat → State θ
  | .error _ => state.setPhase thread .outside
  | .ok frame => state.setPhase thread (.ready addr frame)

theorem answer_vmm (state : State θ) (thread : θ) (addr : Nat)
    (result : Except Unit Nat) : (state.answer thread addr result).vmm = state.vmm := by
  cases result <;> rfl

/-- The page is entered, and the area list is unlocked. -/
def enter (state : State θ) (target : Target) (addr frame : Nat) : Kernel (State θ) := do
  let after ← Pager.mapPage ⟨state.vmm.tables, state.free⟩ state.vmm.l4Addr target.page frame
    (convertVmFlags target.node.flags) target.size
  return { state with
    vmm := { state.vmm with
      tables := after.tables
      effects := state.vmm.effects ++ [.mapPage target.page frame target.size, .flushTlb addr] }
    free := after.frames }

end State

def step (target : Target) (state : State θ) : Action θ → Except Stop (State θ)
  | .find thread addr errorCode => do
      guarded (state.phase thread = .outside)
      match ← panics (state.vmm.faultArea addr errorCode) with
      | .error _ => return state
      | .ok node =>
          guarded (node = target.node ∧ andNot addr (pageMask node.flags) = target.page)
          return state.setPhase thread (.found addr)
  | .obtain thread disk content =>
      match state.phase thread with
      | .found addr => do
          let (result, next) ← panics (state.obtain target disk content)
          return next.answer thread addr result
      | _ => .error .blocked
  | .enter thread =>
      match state.phase thread with
      | .ready addr frame => do
          let next ← panics (state.enter target addr frame)
          return next.setPhase thread .outside
      | _ => .error .blocked
  | .store offset value => do
      let phys ← present (state.translate target)
      guarded (offset < target.size.bytes)
      return { state with
        memory := Function.update state.memory (phys + offset) value
        written := Function.update state.written offset (some value) }

namespace State

/-- A thread has a frame that it has not entered. -/
def Holding (state : State θ) (frame : Nat) : Prop :=
  ∃ thread addr, state.phase thread = .ready addr frame

/-- What the process has written is what it reads. -/
def WritesKept (state : State θ) (target : Target) : Prop :=
  ∀ offset value, state.written offset = some value →
    ∃ phys, state.translate target = some phys ∧ state.memory (phys + offset) = value

/-- Every frame allocated for the page is mapped there, about to be, or kept by the memory
object. -/
def FramesReferenced (state : State θ) (target : Target) : Prop :=
  ∀ frame ∈ state.allocated, state.translate target = some frame ∨ state.Holding frame ∨
    ∃ id, target.node.backingVmo = some id ∧
      (state.stores id).inner.frameAt target.offset = some frame

end State

/-- A frame is obtained for an anonymous page only while the page is not mapped and no thread has
a frame for it; where a file is to be read, the disk delivers. -/
def Permitted (target : Target) (state : State θ) : Action θ → Prop
  | .obtain _ disk _ =>
      match target.node.backingVmo with
      | none => state.translate target = none ∧ ∀ frame, ¬state.Holding frame
      | some id => ∀ file, state.stores id = .fileBacked file →
          file.anonymousVmo.frameAt target.offset = none →
          target.offset < file.anonymousVmo.size → file.loadPage disk target.offset = true
  | _ => True

/-- Threads that fault on one page. -/
def system (target : Target) : Machine (State θ) (Action θ) Stop := ⟨step target, Permitted target⟩

/-- The area has been placed; the page is not mapped, and the page allocator returns proper
frames. -/
structure Boot (target : Target) (state : State θ) : Prop where
  path : PagePath state.vmm.tables state.vmm.l4Addr target.page target.size state.free
  unmapped : state.translate target = none
  nonzero : 0 ∉ state.free
  blocks : ∀ frame ∈ state.freeHuge, NORMAL_PAGE_SIZE ∣ frame ∧ frame < 2 ^ 52
  regular : ∀ id, (state.stores id).Regular
  outside : ∀ thread, state.phase thread = .outside
  written : ∀ offset, state.written offset = none
  allocated : state.allocated = []

omit [DecidableEq θ] in
/-- The steps of a fault that nothing interrupts are `handle_page_fault`. -/
theorem handlePageFault_of_steps {target : Target} {state obtained final : State θ}
    {addr errorCode frame : Nat} {disk : Nat → Bool} {content : Nat → Nat}
    (area_eq : state.vmm.faultArea addr errorCode = .ok (.ok target.node))
    (page_eq : andNot addr (pageMask target.node.flags) = target.page)
    (obtain_eq : state.obtain target disk content = .ok (.ok frame, obtained))
    (enter_eq : obtained.enter target addr frame = .ok final) :
    state.vmm.handlePageFault ⟨fun _ _ => some frame, frame, obtained.free⟩ addr errorCode =
      .ok (.ok (), final.vmm) := by
  have vmm_eq := State.obtain_vmm obtain_eq
  obtain ⟨after, map_eq, done⟩ := bind_eq_ok.mp enter_eq
  cases done
  rw [vmm_eq] at map_eq ⊢
  rw [VirtMemManager.handlePageFault_eq area_eq, page_eq]
  cases target.node.backingVmo with
  | none => exact map_eq_ok.mpr ⟨after, map_eq, rfl⟩
  | some id => exact map_eq_ok.mpr ⟨after, map_eq, rfl⟩

/-! ## The frame of the page -/

section Requests

variable {store next : PagedBackingStore} {disk : Nat → Bool} {offset : Nat}
  {supply rest : List Nat} {result : Except Unit Nat}

/-- Neither implementation loses a frame whose blocks can be read. -/
theorem rest_of_refused (nonzero : 0 ∉ supply)
    (delivers : ∀ file, store = .fileBacked file → file.anonymousVmo.frameAt offset = none →
      offset < file.anonymousVmo.size → file.loadPage disk offset = true)
    (request_eq : store.requestPage disk offset supply = .ok (.error (), next, rest)) :
    rest = supply := by
  cases store with
  | plain vmo =>
      obtain ⟨⟨answer, after, left⟩, inner_eq, done⟩ := bind_eq_ok.mp request_eq
      cases done
      rw [Vmo.requestPage] at inner_eq
      split at inner_eq
      · cases inner_eq
        rfl
      · split at inner_eq
        · cases inner_eq
        · split at inner_eq
          · cases inner_eq
            rfl
          · obtain ⟨⟨pfn, left⟩, -, done⟩ := bind_eq_ok.mp inner_eq
            cases done
  | fileBacked file =>
      obtain ⟨⟨answer, after, left⟩, inner_eq, done⟩ := bind_eq_ok.mp request_eq
      cases done
      rw [FileVmo.requestPage] at inner_eq
      split at inner_eq
      · cases inner_eq
        rfl
      next inside =>
        split at inner_eq
        · cases inner_eq
        next absent =>
          obtain ⟨⟨pagePhys, left⟩, alloc_eq, done⟩ := bind_eq_ok.mp inner_eq
          have phys_ne : pagePhys ≠ 0 := fun zero =>
            nonzero (by simp [PagedBackingStore.allocFrame_ok alloc_eq, zero])
          dsimp only at done
          rw [if_neg phys_ne, if_pos (delivers file rfl absent (Nat.not_le.mp inside))] at done
          cases done

/-- As long as the disk delivers, a memory object refuses a request or has a frame at the offset
afterwards: the one it had, or a new one. -/
theorem requestPage_kept (regular : store.Regular) (nonzero : 0 ∉ supply)
    (delivers : ∀ file, store = .fileBacked file → file.anonymousVmo.frameAt offset = none →
      offset < file.anonymousVmo.size → file.loadPage disk offset = true)
    (request_eq : store.requestPage disk offset supply = .ok (result, next, rest)) :
    (∃ frame, store.inner.frameAt offset = some frame ∧ result = .ok frame ∧ next = store ∧
        rest = supply) ∨
      (result = .error () ∧ next = store ∧ rest = supply) ∨
      ∃ frame, supply = frame :: rest ∧ store.inner.frameAt offset = none ∧ result = .ok frame ∧
        next.inner.frameAt offset = some frame ∧ next.Regular := by
  cases PagedBackingStore.requestPage_requested regular request_eq with
  | found found => exact .inl ⟨_, found, rfl, rfl, rfl⟩
  | refused => exact .inr (.inl ⟨rfl, rfl, rfl⟩)
  | @stored frame rest taken absent owned =>
      have frame_ne : frame ≠ 0 := fun zero => nonzero (by simp [taken, zero])
      refine .inr (.inr ⟨frame, taken, absent, rfl, ?_, regular.withInner rfl⟩)
      rw [PagedBackingStore.inner_withInner]
      exact Vmo.frameAt_insert_same frame_ne
  | @lost frame rest taken =>
      have kept := rest_of_refused nonzero delivers request_eq
      rw [taken] at kept
      exact absurd kept.symm (List.cons_ne_self frame rest)

end Requests

namespace State

/-- The frame that all faults on the page agree on. -/
def agreed (state : State θ) (target : Target) : Option Nat :=
  match target.node.backingVmo with
  | none => state.allocated.head?
  | some id => (state.stores id).inner.frameAt target.offset

end State

/-- What holds in every state of a run. -/
structure Sound (target : Target) (state : State θ) : Prop where
  path : PagePath state.vmm.tables state.vmm.l4Addr target.page target.size state.free
  nonzero : 0 ∉ state.free
  blocks : ∀ frame ∈ state.freeHuge, NORMAL_PAGE_SIZE ∣ frame ∧ frame < 2 ^ 52
  regular : ∀ id, (state.stores id).Regular
  /-- Threads are about to enter the agreed frame. -/
  ready : ∀ frame, state.Holding frame → state.agreed target = some frame
  /-- It is the one that is mapped. -/
  mapped : ∀ phys, state.translate target = some phys →
    ∃ frame, state.agreed target = some frame ∧ phys = frame &&& ADDR_MASK
  /-- It is the only one that has been allocated. -/
  allocated : ∀ frame ∈ state.allocated,
    state.agreed target = some frame ∧ frame &&& ADDR_MASK = frame
  /-- An anonymous page has one only while it is mapped, or about to be. -/
  kept : target.node.backingVmo = none → ∀ frame ∈ state.allocated,
    state.translate target = some frame ∨ state.Holding frame
  written : state.WritesKept target

namespace Sound

variable {target : Target} {state next : State θ}

omit [DecidableEq θ] in
theorem boot (boot : Boot target state) : Sound target state := by
  refine ⟨boot.path, boot.nonzero, boot.blocks, boot.regular, ?_, ?_, ?_, ?_, ?_⟩
  · rintro frame ⟨thread, addr, phase_eq⟩
    rw [boot.outside thread] at phase_eq
    cases phase_eq
  · intro phys translated
    rw [boot.unmapped] at translated
    cases translated
  · rw [boot.allocated]
    nofun
  · rw [boot.allocated]
    nofun
  · intro offset value written_eq
    rw [boot.written offset] at written_eq
    cases written_eq

/-- A thread that gives up, or has found the area, holds no frame. -/
theorem setPhase (sound : Sound target state) {thread : θ} {phase : Phase}
    (idle : ∀ addr frame, phase ≠ .ready addr frame)
    (freed : ∀ addr frame, state.phase thread = .ready addr frame →
      target.node.backingVmo = none → frame ∈ state.allocated →
      state.translate target = some frame) :
    Sound target (state.setPhase thread phase) := by
  have held {frame : Nat} (holding : (state.setPhase thread phase).Holding frame) :
      state.Holding frame := by
    obtain ⟨other, addr, phase_eq⟩ := holding
    by_cases same : other = thread
    · subst same
      rw [State.setPhase] at phase_eq
      dsimp only at phase_eq
      rw [Function.update_self] at phase_eq
      exact absurd phase_eq (idle addr frame)
    · rw [State.setPhase] at phase_eq
      dsimp only at phase_eq
      rw [Function.update_of_ne same] at phase_eq
      exact ⟨other, addr, phase_eq⟩
  refine ⟨sound.path, sound.nonzero, sound.blocks, sound.regular,
    fun frame holding => sound.ready frame (held holding), sound.mapped, sound.allocated,
    fun anonymous frame mem => ?_, sound.written⟩
  rcases sound.kept anonymous frame mem with translated | ⟨other, addr, phase_eq⟩
  · exact .inl translated
  · by_cases same : other = thread
    · subst same
      exact .inl (freed addr frame phase_eq anonymous mem)
    · refine .inr ⟨other, addr, ?_⟩
      rw [State.setPhase]
      dsimp only
      rw [Function.update_of_ne same, phase_eq]

/-- A thread that has found the agreed frame. -/
theorem setReady (sound : Sound target state) {thread : θ} {addr frame : Nat}
    (agreed_eq : state.agreed target = some frame)
    (before : ∀ addr frame, state.phase thread ≠ .ready addr frame) :
    Sound target (state.setPhase thread (.ready addr frame)) := by
  refine ⟨sound.path, sound.nonzero, sound.blocks, sound.regular, ?_, sound.mapped,
    sound.allocated, fun anonymous other mem => ?_, sound.written⟩
  · rintro other ⟨holder, place, phase_eq⟩
    rw [State.setPhase] at phase_eq
    dsimp only at phase_eq
    by_cases same : holder = thread
    · subst same
      rw [Function.update_self] at phase_eq
      cases phase_eq
      exact agreed_eq
    · rw [Function.update_of_ne same] at phase_eq
      exact sound.ready other ⟨holder, place, phase_eq⟩
  · rcases sound.kept anonymous other mem with translated | ⟨holder, place, phase_eq⟩
    · exact .inl translated
    · refine .inr ⟨holder, place, ?_⟩
      have ne : holder ≠ thread := fun same => before place other (same ▸ phase_eq)
      rw [State.setPhase]
      dsimp only
      rw [Function.update_of_ne ne, phase_eq]

omit [DecidableEq θ] in
/-- Without an agreed frame nothing has happened to the page. -/
theorem nothing (sound : Sound target state) (none_eq : state.agreed target = none) :
    state.translate target = none ∧ (∀ frame, ¬state.Holding frame) ∧ state.allocated = [] ∧
      ∀ offset, state.written offset = none := by
  have unmapped : state.translate target = none := by
    rw [Option.eq_none_iff_forall_ne_some]
    intro phys translated
    obtain ⟨frame, agreed_eq, -⟩ := sound.mapped phys translated
    rw [none_eq] at agreed_eq
    cases agreed_eq
  refine ⟨unmapped, fun frame holding => ?_, ?_, fun offset => ?_⟩
  · have agreed_eq := sound.ready frame holding
    rw [none_eq] at agreed_eq
    cases agreed_eq
  · refine List.eq_nil_iff_forall_not_mem.mpr fun frame mem => ?_
    have agreed_eq := (sound.allocated frame mem).1
    rw [none_eq] at agreed_eq
    cases agreed_eq
  · rw [Option.eq_none_iff_forall_ne_some]
    intro value written_eq
    obtain ⟨phys, translated, -⟩ := sound.written offset value written_eq
    rw [unmapped] at translated
    cases translated

/-- The first frame is allocated for the page. -/
theorem first (sound : Sound target state) (none_eq : state.agreed target = none) {thread : θ}
    {addr frame : Nat} (vmm_eq : next.vmm = state.vmm) (phase_eq : next.phase = state.phase)
    (written_eq : next.written = state.written) (allocated_eq : next.allocated = [frame])
    (agreed_eq : next.agreed target = some frame) (masked : frame &&& ADDR_MASK = frame)
    (path : PagePath state.vmm.tables state.vmm.l4Addr target.page target.size next.free)
    (nonzero : 0 ∉ next.free)
    (blocks : ∀ frame ∈ next.freeHuge, NORMAL_PAGE_SIZE ∣ frame ∧ frame < 2 ^ 52)
    (regular : ∀ id, (next.stores id).Regular) :
    Sound target (next.setPhase thread (.ready addr frame)) := by
  obtain ⟨unmapped, idle, -, unwritten⟩ := sound.nothing none_eq
  have unmapped : next.translate target = none := by
    rw [State.translate, vmm_eq]
    exact unmapped
  refine ⟨?_, nonzero, blocks, regular, ?_, fun phys translated => ?_, fun other mem => ?_,
    fun _ other mem => ?_, fun offset value value_eq => ?_⟩
  · change PagePath next.vmm.tables next.vmm.l4Addr target.page target.size next.free
    rw [vmm_eq]
    exact path
  · rintro other ⟨holder, place, holder_eq⟩
    rw [State.setPhase] at holder_eq
    dsimp only at holder_eq
    by_cases same : holder = thread
    · subst same
      rw [Function.update_self] at holder_eq
      cases holder_eq
      exact agreed_eq
    · rw [Function.update_of_ne same, phase_eq] at holder_eq
      exact absurd ⟨holder, place, holder_eq⟩ (idle other)
  · rw [show (next.setPhase thread (.ready addr frame)).translate target = none from unmapped]
      at translated
    cases translated
  · obtain rfl : other = frame := by
      change other ∈ next.allocated at mem
      rw [allocated_eq] at mem
      exact List.mem_singleton.mp mem
    exact ⟨agreed_eq, masked⟩
  · obtain rfl : other = frame := by
      change other ∈ next.allocated at mem
      rw [allocated_eq] at mem
      exact List.mem_singleton.mp mem
    exact .inr ⟨thread, addr, Function.update_self ..⟩
  · change next.written offset = some value at value_eq
    rw [written_eq, unwritten] at value_eq
    cases value_eq

/-- The first frame of an anonymous page. -/
theorem allocPage_first (sound : Sound target state) (anonymous : target.node.backingVmo = none)
    (none_eq : state.agreed target = none) {thread : θ} {addr frame : Nat}
    (alloc_eq : state.allocPage target.size = .ok (frame, next)) :
    Sound target (next.setPhase thread (.ready addr frame)) := by
  have allocated_eq := (sound.nothing none_eq).2.2.1
  cases size_eq : target.size with
  | Normal =>
      rw [size_eq] at alloc_eq
      obtain ⟨⟨found, rest⟩, queue_eq, done⟩ := bind_eq_ok.mp alloc_eq
      have free_eq := PagedBackingStore.allocFrame_ok queue_eq
      cases done
      have path := sound.path
      have nonzero := sound.nonzero
      rw [free_eq] at path nonzero
      refine sound.first none_eq rfl rfl rfl ?_ ?_ ?_ path.shrink
        (fun mem => nonzero (List.mem_cons_of_mem _ mem)) sound.blocks sound.regular
      · change frame :: state.allocated = [frame]
        rw [allocated_eq]
      · rw [State.agreed, anonymous]
        rfl
      · exact PageTableEntry.and_mask_of_aligned (path.aligned frame List.mem_cons_self)
          (path.small frame List.mem_cons_self)
  | Huge =>
      rw [size_eq] at alloc_eq
      obtain ⟨⟨found, rest⟩, queue_eq, done⟩ := bind_eq_ok.mp alloc_eq
      have free_eq := PagedBackingStore.allocFrame_ok queue_eq
      cases done
      have blocks := sound.blocks
      rw [free_eq] at blocks
      obtain ⟨aligned, small⟩ := blocks frame List.mem_cons_self
      refine sound.first none_eq rfl rfl rfl ?_ ?_ ?_ sound.path sound.nonzero
        (fun other mem => blocks other (List.mem_cons_of_mem _ mem)) sound.regular
      · change frame :: state.allocated = [frame]
        rw [allocated_eq]
      · rw [State.agreed, anonymous]
        rfl
      · exact PageTableEntry.and_mask_of_aligned aligned small

/-- A thread obtains the frame of the page. -/
theorem obtain (sound : Sound target state) {thread : θ} {addr : Nat} {disk : Nat → Bool}
    {content : Nat → Nat} {result : Except Unit Nat}
    (permitted : Permitted target state (.obtain thread disk content))
    (before : ∀ addr frame, state.phase thread ≠ .ready addr frame)
    (obtain_eq : state.obtain target disk content = .ok (result, next)) :
    Sound target (next.answer thread addr result) := by
  rw [State.obtain] at obtain_eq
  rw [Permitted] at permitted
  cases backing : target.node.backingVmo with
  | none =>
      simp only [backing] at obtain_eq permitted
      obtain ⟨⟨frame, after⟩, alloc_eq, done⟩ := bind_eq_ok.mp obtain_eq
      cases done
      have none_eq : state.agreed target = none := by
        rw [State.agreed, backing]
        cases allocated_eq : state.allocated with
        | nil => rfl
        | cons other rest =>
            rcases sound.kept backing other (allocated_eq ▸ List.mem_cons_self) with
              translated | holding
            · rw [permitted.1] at translated
              cases translated
            · exact absurd holding (permitted.2 other)
      exact sound.allocPage_first backing none_eq alloc_eq
  | some id =>
      simp only [backing] at obtain_eq permitted
      obtain ⟨⟨answer, store, rest⟩, request_eq, done⟩ := bind_eq_ok.mp obtain_eq
      cases done
      have agreed_eq : state.agreed target = (state.stores id).inner.frameAt target.offset := by
        rw [State.agreed, backing]
      have unchanged : { state with
          stores := Function.update state.stores id (state.stores id)
          free := state.free
          memory := State.fill (state.stores id) (VmoLedger.taken state.free state.free) content
            state.memory
          allocated := VmoLedger.taken state.free state.free ++ state.allocated } = state := by
        have none_taken : VmoLedger.taken state.free state.free = [] :=
          VmoLedger.Sound.taken_append [] state.free
        rw [none_taken, Function.update_eq_self, State.fill_nil]
        rfl
      rcases requestPage_kept (sound.regular id) sound.nonzero permitted request_eq with
        ⟨frame, found, rfl, rfl, rfl⟩ | ⟨rfl, rfl, rfl⟩ |
        ⟨frame, free_eq, absent, rfl, found, regular⟩
      · dsimp only
        rw [unchanged]
        exact sound.setReady (agreed_eq.trans found) before
      · dsimp only
        rw [unchanged]
        exact sound.setPhase nofun fun addr frame ready => absurd ready (before addr frame)
      · have path := sound.path
        have nonzero := sound.nonzero
        rw [free_eq] at path nonzero
        have none_eq := agreed_eq.trans absent
        refine sound.first none_eq rfl rfl rfl ?_ ?_ ?_ path.shrink
          (fun mem => nonzero (List.mem_cons_of_mem _ mem)) sound.blocks fun other => ?_
        · change VmoLedger.taken state.free rest ++ state.allocated = [frame]
          rw [(sound.nothing none_eq).2.2.1, free_eq, List.append_nil]
          exact VmoLedger.Sound.taken_append [frame] rest
        · simp only [State.agreed, backing, Function.update_self]
          exact found
        · exact PageTableEntry.and_mask_of_aligned (path.aligned frame List.mem_cons_self)
            (path.small frame List.mem_cons_self)
        · by_cases same : other = id
          · subst same
            simpa using regular
          · simpa [Function.update_of_ne same] using sound.regular other

/-- A thread enters the page. -/
theorem enter (sound : Sound target state) {thread : θ} {addr frame : Nat}
    (ready : state.phase thread = .ready addr frame)
    (enter_eq : state.enter target addr frame = .ok next) :
    next.translate target = some (frame &&& ADDR_MASK) ∧
      Sound target (next.setPhase thread .outside) := by
  obtain ⟨after, map_eq, done⟩ := bind_eq_ok.mp enter_eq
  obtain ⟨-, -, rest_eq⟩ := bind_eq_ok.mp map_eq
  obtain ⟨⟨⟩, assert_eq, table_eq⟩ := bind_eq_ok.mp rest_eq
  obtain ⟨path, translated, suffix⟩ := sound.path.mapPage (convertVmFlags_valid _) table_eq
  have offset : target.page % target.size.bytes = 0 :=
    Nat.mod_eq_zero_of_dvd (Pager.dvd_of_assertVirt assert_eq)
  rw [offset, Nat.add_zero] at translated
  have agreed_eq := sound.ready frame ⟨thread, addr, ready⟩
  cases done
  -- Whatever has been allocated is what is entered.
  have allocated (other : Nat) (mem : other ∈ state.allocated) : frame &&& ADDR_MASK = other := by
    obtain ⟨other_eq, masked⟩ := sound.allocated other mem
    obtain rfl := Option.some.inj (agreed_eq.symm.trans other_eq)
    exact masked
  have entered : Sound target { state with
      vmm := { state.vmm with
        tables := after.tables
        effects := state.vmm.effects ++ [.mapPage target.page frame target.size, .flushTlb addr] }
      free := after.frames } := by
    refine ⟨path, fun mem => sound.nonzero (suffix.subset mem), sound.blocks, sound.regular,
      sound.ready, fun phys found => ?_, sound.allocated, fun _ other mem => ?_,
      fun offset value written_eq => ?_⟩
    · exact ⟨frame, agreed_eq, Option.some.inj (found.symm.trans translated)⟩
    · rw [← allocated other mem]
      exact .inl translated
    · obtain ⟨phys, found, byte_eq⟩ := sound.written offset value written_eq
      obtain ⟨other, other_eq, rfl⟩ := sound.mapped phys found
      obtain rfl := Option.some.inj (agreed_eq.symm.trans other_eq)
      exact ⟨_, translated, byte_eq⟩
  refine ⟨translated, entered.setPhase nofun fun _ other _ _ mem => ?_⟩
  rw [← allocated other mem]
  exact translated

omit [DecidableEq θ] in
/-- The process writes a byte of the page. -/
theorem store (sound : Sound target state) {phys : Nat} (offset value : Nat)
    (translated : state.translate target = some phys) :
    Sound target { state with
      memory := Function.update state.memory (phys + offset) value
      written := Function.update state.written offset (some value) } := by
  refine ⟨sound.path, sound.nonzero, sound.blocks, sound.regular, sound.ready, sound.mapped,
    sound.allocated, sound.kept, fun place other written_eq => ?_⟩
  refine ⟨phys, translated, ?_⟩
  dsimp only at written_eq ⊢
  by_cases same : place = offset
  · subst same
    rw [Function.update_self] at written_eq ⊢
    exact Option.some.inj written_eq
  · rw [Function.update_of_ne same] at written_eq
    rw [Function.update_of_ne fun equal => same (Nat.add_left_cancel equal)]
    obtain ⟨found, found_eq, byte_eq⟩ := sound.written place other written_eq
    obtain rfl := Option.some.inj (translated.symm.trans found_eq)
    exact byte_eq

/-- No step takes the page away, or maps it elsewhere. -/
theorem step (sound : Sound target state) {action : Action θ}
    (permitted : Permitted target state action)
    (step_eq : ConcurrentFaults.step target state action = .ok next) :
    Sound target next ∧
      ∀ phys, state.translate target = some phys → next.translate target = some phys := by
  cases action with
  | find thread addr errorCode =>
      obtain ⟨⟨⟩, outside, rest_eq⟩ := bind_eq_ok.mp step_eq
      have outside := guarded_eq_ok.mp outside
      obtain ⟨area, -, rest_eq⟩ := bind_eq_ok.mp rest_eq
      cases area with
      | error problem =>
          cases rest_eq
          exact ⟨sound, fun _ => id⟩
      | ok node =>
          obtain ⟨⟨⟩, -, done⟩ := bind_eq_ok.mp rest_eq
          cases done
          refine ⟨sound.setPhase nofun fun place frame ready => ?_, fun _ => id⟩
          rw [outside] at ready
          cases ready
  | obtain thread disk content =>
      rw [ConcurrentFaults.step] at step_eq
      split at step_eq
      next addr found =>
        obtain ⟨⟨result, after⟩, code_eq, done⟩ := bind_eq_ok.mp step_eq
        cases done
        have code_eq := panics_eq_ok.mp code_eq
        refine ⟨sound.obtain permitted (fun place frame ready => ?_) code_eq,
          fun phys translated => ?_⟩
        · rw [found] at ready
          cases ready
        rw [State.translate, State.answer_vmm, State.obtain_vmm code_eq]
        exact translated
      next => cases step_eq
  | enter thread =>
      rw [ConcurrentFaults.step] at step_eq
      split at step_eq
      next addr frame ready =>
        obtain ⟨after, code_eq, done⟩ := bind_eq_ok.mp step_eq
        cases done
        obtain ⟨translated, entered⟩ := sound.enter ready (panics_eq_ok.mp code_eq)
        refine ⟨entered, fun phys found => ?_⟩
        obtain ⟨other, other_eq, rfl⟩ := sound.mapped phys found
        have ready_eq := sound.ready frame ⟨thread, addr, ready⟩
        obtain rfl := Option.some.inj (ready_eq.symm.trans other_eq)
        exact translated
      next => cases step_eq
  | store offset value =>
      obtain ⟨phys, translated, rest_eq⟩ := bind_eq_ok.mp step_eq
      obtain ⟨⟨⟩, -, done⟩ := bind_eq_ok.mp rest_eq
      cases done
      exact ⟨sound.store offset value (present_eq_ok.mp translated), fun _ => id⟩

omit [DecidableEq θ] in
/-- Allocated frames are referenced. -/
theorem framesReferenced (sound : Sound target state) : state.FramesReferenced target := by
  intro frame mem
  cases backing : target.node.backingVmo with
  | none =>
      rcases sound.kept backing frame mem with translated | holding
      · exact .inl translated
      · exact .inr (.inl holding)
  | some id =>
      have agreed_eq := (sound.allocated frame mem).1
      rw [State.agreed, backing] at agreed_eq
      exact .inr (.inr ⟨id, rfl, agreed_eq⟩)

end Sound

/-- **Agreement.** In every run in which a frame is obtained for an anonymous page only while the
page is not mapped and no thread has a frame for it, and the disk delivers what files are read, the
page keeps the frame that it is first mapped to, what the process writes is what it reads, and every
frame allocated for the page is referenced. -/
theorem faults_agree {target : Target} {state middle final : State θ} {first rest : List (Action θ)}
    (boot : Boot target state) (permits : (system target).Permits state (first ++ rest))
    (first_eq : (system target).run state first = .ok middle)
    (rest_eq : (system target).run middle rest = .ok final) :
    (∀ phys, middle.translate target = some phys → final.translate target = some phys) ∧
      final.WritesKept target ∧ final.FramesReferenced target := by
  have keeps (state : State θ) (action : Action θ) (next : State θ) (sound : Sound target state)
      (permitted : (system target).permitted state action)
      (step_eq : (system target).step state action = .ok next) : Sound target next :=
    (sound.step permitted step_eq).1
  have sound := (system target).run_keeps keeps (Sound.boot boot)
    ((system target).permits_first permits) first_eq
  have later := (system target).permits_rest permits first_eq
  have final_sound := (system target).run_keeps keeps sound later rest_eq
  refine ⟨fun phys translated => ?_, final_sound.written, final_sound.framesReferenced⟩
  have kept (state : State θ) (action : Action θ) (next : State θ)
      (holds : Sound target state ∧ state.translate target = some phys)
      (permitted : (system target).permitted state action)
      (step_eq : (system target).step state action = .ok next) :
      Sound target next ∧ next.translate target = some phys := by
    obtain ⟨next_sound, stays⟩ := holds.1.step permitted step_eq
    exact ⟨next_sound, stays phys holds.2⟩
  exact ((system target).run_keeps kept ⟨sound, translated⟩ later rest_eq).2

section Runs

/-- What the page allocator returns next. -/
def spareFrames : List Nat := [0x5000, 0x6000, 0x7000, 0x8000, 0x9000]

/-- A process with one area of one page. -/
def onePage (backingVmo : Option Nat) : State Bool where
  vmm :=
    { head := some 7
      nodes := fun _ =>
        ⟨VM_BASE_ADDR, 0x1000, VM_FLAG_WRITE ||| VM_FLAG_USER, none, none, backingVmo, 0⟩
      live := [7]
      l4Addr := 0x1000
      tables := fun _ _ => .unused
      effects := [] }
  stores _ := .plain (.new 0x1000)
  free := spareFrames
  freeHuge := []
  phase _ := .outside
  memory _ := 0
  written _ := none
  allocated := []

/-- Its page. -/
def itsPage (backingVmo : Option Nat) : Target :=
  ⟨(onePage backingVmo).vmm.nodes 7, VM_BASE_ADDR⟩

theorem onePage_boot (backingVmo : Option Nat) :
    Boot (itsPage backingVmo) (onePage backingVmo) := by
  have only_root {path : List Nat} {table : Nat}
      (reached : RadixTree.walk nextTable (fun _ _ => .unused : Tables) 0x1000 path = some table) :
      path = [] ∧ table = 0x1000 := by
    cases path with
    | nil => exact ⟨rfl, (Option.some.inj reached).symm⟩
    | cons index path =>
        rw [RadixTree.walk, nextTable_unused] at reached
        cases reached
  refine ⟨⟨fun left right table _ _ left_eq right_eq => ?_, fun _ table _ present => ?_,
    show spareFrames.Nodup by decide,
    show ∀ frame ∈ spareFrames, NORMAL_PAGE_SIZE ∣ frame by decide,
    show ∀ frame ∈ spareFrames, frame < 2 ^ 52 by decide, fun frame mem path _ reached => ?_⟩,
    by simp [State.translate, Pager.translate, PageTable.translate, onePage, nextTable_unused],
    show 0 ∉ spareFrames by decide, fun _ mem => absurd mem List.not_mem_nil,
    fun _ physical => ⟨_, rfl⟩, fun _ => rfl, fun _ => rfl, rfl⟩
  · rw [(only_root left_eq).1, (only_root right_eq).1]
  · rw [show (onePage backingVmo).vmm.tables table _ = .unused from rfl,
      PageTableEntry.isPresent_unused] at present
    cases present
  · obtain ⟨-, rfl⟩ := only_root reached
    exact absurd mem (show 0x1000 ∉ spareFrames by decide)

/-- Two faults on the page, both of which have their frame before the page is entered; then the
process writes a byte. -/
def overlapping : List (Action Bool) :=
  [.find false VM_BASE_ADDR 2, .find true VM_BASE_ADDR 2, .obtain false (fun _ => true) id,
    .obtain true (fun _ => true) id, .enter false, .store 0 1]

/-- Overlapping faults on a page of a memory object. -/
theorem faults_agree_shared : ∃ middle final : State Bool,
    (system (itsPage (some 0))).run (onePage (some 0)) overlapping = .ok middle ∧
    middle.translate (itsPage (some 0)) = some 0x5000 ∧
    (system (itsPage (some 0))).run middle [.enter true] = .ok final ∧
    final.translate (itsPage (some 0)) = some 0x5000 ∧
    final.WritesKept (itsPage (some 0)) ∧ final.FramesReferenced (itsPage (some 0)) := by
  have permits : (system (itsPage (some 0))).Permits (onePage (some 0))
      (overlapping ++ [.enter true]) := by
    apply Machine.permits_of_mem
    intro action mem state
    have readable (file : FileVmo) :
        file.loadPage (fun _ => true) (itsPage (some 0)).offset = true :=
      List.all_eq_true.mpr fun _ _ => rfl
    simp only [overlapping, List.cons_append, List.nil_append, List.mem_cons, List.not_mem_nil,
      or_false] at mem
    rcases mem with rfl | rfl | rfl | rfl | rfl | rfl | rfl
    · trivial
    · trivial
    · exact fun file _ _ _ => readable file
    · exact fun file _ _ _ => readable file
    · trivial
    · trivial
    · trivial
  have evaluated : ((system (itsPage (some 0))).run (onePage (some 0)) overlapping).map
      (fun middle => middle.translate (itsPage (some 0))) = .ok (some 0x5000) := by
    rfl
  have finished : ((system (itsPage (some 0))).run (onePage (some 0))
      (overlapping ++ [.enter true])).map (fun _ => ()) = .ok () := by
    rfl
  obtain ⟨middle, first_eq, translated⟩ := map_eq_ok.mp evaluated
  obtain ⟨final, run_eq, -⟩ := map_eq_ok.mp finished
  rw [(system (itsPage (some 0))).run_append_ok _ first_eq] at run_eq
  obtain ⟨stays, kept, referenced⟩ := faults_agree (onePage_boot (some 0)) permits first_eq run_eq
  exact ⟨middle, final, first_eq, translated, run_eq, stays _ translated, kept, referenced⟩

/-- Overlapping faults on an anonymous page enter two frames, one over the other. -/
theorem anonymous_page_remapped :
    ¬∀ (target : Target) (state middle final : State Bool) (first rest : List (Action Bool)),
      Boot target state → (system target).run state first = .ok middle →
      (system target).run middle rest = .ok final →
      (∀ phys, middle.translate target = some phys → final.translate target = some phys) ∧
        final.WritesKept target ∧ final.FramesReferenced target := by
  intro always
  have evaluated : ((system (itsPage none)).run (onePage none) overlapping).map
      (fun middle => middle.translate (itsPage none)) = .ok (some 0x5000) := by
    rfl
  have finished : ((system (itsPage none)).run (onePage none) (overlapping ++ [.enter true])).map
      (fun final => final.translate (itsPage none)) = .ok (some 0x6000) := by
    rfl
  obtain ⟨middle, first_eq, translated⟩ := map_eq_ok.mp evaluated
  obtain ⟨final, run_eq, elsewhere⟩ := map_eq_ok.mp finished
  rw [(system (itsPage none)).run_append_ok _ first_eq] at run_eq
  have stays := (always _ _ _ _ _ _ (onePage_boot none) first_eq run_eq).1 _ translated
  rw [elsewhere] at stays
  cases stays

end Runs

end ConcurrentFaults
end Vespertine
