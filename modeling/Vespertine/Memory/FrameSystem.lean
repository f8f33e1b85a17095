import Vespertine.Memory.Backing
import Vespertine.Memory.Vmo

/-!
# Memory objects, mappings and pins together

All processes, all memory objects and the page allocator as one system.  Every action is what one
lock of the code makes atomic, so a sequence of actions is an interleaving: a page fault first gets
its frame from the memory object and enters it in a later action, and a pin requests its pages one
by one.  A page fault keeps the area list of its process locked for reading until the page is
entered; mapping and unmapping lock it for writing.

The page allocator is the set of its free frames, in the magazines and in the buddy lists alike.
Actions that allocate name the frames they get; frames held by the rest of the kernel, page tables
among them, are in `taken`.  Marks on pinned frames are written to the frame database but never
read, so they are left out.
-/

namespace Vespertine

/-- The 4 KiB frames of a page. -/
def coveredFrames (phys : Nat) (size : BlockSize) : List Nat :=
  (List.range (size.bytes / NORMAL_PAGE_SIZE)).map (phys + · * NORMAL_PAGE_SIZE)

theorem coveredFrames_normal (phys : Nat) : coveredFrames phys .Normal = [phys] := by
  simp [coveredFrames, BlockSize.bytes, NORMAL_PAGE_SIZE]

/-- The frames an effect returns to the page allocator. -/
def Effect.freedFrames : Effect → List Nat
  | .free addr size => coveredFrames addr size
  | _ => []

namespace FrameSystem

/-- A memory object with the references to it. -/
structure Entry where
  store : PagedBackingStore
  /-- References from handles and other kernel objects. -/
  holders : Nat
  /-- References from areas; the reference of an unmapped area is never given up. -/
  areas : Nat

/-- A page fault between its request for a frame and the entry of the page. -/
structure Fault where
  pid : Nat
  addr : Nat
  errorCode : Nat
  frame : Nat
deriving DecidableEq

/-- A `PinnedVmo`; it is being made while offsets remain to be requested. -/
structure Pin where
  vmo : Nat
  remaining : List Nat
  physAddrs : List Nat
deriving DecidableEq

/-- All processes and memory objects. -/
structure State where
  processes : Nat → VirtMemManager
  vmos : Nat → Option Entry
  /-- Memory objects are numbered below this. -/
  nextVmo : Nat
  /-- Frames in the magazines and buddy lists of the page allocator. -/
  free : List Nat
  /-- Frames held by the rest of the kernel. -/
  taken : List Nat
  faults : List Fault
  pins : List Pin

/-- Why an action does not take place. -/
inductive Stop
  /-- The action is not possible in this state. -/
  | blocked
  /-- The kernel panics. -/
  | panicked (panic : Panic)

/-- Actions; `supply` are the frames the page allocator returns, and `disk` says which blocks of a
file can be read. -/
inductive Action
  /-- `Vmo::new`. -/
  | create (size : Nat)
  /-- `FileVmo::new`. -/
  | createFile (size blockSize : Nat)
  /-- `Vmo::new_phys`, for device memory. -/
  | createPhys (physAddr size : Nat)
  /-- A handle or another kernel object takes a further reference. -/
  | retain (vmo : Nat)
  /-- A handle or another kernel object drops its reference. -/
  | release (vmo : Nat)
  /-- `VmoOp::GetPage`, and requests by kernel code. -/
  | getPage (vmo offset : Nat) (disk : Nat → Bool) (supply : List Nat)
  /-- `VmoOp::Resize`. -/
  | resize (vmo newSize : Nat)
  /-- `VmoOp::Clone`. -/
  | clone (vmo offset len : Nat) (supply : List Nat)
  /-- `VmoOp::MapIntoProc`, and mappings made by the program loader. -/
  | map (pid vmo vaddr len flags nodePtr : Nat)
  /-- `ProcessOp::Unmap`. -/
  | unmap (pid vaddr len : Nat)
  /-- A page fault finds its area and requests the frame. -/
  | fault (pid addr errorCode : Nat) (disk : Nat → Bool) (supply : List Nat)
  /-- A page fault enters its page, with frames for new page tables. -/
  | enter (index : Nat) (tableFrames : List Nat)
  /-- `pin` checks its range. -/
  | pin (vmo offset len : Nat)
  /-- `pin` requests its next page. -/
  | pinPage (index : Nat) (disk : Nat → Bool) (supply : List Nat)
  /-- A `PinnedVmo` is dropped. -/
  | unpin (index : Nat)
  /-- The rest of the kernel allocates a frame. -/
  | take (frame : Nat)
  /-- The rest of the kernel frees a frame it holds. -/
  | give (frame : Nat)

/-- Kernel code inside an action. -/
def panics {α : Type} : Kernel α → Except Stop α
  | .ok value => .ok value
  | .error panic => .error (.panicked panic)

/-- Something an action needs. -/
def present {α : Type} : Option α → Except Stop α
  | some value => .ok value
  | none => .error .blocked

/-- A condition on the state for an action. -/
def guarded (condition : Prop) [Decidable condition] : Except Stop Unit :=
  if condition then .ok () else .error .blocked

namespace State

/-- Replace one memory object; `freed` goes to the page allocator and `used` comes from it. -/
def replace (state : State) (id : Nat) (entry : Option Entry) (freed used : List Nat) : State :=
  { state with
    vmos := Function.update state.vmos id entry
    nextVmo := max state.nextVmo (id + 1)
    free := freed ++ state.free.filter (· ∉ used) }

/-- Replace the memory manager of a process. -/
def setProcess (state : State) (pid : Nat) (vmm : VirtMemManager) : State :=
  { state with processes := Function.update state.processes pid vmm }

/-- The memory object behind a handle. -/
def object (state : State) (id : Nat) : Except Stop Entry := do
  let entry ← present (state.vmos id)
  guarded (entry.holders ≠ 0)
  return entry

/-- The page allocator can return these frames. -/
def supplies (state : State) (supply : List Nat) : Except Stop Unit :=
  guarded (supply.Nodup ∧ ∀ frame ∈ supply, frame ∈ state.free)

/-- No page fault holds the area list of the process. -/
def unlocked (state : State) (pid : Nat) : Except Stop Unit :=
  guarded (∀ fault ∈ state.faults, fault.pid ≠ pid)

/-- Drop a memory object without references. -/
def dropUnreferenced (state : State) (id : Nat) : State :=
  match state.vmos id with
  | none => state
  | some entry =>
      if entry.holders = 0 ∧ entry.areas = 0 ∧ ∀ pin ∈ state.pins, pin.vmo ≠ id then
        state.replace id none entry.store.inner.drop []
      else
        state

/-- `request_page` on a memory object. -/
def request (state : State) (id : Nat) (disk : Nat → Bool) (offset : Nat) (supply : List Nat) :
    Except Stop (Except Unit Nat × State) := do
  let entry ← present (state.vmos id)
  state.supplies supply
  let (result, store, rest) ← panics (entry.store.requestPage disk offset supply)
  return (result,
    state.replace id (some { entry with store }) [] (supply.filter (· ∉ rest)))

/-- `MapIntoProc`. -/
def mapIntoProc (state : State) (pid id vaddr len flags nodePtr : Nat) : Except Stop State := do
  let entry ← state.object id
  state.unlocked pid
  let vmm := state.processes pid
  let (addr, next) ← panics <|
    if vaddr = 0 then
      vmm.mmapVmo len flags id nodePtr
    else
      vmm.mmapVmoAt vaddr len flags id nodePtr
  match addr with
  | none => return state.setProcess pid next
  | some _ =>
      return (state.replace id (some { entry with areas := entry.areas + 1 }) [] []).setProcess
        pid next

/-- `munmap`; frames of anonymous areas go back to the page allocator. -/
def unmap (state : State) (pid vaddr len : Nat) : Except Stop State := do
  state.unlocked pid
  let vmm := state.processes pid
  let (_, next) ← panics (vmm.munmap vaddr len)
  let freed := (next.effects.drop vmm.effects.length).flatMap Effect.freedFrames
  return { state.setProcess pid next with free := freed ++ state.free }

/-- The first half of `handle_page_fault`.  No call of the kernel places an anonymous area. -/
def beginFault (state : State) (pid addr errorCode : Nat) (disk : Nat → Bool)
    (supply : List Nat) : Except Stop State := do
  match ← panics ((state.processes pid).faultArea addr errorCode) with
  | .error _ => return state
  | .ok node =>
      let id ← present node.backingVmo
      let (result, next) ← state.request id disk (VirtMemManager.faultOffset node addr) supply
      match result with
      | .error () => return next
      | .ok frame => return { next with faults := ⟨pid, addr, errorCode, frame⟩ :: next.faults }

/-- The second half of `handle_page_fault`: the area list is as it was, the frame is at hand. -/
def enterPage (state : State) (index : Nat) (tableFrames : List Nat) : Except Stop State := do
  let fault ← present state.faults[index]?
  guarded (∀ frame ∈ tableFrames, frame ∈ state.taken)
  let env : VirtMemManager.FaultEnv := ⟨fun _ _ => some fault.frame, fault.frame, tableFrames⟩
  let (_, next) ← panics
    ((state.processes fault.pid).handlePageFault env fault.addr fault.errorCode)
  return { state.setProcess fault.pid next with faults := state.faults.eraseIdx index }

/-- One round of the loop of `pin`; a refused request ends the pin. -/
def pinPage (state : State) (index : Nat) (disk : Nat → Bool) (supply : List Nat) :
    Except Stop State := do
  let pin ← present state.pins[index]?
  let offset ← present pin.remaining.head?
  let (result, next) ← state.request pin.vmo disk offset supply
  match result with
  | .error () => return { next with pins := next.pins.eraseIdx index }.dropUnreferenced pin.vmo
  | .ok frame =>
      let pinned := ⟨pin.vmo, pin.remaining.tail, pin.physAddrs ++ [frame]⟩
      return { next with pins := next.pins.set index pinned }

end State

/-- One action; `device` are the frames of device memory. -/
def step (device : Nat → Bool) (state : State) : Action → Except Stop State
  | .create size =>
      return state.replace state.nextVmo (some ⟨.plain (.new size), 1, 0⟩) [] []
  | .createFile size blockSize =>
      return state.replace state.nextVmo (some ⟨.fileBacked ⟨.new size, blockSize⟩, 1, 0⟩) [] []
  | .createPhys physAddr size => do
      guarded (∀ offset ∈ Vmo.pageOffsets size, device (physAddr + offset) = true)
      return state.replace state.nextVmo (some ⟨.plain (.newPhys physAddr size), 1, 0⟩) [] []
  | .retain id => do
      let entry ← state.object id
      return state.replace id (some { entry with holders := entry.holders + 1 }) [] []
  | .release id => do
      let entry ← state.object id
      let next := state.replace id (some { entry with holders := entry.holders - 1 }) [] []
      return next.dropUnreferenced id
  | .getPage id offset disk supply => do
      let _ ← state.object id
      let (_, next) ← state.request id disk offset supply
      return next
  | .resize id newSize => do
      let entry ← state.object id
      match entry.store.resizeObject newSize with
      | .error () => return state
      | .ok (store, freed) => return state.replace id (some { entry with store }) freed []
  | .clone id offset len supply => do
      let entry ← state.object id
      state.supplies supply
      let (result, rest) ← panics (entry.store.inner.cloneRange offset len supply)
      match result with
      | .error () => return state
      | .ok child =>
          return state.replace state.nextVmo (some ⟨.plain child, 1, 0⟩) []
            (supply.filter (· ∉ rest))
  | .map pid id vaddr len flags nodePtr => state.mapIntoProc pid id vaddr len flags nodePtr
  | .unmap pid vaddr len => state.unmap pid vaddr len
  | .fault pid addr errorCode disk supply => state.beginFault pid addr errorCode disk supply
  | .enter index tableFrames => state.enterPage index tableFrames
  | .pin id offset len => do
      let entry ← state.object id
      match entry.store.inner.pinOffsets offset len with
      | .error () => return state
      | .ok offsets => return { state with pins := ⟨id, offsets, []⟩ :: state.pins }
  | .pinPage index disk supply => state.pinPage index disk supply
  | .unpin index => do
      let pin ← present state.pins[index]?
      guarded (pin.remaining = [])
      return { state with pins := state.pins.eraseIdx index }.dropUnreferenced pin.vmo
  | .take frame => do
      guarded (frame ∈ state.free)
      return { state with
        free := state.free.filter (· ≠ frame), taken := frame :: state.taken }
  | .give frame => do
      guarded (frame ∈ state.taken)
      return { state with
        free := frame :: state.free, taken := state.taken.filter (· ≠ frame) }

namespace State

/-- A process maps the frame. -/
def Maps (state : State) (pid frame : Nat) : Prop :=
  ∃ size page phys, mappedPages (state.processes pid).effects size page = some phys ∧
    frame ∈ coveredFrames phys size

/-- A memory object holds the frame. -/
def Holds (state : State) (id frame : Nat) : Prop :=
  ∃ entry offset, state.vmos id = some entry ∧ entry.store.inner.frameAt offset = some frame

/-- The memory object has been mapped. -/
def Mapped (state : State) (id : Nat) : Prop :=
  ∃ entry, state.vmos id = some entry ∧ 0 < entry.areas

/-- A mapped memory object holds the frame. -/
def Backs (state : State) (frame : Nat) : Prop := ∃ id, state.Mapped id ∧ state.Holds id frame

/-- Something other than its memory object still refers to the frame: a page of a process, a page
fault that is about to enter it, or a pin. -/
def Reaches (state : State) (frame : Nat) : Prop :=
  (∃ pid, state.Maps pid frame) ∨ (∃ fault ∈ state.faults, fault.frame = frame) ∨
    ∃ pin ∈ state.pins, frame ∈ pin.physAddrs

end State

/-- Shrinking a memory object removes no page whose frame is still referred to, and a 2 MiB page is
entered only where mapped memory objects hold all its frames. -/
def Permitted (state : State) : Action → Prop
  | .resize id newSize =>
      ∀ entry, state.vmos id = some entry → entry.store.inner.isPhysical = false →
        newSize < entry.store.inner.size → ∀ offset ≥ newSize, ∀ frame,
          entry.store.inner.frameAt offset = some frame → ¬state.Reaches frame
  | .enter index _ =>
      ∀ fault, state.faults[index]? = some fault → ∀ node,
        (state.processes fault.pid).faultArea fault.addr fault.errorCode = .ok (.ok node) →
          blockSize node.flags = .Huge →
            ∀ frame ∈ coveredFrames fault.frame .Huge, state.Backs frame
  | _ => True

/-- The system taking actions. -/
def system (device : Nat → Bool) : Machine State Action Stop := ⟨step device, Permitted⟩

/-- No frame that a process maps or a `PinnedVmo` lists is free. -/
structure NoneFree (state : State) : Prop where
  mapped : ∀ pid frame, state.Maps pid frame → frame ∉ state.free
  pinned : ∀ pin ∈ state.pins, pin.remaining = [] → ∀ frame ∈ pin.physAddrs, frame ∉ state.free

/-- Nothing has been mapped, and the page allocator has neither the null frame nor device
memory. -/
structure Boot (device : Nat → Bool) (state : State) : Prop where
  processes : ∀ pid, ∃ nodes l4Addr tables, state.processes pid = .new nodes l4Addr tables
  vmos : ∀ id, state.vmos id = none
  faults : state.faults = []
  pins : state.pins = []
  ordinary : ∀ frame ∈ state.free ++ state.taken, frame ≠ 0 ∧ device frame = false
  apart : ∀ frame ∈ state.taken, frame ∉ state.free

end FrameSystem
end Vespertine
