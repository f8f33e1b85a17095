import Vespertine.Library.Leftovers
import Vespertine.Memory.FrameSystem

/-!
# What a page shows at first

The contents of frames while memory objects, anonymous pages and the kernel obtain them, write them
and give them back.  A page fault enters frames in an address space, where a process sees them when
it first looks at them; a huge page of a memory object has 512 frames, though only the first is of
the object.

Nothing clears a frame that changes hands.  Two runs that differ only in the bytes that earlier
owners stored in frames before they gave them back show the same pages as long as each byte that is
looked at has been overwritten since, by the kernel, from a file, from another page or by a process.
-/

namespace Vespertine
namespace FirstSight

open Function (update)
open Leftovers

/-- The contents of a frame. -/
abbrev Page := Fin NORMAL_PAGE_SIZE → UInt8

/-- The contents of all frames. -/
abbrev Memory := Nat → Page

/-- Bytes that are stored in a frame. -/
abbrev Patch := Fin NORMAL_PAGE_SIZE → Option UInt8

/-- A frame that is written, and what to. -/
abbrev Write := Nat × Source Nat (Fin NORMAL_PAGE_SIZE) UInt8

/-- What an operation does with frames. -/
structure Effect where
  /-- Frames that are written, in order. -/
  writes : List Write := []
  /-- Frames that a process looks at. -/
  shown : List Nat := []
  /-- Frames that are given back. -/
  released : List Nat := []

/-- The blocks of a file, where they can be read. -/
abbrev Disk := Nat → Option (Nat → UInt8)

/-- Memory objects are `ν`; `κ` are anonymous pages of processes and places where the kernel keeps
frames of its own. -/
structure Holdings (ν κ : Type) where
  objects : ν → Option PagedBackingStore
  /-- The block at a place. -/
  blocks : κ → Option (Nat × BlockSize)
  /-- Frames that page faults have entered and that nobody has looked at since. -/
  entered : List Nat

/-- What a memory object is made for. -/
inductive Kind
  | anonymous
  | physical (physAddr : Nat)
  | file (blockSize : Nat)

/-- A page that its owner can write. -/
inductive Place (ν κ : Type)
  | object (name : ν) (offset : Nat)
  | block (place : κ) (index : Nat)

/-- Operations, with the frames that the page allocator returns. -/
inductive Input (ν κ : Type)
  | create (name : ν) (kind : Kind) (size : Nat)
  /-- The kernel requests a page of an object. -/
  | requestPage (name : ν) (offset : Nat) (supply : List Nat) (disk : Disk)
  /-- A page fault in an area with an object, for a page of the size. -/
  | objectFault (size : BlockSize) (name : ν) (offset : Nat) (supply : List Nat) (disk : Disk)
  | resizeObject (name : ν) (newSize : Nat)
  | cloneRange (parent child : ν) (offset len : Nat) (supply : List Nat)
  | drop (name : ν)
  /-- A page fault in an anonymous area. -/
  | fault (place : κ) (phys : Nat) (size : BlockSize)
  /-- The kernel takes a block for itself. -/
  | take (place : κ) (phys : Nat) (size : BlockSize)
  /-- A block is given back. -/
  | release (place : κ)
  /-- A process looks at a frame that has been entered for it. -/
  | look (frame : Nat)
  /-- An owner stores bytes in a page. -/
  | store (place : Place ν κ) (bytes : Patch)
  /-- The kernel stores bytes in a frame, or a device, or a process through a page that it still has
  or that is larger than what it owns. -/
  | write (frame : Nat) (bytes : Patch)

inductive Stop
  /-- There is no such object or block, or there is one of that name. -/
  | disabled
  | panicked (panic : Panic)

/-- The frames that a request took from the page allocator. -/
def taken (supply rest : List Nat) : List Nat := supply.take (supply.length - rest.length)

/-- The bytes that a new page of a file object gets: those of the blocks in front of the first one
that cannot be read, none if a block is larger than a page. -/
def fill (file : FileVmo) (disk : Disk) (offset : Nat) : Patch := fun index =>
  let block := index.val / file.blockSize
  if block < NORMAL_PAGE_SIZE / file.blockSize ∧
      ∀ earlier < block, (disk (offset / file.blockSize + earlier)).isSome then
    (disk (offset / file.blockSize + block)).map fun bytes => bytes (index.val % file.blockSize)
  else
    none

/-- What a request for a page writes. -/
def fillWrites (store : PagedBackingStore) (disk : Disk) (offset : Nat) (supply rest : List Nat) :
    List Write :=
  match store with
  | .plain _ => []
  | .fileBacked file =>
      ((taken supply rest).filter (· ≠ 0)).map fun frame => (frame, .patch (fill file disk offset))

/-- The copies that a clone makes of the pages that its parent has. -/
def copies (vmo : Vmo) (offset : Nat) (offsets children : List Nat) : List Write :=
  (offsets.zip children).filterMap fun (pageOffset, child) =>
    (vmo.frameAt (wrappingAdd offset pageOffset)).map fun parent => (child, .copy parent)

/-- A new object. -/
def Kind.new (kind : Kind) (size : Nat) : PagedBackingStore :=
  match kind with
  | .anonymous => .plain (.new size)
  | .physical physAddr => .plain (.newPhys physAddr size)
  | .file blockSize => .fileBacked ⟨.new size, blockSize⟩

variable {ν κ : Type} [DecidableEq ν] [DecidableEq κ]

namespace Holdings

def new : Holdings ν κ := ⟨fun _ => none, fun _ => none, []⟩

/-- Write an object down. -/
def record (holdings : Holdings ν κ) (name : ν) (after : Option PagedBackingStore) :
    Holdings ν κ :=
  { holdings with objects := update holdings.objects name after }

/-- Write a block down. -/
def setBlock (holdings : Holdings ν κ) (place : κ) (after : Option (Nat × BlockSize)) :
    Holdings ν κ :=
  { holdings with blocks := update holdings.blocks place after }

/-- `Pager::map_page`, as far as frames are concerned. -/
def enter (holdings : Holdings ν κ) (phys : Nat) (size : BlockSize) :
    Except Stop (Holdings ν κ) :=
  match Pager.assertPhys phys size with
  | .error panic => .error (.panicked panic)
  | .ok () => .ok { holdings with entered := holdings.entered ++ coveredFrames phys size }

/-- The frame of a page that its owner can write. -/
def frameOf (holdings : Holdings ν κ) : Place ν κ → Option Nat
  | .object name offset => (holdings.objects name).bind (·.inner.frameAt offset)
  | .block place index =>
      (holdings.blocks place).bind fun (phys, size) => (coveredFrames phys size)[index]?

/-- `request_page` of an object: the result, and what is written. -/
def request (holdings : Holdings ν κ) (name : ν) (offset : Nat) (supply : List Nat) (disk : Disk) :
    Except Stop (Except Unit Nat × Holdings ν κ × List Write) :=
  match holdings.objects name with
  | none => .error .disabled
  | some store =>
      match store.requestPage (fun block => (disk block).isSome) offset supply with
      | .error panic => .error (.panicked panic)
      | .ok (result, after, rest) =>
          .ok (result, holdings.record name (some after), fillWrites store disk offset supply rest)

/-- An operation, and what it does with frames; their contents do not matter. -/
def step (holdings : Holdings ν κ) : Input ν κ → Except Stop (Holdings ν κ × Effect)
  | .create name kind size =>
      match holdings.objects name with
      | some _ => .error .disabled
      | none => .ok (holdings.record name (some (kind.new size)), {})
  | .requestPage name offset supply disk => do
      let (_, holdings, writes) ← holdings.request name offset supply disk
      return (holdings, { writes })
  | .objectFault size name offset supply disk => do
      let (result, holdings, writes) ← holdings.request name offset supply disk
      match result with
      | .error () => return (holdings, { writes })
      | .ok frame =>
          let holdings ← holdings.enter frame size
          return (holdings, { writes })
  | .resizeObject name newSize =>
      match holdings.objects name with
      | none => .error .disabled
      | some store =>
          match store.resizeObject newSize with
          | .error () => .ok (holdings, {})
          | .ok (after, released) => .ok (holdings.record name (some after), { released })
  | .cloneRange parent child offset len supply =>
      match holdings.objects parent, holdings.objects child with
      | some store, none =>
          match store.inner.cloneRange offset len supply with
          | .error panic => .error (.panicked panic)
          | .ok (.error (), _) => .ok (holdings, {})
          | .ok (.ok clone, rest) =>
              .ok (holdings.record child (some (.plain clone)),
                { writes :=
                    copies store.inner offset (Vmo.pageOffsets len) (taken supply rest) })
      | _, _ => .error .disabled
  | .drop name =>
      match holdings.objects name with
      | none => .error .disabled
      | some store => .ok (holdings.record name none, { released := store.inner.drop })
  | .fault place phys size => do
      let holdings ← (holdings.setBlock place (some (phys, size))).enter phys size
      return (holdings, {})
  | .take place phys size => .ok (holdings.setBlock place (some (phys, size)), {})
  | .release place =>
      match holdings.blocks place with
      | none => .error .disabled
      | some (phys, size) =>
          .ok (holdings.setBlock place none, { released := coveredFrames phys size })
  | .look frame =>
      if frame ∈ holdings.entered then
        .ok ({ holdings with entered := holdings.entered.erase frame }, { shown := [frame] })
      else
        .error .disabled
  | .store place bytes =>
      match holdings.frameOf place with
      | none => .error .disabled
      | some frame => .ok (holdings, { writes := [(frame, .patch bytes)] })
  | .write frame bytes => .ok (holdings, { writes := [(frame, .patch bytes)] })

end Holdings

/-- The frames with their contents, and the pages that have been seen. -/
structure State (ν κ : Type) where
  holdings : Holdings ν κ
  /-- The bytes that may be what an earlier owner left. -/
  stale : Nat → Fin NORMAL_PAGE_SIZE → Bool
  memory : Memory
  seen : List Page

namespace State

def new (boot : Memory) : State ν κ := ⟨.new, fun _ _ => false, boot, []⟩

/-- Carry out what an operation does with frames, and look at those that it shows. -/
def act (state : State ν κ) (holdings : Holdings ν κ) (effect : Effect) : State ν κ :=
  let memory := storeAll state.memory effect.writes
  ⟨holdings, Leftovers.release (taintAll state.stale effect.writes) effect.released, memory,
    state.seen ++ effect.shown.map memory⟩

end State

def step (state : State ν κ) (input : Input ν κ) : Except Stop (State ν κ) := do
  let (holdings, effect) ← state.holdings.step input
  return state.act holdings effect

def machine : Machine (State ν κ) (Input ν κ) Stop := ⟨step, fun _ _ => True⟩

/-- Two states differ only in what earlier owners left. -/
structure Alike (left right : State ν κ) : Prop where
  holdings_eq : left.holdings = right.holdings
  stale_eq : left.stale = right.stale
  seen_eq : left.seen = right.seen
  memory_eq : Agree left.stale left.memory right.memory

def Input.isStore : Input ν κ → Bool
  | .store _ _ => true
  | _ => false

/-- Two runs do the same, but for the bytes that owners store. -/
def SameOperations (first second : List (Input ν κ)) : Prop :=
  first.filter (!·.isStore) = second.filter (!·.isStore)

/-- When another run has come to differ only in what earlier owners left, it shows the same pages
from there on. -/
def RevealsNothing (boot : Memory) (inputs : List (Input ν κ)) : Prop :=
  ∀ first rest other left right last last', inputs = first ++ rest → SameOperations first other →
    machine.run (.new boot) first = .ok left → machine.run (.new boot) other = .ok right →
    Alike left right → machine.run left rest = .ok last → machine.run right rest = .ok last' →
    last.seen = last'.seen

/-- Nobody looks at a frame with a byte that may be what an earlier owner left. -/
def clean : Machine (State ν κ) (Input ν κ) Stop :=
  ⟨step, fun state input => ∀ frame, input = .look frame → ∀ index, state.stale frame index = false⟩

/-- A page fault enters the frame of the memory object, or the one that the page allocator returns,
for a page of the size of the area. -/
theorem handlePageFault_enters {vmm next : VirtMemManager} {env : VirtMemManager.FaultEnv}
    {addr errorCode : Nat} {node : VmaNode}
    (area_eq : vmm.faultArea addr errorCode = .ok (.ok node))
    (call_eq : vmm.handlePageFault env addr errorCode = .ok (.ok (), next)) :
    ∃ virt offset phys, (match node.backingVmo with
        | some vmo => env.requestPage vmo offset
        | none => some env.frame) = some phys ∧
      Pager.assertPhys phys (blockSize node.flags) = .ok () ∧
      next.effects =
        vmm.effects ++ [.mapPage virt phys (blockSize node.flags), .flushTlb addr] := by
  obtain ⟨found, find_eq, area_eq⟩ := bind_eq_ok.mp area_eq
  cases found with
  | none => cases area_eq
  | some ptr =>
      dsimp only at area_eq
      split at area_eq
      next => cases area_eq
      next allowed =>
        cases area_eq
        simp only [VirtMemManager.handlePageFault, find_eq, bind, Except.bind, if_neg allowed]
          at call_eq
        split at call_eq
        next => cases call_eq
        next phys frame_eq =>
          obtain ⟨state, map_eq, done⟩ := bind_eq_ok.mp call_eq
          obtain ⟨⟨⟩, assert_eq, -⟩ := bind_eq_ok.mp map_eq
          cases done
          exact ⟨_, _, phys, frame_eq, assert_eq, rfl⟩

section Operations

variable {holdings next : Holdings ν κ} {input : Input ν κ} {effect : Effect}

omit [DecidableEq ν] [DecidableEq κ] in
theorem frameOf_of_framesFrom {name : ν} {store : PagedBackingStore} {start frame : Nat}
    (found : holdings.objects name = some store) (mem : frame ∈ store.inner.framesFrom start) :
    ∃ place, holdings.frameOf place = some frame := by
  obtain ⟨offset, -, at_eq⟩ := Vmo.mem_framesFrom.mp mem
  exact ⟨.object name offset, Option.bind_eq_some_iff.mpr ⟨store, found, at_eq⟩⟩

/-- The frames that a smaller object gives back are its own. -/
theorem released_of_resize {store after : PagedBackingStore} {newSize : Nat} {released : List Nat}
    (resize_eq : store.resizeObject newSize = .ok (after, released)) {frame : Nat}
    (mem : frame ∈ released) : frame ∈ store.inner.framesFrom newSize := by
  obtain ⟨⟨vmo, freed⟩, inner_eq, done⟩ := bind_eq_ok.mp resize_eq
  cases done
  rw [Vmo.resizeObject] at inner_eq
  split_ifs at inner_eq with physical same smaller
  · cases inner_eq
    cases mem
  · cases inner_eq
    exact mem
  · cases inner_eq
    cases mem

/-- An operation writes frames, or shows one that has been entered, or gives back frames that are
somebody's. -/
theorem step_cases (step_eq : holdings.step input = .ok (next, effect)) :
    (∃ writes, effect = { writes }) ∨
      (∃ frame, input = .look frame ∧ effect = { shown := [frame] }) ∨
      ∃ released, effect = { released } ∧
        ∀ frame ∈ released, ∃ place, holdings.frameOf place = some frame := by
  cases input with
  | create name kind size =>
      simp only [Holdings.step] at step_eq
      split at step_eq
      next => cases step_eq
      next =>
        cases step_eq
        exact .inl ⟨[], rfl⟩
  | requestPage name offset supply disk =>
      obtain ⟨⟨result, after, writes⟩, -, done⟩ := bind_eq_ok.mp step_eq
      cases done
      exact .inl ⟨writes, rfl⟩
  | objectFault size name offset supply disk =>
      obtain ⟨⟨result, after, writes⟩, -, rest_eq⟩ := bind_eq_ok.mp step_eq
      cases result with
      | error problem =>
          cases rest_eq
          exact .inl ⟨writes, rfl⟩
      | ok frame =>
          obtain ⟨entered, -, done⟩ := bind_eq_ok.mp rest_eq
          cases done
          exact .inl ⟨writes, rfl⟩
  | resizeObject name newSize =>
      simp only [Holdings.step] at step_eq
      split at step_eq
      next => cases step_eq
      next store found =>
        split at step_eq
        next =>
          cases step_eq
          exact .inl ⟨[], rfl⟩
        next resize_eq =>
          cases step_eq
          exact .inr (.inr ⟨_, rfl, fun frame mem =>
            frameOf_of_framesFrom found (released_of_resize resize_eq mem)⟩)
  | cloneRange parent child offset len supply =>
      simp only [Holdings.step] at step_eq
      split at step_eq
      next =>
        split at step_eq
        next => cases step_eq
        next =>
          cases step_eq
          exact .inl ⟨[], rfl⟩
        next =>
          cases step_eq
          exact .inl ⟨_, rfl⟩
      next => cases step_eq
  | drop name =>
      simp only [Holdings.step] at step_eq
      split at step_eq
      next => cases step_eq
      next store found =>
        cases step_eq
        refine .inr (.inr ⟨_, rfl, fun frame mem => ?_⟩)
        rw [Vmo.drop] at mem
        split at mem
        next => cases mem
        next => exact frameOf_of_framesFrom found mem
  | fault place phys size =>
      obtain ⟨entered, -, done⟩ := bind_eq_ok.mp step_eq
      cases done
      exact .inl ⟨[], rfl⟩
  | take place phys size =>
      cases step_eq
      exact .inl ⟨[], rfl⟩
  | release place =>
      simp only [Holdings.step] at step_eq
      split at step_eq
      next => cases step_eq
      next phys size found =>
        cases step_eq
        refine .inr (.inr ⟨_, rfl, fun frame mem => ?_⟩)
        obtain ⟨index, at_eq⟩ := List.mem_iff_getElem?.mp mem
        exact ⟨.block place index, Option.bind_eq_some_iff.mpr ⟨_, found, at_eq⟩⟩
  | look frame =>
      simp only [Holdings.step] at step_eq
      split at step_eq
      next =>
        cases step_eq
        exact .inr (.inl ⟨frame, rfl, rfl⟩)
      next => cases step_eq
  | store place bytes =>
      simp only [Holdings.step] at step_eq
      split at step_eq
      next => cases step_eq
      next =>
        cases step_eq
        exact .inl ⟨_, rfl⟩
  | write frame bytes =>
      cases step_eq
      exact .inl ⟨_, rfl⟩

end Operations

/-!
### Two runs
-/

section Runs

variable {left right state next : State ν κ} {input : Input ν κ}

theorem clean_run (state : State ν κ) (inputs : List (Input ν κ)) :
    clean.run state inputs = machine.run state inputs := by
  induction inputs generalizing state with
  | nil => rfl
  | cons input inputs ih => exact bind_congr ih

theorem step_eq_ok : machine.step state input = .ok next ↔
    ∃ holdings effect, state.holdings.step input = .ok (holdings, effect) ∧
      state.act holdings effect = next := by
  constructor
  · intro step_eq
    obtain ⟨⟨holdings, effect⟩, effect_eq, done⟩ := bind_eq_ok.mp step_eq
    exact ⟨holdings, effect, effect_eq, Except.ok.inj done⟩
  · rintro ⟨holdings, effect, effect_eq, rfl⟩
    exact bind_eq_ok.mpr ⟨_, effect_eq, rfl⟩

omit [DecidableEq ν] [DecidableEq κ] in
/-- States that are alike stay so when nothing is shown that earlier owners left. -/
theorem Alike.act (alike : Alike left right) (holdings : Holdings ν κ) {effect : Effect}
    (fresh : ∀ frame ∈ effect.shown, ∀ index,
      taintAll left.stale effect.writes frame index = false) :
    Alike (left.act holdings effect) (right.act holdings effect) where
  holdings_eq := rfl
  stale_eq := by simp only [State.act, alike.stale_eq]
  seen_eq := by
    have written := alike.memory_eq.storeAll effect.writes
    have same (frame : Nat) (mem : frame ∈ effect.shown) :
        storeAll left.memory effect.writes frame = storeAll right.memory effect.writes frame :=
      funext fun index => written frame index (fresh frame mem index)
    simp only [State.act, alike.seen_eq, List.map_congr_left same]
  memory_eq := (alike.memory_eq.storeAll effect.writes).release effect.released

/-- Operations that are clean keep states alike. -/
theorem Alike.step (alike : Alike left right) {left' : State ν κ}
    (unseen : clean.permitted left input) (left_eq : machine.step left input = .ok left') :
    ∃ right', machine.step right input = .ok right' ∧ Alike left' right' := by
  obtain ⟨holdings, effect, effect_eq, rfl⟩ := step_eq_ok.mp left_eq
  refine ⟨right.act holdings effect, step_eq_ok.mpr ⟨holdings, effect, ?_, rfl⟩, ?_⟩
  · rw [← alike.holdings_eq, effect_eq]
  · refine alike.act holdings fun frame mem => ?_
    rcases step_cases effect_eq with ⟨writes, rfl⟩ | ⟨looked, input_eq, rfl⟩ | ⟨released, rfl, -⟩
    · cases mem
    · rw [List.mem_singleton.mp mem]
      exact unseen looked input_eq
    · cases mem

theorem Alike.run (alike : Alike left right) {last last' : State ν κ} {inputs : List (Input ν κ)}
    (unseen : clean.Permits left inputs) (left_eq : machine.run left inputs = .ok last)
    (right_eq : machine.run right inputs = .ok last') : Alike last last' := by
  induction inputs generalizing left right with
  | nil =>
      obtain rfl : left = last := by simpa using left_eq
      obtain rfl : right = last' := by simpa using right_eq
      exact alike
  | cons input inputs ih =>
      obtain ⟨left', left_step, left_rest⟩ := machine.run_cons_eq_ok left_eq
      obtain ⟨right', right_step, right_rest⟩ := machine.run_cons_eq_ok right_eq
      obtain ⟨other, other_step, alike'⟩ := alike.step unseen.1 left_step
      obtain rfl : other = right' := Except.ok.inj (other_step.symm.trans right_step)
      exact ih alike' (unseen.2 left' left_step) left_rest right_rest

/-- What happens does not depend on the contents of frames. -/
theorem run_alongside (left right : State ν κ) (holdings_eq : left.holdings = right.holdings)
    {last : State ν κ} {inputs : List (Input ν κ)} (run_eq : machine.run left inputs = .ok last) :
    ∃ last' more more', machine.run right inputs = .ok last' ∧ last.seen = left.seen ++ more ∧
      last'.seen = right.seen ++ more' := by
  induction inputs generalizing left right with
  | nil =>
      obtain rfl : left = last := by simpa using run_eq
      exact ⟨right, [], [], rfl, by simp, by simp⟩
  | cons input inputs ih =>
      obtain ⟨next, step_eq, rest_eq⟩ := machine.run_cons_eq_ok run_eq
      obtain ⟨holdings, effect, effect_eq, rfl⟩ := step_eq_ok.mp step_eq
      have right_step : machine.step right input = .ok (right.act holdings effect) :=
        step_eq_ok.mpr ⟨holdings, effect, holdings_eq ▸ effect_eq, rfl⟩
      obtain ⟨last', more, more', right_eq, seen_eq, seen_eq'⟩ :=
        ih (left.act holdings effect) (right.act holdings effect) rfl rest_eq
      refine ⟨last', _, _, (machine.run_cons_ok inputs right_step).trans right_eq,
        seen_eq.trans (List.append_assoc _ _ _), seen_eq'.trans (List.append_assoc _ _ _)⟩

/-- One other byte. -/
def otherByte (memory : Memory) (frame : Nat) (index : Fin NORMAL_PAGE_SIZE) : Patch :=
  fun place => if place = index then some (memory frame index + 1) else none

theorem otherByte_ne (memory : Memory) (frame : Nat) (index : Fin NORMAL_PAGE_SIZE) :
    (Source.patch (otherByte memory frame index) : Source Nat _ _).read memory frame index ≠
      memory frame index := by
  simp [Source.read, otherByte]

omit [DecidableEq ν] [DecidableEq κ] in
/-- An owner who gives a frame back may have stored another byte in it before. -/
theorem differ_release {released : List Nat} {frame : Nat} (mem : frame ∈ released)
    (holdings : Holdings ν κ) (index : Fin NORMAL_PAGE_SIZE) :
    Alike (state.act holdings { released })
      ((state.act state.holdings
        { writes := [(frame, .patch (otherByte state.memory frame index))] }).act holdings
          { released }) where
  holdings_eq := rfl
  stale_eq := by
    funext other place
    simp only [State.act, Leftovers.release, taintAll, List.not_mem_nil, decide_false,
      Bool.false_or]
    by_cases same : other = frame
    · simp [same, mem]
    · rw [Function.update_of_ne same]
  seen_eq := by simp [State.act]
  memory_eq := by
    intro other place fresh
    simp only [State.act, Leftovers.release, Bool.or_eq_false_iff, decide_eq_false_iff_not] at fresh
    have ne : other ≠ frame := fun same => fresh.1 (same ▸ mem)
    simp only [State.act, storeAll, Function.update_of_ne ne]

/-- For a byte that may be what an earlier owner left there is another run in which it is another
one: its last owner has stored that just before. -/
theorem leftover {boot : Memory} {first : List (Input ν κ)}
    (unseen : clean.Permits (.new boot) first) (run_eq : machine.run (.new boot) first = .ok left)
    {frame : Nat} {index : Fin NORMAL_PAGE_SIZE} (stale : left.stale frame index = true) :
    ∃ other right, SameOperations first other ∧ machine.run (.new boot) other = .ok right ∧
      Alike left right ∧ right.memory frame index ≠ left.memory frame index := by
  induction first using List.reverseRecOn generalizing left frame with
  | nil =>
      obtain rfl : State.new boot = left := by simpa using run_eq
      cases stale
  | append_singleton first input ih =>
      obtain ⟨mid, first_eq, last_eq⟩ := machine.run_append_eq_ok run_eq
      obtain ⟨left', step_eq, done⟩ := machine.run_cons_eq_ok last_eq
      obtain rfl : left' = left := by simpa using done
      have allowed := (clean.permits_rest unseen ((clean_run _ _).trans first_eq)).1
      obtain ⟨holdings, effect, effect_eq, rfl⟩ := step_eq_ok.mp step_eq
      by_cases given : frame ∈ effect.released
      · -- the owner stores another byte before the frame is given back
        rcases step_cases effect_eq with
          ⟨writes, rfl⟩ | ⟨looked, -, rfl⟩ | ⟨released, rfl, owned⟩
        · cases given
        · cases given
        obtain ⟨place, found⟩ := owned frame given
        have store_step : machine.step mid
            (.store place (otherByte mid.memory frame index)) = .ok _ :=
          step_eq_ok.mpr ⟨mid.holdings, _, by simp only [Holdings.step, found]; rfl, rfl⟩
        have last_step : machine.step (mid.act mid.holdings
            { writes := [(frame, .patch (otherByte mid.memory frame index))] }) input = .ok _ :=
          step_eq_ok.mpr ⟨holdings, _, effect_eq, rfl⟩
        refine ⟨first ++ [.store place (otherByte mid.memory frame index), input], _, ?_, ?_,
          differ_release given holdings index, ?_⟩
        · simp [SameOperations, Input.isStore]
        · rw [machine.run_append_ok _ first_eq, machine.run_cons_ok _ store_step,
            machine.run_cons_ok _ last_step, machine.run_nil]
        · have differ := otherByte_ne mid.memory frame index
          simpa only [State.act, storeAll, Function.update_self] using differ
      · have tainted : taintAll mid.stale effect.writes frame index = true := by
          simpa [State.act, Leftovers.release, given] using stale
        obtain ⟨origin, origin_stale, follows⟩ := taintAll_source tainted
        obtain ⟨other, right, same, right_eq, alike, differ⟩ :=
          ih (clean.permits_first unseen) first_eq origin_stale
        obtain ⟨right', right_step, alike'⟩ := alike.step allowed step_eq
        refine ⟨other ++ [input], right', ?_, ?_, alike', ?_⟩
        · simpa [SameOperations] using congrArg (· ++ [input].filter (!·.isStore)) same
        · rw [machine.run_append_ok _ right_eq, machine.run_cons_ok _ right_step, machine.run_nil]
        · obtain ⟨holdings', effect', effect_eq', rfl⟩ := step_eq_ok.mp right_step
          rw [← alike.holdings_eq, effect_eq] at effect_eq'
          cases effect_eq'
          simpa only [State.act, follows] using differ

/-- In a run that reveals nothing, nobody looks at what an earlier owner left. -/
theorem RevealsNothing.unseen {boot : Memory} {first rest : List (Input ν κ)}
    (reveals : RevealsNothing boot (first ++ input :: rest)) {last : State ν κ}
    (run_eq : machine.run (.new boot) (first ++ input :: rest) = .ok last)
    (left_eq : machine.run (.new boot) first = .ok left)
    (unseen : clean.Permits (.new boot) first) : clean.permitted left input := by
  rintro frame rfl index
  by_contra not_fresh
  rw [Bool.not_eq_false] at not_fresh
  have rest_eq : machine.run left (.look frame :: rest) = .ok last :=
    (machine.run_append_ok _ left_eq).symm.trans run_eq
  obtain ⟨other, right, same, right_eq, alike, differ⟩ := leftover unseen left_eq not_fresh
  obtain ⟨next, step_eq, later_eq⟩ := machine.run_cons_eq_ok rest_eq
  obtain ⟨holdings, effect, effect_eq, rfl⟩ := step_eq_ok.mp step_eq
  have right_step : machine.step right (.look frame) = .ok (right.act holdings effect) :=
    step_eq_ok.mpr ⟨holdings, effect, alike.holdings_eq ▸ effect_eq, rfl⟩
  have shown_eq : effect = { shown := [frame] } := by
    simp only [Holdings.step] at effect_eq
    split at effect_eq
    next =>
      cases effect_eq
      rfl
    next => cases effect_eq
  obtain ⟨last', more, more', later_eq', seen_eq, seen_eq'⟩ :=
    run_alongside (left.act holdings effect) (right.act holdings effect) rfl later_eq
  have seen_same := reveals first (.look frame :: rest) other left right last last' rfl same left_eq
    right_eq alike rest_eq ((machine.run_cons_ok rest right_step).trans later_eq')
  rw [seen_eq, seen_eq', shown_eq] at seen_same
  have shown_same := (List.append_inj seen_same (by simp [State.act, alike.seen_eq])).1
  simp only [State.act, storeAll, List.map_cons, List.map_nil, alike.seen_eq] at shown_same
  exact differ (congrFun (List.singleton_inj.mp (List.append_cancel_left shown_same)).symm index)

/-- Pages show nothing of earlier owners in exactly the runs in which, whenever a process looks at a
frame, each byte that was there when the frame was last given back has been overwritten. -/
theorem reveals_nothing_iff_overwritten {boot : Memory} {inputs : List (Input ν κ)}
    {final : State ν κ} (run_eq : machine.run (.new boot) inputs = .ok final) :
    RevealsNothing boot inputs ↔ clean.Permits (.new boot) inputs := by
  constructor
  · intro reveals
    suffices along : ∀ rest first state, inputs = first ++ rest →
        machine.run (.new boot) first = .ok state → clean.Permits (.new boot) first →
        clean.Permits state rest from
      along inputs [] _ rfl rfl trivial
    intro rest
    induction rest with
    | nil => exact fun _ _ _ _ _ => trivial
    | cons input rest ih =>
        rintro first state rfl first_eq first_unseen
        have allowed := reveals.unseen run_eq first_eq first_unseen
        refine ⟨allowed, fun next step_eq => ?_⟩
        refine ih (first ++ [input]) next (by simp) ?_ ?_
        · rw [machine.run_append_ok _ first_eq, machine.run_cons_ok _ step_eq, machine.run_nil]
        · refine clean.permits_append first_unseen fun other other_eq => ?_
          obtain rfl : state = other :=
            Except.ok.inj (first_eq.symm.trans ((clean_run _ _).symm.trans other_eq))
          exact ⟨allowed, fun _ _ => trivial⟩
  · rintro unseen first rest other left right last last' rfl _ left_eq _ alike rest_eq rest_eq'
    have rest_unseen := clean.permits_rest unseen ((clean_run _ _).trans left_eq)
    exact (alike.run rest_unseen rest_eq rest_eq').seen_eq

end Runs

/-- A page is written, copied, and dropped; a copy of the copy gets its frame and is looked at. -/
def copiedBack : List (Input Bool Empty) :=
  [.create true .anonymous 4096, .objectFault .Normal true 0 [4096] fun _ => none,
    .store (.object true 0) fun _ => some 7, .cloneRange true false 0 4096 [8192],
    .drop true, .cloneRange false true 0 4096 [4096],
    .objectFault .Normal true 0 [] fun _ => none, .look 4096]

theorem reveals_nothing_iff_overwritten_copied :
    ∃ final, machine.run (.new fun _ _ => 0) copiedBack = .ok final ∧
      RevealsNothing (fun _ _ => 0) copiedBack := by
  have run_eq : machine.run (.new fun _ _ => 0) copiedBack = .ok _ := rfl
  have unseen : clean.Permits (.new fun _ _ => 0) copiedBack := by
    repeat' refine clean.permits_cons ?_ rfl ?_
    all_goals first
      | trivial
      | (rintro _ ⟨⟩ <;> exact fun index => rfl)
  exact ⟨_, run_eq, (reveals_nothing_iff_overwritten run_eq).mpr unseen⟩

/-- A process stores a byte in all of a page and drops it; the frame backs the page of another. -/
def handedOn (byte : UInt8) : List (Input Bool Empty) :=
  [.create true .anonymous 4096, .objectFault .Normal true 0 [4096] fun _ => none, .look 4096,
    .store (.object true 0) fun _ => some byte, .drop true,
    .create false .anonymous 4096, .objectFault .Normal false 0 [4096] fun _ => none, .look 4096]

/-- The new owner sees what the earlier one stored. -/
theorem contents_revealed :
    (∀ byte, ∃ last, machine.run (.new fun _ _ => 0) (handedOn byte) = .ok last ∧
        last.seen = [fun _ => 0, fun _ => byte]) ∧
      ¬ RevealsNothing (fun _ _ => 0) (handedOn 1) := by
  have run_eq (byte : UInt8) : machine.run (.new fun _ _ => 0) (handedOn byte) = .ok _ := rfl
  refine ⟨fun byte => ⟨_, run_eq byte, rfl⟩, fun reveals => ?_⟩
  have first_eq : machine.run (.new fun _ _ => 0) ((handedOn 1).take 7) = .ok _ := rfl
  have unseen : clean.Permits (.new fun _ _ => 0) ((handedOn 1).take 7) := by
    repeat' refine clean.permits_cons ?_ rfl ?_
    all_goals first
      | trivial
      | (rintro _ ⟨⟩ <;> exact fun index => rfl)
  have fresh := RevealsNothing.unseen reveals (run_eq 1) first_eq unseen 4096 rfl ⟨0, by decide⟩
  cases fresh

end FirstSight
end Vespertine
