import Vespertine.Program.Loader
import Vespertine.Program.Segments

/-!
# Loading untrusted programs

What `load_elf` computes and copies for a file, and for which files this is safe: no panic, nothing
copied from behind the file, no size or offset that wraps around, and no program whose header is
not accepted.  The header and the table are checked; the fields of a segment are not.
-/

namespace Vespertine

/-! ## What a segment computes and copies -/

namespace Elf64Phdr

variable (ph : Elf64Phdr)

/-- `overlap_start` of a page. -/
def overlapStart (pageOffset : Nat) : Nat := max pageOffset ph.offsetInFirstPage

/-- `overlap_end` of a page. -/
def overlapEnd (pageOffset : Nat) : Nat :=
  min (pageOffset + NORMAL_PAGE_SIZE) (wrappingAdd ph.offsetInFirstPage ph.pFilesz)

/-- What is copied into a page: where it starts in the buffer, and how long it is. -/
def pageCopy (pageOffset : Nat) : Option (Nat × Nat) :=
  if ph.overlapStart pageOffset < ph.overlapEnd pageOffset then
    some (wrappingAdd ph.pOffset (ph.overlapStart pageOffset - ph.offsetInFirstPage),
      ph.overlapEnd pageOffset - ph.overlapStart pageOffset)
  else
    none

/-- What is copied into the pages of a segment. -/
def copies : List (Nat × Nat) :=
  (List.range ph.pages).filterMap fun page => ph.pageCopy (page * NORMAL_PAGE_SIZE)

/-- The sizes of a segment are words, and what its pages take of the file lies in the file. -/
structure Fits (file : FileBytes) : Prop where
  rounded : ph.offsetInFirstPage + ph.pMemsz + 0xFFF < wordSize
  filed : 0 < ph.pages → ph.offsetInFirstPage + ph.pFilesz < wordSize
  inside : 0 < ph.pages → 0 < ph.pFilesz →
    ph.pOffset + min ph.pFilesz (ph.totalMapSize - ph.offsetInFirstPage) ≤ file.size

end Elf64Phdr

section Segment

variable {file : FileBytes} {ph : Elf64Phdr}

end Segment

/-! ## The segments of a file -/

/-- The segments that the loop of `load_elf` comes to. -/
def visitedList (file : FileBytes) : List Elf64Phdr → Image → List Elf64Phdr
  | [], _ => []
  | ph :: rest, image =>
      ph :: match image.loadSegment file ph with
        | .ok (.ok (), next) => visitedList file rest next
        | _ => []

section Lists

variable {file : FileBytes} {ph : Elf64Phdr} {segments : List Elf64Phdr} {image : Image}
  {vmas : List Nat}

/-- The areas are linked, and the kernel heap returns nodes that are not in use. -/
structure Supplied (image : Image) (vmas : List Nat) : Prop where
  listed : Listed image.vmm vmas
  distinct : image.areaNodes.Nodup
  unused : ∀ ptr ∈ image.areaNodes, ptr ∉ image.vmm.live

theorem Supplied.empty (empty : Listed image.vmm []) (distinct : image.areaNodes.Nodup) :
    Supplied image [] where
  listed := empty
  distinct := distinct
  unused := fun _ _ mem => absurd (empty.heap.mem_iff.mpr mem) List.not_mem_nil

theorem Supplied.ready (supplied : Supplied image vmas) {nodePtr : Nat} {areaNodes : List Nat}
    (nodes_eq : image.areaNodes = nodePtr :: areaNodes) : Ready image vmas nodePtr areaNodes where
  listed := supplied.listed
  nodes_eq := nodes_eq
  fresh := supplied.unused nodePtr (nodes_eq ▸ List.mem_cons_self ..)

/-- A loaded segment takes the first node. -/
theorem Supplied.next (supplied : Supplied image vmas) {nodePtr : Nat} {areaNodes after : List Nat}
    {next : Image} (nodes_eq : image.areaNodes = nodePtr :: areaNodes)
    (loaded : SegmentLoaded file ph image next vmas after nodePtr areaNodes) :
    Supplied next after := by
  have distinct := supplied.distinct
  rw [nodes_eq, List.nodup_cons] at distinct
  refine ⟨loaded.listed, loaded.nodes_eq ▸ distinct.2, fun ptr mem => ?_⟩
  rw [loaded.nodes_eq] at mem
  rw [loaded.live_eq, List.mem_cons, not_or]
  exact ⟨fun same => distinct.1 (same ▸ mem),
    supplied.unused ptr (nodes_eq ▸ List.mem_cons_of_mem _ mem)⟩

theorem loadList_cons (rest : List Elf64Phdr) :
    loadList file (ph :: rest) image = image.loadSegment file ph >>= fun (result, image) =>
      match result with
      | .error problem => .ok (.error problem, image)
      | .ok () => loadList file rest image := rfl

end Lists

/-! ## Any file -/

namespace Loader

open Slab (KernelMemory)

variable {ω κ : Type} [DecidableEq κ]

/-- The address of the buffer for a file, unless its size is refused. -/
def fileBuffer (memory : KernelMemory κ) (fileSize : Nat) : Except Stop (Option Nat) :=
  match bufferLayout fileSize with
  | none => .ok none
  | some layout =>
      match memory.alloc layout with
      | .error panic => .error (.panicked panic)
      | .ok (bufferPtr, _) => if bufferPtr = 0 then .error .nullSlice else .ok (some bufferPtr)

/-- What the contents of a file lead to, with the kernel heap as it is when the size is known. -/
def loadContents (memory : KernelMemory κ) (image : Image) (file : FileBytes) :
    Except Stop (Except LoaderError Nat × Image) :=
  match fileBuffer memory file.size with
  | .error stop => .error stop
  | .ok none => .ok (.error .FileReadError, image)
  | .ok (some _) => (image.loadFile file).mapError .panicked

/-- The header with which the loop over the segments of a file is entered. -/
def entered (memory : KernelMemory κ) (file : FileBytes) : Option Elf64Ehdr :=
  match fileBuffer memory file.size with
  | .ok (some _) =>
      match Elf64Ehdr.fromBytes file with
      | .error _ => none
      | .ok header => (header.progHeaders file).map fun _ => header
  | _ => none

/-- The segments of a file that `load_elf` comes to. -/
def visited (memory : KernelMemory κ) (file : FileBytes) (image : Image) : List Elf64Phdr :=
  match entered memory file with
  | none => []
  | some header => visitedList file (header.segments file) image

/-- The file object answers with the size and the contents of a file, and the kernel heap is in a
given state when it answers the size. -/
def Served (memory : KernelMemory κ) (file : FileBytes) : Event ω κ → Prop
  | .stat reply now => reply = .pending ∨ (reply = .ready (.ok file.size) ∧ now = memory)
  | .read reply buffer =>
      reply = .pending ∨ (reply = .ready (.ok file.size) ∧ buffer = file.byte)
  | .other _ => True

/-- The future with an environment that serves a file. -/
def serving (memory : KernelMemory κ) (file : FileBytes) :
    Machine (State ω) (Event ω κ) Stop :=
  ⟨step, fun _ event => Served memory file event⟩

/-- How far the future is with a file. -/
def Serving (memory : KernelMemory κ) (image : Image) (file : FileBytes) (state : State ω) : Prop :=
  match state.phase with
  | .awaitingStat _ _ => state.image = image
  | .awaitingRead _ fileSize bufferPtr =>
      fileSize = file.size ∧ state.image = image ∧ fileBuffer memory file.size =
        if bufferPtr = 0 then .error .nullSlice else .ok (some bufferPtr)
  | .returned result => loadContents memory image file = .ok (result, state.image)

/-- The size of a file is refused, or there is a buffer for it, or the kernel stops. -/
theorem fileBuffer_cases {memory : KernelMemory κ} {lists : Nat → List Nat}
    (sound : memory.Sound lists) (fileSize : Nat) :
    (MAX_LAYOUT_SIZE < fileSize ∧ fileBuffer memory fileSize = .ok none) ∨
      fileSize ≤ MAX_LAYOUT_SIZE ∧
        ((memory.HasBuffer lists fileSize 3 ∧
            ∃ bufferPtr, fileBuffer memory fileSize = .ok (some bufferPtr)) ∨
          ¬memory.HasBuffer lists fileSize 3 ∧
            ∃ stop, stop ≠ .notAwaited ∧ fileBuffer memory fileSize = .error stop) := by
  rw [fileBuffer]
  rcases bufferLayout_cases fileSize with ⟨large, layout_eq⟩ | ⟨layout, small, layout_eq⟩
  · exact .inl ⟨large, by rw [layout_eq]⟩
  refine .inr ⟨small, ?_⟩
  have has_iff : memory.HasBuffer lists fileSize 3 ↔ memory.Allocates layout := by
    rw [KernelMemory.allocates_iff_hasBlock sound]
    constructor
    · rintro ⟨other, other_eq, block⟩
      cases other_eq.symm.trans layout_eq
      exact block
    · exact fun block => ⟨layout, layout_eq, block⟩
  rw [has_iff, layout_eq]
  cases alloc_eq : memory.alloc layout with
  | error panic =>
      refine .inr ⟨?_, .panicked panic, nofun, by simp only [alloc_eq]⟩
      rintro ⟨ptr, after, some_eq, -⟩
      cases alloc_eq.symm.trans some_eq
  | ok answer =>
      obtain ⟨bufferPtr, after⟩ := answer
      by_cases null : bufferPtr = 0
      · refine .inr ⟨?_, .nullSlice, nofun, by simp only [alloc_eq, if_pos null]⟩
        rintro ⟨ptr, after', some_eq, given⟩
        cases alloc_eq.symm.trans some_eq
        exact given null
      · exact .inl ⟨⟨_, _, alloc_eq, null⟩, bufferPtr, by simp only [alloc_eq, if_neg null]⟩

section Serving

variable {memory : KernelMemory κ} {image : Image} {file : FileBytes} {state next : State ω}
  {event : Event ω κ}

theorem Serving.step (holds : Serving memory image file state) (served : Served memory file event)
    (step_eq : step state event = .ok next) : Serving memory image file next := by
  obtain ⟨process, tables, image', phase⟩ := state
  cases event with
  | other changed =>
      cases step_eq
      exact holds
  | stat reply now =>
      cases phase with
      | awaitingRead fileObj fileSize bufferPtr => cases step_eq
      | returned result => cases step_eq
      | awaitingStat fileObj oldProc =>
          obtain rfl : image' = image := holds
          rcases served with rfl | ⟨rfl, rfl⟩
          · cases step_eq
            rfl
          · change afterStat _ fileObj oldProc now (.ok file.size) = .ok next at step_eq
            rcases afterStat_cases step_eq with
              ⟨refused, rfl⟩ | ⟨fileSize, layout, bufferPtr, after, ⟨⟩, -, layout_eq, alloc_eq, rfl⟩
            · rcases bufferLayout_cases file.size with ⟨-, layout_eq⟩ | ⟨_, small, -⟩
              · simp only [Serving, loadContents, fileBuffer, layout_eq]
              · exact absurd small (Nat.not_le.mpr (refused _ rfl))
            · exact ⟨rfl, rfl, by simp only [fileBuffer, layout_eq, alloc_eq]⟩
  | read reply buffer =>
      cases phase with
      | awaitingStat fileObj oldProc => cases step_eq
      | returned result => cases step_eq
      | awaitingRead fileObj fileSize bufferPtr =>
          obtain ⟨rfl, rfl, buffer_eq⟩ := holds
          rcases served with rfl | ⟨rfl, rfl⟩
          · cases step_eq
            exact ⟨rfl, rfl, buffer_eq⟩
          · simp only [Loader.step, afterRead] at step_eq
            split at step_eq
            next => cases step_eq
            next given =>
              rw [if_neg given] at buffer_eq
              split at step_eq
              next => cases step_eq
              next load_eq =>
                cases step_eq
                simp only [Serving, loadContents, buffer_eq, load_eq, Except.mapError]

theorem Serving.stopped {stop : Stop} (holds : Serving memory image file state)
    (served : Served memory file event) (step_eq : Loader.step state event = .error stop) :
    stop = .notAwaited ∨ loadContents memory image file = .error stop := by
  obtain ⟨process, tables, image', phase⟩ := state
  cases event with
  | other changed => cases step_eq
  | stat reply now =>
      cases phase with
      | awaitingRead fileObj fileSize bufferPtr =>
          cases step_eq
          exact .inl rfl
      | returned result =>
          cases step_eq
          exact .inl rfl
      | awaitingStat fileObj oldProc =>
          rcases served with rfl | ⟨rfl, rfl⟩
          · cases step_eq
          · simp only [Loader.step, afterStat] at step_eq
            split at step_eq
            next => cases step_eq
            next layout layout_eq =>
              split at step_eq
              next panic alloc_eq =>
                cases step_eq
                exact .inr (by simp only [loadContents, fileBuffer, layout_eq, alloc_eq])
              next => cases step_eq
  | read reply buffer =>
      cases phase with
      | awaitingStat fileObj oldProc =>
          cases step_eq
          exact .inl rfl
      | returned result =>
          cases step_eq
          exact .inl rfl
      | awaitingRead fileObj fileSize bufferPtr =>
          obtain ⟨rfl, rfl, buffer_eq⟩ := holds
          rcases served with rfl | ⟨rfl, rfl⟩
          · cases step_eq
          · simp only [Loader.step, afterRead] at step_eq
            split at step_eq
            next null =>
              cases step_eq
              rw [if_pos null] at buffer_eq
              exact .inr (by simp only [loadContents, buffer_eq])
            next given =>
              rw [if_neg given] at buffer_eq
              split at step_eq
              next load_eq =>
                cases step_eq
                exact .inr (by simp only [loadContents, buffer_eq, load_eq, Except.mapError])
              next => cases step_eq

/-- The answers of a file object that is ready at once. -/
def answers (memory : KernelMemory κ) (file : FileBytes) : List (Event ω κ) :=
  if file.size > MAX_LAYOUT_SIZE then
    [.stat (.ready (.ok file.size)) memory]
  else
    [.stat (.ready (.ok file.size)) memory, .read (.ready (.ok file.size)) file.byte]

theorem answers_permitted (memory : KernelMemory κ) (file : FileBytes) (start : State ω) :
    (serving memory file).Permits start (answers memory file) := by
  refine (serving memory file).permits_of_mem start fun event mem state => ?_
  rw [answers] at mem
  split at mem
  · rw [List.mem_singleton] at mem
    exact mem ▸ .inr ⟨rfl, rfl⟩
  · rw [List.mem_pair] at mem
    rcases mem with rfl | rfl
    · exact .inr ⟨rfl, rfl⟩
    · exact .inr ⟨rfl, rfl⟩

/-- With answers at once `load_elf` does what the contents of the file lead to. -/
theorem run_answers {fileObj : ω} {oldProc : Nat}
    (phase_eq : state.phase = .awaitingStat fileObj oldProc) :
    match loadContents memory state.image file with
    | .error stop => (serving memory file).run state (answers memory file) = .error stop
    | .ok (result, image) => ∃ final,
        (serving memory file).run state (answers memory file) = .ok final ∧
          final.phase = .returned result ∧ final.image = image := by
  obtain ⟨process, tables, image, phase⟩ := state
  subst phase_eq
  rcases bufferLayout_cases file.size with ⟨large, layout_eq⟩ | ⟨layout, small, layout_eq⟩
  · simp only [loadContents, fileBuffer, layout_eq, answers, if_pos large, Machine.run, serving,
      Loader.step, afterStat, bind, Except.bind]
    exact ⟨_, rfl, rfl, rfl⟩
  · simp only [loadContents, fileBuffer, layout_eq, answers, if_neg (Nat.not_lt.mpr small),
      Machine.run, serving, Loader.step, afterStat, bind, Except.bind]
    cases alloc_eq : memory.alloc layout with
    | error panic => simp only
    | ok answer =>
        obtain ⟨bufferPtr, after⟩ := answer
        by_cases null : bufferPtr = 0
        · simp only [if_pos null, afterRead]
        · simp only [if_neg null, afterRead]
          cases image.loadFile file with
          | error panic => simp only [Except.mapError]
          | ok answer => exact ⟨_, rfl, rfl, rfl⟩

theorem serving_start {fileObj : ω} {oldProc : Nat}
    (phase_eq : state.phase = .awaitingStat fileObj oldProc) :
    Serving memory state.image file state := by
  rw [Serving, phase_eq]

/-- A run of `load_elf` that stops does so for the contents of the file. -/
theorem run_stopped {fileObj : ω} {oldProc : Nat} {events : List (Event ω κ)} {stop : Stop}
    (phase_eq : state.phase = .awaitingStat fileObj oldProc)
    (permits : (serving memory file).Permits state events)
    (run_eq : (serving memory file).run state events = .error stop) :
    stop = .notAwaited ∨ loadContents memory state.image file = .error stop := by
  obtain ⟨mid, event, holds, served, step_eq⟩ := (serving memory file).run_eq_error
    (fun _ _ _ holds served step_eq => Serving.step holds served step_eq)
    (serving_start phase_eq) permits run_eq
  exact holds.stopped served step_eq

/-- What a run of `load_elf` returns is what the contents of the file lead to. -/
theorem run_returned {fileObj : ω} {oldProc : Nat} {events : List (Event ω κ)} {final : State ω}
    {result : Except LoaderError Nat} (phase_eq : state.phase = .awaitingStat fileObj oldProc)
    (permits : (serving memory file).Permits state events)
    (run_eq : (serving memory file).run state events = .ok final)
    (returned : final.phase = .returned result) :
    loadContents memory state.image file = .ok (result, final.image) := by
  have holds := (serving memory file).run_keeps
    (fun _ _ _ holds served step_eq => Serving.step holds served step_eq)
    (serving_start phase_eq) permits run_eq
  rw [Serving, returned] at holds
  exact holds

end Serving

section Contents

variable {memory : KernelMemory κ} {lists : Nat → List Nat} {image : Image} {file : FileBytes}
  {vmas : List Nat}

end Contents

/-- A program of one segment: one byte of the file, from an offset on, at address `0x1000`. -/
def tinyProgram (pOffset : BitVec 8) : FileBytes where
  size := 120
  byte
    | 0 => 0x7F
    | 1 => 0x45
    | 2 => 0x4C
    | 3 => 0x46
    | 4 => 2
    | 5 => 1
    | 16 => 2
    | 18 => 0x3E
    | 25 => 0x10
    | 32 => 64
    | 54 => 56
    | 56 => 1
    | 64 => 1
    | 72 => pOffset
    | 81 => 0x10
    | 96 => 1
    | 104 => 1
    | _ => 0

/-- The one segment of the program. -/
def tinySegment (pOffset : Nat) : Elf64Phdr := ⟨1, 0, pOffset, 0x1000, 0, 1, 1, 0⟩

theorem segments_tinyProgram :
    (Elf64Ehdr.read (tinyProgram 0).byte).segments (tinyProgram 0) = [tinySegment 0] := by
  decide +kernel

/-- The image of a new process with memory for one page. -/
def onePageImage : Image := { emptyImage with supply := [0x5000], areaNodes := [0xA0] }

theorem supplied_onePageImage : Supplied onePageImage [] :=
  .empty ⟨⟨rfl, .nil, trivial⟩, .refl _⟩ (by decide)

theorem hasBuffer_objectsOnly (pOffset : BitVec 8) :
    KernelMemory.objectsOnly.HasBuffer (fun _ => []) (tinyProgram pOffset).size 3 := by
  refine ⟨⟨120, 8, ⟨3, rfl⟩, by decide⟩, rfl, ?_⟩
  have class_eq : Slab.sizeClass ⟨120, 8, ⟨3, rfl⟩, by decide⟩ = some 4 := by decide +kernel
  rw [KernelMemory.HasBlock, class_eq]
  exact .inl (by decide)

end Loader
end Vespertine
