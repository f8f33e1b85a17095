import Vespertine.Memory.KernelBuffers
import Vespertine.Object.Handle
import Vespertine.Object.UserCopy

/-!
# User pointers of invocations

Every operation of a kernel object that copies through a pointer of its caller, as a tree of copies:
what is copied next may depend on whether the last copy succeeded.  Files, sockets and processes are
given by the state the operations read; `Answers` holds what they take from the rest of the kernel.
An operation that allocates a buffer for a copy takes it from the kernel heap first, and panics when
there is none.

An operation respects the user half exactly if each copy it comes to does.
-/

namespace Vespertine
namespace UserPointers

open UserCopy Slab

variable {κ : Type} [DecidableEq κ]

/-- An operation, seen through its copies. -/
inductive Operation
  | done (result : Except InvocationError Nat)
  /-- The future waits to be polled again. -/
  | suspended
  | panicked
  | copyFrom (src : BitVec 64) (len : Nat) (next : Bool → Operation)
  | copyTo (dst : BitVec 64) (len : Nat) (next : Bool → Operation)

/-- Go on if the copy succeeded. -/
def orInvalid (next : Operation) : Bool → Operation
  | true => next
  | false => .done (.error .InvalidPointer)

/-- What one poll of a socket meets. -/
structure SocketPoll where
  /-- Bytes in the bus that is read. -/
  buffered : Nat
  /-- Room in the bus that is written. -/
  space : Nat
  /-- The bus is closed when the poll starts. -/
  closed : Bool
  /-- The written bus is closed when its lock is taken. -/
  closedLater : Bool
  /-- The endpoint does not block. -/
  nb : Bool
deriving DecidableEq, Repr

/-- How what an operation does between two copies ends. -/
inductive Way
  | succeeds
  | fails
  /-- It waits and is not resumed. -/
  | waits
  | panics
deriving DecidableEq, Repr

/-- Go on if what is done besides succeeds. -/
def Way.proceed (way : Way) (next failed : Operation) : Operation :=
  match way with
  | .succeeds => next
  | .fails => failed
  | .waits => .suspended
  | .panics => .panicked

/-- What one poll of `Wait` meets. -/
structure WaitPoll (κ : Type) where
  /-- The kernel heap when the items are to be copied. -/
  memory : KernelMemory κ
  /-- Whether there is memory for the endpoints of the items. -/
  room : Bool
  /-- Whether every item names a readable socket. -/
  resolved : Except InvocationError Unit
  /-- Some signal is pending. -/
  anyReady : Bool

/-- What the operations take from the rest of the kernel. -/
structure Answers (κ : Type) where
  /-- The outcome of whatever an operation does besides. -/
  result : Except InvocationError Nat
  /-- Whether there is memory for the future of the operation. -/
  boxed : Bool
  /-- Whether the page of a file can be loaded. -/
  loads : Nat → Way
  socketPolls : List SocketPoll
  waitPolls : List (WaitPoll κ)
  /-- Resolving the handles of `Spawn` in front of the grants and entering them in the new table. -/
  root : Kernel (Except InvocationError Unit)
  /-- The kernel heap when `Spawn` allocates a list for the granted handles, and one for the grants
  of the caller. -/
  granted : KernelMemory κ
  offered : KernelMemory κ
  /-- Whether the parent may give the grants of `Spawn`. -/
  grants : Way
  /-- Whether the program of `Spawn` is loaded. -/
  program : Way
  /-- The kernel heap when `Spawn` allocates a buffer for the arguments. -/
  arguments : KernelMemory κ

/-- Kernel objects with the state that decides what they copy. -/
inductive Target
  | directory
  | ext2Directory
  | file (size : Nat)
  | ext2File (size offset : Nat)
  | framebuffer
  | socket
  | screenWriter
  | process
  | processManager
  /-- Memory objects, threads, pools, clocks and factories copy nothing. -/
  | other
deriving DecidableEq, Repr

def FILENAME_LEN_MAX : Nat := 254

/-- `size_of::<FramebufferInfo>()`. -/
def FRAMEBUFFER_INFO_SIZE : Nat := 32

/-- `size_of::<ProcStatus>()`. -/
def PROC_STATUS_SIZE : Nat := 32

/-- `size_of::<WaitItem>()`. -/
def WAIT_ITEM_SIZE : Nat := 16

/-- `size_of::<HandleGrant>()`. -/
def HANDLE_GRANT_SIZE : Nat := 24

/-- A vector with room for some elements, aligned to `2 ^ exponent`, is allocated first. -/
def withVec (memory : KernelMemory κ) (count size exponent : Nat) (next : Operation) : Operation :=
  match memory.vecWithCapacity count size exponent with
  | .error _ => .panicked
  | .ok _ => next

/-- `Filename::new`. -/
def filename (name nameLen : Nat) (next : Operation) : Operation :=
  if nameLen > FILENAME_LEN_MAX then
    .done (.error .NameTooLong)
  else
    .copyFrom (.ofNat 64 name) nameLen (orInvalid next)

/-- `Directory::lookup`, which checks the length once more. -/
def lookup (name nameLen : Nat) (answers : Answers κ) : Operation :=
  if nameLen > FILENAME_LEN_MAX then
    .done (.error .NameTooLong)
  else
    filename name nameLen (.done answers.result)

/-- `FileObj::read_file`. -/
def readFile (size offset bufferPtr reqLen : Nat) : Operation :=
  if offset ≥ size then
    .done (.ok 0)
  else
    let readLen := min (size - offset) reqLen
    if readLen = 0 then
      .done (.ok 0)
    else
      .copyTo (.ofNat 64 bufferPtr) readLen (orInvalid (.done (.ok readLen)))

/-- The loop of `Ext2File::read_bytes_async`: one copy for each page. -/
def readChunks (loads : Nat → Way) (offset bufferPtr readLen : Nat) :
    (fuel bytesCopied : Nat) → Operation
  | 0, bytesCopied => .done (.ok bytesCopied)
  | fuel + 1, bytesCopied =>
      if bytesCopied < readLen then
        let currentFileOffset := offset + bytesCopied
        let pageOffset := currentFileOffset / NORMAL_PAGE_SIZE * NORMAL_PAGE_SIZE
        let blockInternalOffset := currentFileOffset % NORMAL_PAGE_SIZE
        let chunkSize := min (NORMAL_PAGE_SIZE - blockInternalOffset) (readLen - bytesCopied)
        (loads pageOffset).proceed
          (.copyTo (.ofNat 64 (bufferPtr + bytesCopied)) chunkSize
            (orInvalid (readChunks loads offset bufferPtr readLen fuel (bytesCopied + chunkSize))))
          (.done (.error .InvalidPointer))
      else
        .done (.ok bytesCopied)

/-- `Ext2File::read_bytes_async` at the offset the file is at. -/
def readBytesAsync (loads : Nat → Way) (fileSize offset bufferPtr reqLen : Nat) : Operation :=
  if offset ≥ fileSize then
    .done (.ok 0)
  else
    let readLen := min (fileSize - offset) reqLen
    if readLen = 0 then
      .done (.ok 0)
    else
      readChunks loads offset bufferPtr readLen readLen 0

/-- `FramebufferDevice`: read the description of the screen. -/
def readInfo (callingRights : AccessRights) (offset bufferPtr len : Nat) : Operation :=
  if !callingRights.contains .READ then
    .done (.error .AccessDenied)
  else if offset ≥ FRAMEBUFFER_INFO_SIZE then
    .done (.ok 0)
  else
    let readLen := min (FRAMEBUFFER_INFO_SIZE - offset) len
    .copyTo (.ofNat 64 bufferPtr) readLen (orInvalid (.done (.ok readLen)))

/-- `SocketEndpoint::read_async`, poll after poll. -/
def readAsync (bufferPtr len : Nat) : List SocketPoll → Operation
  | [] => .suspended
  | poll :: polls =>
      if len = 0 then
        .done (.ok 0)
      else if poll.buffered > 0 then
        let count := min (min len 512) poll.buffered
        .copyTo (.ofNat 64 bufferPtr) count (orInvalid (.done (.ok count)))
      else if poll.closed then
        .done (.ok 0)
      else if poll.nb then
        .done (.error .WouldBlock)
      else
        readAsync bufferPtr len polls

/-- `SocketEndpoint::write_async`, poll after poll; every poll copies again. -/
def writeAsync (bufferPtr len : Nat) : List SocketPoll → Operation
  | [] => .suspended
  | poll :: polls =>
      if poll.closed then
        .done (.error .UnsupportedOperation)
      else if len = 0 then
        .done (.ok 0)
      else
        let toWrite := min len 512
        .copyFrom (.ofNat 64 bufferPtr) toWrite <| orInvalid <|
          if poll.closedLater then
            .done (.error .UnsupportedOperation)
          else if poll.space = 0 then
            if poll.nb then .done (.error .WouldBlock) else writeAsync bufferPtr len polls
          else
            .done (.ok (min toWrite poll.space))

/-- `ScreenWriter`: write a text to the screen. -/
def writeScreen (callingRights : AccessRights) (bufferPtr len : Nat) : Operation :=
  if !callingRights.contains .WRITE then
    .done (.error .AccessDenied)
  else if len > 1024 then
    .done (.error .BufferFull)
  else
    .copyFrom (.ofNat 64 bufferPtr) len (orInvalid (.done (.ok len)))

/-- `ProcessControlBlock::status`, which ignores whether the copy succeeded. -/
def status (statusPtr : Nat) : Operation :=
  .copyTo (.ofNat 64 statusPtr) PROC_STATUS_SIZE fun _ => .done (.ok 0)

/-- `ProcessControlBlock::wait_many_async`, poll after poll; the last copy is not checked. -/
def waitManyAsync (itemsPtr count : Nat) : List (WaitPoll κ) → Operation
  | [] => .suspended
  | poll :: polls =>
      withVec poll.memory count WAIT_ITEM_SIZE 3 <|
        .copyFrom (.ofNat 64 itemsPtr) (count * WAIT_ITEM_SIZE) <| orInvalid <|
          if !poll.room then
            .panicked
          else
            match poll.resolved with
            | .error problem => .done (.error problem)
            | .ok () =>
                if poll.anyReady then
                  .copyTo (.ofNat 64 itemsPtr) (count * WAIT_ITEM_SIZE) fun _ => .done (.ok 0)
                else
                  waitManyAsync itemsPtr count polls

/-- `Wait` for one of several sockets. -/
def waitMany (itemsPtr count : Nat) (polls : List (WaitPoll κ)) : Operation :=
  if count = 0 ∨ count > 64 then
    .done (.error .InvalidArgument)
  else
    waitManyAsync itemsPtr count polls

/-- `Spawn` from the loading of the program on: the arguments are copied. -/
def spawnArgs (op : Spawn) (answers : Answers κ) : Operation :=
  answers.program.proceed
    (withVec answers.arguments op.argsBufferLen 1 0 <|
      if op.argsBufferLen > 0 then
        .copyFrom (.ofNat 64 op.argsBufferPtr) op.argsBufferLen (orInvalid (.done answers.result))
      else
        .done answers.result)
    (.done (.error .InvalidHandle))

/-- `Spawn`: the grants are copied before the program is loaded. -/
def spawn (callingRights : AccessRights) (op : Spawn) (answers : Answers κ) : Operation :=
  if !callingRights.contains .CREATE then
    .done (.error .AccessDenied)
  else
    match answers.root with
    | .error _ => .panicked
    | .ok (.error problem) => .done (.error problem)
    | .ok (.ok ()) =>
        withVec answers.granted op.extraHandlesLen HANDLE_GRANT_SIZE 3 <|
          if op.extraHandlesLen > 0 then
            withVec answers.offered op.extraHandlesLen HANDLE_GRANT_SIZE 3 <|
              .copyFrom (.ofNat 64 op.extraHandlesPtr) (HANDLE_GRANT_SIZE * op.extraHandlesLen) <|
                orInvalid <|
                  answers.grants.proceed (spawnArgs op answers) (.done (.error .InvalidHandle))
          else
            spawnArgs op answers

/-- `KernelObject::invoke` of every object, as far as the pointers of the caller are concerned. -/
def invoke (object : Target) (callingRights : AccessRights) (invocation : Invocation)
    (answers : Answers κ) : Operation :=
  match object, invocation with
  | .directory, .Directory (.Link name nameLen _) => filename name nameLen (.done answers.result)
  | .directory, .Directory (.Unlink name nameLen) => filename name nameLen (.done answers.result)
  | .directory, .Directory (.Lookup name nameLen) => lookup name nameLen answers
  | .ext2Directory, .Directory (.Lookup name nameLen) =>
      filename name nameLen (.done answers.result)
  | .file size, .File (.Read offset bufferPtr len) => readFile size offset bufferPtr len
  | .ext2File size offset, .File (.Read _ bufferPtr len) =>
      readBytesAsync answers.loads size offset bufferPtr len
  | .framebuffer, .File (.Read offset bufferPtr len) =>
      readInfo callingRights offset bufferPtr len
  | .socket, .File (.Read _ bufferPtr len) =>
      if !callingRights.contains .READ then
        .done (.error .AccessDenied)
      else
        readAsync bufferPtr len answers.socketPolls
  | .socket, .File (.Write _ bufferPtr len) =>
      if !callingRights.contains .WRITE then
        .done (.error .AccessDenied)
      else
        writeAsync bufferPtr len answers.socketPolls
  | .screenWriter, .File (.Write _ bufferPtr len) => writeScreen callingRights bufferPtr len
  | .process, .Proc (.GetStatus statusPtr) => status statusPtr
  | .process, .Wait (.Many itemsPtr count) => waitMany itemsPtr count answers.waitPolls
  | .processManager, .ProcessManager (.Spawn op) => spawn callingRights op answers
  | _, _ => .done answers.result

/-- `kernel_invoke`: resolve the handle with the demanded rights and invoke its object. -/
def kernelInvoke (table : HandleTable Target) (handle : HandleID) (invocation : Invocation)
    (answers : Answers κ) : Operation :=
  match table.resolveEntry handle invocation.requiredRights with
  | .error problem => .done (.error problem)
  | .ok entry =>
      if answers.boxed then invoke entry.object entry.rights invocation answers else .panicked

/-- A copy that was made. -/
structure Access where
  ptr : BitVec 64
  len : Nat
  outcome : Outcome
deriving DecidableEq, Repr

/-- The copy met its obligation. -/
def Access.Respected (access : Access) : Prop := Respects access.ptr access.len access.outcome

namespace Operation

/-- The copies that are made, in order; `faults` tells which addresses cannot be reached by the
copy of each number. -/
def accesses (faults : Nat → Nat → Bool) : Nat → Operation → List Access
  | _, .done _ | _, .suspended | _, .panicked => []
  | number, .copyFrom src len next =>
      let outcome := safeCopyFrom (faults number) src len
      ⟨src, len, outcome⟩ :: match outcome.result with
        | none => []
        | some success => accesses faults (number + 1) (next success)
  | number, .copyTo dst len next =>
      let outcome := safeCopyTo (faults number) dst len
      ⟨dst, len, outcome⟩ :: match outcome.result with
        | none => []
        | some success => accesses faults (number + 1) (next success)

/-- Each copy that the operation comes to is within its bounds; it goes on according to whether
the bytes can be reached. -/
def Confined (faults : Nat → Nat → Bool) : Nat → Operation → Prop
  | _, .done _ | _, .suspended | _, .panicked => True
  | number, .copyFrom ptr len next | number, .copyTo ptr len next =>
      Within (faults number) ptr len ∧ ∀ success,
        (success = true ↔ Reachable (faults number) ptr len) →
          Confined faults (number + 1) (next success)

end Operation

section Accesses

variable {faults : Nat → Nat → Bool}

/-- One copy and what follows it. -/
theorem copy_confined_iff {number : Nat} {ptr : BitVec 64} {len : Nat} {next : Bool → Operation}
    (ih : ∀ success, (∀ access ∈ (next success).accesses faults (number + 1), access.Respected) ↔
      (next success).Confined faults (number + 1)) :
    (Respects ptr len (safeCopy (faults number) ptr len) ∧
        ∀ success, (safeCopy (faults number) ptr len).result = some success →
          ∀ access ∈ (next success).accesses faults (number + 1), access.Respected) ↔
      Within (faults number) ptr len ∧ ∀ success,
        (success = true ↔ Reachable (faults number) ptr len) →
          (next success).Confined faults (number + 1) := by
  rw [safeCopy_respects_iff]
  refine and_congr_right fun within => forall_congr' fun success => ?_
  rw [ih success]
  have same : (safeCopy (faults number) ptr len).result = some success ↔
      (success = true ↔ Reachable (faults number) ptr len) := by
    rcases within.result with ⟨result_eq, reachable⟩ | ⟨result_eq, unreachable⟩
    · cases success <;> simp [result_eq, reachable]
    · cases success <;> simp [result_eq, unreachable]
  rw [same]

/-- The copies of an operation all meet their obligation exactly if the operation is confined. -/
theorem accesses_respected_iff (number : Nat) (operation : Operation) :
    (∀ access ∈ operation.accesses faults number, access.Respected) ↔
      operation.Confined faults number := by
  induction operation generalizing number with
  | done result => simp [Operation.accesses, Operation.Confined]
  | suspended => simp [Operation.accesses, Operation.Confined]
  | panicked => simp [Operation.accesses, Operation.Confined]
  | copyFrom src len next ih =>
      rw [Operation.Confined, ← copy_confined_iff fun success => ih success (number + 1),
        Operation.accesses, List.forall_mem_cons]
      refine and_congr_right fun _ => ?_
      rw [safeCopyFrom]
      cases (safeCopy (faults number) src len).result <;> simp
  | copyTo dst len next ih =>
      rw [Operation.Confined, ← copy_confined_iff fun success => ih success (number + 1),
        Operation.accesses, List.forall_mem_cons]
      refine and_congr_right fun _ => ?_
      rw [safeCopyTo]
      cases (safeCopy (faults number) dst len).result <;> simp

/-- Nothing is copied into an argument buffer that is larger than the largest block. -/
theorem spawnArgs_large {op : Spawn} (large : NORMAL_PAGE_SIZE <<< ORDER_MAX < op.argsBufferLen)
    (answers : Answers κ) (number : Nat) : (spawnArgs op answers).accesses faults number = [] := by
  obtain ⟨panic, vec_eq⟩ := @KernelMemory.vecWithCapacity_eq_error_of_large _ _ answers.arguments
    op.argsBufferLen 1 0 (by rwa [Nat.mul_one])
  rw [spawnArgs, withVec, vec_eq]
  cases answers.program with
  | succeeds => rfl
  | fails => rfl
  | waits => rfl
  | panics => rfl

end Accesses

section Buffers

variable {faults : Nat → Nat → Bool}

/-- The buffers an invocation names, with their lengths. -/
def buffers : Invocation → List (Nat × Nat)
  | .Directory (.Link name nameLen _) | .Directory (.Unlink name nameLen)
  | .Directory (.Lookup name nameLen) => [(name, nameLen)]
  | .File (.Read _ bufferPtr len) | .File (.Write _ bufferPtr len) => [(bufferPtr, len)]
  | .Proc (.GetStatus statusPtr) => [(statusPtr, PROC_STATUS_SIZE)]
  | .Wait (.Many itemsPtr count) => [(itemsPtr, count * WAIT_ITEM_SIZE)]
  | .ProcessManager (.Spawn op) =>
      [(op.extraHandlesPtr, HANDLE_GRANT_SIZE * op.extraHandlesLen),
        (op.argsBufferPtr, op.argsBufferLen)]
  | _ => []

theorem within_of_le {present : Nat → Bool} {ptr len : Nat} (user : ptr + len ≤ USER_END) :
    Within present (.ofNat 64 ptr) len := by
  have order := KERNEL_START_lt
  have small : ptr < 2 ^ 64 := by
    have word : wordSize = 2 ^ 64 := rfl
    omega
  refine .inr (.inl ?_)
  rwa [BitVec.toNat_ofNat, Nat.mod_eq_of_lt small]

theorem confined_orInvalid {number : Nat} {next : Operation}
    (confined : next.Confined faults number) (success : Bool) :
    (orInvalid next success).Confined faults number := by
  cases success with
  | false => trivial
  | true => exact confined

theorem confined_proceed {way : Way} {number : Nat} {next failed : Operation}
    (confined : next.Confined faults number) (failed_confined : failed.Confined faults number) :
    (way.proceed next failed).Confined faults number := by
  cases way with
  | succeeds => exact confined
  | fails => exact failed_confined
  | waits => trivial
  | panics => trivial

theorem confined_withVec (memory : KernelMemory κ) (count size exponent : Nat) {number : Nat}
    {next : Operation} (confined : next.Confined faults number) :
    (withVec memory count size exponent next).Confined faults number := by
  rw [withVec]
  split
  · trivial
  · exact confined

theorem confined_copyFrom {number ptr len : Nat} {next : Operation} (user : ptr + len ≤ USER_END)
    (confined : next.Confined faults (number + 1)) :
    (Operation.copyFrom (.ofNat 64 ptr) len (orInvalid next)).Confined faults number :=
  ⟨within_of_le user, fun success _ => confined_orInvalid confined success⟩

theorem confined_copyTo {number ptr len : Nat} {next : Operation} (user : ptr + len ≤ USER_END)
    (confined : next.Confined faults (number + 1)) :
    (Operation.copyTo (.ofNat 64 ptr) len (orInvalid next)).Confined faults number :=
  ⟨within_of_le user, fun success _ => confined_orInvalid confined success⟩

theorem confined_filename {name nameLen : Nat} {next : Operation} (user : name + nameLen ≤ USER_END)
    (confined : next.Confined faults 1) : (filename name nameLen next).Confined faults 0 := by
  rw [filename]
  split
  · trivial
  · exact confined_copyFrom user confined

theorem confined_readFile {size offset bufferPtr len : Nat} (user : bufferPtr + len ≤ USER_END) :
    (readFile size offset bufferPtr len).Confined faults 0 := by
  rw [readFile]
  dsimp only
  split_ifs
  · trivial
  · trivial
  · exact confined_copyTo (by omega) trivial

theorem confined_readInfo {callingRights : AccessRights} {offset bufferPtr len : Nat}
    (user : bufferPtr + len ≤ USER_END) :
    (readInfo callingRights offset bufferPtr len).Confined faults 0 := by
  rw [readInfo]
  split_ifs
  · trivial
  · trivial
  · exact confined_copyTo (by omega) trivial

theorem confined_writeScreen {callingRights : AccessRights} {bufferPtr len : Nat}
    (user : bufferPtr + len ≤ USER_END) :
    (writeScreen callingRights bufferPtr len).Confined faults 0 := by
  rw [writeScreen]
  split_ifs
  · trivial
  · trivial
  · exact confined_copyFrom user trivial

theorem confined_readChunks (loads : Nat → Way) (offset : Nat) {bufferPtr readLen : Nat}
    (user : bufferPtr + readLen ≤ USER_END) (fuel bytesCopied number : Nat) :
    (readChunks loads offset bufferPtr readLen fuel bytesCopied).Confined faults number := by
  induction fuel generalizing bytesCopied number with
  | zero => trivial
  | succ fuel ih =>
      rw [readChunks]
      dsimp only
      split_ifs with more
      · exact confined_proceed (confined_copyTo (by omega) (ih _ _)) trivial
      · trivial

theorem confined_readBytesAsync {loads : Nat → Way} {fileSize offset bufferPtr len : Nat}
    (user : bufferPtr + len ≤ USER_END) :
    (readBytesAsync loads fileSize offset bufferPtr len).Confined faults 0 := by
  rw [readBytesAsync]
  dsimp only
  split_ifs
  · trivial
  · trivial
  · exact confined_readChunks loads offset (by omega) _ _ _

theorem confined_readAsync {bufferPtr len : Nat} (user : bufferPtr + len ≤ USER_END)
    (polls : List SocketPoll) : (readAsync bufferPtr len polls).Confined faults 0 := by
  induction polls with
  | nil => trivial
  | cons poll polls ih =>
      rw [readAsync]
      split_ifs
      · trivial
      · exact confined_copyTo (by omega) trivial
      · trivial
      · trivial
      · exact ih

theorem confined_writeAsync {bufferPtr len : Nat} (user : bufferPtr + len ≤ USER_END)
    (polls : List SocketPoll) (number : Nat) :
    (writeAsync bufferPtr len polls).Confined faults number := by
  induction polls generalizing number with
  | nil => trivial
  | cons poll polls ih =>
      rw [writeAsync]
      split_ifs
      · trivial
      · trivial
      all_goals refine confined_copyFrom (by omega) ?_
      · trivial
      · trivial
      · exact ih _
      · trivial

theorem confined_waitManyAsync {itemsPtr count : Nat}
    (user : itemsPtr + count * WAIT_ITEM_SIZE ≤ USER_END) (polls : List (WaitPoll κ))
    (number : Nat) :
    (waitManyAsync itemsPtr count polls).Confined faults number := by
  induction polls generalizing number with
  | nil => trivial
  | cons poll polls ih =>
      rw [waitManyAsync]
      refine confined_withVec _ _ _ _ (confined_copyFrom user ?_)
      split
      · trivial
      · split
        · trivial
        · split
          · exact ⟨within_of_le user, fun _ _ => trivial⟩
          · exact ih _

theorem confined_spawnArgs {op : Spawn} (user : op.argsBufferPtr + op.argsBufferLen ≤ USER_END)
    (answers : Answers κ) (number : Nat) : (spawnArgs op answers).Confined faults number := by
  refine confined_proceed (confined_withVec _ _ _ _ ?_) trivial
  split
  · exact confined_copyFrom user trivial
  · trivial

theorem confined_spawn {op : Spawn} (callingRights : AccessRights) (answers : Answers κ)
    (grants : op.extraHandlesPtr + HANDLE_GRANT_SIZE * op.extraHandlesLen ≤ USER_END)
    (user : op.argsBufferPtr + op.argsBufferLen ≤ USER_END) :
    (spawn callingRights op answers).Confined faults 0 := by
  have args (number : Nat) : (spawnArgs op answers).Confined faults number :=
    confined_spawnArgs user answers number
  rw [spawn]
  split
  · trivial
  · split
    · trivial
    · trivial
    · refine confined_withVec _ _ _ _ ?_
      split
      · refine confined_withVec _ _ _ _ (confined_copyFrom grants ?_)
        exact confined_proceed (args _) trivial
      · exact args _

theorem confined_invoke {invocation : Invocation}
    (inside : ∀ buffer ∈ buffers invocation, buffer.1 + buffer.2 ≤ USER_END) (object : Target)
    (callingRights : AccessRights) (answers : Answers κ) :
    (invoke object callingRights invocation answers).Confined faults 0 := by
  unfold invoke
  split
  · exact confined_filename (inside _ List.mem_cons_self) trivial
  · exact confined_filename (inside _ List.mem_cons_self) trivial
  · rw [lookup]
    split
    · trivial
    · exact confined_filename (inside _ List.mem_cons_self) trivial
  · exact confined_filename (inside _ List.mem_cons_self) trivial
  · exact confined_readFile (inside _ List.mem_cons_self)
  · exact confined_readBytesAsync (inside _ List.mem_cons_self)
  · exact confined_readInfo (inside _ List.mem_cons_self)
  · split
    · trivial
    · exact confined_readAsync (inside _ List.mem_cons_self) _
  · split
    · trivial
    · exact confined_writeAsync (inside _ List.mem_cons_self) _ _
  · exact confined_writeScreen (inside _ List.mem_cons_self)
  · exact ⟨within_of_le (inside _ List.mem_cons_self), fun _ _ => trivial⟩
  · rw [waitMany]
    split
    · trivial
    · exact confined_waitManyAsync (inside _ List.mem_cons_self) _ _
  · exact confined_spawn _ _ (inside _ List.mem_cons_self)
      (inside _ (List.mem_cons_of_mem _ List.mem_cons_self))
  · trivial

/-- An invocation whose buffers all lie in the user half is confined, whatever object it is made
on, whatever that object contains and whatever pages are present. -/
theorem confined_of_buffers {invocation : Invocation}
    (inside : ∀ buffer ∈ buffers invocation, buffer.1 + buffer.2 ≤ USER_END)
    (table : HandleTable Target) (handle : HandleID) (answers : Answers κ) :
    (kernelInvoke table handle invocation answers).Confined faults 0 := by
  rw [kernelInvoke]
  split
  next => trivial
  next entry _ =>
    split
    next => exact confined_invoke inside entry.object entry.rights answers
    next => trivial

end Buffers

/-- For every invocation through every handle, the kernel reads and writes only bytes of the user
half through the pointers of the caller and refuses every range that leaves it, if and only if each
copy the operation comes to is empty, lies in the user half, reaches from below the kernel half into
it, or starts in the user half at a byte that cannot be reached. -/
theorem user_pointers_confined_iff (faults : Nat → Nat → Bool) (table : HandleTable Target)
    (handle : HandleID) (invocation : Invocation) (answers : Answers κ) :
    (∀ access ∈ (kernelInvoke table handle invocation answers).accesses faults 0,
        access.Respected) ↔
      (kernelInvoke table handle invocation answers).Confined faults 0 :=
  accesses_respected_iff 0 _

/-- A table with one object, held with all rights under handle 4. -/
def oneObject (object : Target) : HandleTable Target := HandleTable.new.insertAt 4 object .all

/-- Everything succeeds and nobody polls. -/
def noAnswers : Answers Unit where
  result := .ok 0
  boxed := true
  loads := fun _ => .succeeds
  socketPolls := []
  waitPolls := []
  root := .ok (.ok ())
  granted := .objectsOnly
  offered := .objectsOnly
  grants := .succeeds
  program := .succeeds
  arguments := .objectsOnly

/-- A file is read into kernel memory at the wish of the caller, and the first address behind the
user half as the name of a link halts the kernel. -/
theorem kernel_memory_written :
    ((kernelInvoke (oneObject (.file 8)) 4 (.File (.Read 0 0xFFFF800000001000 8))
      noAnswers).accesses (fun _ _ => false) 0 = [⟨0xFFFF800000001000, 8, ⟨some true, 8⟩⟩] ∧
      (kernelInvoke (oneObject .directory) 4 (.Directory (.Link 0x800000000000 1 4))
          noAnswers).accesses (fun _ _ => false) 0 = [⟨0x800000000000, 1, ⟨none, 0⟩⟩]) ∧
    ¬Access.Respected ⟨0xFFFF800000001000, 8, ⟨some true, 8⟩⟩ ∧
    ¬Access.Respected ⟨0x800000000000, 1, ⟨none, 0⟩⟩ := by
  refine ⟨by decide +kernel, fun respected => ?_, fun respected => ?_⟩
  · exact absurd (respected.inside 0 (by decide)) (by decide)
  · exact absurd (respected.refused ⟨0, by decide, by decide⟩).1 (by decide)

/-- An invocation whose buffers all lie in the user half makes the kernel touch bytes of the user
half only, whatever the handle names, the object answers and pages are present. -/
theorem user_buffers_respected {invocation : Invocation}
    (inside : ∀ buffer ∈ buffers invocation, buffer.1 + buffer.2 ≤ USER_END)
    (faults : Nat → Nat → Bool) (table : HandleTable Target) (handle : HandleID)
    (answers : Answers κ) :
    ∀ access ∈ (kernelInvoke table handle invocation answers).accesses faults 0,
      access.Respected :=
  (accesses_respected_iff 0 _).mpr (confined_of_buffers inside table handle answers)

/-- Eight bytes of a file are read into a page that is not present. -/
theorem user_buffers_respected_absent_page :
    (kernelInvoke (oneObject (.file 8)) 4 (.File (.Read 0 0x1000 8)) noAnswers).accesses
        (fun _ _ => true) 0 = [⟨0x1000, 8, ⟨some false, 0⟩⟩] ∧
      Access.Respected ⟨0x1000, 8, ⟨some false, 0⟩⟩ := by
  have accesses_eq : (kernelInvoke (oneObject (.file 8)) 4 (.File (.Read 0 0x1000 8))
      noAnswers).accesses (fun _ _ => true) 0 = [⟨0x1000, 8, ⟨some false, 0⟩⟩] := by
    decide +kernel
  have inside : ∀ buffer ∈ buffers (.File (.Read 0 0x1000 8)), buffer.1 + buffer.2 ≤ USER_END := by
    decide
  refine ⟨accesses_eq, ?_⟩
  refine user_buffers_respected inside (fun _ _ => true) (oneObject (.file 8)) 4 noAnswers _ ?_
  rw [accesses_eq]
  exact List.mem_singleton_self _

end UserPointers
end Vespertine
