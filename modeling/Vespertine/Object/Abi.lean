import Vespertine.Kernel

/-!
# The system call interface

Access rights, handle numbers and the invocations a thread passes to the kernel, with the rights
that an invocation demands of the handle it is made through.
-/

namespace Vespertine

/-- A set of access flags in one byte. -/
structure AccessRights where
  bits : BitVec 8
deriving DecidableEq, Repr

namespace AccessRights

def READ : AccessRights := ⟨1 <<< 0⟩
def WRITE : AccessRights := ⟨1 <<< 1⟩
def EXECUTE : AccessRights := ⟨1 <<< 2⟩
def CREATE : AccessRights := ⟨1 <<< 3⟩
def MUTATE : AccessRights := ⟨1 <<< 4⟩

/-- No flags. -/
def new : AccessRights := ⟨0⟩

/-- The five flags. -/
def all : AccessRights := ⟨0b11111⟩

/-- The flags of both sets. -/
def insert (left right : AccessRights) : AccessRights := ⟨left.bits ||| right.bits⟩

/-- The common flags. -/
def mask (left right : AccessRights) : AccessRights := ⟨left.bits &&& right.bits⟩

/-- Every flag of the second set is in the first. -/
def contains (left right : AccessRights) : Bool := left.bits &&& right.bits == right.bits

end AccessRights

/-- A condition of a socket. -/
structure Signal where
  bits : BitVec 32
deriving DecidableEq, Repr

/-- Number of an entry of a handle table. -/
abbrev HandleID := Nat

/-- A handle passed to a new process, with the rights it is to have there. -/
structure HandleGrant where
  id : HandleID
  rights : AccessRights
  tag : Nat
deriving DecidableEq, Repr

inductive ChannelOp
  | PushSmall (data : List (BitVec 8)) (len : Nat)
  | PushLarge (vmoHandle : HandleID) (offset len : Nat)
  | Pull (bufferPtr : Nat)
deriving DecidableEq, Repr

inductive SocketOp
  | Create (sourceproc sinkproc : HandleID)
  | SetNB (nb : Bool)
deriving DecidableEq, Repr

inductive DirectoryOp
  | Link (name nameLen : Nat) (handleId : HandleID)
  | Unlink (name nameLen : Nat)
  | Lookup (name nameLen : Nat)
  | List (offset : Nat) (sink : HandleID)
deriving DecidableEq, Repr

inductive FileOp
  | Read (offset bufferPtr len : Nat)
  | Write (offset bufferPtr len : Nat)
  | Stat
  | GetVmo
deriving DecidableEq, Repr

inductive VmoOp
  | GetPage (offset : Nat)
  | Resize (newSize : Nat)
  | Clone (offset len : Nat)
  | MapIntoProc (vaddr len vmFlags : Nat)
deriving DecidableEq, Repr

inductive ProcOp
  | Kill
  | GetStatus (statusPtr : Nat)
  | Unmap (vaddr len : Nat)
  | SpawnThread (entry stackTop arg priority : Nat)
deriving DecidableEq, Repr

inductive ThreadOp
  | Kill
  | Join
  | GetID
deriving DecidableEq, Repr

/-- The fields of `Spawn`: what it starts and what it hands to the new process. -/
structure Spawn where
  execHandle : HandleID
  rootHandle : HandleID
  rootRights : AccessRights
  source : HandleID
  sink : HandleID
  extraHandlesPtr : Nat
  extraHandlesLen : Nat
  argsBufferPtr : Nat
  argsBufferLen : Nat
deriving DecidableEq, Repr

inductive ProcManOp
  | Spawn (spawn : Spawn)
deriving DecidableEq, Repr

inductive MemManOp
  | CreatePool (limit : Nat)
deriving DecidableEq, Repr

inductive MemPoolOp
  | AllocateVmo (size : Nat)
  | CreateSubPool (limit : Nat)
deriving DecidableEq, Repr

inductive ClockOp
  | GetTimestamp
deriving DecidableEq, Repr

inductive WaitOp
  | One (signal : Signal)
  | Many (itemsPtr count : Nat)
deriving DecidableEq, Repr

/-- What a thread asks of the object behind a handle. -/
inductive Invocation
  | Ping
  | GetInfo
  | Channel (op : ChannelOp)
  | Directory (op : DirectoryOp)
  | File (op : FileOp)
  | Vmo (op : VmoOp)
  | Proc (op : ProcOp)
  | Thread (op : ThreadOp)
  | ProcessManager (op : ProcManOp)
  | MemoryManager (op : MemManOp)
  | MemPool (op : MemPoolOp)
  | Clock (op : ClockOp)
  | Socket (op : SocketOp)
  | Wait (op : WaitOp)
deriving DecidableEq, Repr

/-- The rights an invocation demands. -/
def Invocation.requiredRights : Invocation → AccessRights
  | .Ping | .GetInfo => .READ
  | .Channel (.PushSmall ..) | .Channel (.PushLarge ..) => .WRITE
  | .Channel (.Pull ..) => .READ
  | .Directory (.Link ..) | .Directory (.Unlink ..) => .WRITE
  | .Directory (.Lookup ..) | .Directory (.List ..) => .READ
  | .File (.Read ..) => .READ
  | .File (.Write ..) => .WRITE
  | .File .Stat | .File .GetVmo => .READ
  | .Vmo (.GetPage ..) => .READ
  | .Vmo (.Resize ..) => .MUTATE
  | .Vmo (.Clone ..) => .CREATE
  | .Vmo (.MapIntoProc ..) => .MUTATE
  | .Proc .Kill => .WRITE
  | .Proc (.GetStatus ..) => .READ
  | .Proc (.Unmap ..) => .MUTATE
  | .Proc (.SpawnThread ..) => .CREATE
  | .Thread .Kill => .WRITE
  | .Thread .Join | .Thread .GetID => .READ
  | .ProcessManager (.Spawn _) => .CREATE
  | .MemoryManager (.CreatePool _) => .CREATE
  | .MemPool (.AllocateVmo _) | .MemPool (.CreateSubPool _) => .CREATE
  | .Clock .GetTimestamp => .READ
  | .Socket (.Create ..) => .CREATE
  | .Socket (.SetNB ..) => .WRITE
  | .Wait _ => .READ

end Vespertine
