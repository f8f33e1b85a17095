import Vespertine.Library.RefCount
import Vespertine.Object.Spawn

/-!
# The lifetime of processes

A process is dropped when the last `Arc` to it goes.  Such references are kept in handle tables, in
directories, in the control blocks of threads and in the variables of calls in progress; with a
process goes its handle table, and with the last handle of a socket endpoint the endpoint is closed.

Threads make calls in any order.  The drop of a table or a directory takes one entry at a time, and
others may run in between.  A thread that is killed in the middle of a call never drops what the
call has in its variables.
-/

namespace Vespertine
namespace ProcessLife

open Capabilities (Object)
open SpawnTable (Environment processRights)

/-- Where an `Arc` is kept. -/
inductive Place where
  /-- An entry of the handle table of a process. -/
  | handle (pid : Nat) (id : HandleID)
  /-- An entry of a directory. -/
  | name (dir : Nat) (name : String)
  /-- `ThreadControlBlock::process`. -/
  | process (thread : Nat)
  /-- `new_proc` of a call of `Spawn`. -/
  | newProc (thread : Nat)
  /-- `old_proc` of a call of `load_elf`. -/
  | oldProc (thread : Nat)
  /-- Another variable of a call in progress. -/
  | temp (thread : Nat) (index : Nat)
  /-- A static of the kernel. -/
  | static (index : Nat)
  deriving DecidableEq

inductive Life where
  | absent
  | running
  /-- `ThreadOp::Kill` has put it in the graveyard; it may run on until it is reaped. -/
  | killed
  | exited
  | reaped
  deriving DecidableEq

structure State where
  refs : Refs Place Object
  /-- The rights of the entries of the handle tables. -/
  rights : Nat → HandleID → AccessRights
  nextId : Nat → HandleID
  life : Nat → Life
  /-- The number of variables a thread has. -/
  depth : Nat → Nat
  /-- The drop of an endpoint has closed it towards its peer. -/
  isClosed : Nat → Bool
  nextPid : Nat
  nextObject : Nat

/-- `KERNEL_PROCESS`. -/
def KERNEL : Nat := 0

/-- Objects that hold no reference to other objects when they are created. -/
inductive Kind where
  | directory
  | file
  | ext2File
  | ext2Directory
  | vmo
  | framebuffer
  | memPool
  | processManager
  | memoryManager
  | clock
  | socketFactory
  | screenWriter

def Kind.object (id : Nat) : Kind → Object
  | .directory => .directory id
  | .file => .file id
  | .ext2File => .ext2File id
  | .ext2Directory => .ext2Directory id
  | .vmo => .vmo id
  | .framebuffer => .framebuffer id
  | .memPool => .memPool id
  | .processManager => .processManager
  | .memoryManager => .memoryManager
  | .clock => .clock
  | .socketFactory => .socketFactory
  | .screenWriter => .screenWriter

inductive Input where
  /-- A call takes a handle of its process into a variable, or one of the process in a variable. -/
  | resolve (thread : Nat) (owner : Option Nat) (id : HandleID) (required : AccessRights)
  /-- The last variable of a call goes out of scope. -/
  | leave (thread : Nat)
  | close (thread : Nat) (id : HandleID)
  | duplicate (thread : Nat) (id : HandleID) (requestedRights : AccessRights)
  | create (thread : Nat) (kind : Kind) (rights : AccessRights)
  /-- `SocketOp::Create`. -/
  | createPair (thread : Nat) (callingRights : AccessRights)
  | link (thread dir : Nat) (name : String) (id : HandleID)
  | unlink (thread dir : Nat) (name : String)
  | lookup (thread dir : Nat) (name : String) (callingRights : AccessRights)
  /-- `Spawn`, until the process has its own handle. -/
  | spawn (thread : Nat) (callingRights : AccessRights) (op : Spawn) (env : Environment)
  /-- `load_elf`, until it runs as the kernel process. -/
  | load (thread : Nat) (execHandle : HandleID)
  /-- `load_elf` runs as its caller again. -/
  | restore (thread : Nat)
  /-- `Spawn` returns an error. -/
  | fail (thread : Nat)
  /-- `Spawn` starts the first thread and returns. -/
  | finish (thread child : Nat)
  | spawnThread (thread proc child : Nat)
  | spawnKernelThread (child : Nat)
  | terminate (thread : Nat)
  | kill (thread tcb : Nat)
  | reapThread (thread : Nat)
  /-- The next entry of a table or a directory that is being dropped. -/
  | free (place : Place)

/-- Why an input changes nothing. -/
inductive Problem where
  | disabled
  | failed (problem : InvocationError)

namespace State

/-- Endpoints whose last reference goes are closed by `SocketEndpoint::drop`. -/
def setRefs (state : State) (refs : Refs Place Object) : State :=
  { state with
    refs
    isClosed := fun endpoint => state.isClosed endpoint ||
      decide (0 < state.refs.strong (.socket endpoint) ∧ refs.strong (.socket endpoint) = 0) }

def put (state : State) (place : Place) (object : Object) : State :=
  state.setRefs (state.refs.put place object)

def clear (state : State) (place : Place) : State :=
  state.setRefs (state.refs.clear place)

/-- The handle table of a process. -/
def table (state : State) (pid : Nat) : HandleTable Object where
  entries id := (state.refs.target (.handle pid id)).map fun object => ⟨state.rights pid id, object⟩
  nextId := state.nextId pid

/-- Write an entry of a handle table. -/
def setEntry (state : State) (pid : Nat) (id : HandleID) (object : Object) (rights : AccessRights)
    (nextId : HandleID) : State :=
  { state.put (.handle pid id) object with
    rights := Function.update state.rights pid (Function.update (state.rights pid) id rights)
    nextId := Function.update state.nextId pid nextId }

/-- `HandleTable::insert`. -/
def insert (state : State) (pid : Nat) (object : Object) (rights : AccessRights) : State :=
  let id := state.nextId pid
  state.setEntry pid id object rights (wrappingAdd id 1)

/-- `HandleTable::insert_at`. -/
def insertAt (state : State) (pid : Nat) (id : HandleID) (object : Object)
    (rights : AccessRights) : State :=
  state.setEntry pid id object rights
    (if id ≥ state.nextId pid then wrappingAdd id 1 else state.nextId pid)

/-- `HandleTable::close`. -/
def close (state : State) (pid : Nat) (id : HandleID) : Except Problem State :=
  match state.refs.target (.handle pid id) with
  | some _ => .ok (state.clear (.handle pid id))
  | none => .error (.failed .InvalidHandle)

def resolve (state : State) (pid : Nat) (id : HandleID) (required : AccessRights) :
    Except Problem Object :=
  ((state.table pid).resolve id required).mapError .failed

/-- The process of a thread that is running. -/
def current (state : State) (thread : Nat) : Except Problem Nat :=
  if state.life thread = .running ∨ state.life thread = .killed then
    match state.refs.target (.process thread) with
    | some (.process pid) => .ok pid
    | _ => .error .disabled
  else
    .error .disabled

/-- The process whose table a call reads: that of its thread, or the one that is invoked. -/
def owner (state : State) (thread : Nat) : Option Nat → Except Problem Nat
  | none => state.current thread
  | some index =>
      match state.refs.target (.temp thread index) with
      | some (.process pid) => .ok pid
      | _ => .error .disabled

/-- The directory that is invoked. -/
def invokedDirectory (state : State) (thread index : Nat) : Except Problem Nat :=
  match state.refs.target (.temp thread index) with
  | some (.directory dir) => .ok dir
  | _ => .error .disabled

/-- Keep an object in a new variable. -/
def push (state : State) (thread : Nat) (object : Object) : State :=
  let index := state.depth thread
  { state.put (.temp thread index) object with
    depth := Function.update state.depth thread (index + 1) }

/-- Give a new thread a control block. -/
def startThread (state : State) (child : Nat) (process : Object) : Except Problem State :=
  if state.life child = .absent ∧ state.refs.target (.process child) = none then
    .ok { state.put (.process child) process with
      life := Function.update state.life child .running }
  else
    .error .disabled

/-- Fill a fixed slot of a child if the handle resolves. -/
def insertResolved (state : State) (parent child : Nat) (slot handle : HandleID)
    (rights : AccessRights) : State :=
  match (state.table parent).resolve handle rights with
  | .ok object => state.insertAt child slot object rights
  | .error _ => state

/-- The loop over the grants. -/
def grantHandles (parent child : Nat) : State → List HandleGrant → Except Problem State
  | state, [] => .ok state
  | state, grant :: grants =>
      match (state.table parent).resolve grant.id grant.rights with
      | .ok object => grantHandles parent child (state.insert child object grant.rights) grants
      | .error _ => .error (.failed .InvalidHandle)

/-- Copy the grants from the caller and move the handles. -/
def extraHandles (state : State) (parent child : Nat) (op : Spawn) (env : Environment) :
    Except Problem State :=
  if op.extraHandlesLen > 0 then
    if env.grantsCopied then
      state.grantHandles parent child (env.parentGrants op)
    else
      .error (.failed .InvalidPointer)
  else
    .ok state

/-- The table of a child before its own handle is added; `root` is what it gets as root. -/
def fixedSlots (state : State) (parent child : Nat) (op : Spawn) (root : Object) : State :=
  let state := { state with nextPid := child + 1, nextId := Function.update state.nextId child 1 }
  let state := state.insertAt child 0 root op.rootRights
  let state := state.insertResolved parent child 2 op.source .READ
  state.insertResolved parent child 3 op.sink .WRITE

/-- `Spawn`, until the process has its own handle.  What fails before that leaves nothing behind. -/
def spawn (state : State) (thread : Nat) (callingRights : AccessRights) (op : Spawn)
    (env : Environment) : Except Problem State := do
  let parent ← state.current thread
  if callingRights.contains .CREATE then
    let root ← state.resolve parent op.rootHandle op.rootRights
    let child := state.nextPid
    let filled ← (state.fixedSlots parent child op root).extraHandles parent child op env
    if state.refs.target (.newProc thread) = none then
      .ok ((filled.put (.newProc thread) (.process child)).insertAt child 1 (.process child)
        processRights)
    else
      .error .disabled
  else
    .error (.failed .AccessDenied)

/-- `load_elf` keeps the process of its thread and puts the kernel process in its place. -/
def load (state : State) (thread : Nat) (execHandle : HandleID) : Except Problem State := do
  let pid ← state.current thread
  let file ← state.resolve pid execHandle .READ
  if state.refs.target (.newProc thread) ≠ none ∧ state.refs.target (.oldProc thread) = none then
    .ok (((state.push thread file).put (.oldProc thread) (.process pid)).put (.process thread)
      (.process KERNEL))
  else
    .error .disabled

/-- `load_elf` puts the process of its thread back. -/
def restore (state : State) (thread : Nat) : Except Problem State := do
  let _ ← state.current thread
  match state.refs.target (.oldProc thread) with
  | some old => .ok ((state.put (.process thread) old).clear (.oldProc thread))
  | none => .error .disabled

/-- `Spawn` returns an error; a process that was not put back is dropped with the rest. -/
def fail (state : State) (thread : Nat) : Except Problem State := do
  let _ ← state.current thread
  if state.refs.target (.newProc thread) ≠ none then
    .ok ((state.clear (.newProc thread)).clear (.oldProc thread))
  else
    .error .disabled

/-- `Spawn` starts the first thread of the process and adds the process to the caller's table. -/
def finish (state : State) (thread child : Nat) : Except Problem State := do
  let parent ← state.current thread
  match state.refs.target (.newProc thread), state.refs.target (.oldProc thread) with
  | some process, none => do
      let started ← state.startThread child process
      .ok ((started.insert parent process processRights).clear (.newProc thread))
  | _, _ => .error .disabled

/-- `ProcOp::SpawnThread`: the thread is one of the caller's process, its handle goes to the process
that is invoked. -/
def spawnThread (state : State) (thread proc child : Nat) : Except Problem State := do
  let pid ← state.current thread
  let target ← state.owner thread (some proc)
  let started ← state.startThread child (.process pid)
  .ok (started.insert target (.thread child) .all)

end State

/-- What a place is part of. -/
def Place.container : Place → Option Object
  | .handle pid _ => some (.process pid)
  | .name dir _ => some (.directory dir)
  | _ => none

def step (state : State) : Input → Except Problem State
  | .resolve thread owner id required => do
      let _ ← state.current thread
      let pid ← state.owner thread owner
      let object ← state.resolve pid id required
      .ok (state.push thread object)
  | .leave thread => do
      let _ ← state.current thread
      match state.depth thread with
      | 0 => .error .disabled
      | index + 1 =>
          .ok { state.clear (.temp thread index) with
            depth := Function.update state.depth thread index }
  | .close thread id => do
      let pid ← state.current thread
      state.close pid id
  | .duplicate thread id requestedRights => do
      let pid ← state.current thread
      let object ← state.resolve pid id requestedRights
      .ok (state.insert pid object requestedRights)
  | .create thread kind rights => do
      let pid ← state.current thread
      .ok { state.insert pid (kind.object state.nextObject) rights with
        nextObject := state.nextObject + 1 }
  | .createPair thread callingRights => do
      let pid ← state.current thread
      if callingRights.contains .CREATE then
        let first := state.nextObject
        .ok { (state.insert pid (.socket first) .all).insert pid (.socket (first + 1)) .all with
          nextObject := first + 2 }
      else
        .error (.failed .AccessDenied)
  | .link thread dir name id => do
      let pid ← state.current thread
      let dir ← state.invokedDirectory thread dir
      match state.refs.target (.handle pid id) with
      | some object => .ok (state.put (.name dir name) object)
      | none => .error (.failed .InvalidHandle)
  | .unlink thread dir name => do
      let _ ← state.current thread
      let dir ← state.invokedDirectory thread dir
      .ok (state.clear (.name dir name))
  | .lookup thread dir name callingRights => do
      let pid ← state.current thread
      let dir ← state.invokedDirectory thread dir
      match state.refs.target (.name dir name) with
      | some object => .ok (state.insert pid object (callingRights.mask .all))
      | none => .error (.failed .PathNotFound)
  | .spawn thread callingRights op env => state.spawn thread callingRights op env
  | .load thread execHandle => state.load thread execHandle
  | .restore thread => state.restore thread
  | .fail thread => state.fail thread
  | .finish thread child => state.finish thread child
  | .spawnThread thread proc child => state.spawnThread thread proc child
  | .spawnKernelThread child => state.startThread child (.process KERNEL)
  | .terminate thread => do
      let _ ← state.current thread
      if state.depth thread = 0 ∧ state.refs.target (.newProc thread) = none then
        .ok { state with life := Function.update state.life thread .exited }
      else
        .error .disabled
  | .kill thread tcb => do
      let _ ← state.current thread
      match state.refs.target (.temp thread tcb) with
      | some (.thread victim) =>
          if state.life victim = .running then
            .ok { state with life := Function.update state.life victim .killed }
          else
            .error .disabled
      | _ => .error .disabled
  | .reapThread thread =>
      if state.life thread = .killed ∨ state.life thread = .exited then
        .ok { state.clear (.process thread) with
          life := Function.update state.life thread .reaped }
      else
        .error .disabled
  | .free place =>
      match place.container with
      | some container =>
          if state.refs.strong container = 0 ∧ state.refs.target place ≠ none then
            .ok (state.clear place)
          else
            .error .disabled
      | none => .error .disabled

/-- No object, except those that have a number already. -/
def State.empty : State where
  refs := .empty
  rights _ _ := .new
  nextId _ := 1
  life _ := .absent
  depth _ := 0
  isClosed _ := false
  nextPid := KERNEL + 1
  nextObject := 1

/-- `init_kernel_process`: the kernel process and the root directory. -/
def State.boot : State :=
  let state := State.empty.put (.static 0) (.process KERNEL)
  let state := state.put (.static 1) (.directory 0)
  (state.insertAt KERNEL 0 (.directory 0) .all).insertAt KERNEL 1 (.process KERNEL) .all

/-- A thread of a process, a handle of another process to it, or the call that creates it. -/
def Keeps (target : Place → Option Object) (pid : Nat) (place : Place) : Prop :=
  target place = some (.process pid) ∧
    match place with
    | .process _ => True
    | .newProc thread | .oldProc thread => target (.process thread) ≠ none
    | .handle holder _ => holder ≠ pid
    | _ => False

/-- No thread of the process exists, no other process has a handle to it, and the call that creates
it is over. -/
def Dead (target : Place → Option Object) (pid : Nat) : Prop :=
  ∀ place, ¬ Keeps target pid place

/-- A socket endpoint is held by the table of a process only. -/
def HeldOnlyBy (target : Place → Option Object) (pid endpoint : Nat) : Prop :=
  (∃ id, target (.handle pid id) = some (.socket endpoint)) ∧
    ∀ place, target place = some (.socket endpoint) → ∃ id, place = .handle pid id

/-- The places that can hold a process without keeping it: its own table, the directories, the
variables of calls, and those of `Spawn` and `load_elf` once their thread is gone or goes. -/
def Lingers (target : Place → Option Object) (gone : Place → Prop) (pid : Nat) : Place → Prop
  | .handle holder _ => holder = pid
  | .name _ _ | .temp _ _ | .static _ => True
  | .newProc thread | .oldProc thread => target (.process thread) = none ∨ gone (.process thread)
  | .process _ => False

/-- If all that keeps a process goes, no such place holds it. -/
def Clean (target : Place → Option Object) (gone : Place → Prop) : Prop :=
  ∀ pid, pid ≠ KERNEL → (∃ place, Keeps target pid place) →
    (∀ place, Keeps target pid place → gone place) →
      ∀ place, Lingers target gone pid place → target place ≠ some (.process pid)

def CleanAt (target : Place → Option Object) (place : Place) : Prop := Clean target (· = place)

/-- The next entry of a table can be written, or replaced, without harm. -/
def CleanInsert (state : State) (pid : Nat) : Prop :=
  CleanAt state.refs.target (.handle pid (state.nextId pid))

/-- What nothing in the code checks. -/
def Careful (state : State) : Input → Prop
  | .close thread id =>
      ∀ pid, state.current thread = .ok pid → CleanAt state.refs.target (.handle pid id)
  | .duplicate thread .. | .create thread .. | .lookup thread .. | .finish thread .. =>
      ∀ pid, state.current thread = .ok pid → CleanInsert state pid
  | .createPair thread _ => ∀ pid, state.current thread = .ok pid →
      let first := state.nextId pid
      let written place := place = .handle pid first ∨ place = .handle pid (wrappingAdd first 1)
      Clean state.refs.target written
  | .spawnThread thread proc _ =>
      ∀ pid, state.owner thread (some proc) = .ok pid → CleanInsert state pid
  -- A process that was not started has its own handle, which nobody can close.
  | .fail _ => False
  -- What a killed thread has in its variables is never dropped.
  | .reapThread thread => Clean state.refs.target
      fun place => place = .process thread ∨ place = .newProc thread ∨ place = .oldProc thread
  | .free place => CleanAt state.refs.target place
  | _ => True

def machine : Machine State Input Problem where
  step := step
  permitted := Careful

/-- What a dead process leaves behind: nothing. -/
structure Released (state : State) (pid : Nat) : Prop where
  count : state.refs.strong (.process pid) = 0
  /-- The drop of its handle table comes to an end. -/
  dropped : ∃ (ids : List HandleID) (later : State),
    machine.run state (ids.map fun id => .free (.handle pid id)) = .ok later ∧
      ∀ id, later.refs.target (.handle pid id) = none
  /-- When it has, whatever else has happened meanwhile, the endpoints it held are closed. -/
  closed : ∀ inputs later, machine.run state inputs = .ok later →
    (∀ id, later.refs.target (.handle pid id) = none) →
      ∀ endpoint, HeldOnlyBy state.refs.target pid endpoint → later.isClosed endpoint = true

/-!
### What one step does to the references
-/

section Steps

variable {state next : State} {thread pid parent child : Nat} {id : HandleID}
  {object : Object}

@[simp] theorem target_put (state : State) (place : Place) (object : Object) :
    (state.put place object).refs.target =
      Function.update state.refs.target place (some object) :=
  Refs.target_put ..

@[simp] theorem target_clear (state : State) (place : Place) :
    (state.clear place).refs.target = Function.update state.refs.target place none :=
  Refs.target_clear ..

@[simp] theorem target_insert (state : State) (pid : Nat) (object : Object)
    (rights : AccessRights) : (state.insert pid object rights).refs.target =
      Function.update state.refs.target (.handle pid (state.nextId pid)) (some object) :=
  target_put ..

@[simp] theorem target_insertAt (state : State) (pid : Nat) (id : HandleID) (object : Object)
    (rights : AccessRights) : (state.insertAt pid id object rights).refs.target =
      Function.update state.refs.target (.handle pid id) (some object) :=
  target_put ..

@[simp] theorem target_push (state : State) (thread : Nat) (object : Object) :
    (state.push thread object).refs.target =
      Function.update state.refs.target (.temp thread (state.depth thread)) (some object) :=
  target_put ..

theorem current_ok (current_eq : state.current thread = .ok pid) :
    state.refs.target (.process thread) = some (.process pid) ∧ state.life thread ≠ .absent := by
  rw [State.current] at current_eq
  split at current_eq
  next running =>
    split at current_eq
    next held => exact ⟨by cases current_eq; exact held, by rcases running with h | h <;> simp [h]⟩
    next => cases current_eq
  next => cases current_eq

/-- The process whose table is read is held by the call. -/
theorem owner_ok {owner : Option Nat} (owner_eq : state.owner thread owner = .ok pid) :
    ∃ place, state.refs.target place = some (.process pid) := by
  cases owner with
  | none => exact ⟨_, (current_ok owner_eq).1⟩
  | some index =>
      rw [State.owner] at owner_eq
      split at owner_eq
      next held =>
        cases owner_eq
        exact ⟨_, held⟩
      next => cases owner_eq

theorem resolve_table {required : AccessRights}
    (resolve_eq : (state.table pid).resolve id required = .ok object) :
    state.refs.target (.handle pid id) = some object := by
  obtain ⟨entry, entry_eq, same⟩ := bind_eq_ok.mp resolve_eq
  cases same
  have found := (HandleTable.resolveEntry_ok entry_eq).1
  obtain ⟨held, held_eq, rfl⟩ := Option.map_eq_some_iff.mp found
  exact held_eq

theorem resolve_ok {required : AccessRights}
    (resolve_eq : state.resolve pid id required = .ok object) :
    state.refs.target (.handle pid id) = some object :=
  resolve_table (mapError_eq_ok.mp resolve_eq)

/-- A thread has been given a control block. -/
structure Started (state next : State) (child : Nat) (process : Object) : Prop where
  empty : state.refs.target (.process child) = none
  new : state.life child = .absent
  refs_eq : next.refs = (state.put (.process child) process).refs
  isClosed_eq : next.isClosed = (state.put (.process child) process).isClosed
  life_eq : next.life = Function.update state.life child .running
  nextId_eq : next.nextId = state.nextId
  nextPid_eq : next.nextPid = state.nextPid
  nextObject_eq : next.nextObject = state.nextObject

theorem startThread_ok {process : Object} (start_eq : state.startThread child process = .ok next) :
    Started state next child process := by
  rw [State.startThread] at start_eq
  obtain ⟨⟨absent, empty⟩, same⟩ := guard_eq_ok.mp start_eq
  cases same
  exact ⟨empty, absent, rfl, rfl, rfl, rfl, rfl, rfl⟩

theorem Started.target_eq {process : Object} (started : Started state next child process) :
    next.refs.target = Function.update state.refs.target (.process child) (some process) :=
  (congrArg Refs.target started.refs_eq).trans (target_put ..)

/-- A reference that a call can copy; the table of a process is read by those who hold it. -/
def Reachable (state : State) (object : Object) : Prop :=
  ∃ source, state.refs.target source = some object ∧
    ∀ pid id, source = .handle pid id → ∃ holder, state.refs.target holder = some (.process pid)

/-- What a step may store: objects that can be reached, and new ones. -/
def Obtainable (state next : State) : Object → Prop
  | .process pid => pid = KERNEL ∨ Reachable state (.process pid) ∨
      state.nextPid ≤ pid ∧ pid < next.nextPid
  | .socket endpoint => Reachable state (.socket endpoint) ∨
      state.nextObject ≤ endpoint ∧ endpoint < next.nextObject
  | _ => True

/-- References are stored, to some objects only, and dropped. -/
inductive Changes (allowed : Object → Prop) (state : State) : State → Prop where
  | same {next : State} (refs_eq : next.refs = state.refs)
      (isClosed_eq : next.isClosed = state.isClosed) : Changes allowed state next
  | put {mid next : State} (place : Place) (object : Object) (changes : Changes allowed state mid)
      (allows : allowed object) (refs_eq : next.refs = (mid.put place object).refs)
      (isClosed_eq : next.isClosed = (mid.put place object).isClosed) : Changes allowed state next
  | clear {mid next : State} (place : Place) (changes : Changes allowed state mid)
      (refs_eq : next.refs = (mid.clear place).refs)
      (isClosed_eq : next.isClosed = (mid.clear place).isClosed) : Changes allowed state next

variable {allowed : Object → Prop} {mid : State}

theorem Reachable.obtainable (reachable : Reachable state object) :
    Obtainable state next object := by
  cases object with
  | process pid => exact .inr (.inl reachable)
  | socket endpoint => exact .inl reachable
  | _ => trivial

theorem reachable_handle (owner : ∃ place, state.refs.target place = some (.process pid))
    (held : state.refs.target (.handle pid id) = some object) : Reachable state object := by
  refine ⟨.handle pid id, held, fun other number same => ?_⟩
  cases same
  exact owner

namespace Changes

theorem held (changes : Changes allowed state mid) {place : Place}
    (now : mid.refs.target place = some object) :
    state.refs.target place = some object ∨ allowed object := by
  induction changes with
  | same refs_eq _ => exact .inl (refs_eq ▸ now)
  | put written stored _ allows refs_eq _ ih =>
      rw [refs_eq, target_put] at now
      rcases eq_or_ne place written with rfl | apart
      · rw [Function.update_self] at now
        cases now
        exact .inr allows
      · rw [Function.update_of_ne apart] at now
        exact ih now
  | clear written _ refs_eq _ ih =>
      rw [refs_eq, target_clear] at now
      rcases eq_or_ne place written with rfl | apart
      · rw [Function.update_self] at now
        cases now
      · rw [Function.update_of_ne apart] at now
        exact ih now

/-- Only the references count. -/
theorem of_eq (changes : Changes allowed state mid) (refs_eq : next.refs = mid.refs)
    (isClosed_eq : next.isClosed = mid.isClosed) : Changes allowed state next := by
  cases changes with
  | same refs_same closed_same =>
      exact .same (refs_eq.trans refs_same) (isClosed_eq.trans closed_same)
  | put place object before allows refs_put closed_put =>
      exact before.put place object allows (refs_eq.trans refs_put) (isClosed_eq.trans closed_put)
  | clear place before refs_clear closed_clear =>
      exact before.clear place (refs_eq.trans refs_clear) (isClosed_eq.trans closed_clear)

theorem insert (rights : AccessRights) (changes : Changes allowed state mid)
    (allows : allowed object) : Changes allowed state (mid.insert pid object rights) :=
  changes.put (.handle pid (mid.nextId pid)) object allows rfl rfl

theorem insertResolved {slot handle : HandleID} {rights : AccessRights}
    (changes : Changes allowed state mid)
    (granted : ∀ id object, state.refs.target (.handle parent id) = some object → allowed object) :
    Changes allowed state (mid.insertResolved parent child slot handle rights) := by
  rw [State.insertResolved]
  split
  next object resolve_eq =>
    refine changes.put (.handle child slot) object ?_ rfl rfl
    exact (changes.held (resolve_table resolve_eq)).elim (granted handle object) id
  next => exact changes

theorem grantHandles {grants : List HandleGrant} (changes : Changes allowed state mid)
    (granted : ∀ id object, state.refs.target (.handle parent id) = some object → allowed object)
    (grant_eq : State.grantHandles parent child mid grants = .ok next) :
    Changes allowed state next := by
  induction grants generalizing mid with
  | nil =>
      cases grant_eq
      exact changes
  | cons grant grants ih =>
      rw [State.grantHandles] at grant_eq
      split at grant_eq
      next object resolve_eq =>
        refine ih (changes.insert grant.rights ?_) grant_eq
        exact (changes.held (resolve_table resolve_eq)).elim (granted grant.id object) id
      next => cases grant_eq

theorem extraHandles {op : Spawn} {env : Environment} (changes : Changes allowed state mid)
    (granted : ∀ id object, state.refs.target (.handle parent id) = some object → allowed object)
    (extra_eq : mid.extraHandles parent child op env = .ok next) : Changes allowed state next := by
  rw [State.extraHandles] at extra_eq
  split_ifs at extra_eq with some_grants copied
  · exact changes.grantHandles granted extra_eq
  · cases extra_eq
    exact changes

theorem startThread {process : Object} (allows : allowed process)
    (starts : state.startThread child process = .ok next) : Changes allowed state next := by
  have started := startThread_ok starts
  exact (Changes.same rfl rfl).put _ _ allows started.refs_eq started.isClosed_eq

theorem spawn {op : Spawn} {env : Environment} {root : Object} {filled : State}
    (granted : ∀ id object, state.refs.target (.handle parent id) = some object → allowed object)
    (held : state.refs.target (.handle parent id) = some root)
    (fills : (state.fixedSlots parent child op root).extraHandles parent child op env = .ok filled)
    (allows : allowed (.process child)) :
    Changes allowed state ((filled.put (.newProc thread) (.process child)).insertAt child 1
      (.process child) processRights) := by
  have fixed : Changes allowed state (state.fixedSlots parent child op root) := by
    refine insertResolved (insertResolved ?_ granted) granted
    exact (Changes.same rfl rfl).put _ root (granted _ _ held) rfl rfl
  exact ((fixed.extraHandles granted fills).put _ _ allows rfl rfl).put _ _ allows rfl rfl

end Changes

@[simp] theorem nextPid_insertResolved {slot handle : HandleID} {rights : AccessRights} :
    (state.insertResolved parent child slot handle rights).nextPid = state.nextPid := by
  rw [State.insertResolved]
  split <;> rfl

@[simp] theorem nextObject_insertResolved {slot handle : HandleID} {rights : AccessRights} :
    (state.insertResolved parent child slot handle rights).nextObject = state.nextObject := by
  rw [State.insertResolved]
  split <;> rfl

@[simp] theorem nextPid_fixedSlots {op : Spawn} {root : Object} :
    (state.fixedSlots parent child op root).nextPid = child + 1 := by
  simp only [State.fixedSlots, nextPid_insertResolved]
  rfl

@[simp] theorem nextObject_fixedSlots {op : Spawn} {root : Object} :
    (state.fixedSlots parent child op root).nextObject = state.nextObject := by
  simp only [State.fixedSlots, nextObject_insertResolved]
  rfl

theorem counters_extraHandles {op : Spawn} {env : Environment}
    (extra_eq : state.extraHandles parent child op env = .ok next) :
    next.nextPid = state.nextPid ∧ next.nextObject = state.nextObject := by
  have grants_counters : ∀ grants mid, State.grantHandles parent child mid grants = .ok next →
      next.nextPid = mid.nextPid ∧ next.nextObject = mid.nextObject := by
    intro grants
    induction grants with
    | nil =>
        intro mid grant_eq
        cases grant_eq
        exact ⟨rfl, rfl⟩
    | cons grant grants ih =>
        intro mid grant_eq
        rw [State.grantHandles] at grant_eq
        split at grant_eq
        next object _ => exact ih (mid.insert child object grant.rights) grant_eq
        next => cases grant_eq
  rw [State.extraHandles] at extra_eq
  split_ifs at extra_eq with some_grants copied
  · exact grants_counters _ _ extra_eq
  · cases extra_eq
    exact ⟨rfl, rfl⟩

/-- What each input does, and what it needs to be served. -/
inductive Moves (state : State) : Input → State → Prop where
  | resolve {thread pid runner : Nat} {owner : Option Nat} {id : HandleID}
      {required : AccessRights} {object : Object} (runs : state.current thread = .ok runner)
      (owner_eq : state.owner thread owner = .ok pid)
      (held : state.refs.target (.handle pid id) = some object) :
      Moves state (.resolve thread owner id required) (state.push thread object)
  | leave {thread index : Nat} : Moves state (.leave thread)
      { state.clear (.temp thread index) with
        depth := Function.update state.depth thread index }
  | close {thread pid : Nat} {id : HandleID} (runs : state.current thread = .ok pid) :
      Moves state (.close thread id) (state.clear (.handle pid id))
  | duplicate {thread pid : Nat} {id : HandleID} {rights : AccessRights} {object : Object}
      (runs : state.current thread = .ok pid)
      (held : state.refs.target (.handle pid id) = some object) :
      Moves state (.duplicate thread id rights) (state.insert pid object rights)
  | create {thread pid : Nat} {kind : Kind} {rights : AccessRights}
      (runs : state.current thread = .ok pid) : Moves state (.create thread kind rights)
      { state.insert pid (kind.object state.nextObject) rights with
        nextObject := state.nextObject + 1 }
  | createPair {thread pid : Nat} {rights : AccessRights} (runs : state.current thread = .ok pid) :
      Moves state (.createPair thread rights)
      { (state.insert pid (.socket state.nextObject) .all).insert pid
          (.socket (state.nextObject + 1)) .all with
        nextObject := state.nextObject + 2 }
  | link {thread pid index dir : Nat} {name : String} {id : HandleID} {object : Object}
      (runs : state.current thread = .ok pid)
      (held : state.refs.target (.handle pid id) = some object) :
      Moves state (.link thread index name id) (state.put (.name dir name) object)
  | unlink {thread index dir : Nat} {name : String} :
      Moves state (.unlink thread index name) (state.clear (.name dir name))
  | lookup {thread pid index dir : Nat} {name : String} {rights : AccessRights} {object : Object}
      (runs : state.current thread = .ok pid)
      (held : state.refs.target (.name dir name) = some object) :
      Moves state (.lookup thread index name rights)
        (state.insert pid object (rights.mask .all))
  | spawn {thread parent : Nat} {rights : AccessRights} {op : Spawn} {env : Environment}
      {root : Object} {filled : State} (runs : state.current thread = .ok parent)
      (held : state.refs.target (.handle parent op.rootHandle) = some root)
      (fills : (state.fixedSlots parent state.nextPid op root).extraHandles parent state.nextPid
        op env = .ok filled)
      (idle : state.refs.target (.newProc thread) = none) :
      Moves state (.spawn thread rights op env)
        ((filled.put (.newProc thread) (.process state.nextPid)).insertAt state.nextPid 1
          (.process state.nextPid) processRights)
  | load {thread pid : Nat} {execHandle : HandleID} {file : Object}
      (runs : state.current thread = .ok pid)
      (held : state.refs.target (.handle pid execHandle) = some file)
      (idle : state.refs.target (.oldProc thread) = none) :
      Moves state (.load thread execHandle)
        (((state.push thread file).put (.oldProc thread) (.process pid)).put (.process thread)
          (.process KERNEL))
  | restore {thread pid : Nat} {old : Object} (runs : state.current thread = .ok pid)
      (held : state.refs.target (.oldProc thread) = some old) :
      Moves state (.restore thread) ((state.put (.process thread) old).clear (.oldProc thread))
  | fail {thread : Nat} : Moves state (.fail thread)
      ((state.clear (.newProc thread)).clear (.oldProc thread))
  | finish {thread parent child : Nat} {process : Object} {started : State}
      (runs : state.current thread = .ok parent)
      (held : state.refs.target (.newProc thread) = some process)
      (starts : state.startThread child process = .ok started) :
      Moves state (.finish thread child)
        ((started.insert parent process processRights).clear (.newProc thread))
  | spawnThread {thread pid proc target child : Nat} {started : State}
      (runs : state.current thread = .ok pid)
      (owner_eq : state.owner thread (some proc) = .ok target)
      (starts : state.startThread child (.process pid) = .ok started) :
      Moves state (.spawnThread thread proc child) (started.insert target (.thread child) .all)
  | spawnKernelThread {child : Nat} {started : State}
      (starts : state.startThread child (.process KERNEL) = .ok started) :
      Moves state (.spawnKernelThread child) started
  | terminate {thread : Nat} : Moves state (.terminate thread)
      { state with life := Function.update state.life thread .exited }
  | kill {thread tcb victim : Nat} : Moves state (.kill thread tcb)
      { state with life := Function.update state.life victim .killed }
  | reapThread {thread : Nat} : Moves state (.reapThread thread)
      { state.clear (.process thread) with
        life := Function.update state.life thread .reaped }
  | free {place : Place} {container : Object} (part : place.container = some container) :
      Moves state (.free place) (state.clear place)

theorem moves_of_step {input : Input} (step_eq : step state input = .ok next) :
    Moves state input next := by
  cases input with
  | resolve thread owner id required =>
      obtain ⟨runner, runs, step_eq⟩ := bind_eq_ok.mp step_eq
      obtain ⟨pid, owner_eq, step_eq⟩ := bind_eq_ok.mp step_eq
      obtain ⟨object, object_eq, step_eq⟩ := bind_eq_ok.mp step_eq
      cases step_eq
      exact .resolve runs owner_eq (resolve_ok object_eq)
  | leave thread =>
      obtain ⟨_, -, step_eq⟩ := bind_eq_ok.mp step_eq
      split at step_eq
      · cases step_eq
      · cases step_eq
        exact .leave
  | close thread id =>
      obtain ⟨pid, runs, step_eq⟩ := bind_eq_ok.mp step_eq
      rw [State.close] at step_eq
      split at step_eq
      · cases step_eq
        exact .close runs
      · cases step_eq
  | duplicate thread id rights =>
      obtain ⟨pid, runs, step_eq⟩ := bind_eq_ok.mp step_eq
      obtain ⟨object, object_eq, step_eq⟩ := bind_eq_ok.mp step_eq
      cases step_eq
      exact .duplicate runs (resolve_ok object_eq)
  | create thread kind rights =>
      obtain ⟨pid, runs, step_eq⟩ := bind_eq_ok.mp step_eq
      cases step_eq
      exact .create runs
  | createPair thread rights =>
      obtain ⟨pid, runs, step_eq⟩ := bind_eq_ok.mp step_eq
      obtain ⟨-, step_eq⟩ := guard_eq_ok.mp step_eq
      cases step_eq
      exact .createPair runs
  | link thread index name id =>
      obtain ⟨pid, runs, step_eq⟩ := bind_eq_ok.mp step_eq
      obtain ⟨dir, -, step_eq⟩ := bind_eq_ok.mp step_eq
      split at step_eq
      next object held =>
        cases step_eq
        exact .link runs held
      next => cases step_eq
  | unlink thread index name =>
      obtain ⟨pid, -, step_eq⟩ := bind_eq_ok.mp step_eq
      obtain ⟨dir, -, step_eq⟩ := bind_eq_ok.mp step_eq
      cases step_eq
      exact .unlink
  | lookup thread index name rights =>
      obtain ⟨pid, runs, step_eq⟩ := bind_eq_ok.mp step_eq
      obtain ⟨dir, -, step_eq⟩ := bind_eq_ok.mp step_eq
      split at step_eq
      next object held =>
        cases step_eq
        exact .lookup runs held
      next => cases step_eq
  | spawn thread rights op env =>
      obtain ⟨parent, runs, step_eq⟩ := bind_eq_ok.mp step_eq
      obtain ⟨-, step_eq⟩ := guard_eq_ok.mp step_eq
      obtain ⟨root, root_eq, step_eq⟩ := bind_eq_ok.mp step_eq
      obtain ⟨filled, fills, step_eq⟩ := bind_eq_ok.mp step_eq
      obtain ⟨idle, step_eq⟩ := guard_eq_ok.mp step_eq
      cases step_eq
      exact .spawn runs (resolve_ok root_eq) fills idle
  | load thread execHandle =>
      obtain ⟨pid, runs, step_eq⟩ := bind_eq_ok.mp step_eq
      obtain ⟨file, file_eq, step_eq⟩ := bind_eq_ok.mp step_eq
      obtain ⟨⟨-, idle⟩, step_eq⟩ := guard_eq_ok.mp step_eq
      cases step_eq
      exact .load runs (resolve_ok file_eq) idle
  | restore thread =>
      obtain ⟨pid, runs, step_eq⟩ := bind_eq_ok.mp step_eq
      split at step_eq
      next old held =>
        cases step_eq
        exact .restore runs held
      next => cases step_eq
  | fail thread =>
      obtain ⟨pid, -, step_eq⟩ := bind_eq_ok.mp step_eq
      obtain ⟨-, step_eq⟩ := guard_eq_ok.mp step_eq
      cases step_eq
      exact .fail
  | finish thread child =>
      obtain ⟨parent, runs, step_eq⟩ := bind_eq_ok.mp step_eq
      split at step_eq
      next process held _ =>
        obtain ⟨started, starts, step_eq⟩ := bind_eq_ok.mp step_eq
        cases step_eq
        exact .finish runs held starts
      next => cases step_eq
  | spawnThread thread proc child =>
      obtain ⟨pid, runs, step_eq⟩ := bind_eq_ok.mp step_eq
      obtain ⟨target, owner_eq, step_eq⟩ := bind_eq_ok.mp step_eq
      obtain ⟨started, starts, step_eq⟩ := bind_eq_ok.mp step_eq
      cases step_eq
      exact .spawnThread runs owner_eq starts
  | spawnKernelThread child => exact .spawnKernelThread step_eq
  | terminate thread =>
      obtain ⟨pid, -, step_eq⟩ := bind_eq_ok.mp step_eq
      obtain ⟨-, step_eq⟩ := guard_eq_ok.mp step_eq
      cases step_eq
      exact .terminate
  | kill thread tcb =>
      obtain ⟨pid, -, step_eq⟩ := bind_eq_ok.mp step_eq
      split at step_eq
      next victim _ =>
        obtain ⟨-, step_eq⟩ := guard_eq_ok.mp step_eq
        cases step_eq
        exact .kill
      next => cases step_eq
  | reapThread thread =>
      obtain ⟨-, step_eq⟩ := guard_eq_ok.mp step_eq
      cases step_eq
      exact .reapThread
  | free place =>
      rw [step] at step_eq
      split at step_eq
      next container part =>
        obtain ⟨-, step_eq⟩ := guard_eq_ok.mp step_eq
        cases step_eq
        exact .free part
      next => cases step_eq

/-- Numbers are not given twice. -/
theorem Moves.counters {input : Input} (moves : Moves state input next) :
    state.nextPid ≤ next.nextPid ∧ state.nextObject ≤ next.nextObject := by
  cases moves with
  | spawn _ _ fills _ =>
      obtain ⟨pid_eq, object_eq⟩ := counters_extraHandles fills
      rw [nextPid_fixedSlots] at pid_eq
      rw [nextObject_fixedSlots] at object_eq
      exact ⟨(Nat.le_succ _).trans pid_eq.ge, object_eq.ge⟩
  | create _ => exact ⟨le_rfl, Nat.le_succ _⟩
  | createPair _ => exact ⟨le_rfl, Nat.le_add_right _ 2⟩
  | finish _ _ starts =>
      have started := startThread_ok starts
      exact ⟨started.nextPid_eq.ge, started.nextObject_eq.ge⟩
  | spawnThread _ _ starts =>
      have started := startThread_ok starts
      exact ⟨started.nextPid_eq.ge, started.nextObject_eq.ge⟩
  | spawnKernelThread starts =>
      have started := startThread_ok starts
      exact ⟨started.nextPid_eq.ge, started.nextObject_eq.ge⟩
  | _ => exact ⟨le_rfl, le_rfl⟩

theorem Kind.object_ne_process (kind : Kind) (id pid : Nat) : kind.object id ≠ .process pid := by
  cases kind <;> nofun

theorem Kind.obtainable (kind : Kind) (id : Nat) : Obtainable state next (kind.object id) := by
  cases kind <;> trivial

theorem obtainable_kernel : Obtainable state next (.process KERNEL) := .inl rfl

/-- A reference that is not in a handle table can be copied. -/
theorem reachable_of_ne {place : Place} (held : state.refs.target place = some object)
    (ne : ∀ pid id, place ≠ .handle pid id) : Reachable state object :=
  ⟨place, held, fun pid id same => absurd same (ne pid id)⟩

/-- A step stores references to what its thread can reach and to new objects only. -/
theorem Moves.changes {input : Input} (moves : Moves state input next) :
    Changes (Obtainable state next) state next := by
  cases moves with
  | resolve _ owner_eq held =>
      have reachable := reachable_handle (owner_ok owner_eq) held
      exact (Changes.same rfl rfl).put _ _ reachable.obtainable rfl rfl
  | leave => exact (Changes.same rfl rfl).clear _ rfl rfl
  | close _ => exact (Changes.same rfl rfl).clear _ rfl rfl
  | duplicate runs held =>
      have reachable := reachable_handle ⟨_, (current_ok runs).1⟩ held
      exact (Changes.same rfl rfl).insert _ reachable.obtainable
  | create _ => exact (Changes.same rfl rfl).put _ _ (Kind.obtainable _ _) rfl rfl
  | createPair runs =>
      refine (((Changes.same rfl rfl).insert .all ?_).insert .all ?_).of_eq rfl rfl
      · exact .inr ⟨le_rfl, Nat.lt_add_of_pos_right (by decide)⟩
      · exact .inr ⟨Nat.le_succ _, Nat.lt_succ_self _⟩
  | link runs held =>
      have reachable := reachable_handle ⟨_, (current_ok runs).1⟩ held
      exact (Changes.same rfl rfl).put _ _ reachable.obtainable rfl rfl
  | unlink => exact (Changes.same rfl rfl).clear _ rfl rfl
  | lookup _ held =>
      have reachable := reachable_of_ne held (by nofun)
      exact (Changes.same rfl rfl).insert _ reachable.obtainable
  | spawn runs held fills _ =>
      have nextPid_eq := (counters_extraHandles fills).1
      rw [nextPid_fixedSlots] at nextPid_eq
      refine Changes.spawn (fun id object held => ?_) held fills (.inr (.inr ⟨le_rfl, ?_⟩))
      · exact (reachable_handle ⟨_, (current_ok runs).1⟩ held).obtainable
      · exact nextPid_eq.symm ▸ Nat.lt_succ_self _
  | load runs held _ =>
      have file := reachable_handle ⟨_, (current_ok runs).1⟩ held
      have process := reachable_of_ne (current_ok runs).1 (by nofun)
      refine (((Changes.same rfl rfl).put _ _ file.obtainable rfl rfl).put _ _ process.obtainable
        rfl rfl).put _ _ obtainable_kernel rfl rfl
  | restore _ held =>
      have old := reachable_of_ne held (by nofun)
      exact ((Changes.same rfl rfl).put _ _ old.obtainable rfl rfl).clear _ rfl rfl
  | fail => exact ((Changes.same rfl rfl).clear _ rfl rfl).clear _ rfl rfl
  | finish _ held starts =>
      have process := reachable_of_ne held (by nofun)
      exact ((Changes.startThread process.obtainable starts).insert _ process.obtainable).clear _
        rfl rfl
  | spawnThread runs _ starts =>
      have process := reachable_of_ne (current_ok runs).1 (by nofun)
      exact (Changes.startThread process.obtainable starts).insert _ trivial
  | spawnKernelThread starts =>
      exact Changes.startThread obtainable_kernel starts
  | terminate => exact .same rfl rfl
  | kill => exact .same rfl rfl
  | reapThread => exact (Changes.same rfl rfl).clear _ rfl rfl
  | free _ => exact (Changes.same rfl rfl).clear _ rfl rfl

end Steps

/-!
### Counts
-/

/-- What holds in every run. -/
structure Basic (state : State) : Prop where
  counted : state.refs.Counted
  bounded : ∀ place pid, state.refs.target place = some (.process pid) → pid < state.nextPid
  sockets : ∀ place endpoint, state.refs.target place = some (.socket endpoint) →
    endpoint < state.nextObject
  kernel : KERNEL < state.nextPid

section Counts

variable {state mid next : State} {allowed : Object → Prop} {pid endpoint : Nat}

theorem Changes.counted (changes : Changes allowed state next) (counted : state.refs.Counted) :
    next.refs.Counted := by
  induction changes with
  | same refs_eq _ => exact refs_eq ▸ counted
  | put place object _ _ refs_eq _ ih => exact refs_eq ▸ ih.put place object
  | clear place _ refs_eq _ ih => exact refs_eq ▸ ih.clear place

theorem Basic.step {input : Input} (basic : Basic state) (step_eq : step state input = .ok next) :
    Basic next := by
  have moves := moves_of_step step_eq
  obtain ⟨nextPid_le, nextObject_le⟩ := moves.counters
  refine ⟨moves.changes.counted basic.counted, fun place pid held => ?_,
    fun place endpoint held => ?_, basic.kernel.trans_le nextPid_le⟩
  · rcases moves.changes.held held with before | rfl | ⟨source, reached, -⟩ | ⟨-, new⟩
    · exact (basic.bounded place pid before).trans_le nextPid_le
    · exact basic.kernel.trans_le nextPid_le
    · exact (basic.bounded source pid reached).trans_le nextPid_le
    · exact new
  · rcases moves.changes.held held with before | ⟨source, reached, -⟩ | ⟨-, new⟩
    · exact (basic.sockets place endpoint before).trans_le nextObject_le
    · exact (basic.sockets source endpoint reached).trans_le nextObject_le
    · exact new

theorem changes_boot :
    Changes (fun object => object = .process KERNEL ∨ object = .directory 0) .empty .boot := by
  refine Changes.put (.handle KERNEL 1) _ (.put (.handle KERNEL 0) _ (.put (.static 1) _
    (.put (.static 0) _ (.same rfl rfl) ?_ rfl rfl) ?_ rfl rfl) ?_ rfl rfl) ?_ rfl rfl
  · exact .inl rfl
  · exact .inr rfl
  · exact .inr rfl
  · exact .inl rfl

theorem basic_boot : Basic .boot := by
  refine ⟨changes_boot.counted .empty, fun place pid held => ?_, fun place endpoint held => ?_,
    Nat.lt_succ_self _⟩
  · rcases changes_boot.held held with before | same | impossible
    · cases before
    · cases same
      exact Nat.lt_succ_self _
    · cases impossible
  · rcases changes_boot.held held with before | impossible | impossible
    · cases before
    · cases impossible
    · cases impossible

/-- An endpoint is in the table of a process only, or it is closed. -/
def Confined (state : State) (pid endpoint : Nat) : Prop :=
  (∀ place, state.refs.target place = some (.socket endpoint) → ∃ id, place = .handle pid id) ∧
    (state.refs.strong (.socket endpoint) = 0 → state.isClosed endpoint = true)

theorem Confined.setRefs {refs : Refs Place Object} (confined : Confined state pid endpoint)
    (places : ∀ place, refs.target place = some (.socket endpoint) → ∃ id, place = .handle pid id) :
    Confined (state.setRefs refs) pid endpoint := by
  refine ⟨places, fun gone => ?_⟩
  rcases Nat.eq_zero_or_pos (state.refs.strong (.socket endpoint)) with before | before
  · simp [State.setRefs, confined.2 before]
  · simp only [State.setRefs] at gone
    simp [State.setRefs, before, gone]

/-- Nobody takes an endpoint from the table of a process that nobody holds. -/
theorem Changes.confined (changes : Changes allowed state next)
    (forbidden : ¬ allowed (.socket endpoint)) (confined : Confined state pid endpoint) :
    Confined next pid endpoint := by
  induction changes with
  | same refs_eq isClosed_eq =>
      rw [Confined, refs_eq, isClosed_eq]
      exact confined
  | put place object _ allows refs_eq isClosed_eq ih =>
      rw [Confined, refs_eq, isClosed_eq]
      refine ih.setRefs fun other held => ?_
      rw [Refs.target_put] at held
      rcases eq_or_ne other place with rfl | apart
      · rw [Function.update_self] at held
        cases held
        exact absurd allows forbidden
      · rw [Function.update_of_ne apart] at held
        exact ih.1 other held
  | clear place _ refs_eq isClosed_eq ih =>
      rw [Confined, refs_eq, isClosed_eq]
      refine ih.setRefs fun other held => ?_
      rw [Refs.target_clear] at held
      rcases eq_or_ne other place with rfl | apart
      · rw [Function.update_self] at held
        cases held
      · rw [Function.update_of_ne apart] at held
        exact ih.1 other held

/-- A process that nobody holds, and an endpoint that only it held. -/
structure Orphaned (state : State) (pid endpoint : Nat) : Prop where
  basic : Basic state
  spawned : pid ≠ KERNEL ∧ pid < state.nextPid
  unheld : ∀ place, state.refs.target place ≠ some (.process pid)
  created : endpoint < state.nextObject
  confined : Confined state pid endpoint

theorem Orphaned.step {input : Input} (orphaned : Orphaned state pid endpoint)
    (step_eq : step state input = .ok next) : Orphaned next pid endpoint := by
  have moves := moves_of_step step_eq
  obtain ⟨nextPid_le, nextObject_le⟩ := moves.counters
  refine ⟨orphaned.basic.step step_eq, ⟨orphaned.spawned.1, orphaned.spawned.2.trans_le nextPid_le⟩,
    fun place held => ?_, orphaned.created.trans_le nextObject_le,
    moves.changes.confined ?_ orphaned.confined⟩
  · rcases moves.changes.held held with before | same | ⟨source, reached, -⟩ | ⟨new, -⟩
    · exact orphaned.unheld place before
    · exact orphaned.spawned.1 same
    · exact orphaned.unheld source reached
    · exact absurd orphaned.spawned.2 (Nat.not_lt.mpr new)
  · rintro (⟨source, reached, readable⟩ | ⟨new, -⟩)
    · obtain ⟨id, rfl⟩ := orphaned.confined.1 source reached
      obtain ⟨holder, held⟩ := readable pid id rfl
      exact orphaned.unheld holder held
    · exact absurd orphaned.created (Nat.not_lt.mpr new)

/-- The entries of a table that is being dropped can be dropped one after the other. -/
theorem drain {ids : List HandleID} (unique : ids.Nodup)
    (zero : state.refs.strong (.process pid) = 0)
    (entries : ∀ id, state.refs.target (.handle pid id) ≠ none ↔ id ∈ ids) :
    ∃ later, machine.run state (ids.map fun id => .free (.handle pid id)) = .ok later ∧
      ∀ id, later.refs.target (.handle pid id) = none := by
  induction ids generalizing state with
  | nil => exact ⟨state, rfl, fun id => by simpa using entries id⟩
  | cons id ids ih =>
      obtain ⟨fresh, unique⟩ := List.nodup_cons.mp unique
      have held : state.refs.target (.handle pid id) ≠ none :=
        (entries id).mpr List.mem_cons_self
      have step_eq : machine.step state (.free (.handle pid id)) =
          .ok (state.clear (.handle pid id)) := if_pos ⟨zero, held⟩
      have zero_after : (state.clear (.handle pid id)).refs.strong (.process pid) = 0 :=
        Nat.le_zero.mp ((Refs.strong_clear_le ..).trans zero.le)
      obtain ⟨later, run_eq, empty⟩ := ih unique zero_after fun other => by
        rcases eq_or_ne other id with rfl | apart
        · simp [fresh]
        · simp [apart, entries]
      exact ⟨later, (machine.run_cons_ok _ step_eq).trans run_eq, empty⟩

/-- A process that nothing holds leaves nothing behind. -/
theorem Basic.released (basic : Basic state) (spawned : pid ≠ KERNEL ∧ pid < state.nextPid)
    (unheld : ∀ place, state.refs.target place ≠ some (.process pid)) : Released state pid := by
  have zero := basic.counted.strong_eq_zero.mpr unheld
  have finite : {id | state.refs.target (.handle pid id) ≠ none}.Finite :=
    basic.counted.finite.preimage fun _ _ _ _ same => by injection same
  refine ⟨zero, ⟨finite.toFinset.toList, ?_⟩, fun inputs later run_eq empty endpoint only => ?_⟩
  · exact drain (Finset.nodup_toList _) zero fun id => by simp
  · obtain ⟨id, held⟩ := only.1
    have confined : Confined state pid endpoint :=
      ⟨only.2, fun gone => absurd held (basic.counted.strong_eq_zero.mp gone _)⟩
    have before : Orphaned state pid endpoint :=
      ⟨basic, spawned, unheld, basic.sockets _ _ held, confined⟩
    have keeps : ∀ state input next, Orphaned state pid endpoint →
        machine.step state input = .ok next → Orphaned next pid endpoint :=
      fun _ _ _ before step_eq => before.step step_eq
    have orphaned := machine.run_invariant keeps before run_eq
    refine orphaned.confined.2 (orphaned.basic.counted.strong_eq_zero.mpr fun place still => ?_)
    obtain ⟨other, rfl⟩ := orphaned.confined.1 place still
    rw [empty other] at still
    cases still

end Counts

/-!
### Dead processes
-/

/-- If all that keeps a process goes, so does all that holds it. -/
def Takes (target : Place → Option Object) (gone dropped : Place → Prop) : Prop :=
  ∀ pid, pid ≠ KERNEL → (∃ place, Keeps target pid place) →
    (∀ place, Keeps target pid place → gone place) →
      ∀ place, target place = some (.process pid) → dropped place

/-- The last that keeps a process is also the last that holds it. -/
def TakesAt (target : Place → Option Object) (place : Place) : Prop :=
  Takes target (· = place) (· = place)

/-- Nothing holds a process that is dead. -/
def Tidy (target : Place → Option Object) : Prop :=
  ∀ pid, pid ≠ KERNEL → Dead target pid → ∀ place, target place ≠ some (.process pid)

section Targets

variable {target : Place → Option Object} {content : Option Object} {place keeper : Place}
  {pid thread : Nat}

/-- Where nothing lingers, what holds a process keeps it. -/
theorem Clean.takes {gone dropped : Place → Prop} (clean : Clean target gone)
    (drops : ∀ place, gone place → dropped place ∨
      ∃ thread, gone (.process thread) ∧ (place = .newProc thread ∨ place = .oldProc thread)) :
    Takes target gone dropped := by
  intro pid user kept all place held
  have stays : ¬ Lingers target gone pid place := fun lingers =>
    clean pid user kept all place lingers held
  have keeps : Keeps target pid place := by
    refine ⟨held, ?_⟩
    cases place with
    | handle holder id => exact stays
    | name dir name => exact stays trivial
    | temp thread index => exact stays trivial
    | static index => exact stays trivial
    | newProc thread => exact fun none_eq => stays (.inl none_eq)
    | oldProc thread => exact fun none_eq => stays (.inl none_eq)
    | process thread => trivial
  rcases drops place (all place keeps) with now | ⟨thread, goes, rfl | rfl⟩
  · exact now
  · exact absurd (.inr goes) stays
  · exact absurd (.inr goes) stays

theorem CleanAt.takesAt (clean : CleanAt target place) : TakesAt target place :=
  Clean.takes clean fun _ same => .inl same

/-- What keeps a process still does when something else changes and no thread goes. -/
theorem Keeps.update (keeps : Keeps target pid keeper) (apart : keeper ≠ place)
    (alive : ∀ thread, place = .process thread → content ≠ none) :
    Keeps (Function.update target place content) pid keeper := by
  obtain ⟨held, kind⟩ := keeps
  refine ⟨(Function.update_of_ne apart ..).trans held, ?_⟩
  have exists_still : ∀ thread, target (.process thread) ≠ none →
      Function.update target place content (.process thread) ≠ none := by
    intro thread exists_before
    rcases eq_or_ne (.process thread) place with same | ne
    · rw [same, Function.update_self]
      exact alive thread same.symm
    · rwa [Function.update_of_ne ne]
  cases keeper with
  | newProc thread => exact exists_still thread kind
  | oldProc thread => exact exists_still thread kind
  | _ => exact kind

theorem Tidy.kept (tidy : Tidy target) (user : pid ≠ KERNEL)
    (held : target place = some (.process pid)) : ∃ keeper, Keeps target pid keeper := by
  by_contra nobody
  exact tidy pid user (fun keeper keeps => nobody ⟨keeper, keeps⟩) place held

/-- A change of one place keeps the invariant if it takes away the last that keeps a process only
with the last that holds it. -/
theorem Tidy.change (tidy : Tidy target) (takes : TakesAt target place)
    (alive : ∀ thread, place = .process thread → content ≠ none)
    (stored : ∀ pid, pid ≠ KERNEL → content = some (.process pid) →
      (∃ source, target source = some (.process pid)) ∨
        Keeps (Function.update target place content) pid place) :
    Tidy (Function.update target place content) := by
  intro pid user dead other held
  have keepers : ∀ keeper, Keeps target pid keeper → keeper = place := by
    intro keeper keeps
    by_contra apart
    exact dead keeper (keeps.update apart alive)
  by_cases same : content = some (.process pid)
  · rcases stored pid user same with ⟨source, source_held⟩ | keeps
    · obtain ⟨keeper, keeps⟩ := tidy.kept user source_held
      obtain rfl := keepers keeper keeps
      refine dead keeper ?_
      rwa [same, ← keeps.1, Function.update_eq_self]
    · exact dead place keeps
  · have apart : other ≠ place := by
      rintro rfl
      rw [Function.update_self] at held
      exact same held
    rw [Function.update_of_ne apart] at held
    exact apart (takes pid user (tidy.kept user held) keepers other held)

/-- The control block of a thread goes, and with it what keeps the processes of its call. -/
theorem Tidy.reap (tidy : Tidy target)
    (takes : Takes target (fun place => place = .process thread ∨ place = .newProc thread ∨
      place = .oldProc thread) (· = .process thread)) :
    Tidy (Function.update target (.process thread) none) := by
  intro pid user dead other held
  have apart : other ≠ .process thread := by
    rintro rfl
    rw [Function.update_self] at held
    cases held
  rw [Function.update_of_ne apart] at held
  refine apart (takes pid user (tidy.kept user held) (fun keeper keeps => ?_) other held)
  by_contra elsewhere
  push Not at elsewhere
  obtain ⟨not_process, not_new, not_old⟩ := elsewhere
  refine dead keeper ⟨(Function.update_of_ne not_process ..).trans keeps.1, ?_⟩
  cases keeper with
  | newProc other =>
      have ne : other ≠ thread := fun same => not_new (same ▸ rfl)
      simpa [ne] using keeps.2
  | oldProc other =>
      have ne : other ≠ thread := fun same => not_old (same ▸ rfl)
      simpa [ne] using keeps.2
  | _ => exact keeps.2

/-- Nothing is lost with a place if whatever it keeps is kept by another. -/
theorem takesAt_of_other
    (others : ∀ pid, pid ≠ KERNEL → Keeps target pid place →
      ∃ other, other ≠ place ∧ Keeps target pid other) : TakesAt target place := by
  rintro pid user ⟨keeper, keeps⟩ all
  obtain rfl := all keeper keeps
  obtain ⟨other, apart, also⟩ := others pid user keeps
  exact absurd (all other also) apart

/-- Nothing is lost with places that hold nothing. -/
theorem takes_of_none {gone dropped : Place → Prop}
    (empty : ∀ place, gone place → target place = none) :
    Takes target gone dropped := by
  rintro pid - ⟨keeper, keeps⟩ all
  cases (empty keeper (all keeper keeps)).symm.trans keeps.1

theorem takesAt_of_none (empty : target place = none) : TakesAt target place :=
  takes_of_none fun _ same => same ▸ empty

theorem takesAt_temp {index : Nat} : TakesAt target (.temp thread index) :=
  takesAt_of_other fun _ _ keeps => keeps.2.elim

theorem takesAt_name {dir : Nat} {name : String} : TakesAt target (.name dir name) :=
  takesAt_of_other fun _ _ keeps => keeps.2.elim

/-- A new thread does not change what goes with an entry of a table. -/
theorem TakesAt.start {child holder : Nat} {id : HandleID} {process : Object}
    (takes : TakesAt target (.handle holder id)) (empty : target (.process child) = none) :
    TakesAt (Function.update target (.process child) (some process)) (.handle holder id) := by
  rintro pid user ⟨keeper, keeps⟩ all other held
  have alive : ∀ thread, Place.process child = .process thread → some process ≠ none :=
    fun _ _ => Option.some_ne_none _
  have apart : other ≠ .process child := by
    rintro rfl
    cases all (.process child) ⟨held, trivial⟩
  rw [Function.update_of_ne apart] at held
  have before : ∀ old, Keeps target pid old → old = .handle holder id := by
    intro old old_keeps
    refine all old (old_keeps.update ?_ alive)
    rintro rfl
    cases empty.symm.trans old_keeps.1
  obtain rfl := all keeper keeps
  have old_keeps : Keeps target pid (.handle holder id) :=
    ⟨(Function.update_of_ne (by nofun) ..).symm.trans keeps.1, keeps.2⟩
  exact takes pid user ⟨_, old_keeps⟩ before other held

/-- Two new entries of a table, one after the other. -/
theorem Takes.pair {holder : Nat} {first second : HandleID} (endpoint : Nat)
    (takes : Takes target
      (fun place => place = .handle holder first ∨ place = .handle holder second)
      (fun place => place = .handle holder first ∨ place = .handle holder second)) :
    TakesAt target (.handle holder first) ∧
      TakesAt (Function.update target (.handle holder first) (some (.socket endpoint)))
        (.handle holder second) := by
  constructor
  · rintro pid user ⟨keeper, keeps⟩ all other held
    rcases takes pid user ⟨keeper, keeps⟩ (fun old old_keeps => .inl (all old old_keeps)) other held
      with rfl | rfl
    · rfl
    · obtain rfl := all keeper keeps
      exact all _ ⟨held, keeps.2⟩
  · rintro pid user ⟨keeper, keeps⟩ all other held
    have ne_first : ∀ place, Function.update target (.handle holder first)
        (some (.socket endpoint)) place = some (.process pid) → place ≠ .handle holder first := by
      rintro place holds rfl
      rw [Function.update_self] at holds
      cases holds
    obtain rfl := all keeper keeps
    have old_held := (Function.update_of_ne (ne_first _ keeps.1) ..).symm.trans keeps.1
    have within : ∀ old, Keeps target pid old →
        old = .handle holder first ∨ old = .handle holder second := by
      intro old old_keeps
      by_cases same : old = .handle holder first
      · exact .inl same
      · exact .inr (all old (old_keeps.update same nofun))
    have other_ne := ne_first other held
    rw [Function.update_of_ne other_ne] at held
    exact (takes pid user ⟨_, old_held, keeps.2⟩ within other held).resolve_left other_ne

end Targets

/-- What the places and the threads keep to. -/
structure Shape (target : Place → Option Object) (nextPid : Nat) (life : Nat → Life) : Prop where
  tidy : Tidy target
  /-- A process that does not exist has no table. -/
  unused : ∀ pid id, nextPid ≤ pid → target (.handle pid id) = none
  /-- While `load_elf` keeps the process of a thread, the thread runs as the kernel process. -/
  loading : ∀ thread, target (.oldProc thread) ≠ none →
    target (.process thread) = some (.process KERNEL) ∨ target (.process thread) = none
  absent : ∀ thread, life thread = .absent → target (.oldProc thread) = none

namespace Shape

variable {target : Place → Option Object} {content : Option Object} {place : Place}
  {object : Object} {nextPid pid thread child : Nat} {life : Nat → Life}

/-- A change of a place that belongs to no thread. -/
theorem change (shape : Shape target nextPid life) (takes : TakesAt target place)
    (ordinary : ∀ thread, place ≠ .process thread ∧ place ≠ .oldProc thread)
    (tables : ∀ pid id, place = .handle pid id → content ≠ none → pid < nextPid)
    (stored : ∀ pid, pid ≠ KERNEL → content = some (.process pid) →
      (∃ source, target source = some (.process pid)) ∨
        Keeps (Function.update target place content) pid place) :
    Shape (Function.update target place content) nextPid life := by
  have process_eq : ∀ thread, Function.update target place content (.process thread) =
      target (.process thread) := fun thread => Function.update_of_ne (ordinary thread).1.symm ..
  have oldProc_eq : ∀ thread, Function.update target place content (.oldProc thread) =
      target (.oldProc thread) := fun thread => Function.update_of_ne (ordinary thread).2.symm ..
  refine ⟨shape.tidy.change takes (fun thread same => absurd same (ordinary thread).1) stored,
    fun pid id above => ?_, fun thread kept => ?_, fun thread gone => ?_⟩
  · rcases eq_or_ne (.handle pid id) place with same | apart
    · rw [same, Function.update_self]
      by_contra some_content
      exact absurd above (Nat.not_le.mpr (tables pid id same.symm some_content))
    · exact (Function.update_of_ne apart ..).trans (shape.unused pid id above)
  · rw [oldProc_eq] at kept
    rw [process_eq]
    exact shape.loading thread kept
  · rw [oldProc_eq]
    exact shape.absent thread gone

/-- A reference to an object that is held already is stored in a table. -/
theorem insert {id : HandleID} (shape : Shape target nextPid life)
    (takes : TakesAt target (.handle pid id)) (exists_pid : pid < nextPid)
    (held : ∀ other, object = .process other → ∃ source, target source = some (.process other)) :
    Shape (Function.update target (.handle pid id) (some object)) nextPid life := by
  refine shape.change takes (fun _ => ⟨by nofun, by nofun⟩) (fun other number same _ => ?_)
    (fun other _ same => .inl (held other (Option.some.inj same)))
  cases same
  exact exists_pid

/-- A reference is dropped that belongs to no thread. -/
theorem clear (shape : Shape target nextPid life) (takes : TakesAt target place)
    (ordinary : ∀ thread, place ≠ .process thread ∧ place ≠ .oldProc thread) :
    Shape (Function.update target place none) nextPid life :=
  shape.change takes ordinary (fun _ _ _ some_content => absurd rfl some_content) (by nofun)

theorem push {index : Nat} (shape : Shape target nextPid life)
    (held : ∃ source, target source = some object) :
    Shape (Function.update target (.temp thread index) (some object)) nextPid life :=
  shape.change takesAt_temp (fun _ => ⟨by nofun, by nofun⟩) (by nofun)
    (fun _ _ same => .inl (Option.some.inj same ▸ held))

theorem start (shape : Shape target nextPid life) (empty : target (.process child) = none)
    (new : life child = .absent)
    (held : ∀ pid, pid ≠ KERNEL → object = .process pid →
      ∃ source, target source = some (.process pid)) :
    Shape (Function.update target (.process child) (some object)) nextPid
      (Function.update life child .running) := by
  refine ⟨shape.tidy.change (takesAt_of_none empty) (fun _ _ => Option.some_ne_none _)
    (fun pid user same => .inl (held pid user (Option.some.inj same))), fun pid id above => ?_,
    fun thread kept => ?_, fun thread gone => ?_⟩
  · exact (Function.update_of_ne (by nofun) ..).trans (shape.unused pid id above)
  · rw [Function.update_of_ne (by nofun)] at kept
    have apart : thread ≠ child := by
      rintro rfl
      exact kept (shape.absent thread new)
    rw [Function.update_of_ne (by simpa using apart)]
    exact shape.loading thread kept
  · rw [Function.update_of_ne (by nofun)]
    rcases eq_or_ne thread child with rfl | apart
    · rw [Function.update_self] at gone
      cases gone
    · rw [Function.update_of_ne apart] at gone
      exact shape.absent thread gone

/-- `load_elf` runs as the kernel process. -/
theorem load (shape : Shape target nextPid life)
    (held : target (.process thread) = some (.process pid)) (idle : target (.oldProc thread) = none)
    (exists_thread : life thread ≠ .absent) :
    Shape (Function.update (Function.update target (.oldProc thread) (some (.process pid)))
      (.process thread) (some (.process KERNEL))) nextPid life := by
  have kept : Tidy (Function.update target (.oldProc thread) (some (.process pid))) := by
    refine shape.tidy.change (takesAt_of_none idle) (by nofun) fun other _ same => .inl ?_
    cases same
    exact ⟨_, held⟩
  have takes : TakesAt (Function.update target (.oldProc thread) (some (.process pid)))
      (.process thread) := by
    refine takesAt_of_other fun other _ keeps => ⟨.oldProc thread, by nofun, ?_, ?_⟩
    · have same : some (Object.process pid) = some (.process other) := by
        simpa [held] using keeps.1
      rw [Function.update_self, same]
    · simp [held]
  refine ⟨kept.change takes (fun _ _ => Option.some_ne_none _) fun other user same => ?_,
    fun other id above => ?_, fun other some_old => ?_, fun other gone => ?_⟩
  · cases same
    exact absurd rfl user
  · simpa using shape.unused other id above
  · rcases eq_or_ne other thread with rfl | apart
    · exact .inl (Function.update_self ..)
    · simpa [apart] using shape.loading other (by simpa [apart] using some_old)
  · have apart : other ≠ thread := fun same => exists_thread (same ▸ gone)
    simpa [apart] using shape.absent other gone

/-- `load_elf` runs as its caller again. -/
theorem restore {old : Object} (shape : Shape target nextPid life)
    (held : target (.oldProc thread) = some old) :
    Shape (Function.update (Function.update target (.process thread) (some old))
      (.oldProc thread) none) nextPid life := by
  have takes : TakesAt target (.process thread) := by
    refine takesAt_of_other fun pid user keeps => ?_
    rcases shape.loading thread (by simp [held]) with kernel | gone
    · cases kernel.symm.trans keeps.1
      exact absurd rfl user
    · cases gone.symm.trans keeps.1
  have restored : Tidy (Function.update target (.process thread) (some old)) := by
    refine shape.tidy.change takes (fun _ _ => Option.some_ne_none _) fun pid _ same => .inl ?_
    cases same
    exact ⟨_, held⟩
  have takes_old : TakesAt (Function.update target (.process thread) (some old))
      (.oldProc thread) := by
    refine takesAt_of_other fun pid _ keeps => ⟨.process thread, by nofun, ?_, trivial⟩
    have same : some old = some (.process pid) := by
      simpa [held] using keeps.1
    rw [Function.update_self, same]
  refine ⟨restored.change takes_old (by nofun) (by nofun), fun other id above => ?_,
    fun other some_old => ?_, fun other gone => ?_⟩
  · simpa using shape.unused other id above
  · have apart : other ≠ thread := by
      rintro rfl
      exact some_old (Function.update_self ..)
    simpa [apart] using shape.loading other (by simpa [apart] using some_old)
  · rcases eq_or_ne other thread with rfl | apart
    · exact Function.update_self ..
    · simpa [apart] using shape.absent other gone

theorem reap (shape : Shape target nextPid life)
    (takes : Takes target (fun place => place = .process thread ∨ place = .newProc thread ∨
      place = .oldProc thread) (· = .process thread)) :
    Shape (Function.update target (.process thread) none) nextPid
      (Function.update life thread .reaped) := by
  refine ⟨shape.tidy.reap takes, fun pid id above => ?_, fun other some_old => ?_,
    fun other gone => ?_⟩
  · simpa using shape.unused pid id above
  · rcases eq_or_ne other thread with rfl | apart
    · exact .inr (Function.update_self ..)
    · simpa [apart] using shape.loading other (by simpa using some_old)
  · rcases eq_or_ne other thread with rfl | apart
    · rw [Function.update_self] at gone
      cases gone
    · rw [Function.update_of_ne apart] at gone
      simpa using shape.absent other gone

/-- A thread that exists changes its state. -/
theorem setLife {after : Life} (shape : Shape target nextPid life) (stays : after ≠ .absent) :
    Shape target nextPid (Function.update life thread after) := by
  refine ⟨shape.tidy, shape.unused, shape.loading, fun other gone => ?_⟩
  rcases eq_or_ne other thread with rfl | apart
  · rw [Function.update_self] at gone
    exact absurd gone stays
  · rw [Function.update_of_ne apart] at gone
    exact shape.absent other gone

end Shape

/-- `Spawn` fills the table of a new process; `made` is its variable `new_proc`. -/
structure Filling (state : State) (thread parent child : Nat) (made : Option Object) : Prop where
  shape : Shape state.refs.target (child + 1) state.life
  runs : state.refs.target (.process thread) = some (.process parent)
  made_eq : state.refs.target (.newProc thread) = made
  apart : parent ≠ child
  granted : ∀ id object, state.refs.target (.handle child id) = some object →
    ∃ number, state.refs.target (.handle parent number) = some object

namespace Filling

variable {state next : State} {thread parent child : Nat} {id number : HandleID} {object : Object}
  {rights : AccessRights} {made : Option Object}

/-- What the new table holds is held by the table of the parent, or by its thread. -/
theorem takesAt (filling : Filling state thread parent child made) :
    TakesAt state.refs.target (.handle child id) := by
  refine takesAt_of_other fun pid _ keeps => ?_
  obtain ⟨number, held⟩ := filling.granted id _ keeps.1
  rcases eq_or_ne parent pid with rfl | foreign
  · exact ⟨.process thread, by nofun, filling.runs, trivial⟩
  · refine ⟨.handle parent number, fun same => ?_, held, foreign⟩
    cases same
    exact filling.apart rfl

theorem insertAt (filling : Filling state thread parent child made)
    (held : state.refs.target (.handle parent number) = some object) :
    Filling (state.insertAt child id object rights) thread parent child made := by
  have parent_ne : ∀ other, Place.handle parent other ≠ .handle child id := by
    intro other same
    cases same
    exact filling.apart rfl
  constructor
  · rw [target_insertAt]
    refine filling.shape.insert filling.takesAt (Nat.lt_succ_self _) fun other same => ?_
    exact ⟨_, same ▸ held⟩
  · rw [target_insertAt, Function.update_of_ne (by nofun)]
    exact filling.runs
  · rw [target_insertAt, Function.update_of_ne (by nofun)]
    exact filling.made_eq
  · exact filling.apart
  · intro other found found_eq
    rw [target_insertAt] at found_eq ⊢
    rcases eq_or_ne (Place.handle child other) (.handle child id) with same | apart
    · rw [same, Function.update_self] at found_eq
      cases found_eq
      exact ⟨number, (Function.update_of_ne (parent_ne number) ..).trans held⟩
    · rw [Function.update_of_ne apart] at found_eq
      obtain ⟨place, place_eq⟩ := filling.granted other found found_eq
      exact ⟨place, (Function.update_of_ne (parent_ne place) ..).trans place_eq⟩

/-- `insert` writes an entry in the same way as `insert_at`. -/
theorem insert (filling : Filling state thread parent child made)
    (held : state.refs.target (.handle parent number) = some object) :
    Filling (state.insert child object rights) thread parent child made := by
  have placed : Filling (state.insertAt child (state.nextId child) object rights) thread parent
      child made := filling.insertAt held
  exact ⟨placed.shape, placed.runs, placed.made_eq, placed.apart, placed.granted⟩

theorem insertResolved {slot handle : HandleID} (filling : Filling state thread parent child made) :
    Filling (state.insertResolved parent child slot handle rights) thread parent child made := by
  rw [State.insertResolved]
  split
  next object resolve_eq => exact filling.insertAt (resolve_table resolve_eq)
  next => exact filling

theorem grantHandles {grants : List HandleGrant} (filling : Filling state thread parent child made)
    (grant_eq : State.grantHandles parent child state grants = .ok next) :
    Filling next thread parent child made := by
  induction grants generalizing state with
  | nil =>
      cases grant_eq
      exact filling
  | cons grant grants ih =>
      rw [State.grantHandles] at grant_eq
      split at grant_eq
      next object resolve_eq => exact ih (filling.insert (resolve_table resolve_eq)) grant_eq
      next => cases grant_eq

theorem extraHandles {op : Spawn} {env : Environment}
    (filling : Filling state thread parent child made)
    (extra_eq : state.extraHandles parent child op env = .ok next) :
    Filling next thread parent child made := by
  rw [State.extraHandles] at extra_eq
  split_ifs at extra_eq with some_grants copied
  · exact filling.grantHandles extra_eq
  · cases extra_eq
    exact filling

/-- The process is created, and kept by the call. -/
theorem create (filling : Filling state thread parent child none) :
    Filling (state.put (.newProc thread) (.process child)) thread parent child
      (some (.process child)) := by
  have runs : (state.put (.newProc thread) (.process child)).refs.target (.process thread) =
      some (.process parent) := by
    rw [target_put, Function.update_of_ne (by nofun)]
    exact filling.runs
  refine ⟨?_, runs, ?_, filling.apart, fun id object held => ?_⟩
  · rw [target_put] at runs ⊢
    refine filling.shape.change (takesAt_of_none filling.made_eq) (fun _ => ⟨by nofun, by nofun⟩)
      (by nofun) fun pid _ same => .inr ⟨(Function.update_self ..).trans same, ?_⟩
    exact fun gone => Option.some_ne_none _ (runs.symm.trans gone)
  · rw [target_put, Function.update_self]
  · rw [target_put, Function.update_of_ne (by nofun)] at held
    rw [target_put]
    obtain ⟨number, number_eq⟩ := filling.granted id object held
    exact ⟨number, (Function.update_of_ne (by nofun) ..).trans number_eq⟩

end Filling

theorem CleanInsert.startThread {state started : State} {child pid : Nat} {object : Object}
    (clean : CleanInsert state pid) (starts : state.startThread child object = .ok started) :
    TakesAt started.refs.target (.handle pid (started.nextId pid)) := by
  have started_ok := startThread_ok starts
  rw [started_ok.target_eq, started_ok.nextId_eq]
  exact (CleanAt.takesAt clean).start started_ok.empty

/-- The invariant of careful runs. -/
structure Sound (state : State) : Prop where
  basic : Basic state
  shape : Shape state.refs.target state.nextPid state.life

namespace Sound

variable {state next started : State} {thread parent pid child : Nat} {object : Object}

theorem exists_of_current (sound : Sound state) (runs : state.current thread = .ok pid) :
    pid < state.nextPid :=
  sound.basic.bounded _ _ (current_ok runs).1

/-- A running thread adds an object it has found, or a new one, to the table of its process. -/
theorem insert (rights : AccessRights) (sound : Sound state)
    (runs : state.current thread = .ok pid)
    (held : ∀ other, object = .process other →
      ∃ source, state.refs.target source = some (.process other))
    (careful : CleanInsert state pid) :
    Shape (state.insert pid object rights).refs.target state.nextPid state.life := by
  rw [target_insert]
  exact sound.shape.insert (CleanAt.takesAt careful) (sound.exists_of_current runs) held

theorem filling {root : Object} {op : Spawn} (sound : Sound state)
    (runs : state.current thread = .ok parent)
    (held : state.refs.target (.handle parent op.rootHandle) = some root)
    (idle : state.refs.target (.newProc thread) = none) :
    Filling (state.fixedSlots parent state.nextPid op root) thread parent state.nextPid none := by
  have begun : Filling { state with
      nextPid := state.nextPid + 1
      nextId := Function.update state.nextId state.nextPid 1 }
      thread parent state.nextPid none := by
    refine ⟨⟨sound.shape.tidy, fun pid id above => ?_, sound.shape.loading, sound.shape.absent⟩,
      (current_ok runs).1, idle, (sound.exists_of_current runs).ne, fun id object found => ?_⟩
    · exact sound.shape.unused pid id (Nat.le_of_succ_le above)
    · cases (sound.shape.unused state.nextPid id le_rfl).symm.trans found
  exact (Filling.insertAt begun held).insertResolved.insertResolved

theorem spawn {root : Object} {op : Spawn} {env : Environment} {filled : State}
    (sound : Sound state) (runs : state.current thread = .ok parent)
    (held : state.refs.target (.handle parent op.rootHandle) = some root)
    (fills : (state.fixedSlots parent state.nextPid op root).extraHandles parent state.nextPid
      op env = .ok filled)
    (idle : state.refs.target (.newProc thread) = none) :
    Shape ((filled.put (.newProc thread) (.process state.nextPid)).insertAt state.nextPid 1
      (.process state.nextPid) processRights).refs.target filled.nextPid filled.life := by
  have created := ((sound.filling runs held idle).extraHandles fills).create
  rw [(counters_extraHandles fills).1, nextPid_fixedSlots, target_insertAt]
  refine created.shape.insert created.takesAt (Nat.lt_succ_self _) fun other same => ?_
  exact ⟨_, created.made_eq.trans (congrArg some same)⟩

theorem startThread (sound : Sound state)
    (held : ∀ pid, pid ≠ KERNEL → object = .process pid →
      ∃ source, state.refs.target source = some (.process pid))
    (starts : state.startThread child object = .ok started) :
    Shape started.refs.target started.nextPid started.life := by
  have started_ok := startThread_ok starts
  rw [started_ok.target_eq, started_ok.nextPid_eq, started_ok.life_eq]
  exact sound.shape.start started_ok.empty started_ok.new held

theorem finish {process : Object} (sound : Sound state) (runs : state.current thread = .ok parent)
    (held : state.refs.target (.newProc thread) = some process)
    (starts : state.startThread child process = .ok started)
    (careful : CleanInsert state parent) :
    Shape ((started.insert parent process processRights).clear (.newProc thread)).refs.target
      started.nextPid started.life := by
  have begun := sound.startThread (fun pid _ same => ⟨_, same ▸ held⟩) starts
  have started_ok := startThread_ok starts
  have kept : started.refs.target (.process child) = some process := by
    rw [started_ok.target_eq, Function.update_self]
  have exists_parent : parent < started.nextPid :=
    started_ok.nextPid_eq.symm ▸ sound.exists_of_current runs
  rw [target_clear, target_insert]
  refine (begun.insert (careful.startThread starts) exists_parent fun other same =>
    ⟨_, same ▸ kept⟩).clear (takesAt_of_other fun pid _ keeps => ?_) fun _ => ⟨by nofun, by nofun⟩
  -- The process is kept by its first thread from now on.
  refine ⟨.process child, by nofun, ?_, trivial⟩
  have same := keeps.1
  rw [Function.update_of_ne (by nofun), started_ok.target_eq, Function.update_of_ne (by nofun),
    held] at same
  rw [Function.update_of_ne (by nofun), kept, same]

theorem spawnThread {target : Nat} (sound : Sound state) (runs : state.current thread = .ok pid)
    (held : ∃ place, state.refs.target place = some (.process target))
    (starts : state.startThread child (.process pid) = .ok started)
    (careful : CleanInsert state target) :
    Shape (started.insert target (.thread child) .all).refs.target started.nextPid
      started.life := by
  have begun := sound.startThread
    (fun other _ same => ⟨_, same ▸ (current_ok runs).1⟩) starts
  obtain ⟨place, held⟩ := held
  have exists_target : target < started.nextPid :=
    (startThread_ok starts).nextPid_eq.symm ▸ sound.basic.bounded place target held
  rw [target_insert]
  exact begun.insert (careful.startThread starts) exists_target (by nofun)

theorem createPair (sound : Sound state) (runs : state.current thread = .ok pid)
    (careful : Clean state.refs.target fun place => place = .handle pid (state.nextId pid) ∨
      place = .handle pid (wrappingAdd (state.nextId pid) 1)) :
    Shape ((state.insert pid (.socket state.nextObject) .all).insert pid
      (.socket (state.nextObject + 1)) .all).refs.target state.nextPid state.life := by
  have takes := careful.takes fun _ written => .inl written
  obtain ⟨first, second⟩ := takes.pair state.nextObject
  have nextId_eq : (state.insert pid (.socket state.nextObject) .all).nextId pid =
      wrappingAdd (state.nextId pid) 1 := Function.update_self ..
  have exists_pid := sound.exists_of_current runs
  rw [target_insert, nextId_eq, target_insert]
  exact (sound.shape.insert first exists_pid (by nofun)).insert second exists_pid (by nofun)

theorem step {input : Input} (sound : Sound state) (careful : Careful state input)
    (step_eq : ProcessLife.step state input = .ok next) : Sound next := by
  refine ⟨sound.basic.step step_eq, ?_⟩
  have shape := sound.shape
  have moves := moves_of_step step_eq
  cases moves with
  | resolve _ owner_eq held => exact (target_push ..).symm ▸ shape.push ⟨_, held⟩
  | leave =>
      exact (target_clear ..).symm ▸ shape.clear takesAt_temp fun _ => ⟨by nofun, by nofun⟩
  | close runs =>
      exact (target_clear ..).symm ▸ shape.clear (careful _ runs).takesAt
        fun _ => ⟨by nofun, by nofun⟩
  | duplicate runs held =>
      exact sound.insert _ runs (fun _ same => ⟨_, same ▸ held⟩) (careful _ runs)
  | @create _ _ _ rights runs =>
      exact sound.insert rights runs (fun _ same => absurd same (Kind.object_ne_process _ _ _))
        (careful _ runs)
  | createPair runs => exact sound.createPair runs (careful _ runs)
  | link runs held =>
      rw [target_put]
      exact shape.change takesAt_name (fun _ => ⟨by nofun, by nofun⟩) (by nofun)
        fun _ _ same => .inl ⟨_, held.trans same⟩
  | unlink =>
      exact (target_clear ..).symm ▸ shape.clear takesAt_name fun _ => ⟨by nofun, by nofun⟩
  | lookup runs held =>
      exact sound.insert _ runs (fun _ same => ⟨_, same ▸ held⟩) (careful _ runs)
  | spawn runs held fills idle => exact sound.spawn runs held fills idle
  | load runs held idle =>
      obtain ⟨runs, exists_thread⟩ := current_ok runs
      rw [target_put, target_put, target_push]
      refine (shape.push ⟨_, held⟩).load ?_ ?_ exists_thread
      · exact (Function.update_of_ne (by nofun) ..).trans runs
      · exact (Function.update_of_ne (by nofun) ..).trans idle
  | restore runs held =>
      rw [target_clear, target_put]
      exact shape.restore held
  | fail => exact careful.elim
  | finish runs held starts => exact sound.finish runs held starts (careful _ runs)
  | spawnThread runs owner_eq starts =>
      exact sound.spawnThread runs (owner_ok owner_eq) starts (careful _ owner_eq)
  | spawnKernelThread starts =>
      exact sound.startThread (fun pid user same => absurd (Object.process.inj same).symm user)
        starts
  | terminate => exact shape.setLife (by nofun)
  | kill => exact shape.setLife (by nofun)
  | @reapThread thread =>
      refine (target_clear ..).symm ▸ shape.reap (careful.takes fun place goes => ?_)
      rcases goes with rfl | same
      · exact .inl rfl
      · exact .inr ⟨thread, .inl rfl, same⟩
  | free part =>
      refine (target_clear ..).symm ▸ shape.clear careful.takesAt fun thread => ⟨?_, ?_⟩
      · rintro rfl
        cases part
      · rintro rfl
        cases part

end Sound

theorem sound_boot : Sound .boot := by
  have target_eq : ∀ place, (∀ index, place ≠ .static index) → (∀ id, place ≠ .handle KERNEL id) →
      State.boot.refs.target place = none := by
    intro place not_static not_kernel
    simp only [State.boot, target_insertAt, target_put]
    rw [Function.update_of_ne (not_kernel 1), Function.update_of_ne (not_kernel 0),
      Function.update_of_ne (not_static 1), Function.update_of_ne (not_static 0)]
    rfl
  refine ⟨basic_boot, fun pid user _ place held => ?_, fun pid id above => ?_,
    fun thread kept => ?_, fun thread _ => ?_⟩
  · rcases changes_boot.held held with before | same | impossible
    · cases before
    · exact user (Object.process.inj same)
    · cases impossible
  · refine target_eq _ (by nofun) fun other same => ?_
    cases same
    exact absurd above (by decide)
  · exact absurd (target_eq (.oldProc thread) (by nofun) (by nofun)) kept
  · exact target_eq (.oldProc thread) (by nofun) (by nofun)

/-- Dead processes release everything.  In every run of the kernel in which no `Spawn` fails after
it has created the process, and in which the last thread of a process or the last handle of another
process to it goes only when nothing else holds the process (its own table, a directory or a call),
a process of which no thread exists and to which no other process has a handle is released. -/
theorem dead_processes_released {inputs : List Input} {final : State} {pid : Nat}
    (careful : machine.Permits .boot inputs) (run_eq : machine.run .boot inputs = .ok final)
    (spawned : pid ≠ KERNEL ∧ pid < final.nextPid) (dead : Dead final.refs.target pid) :
    Released final pid := by
  have sound : Sound final :=
    machine.run_keeps (fun _ _ _ sound careful step_eq => sound.step careful step_eq) sound_boot
      careful run_eq
  exact sound.basic.released spawned (sound.shape.tidy pid spawned.1 dead)

/-- Nothing lingers where nothing goes. -/
theorem clean_of_none {target : Place → Option Object} {gone : Place → Prop}
    (empty : ∀ place, gone place → target place = none) : Clean target gone := by
  rintro pid - ⟨keeper, keeps⟩ all
  cases (empty keeper (all keeper keeps)).symm.trans keeps.1

theorem cleanAt_of_none {target : Place → Option Object} {place : Place}
    (empty : target place = none) : CleanAt target place :=
  clean_of_none fun _ same => same ▸ empty

/-- A program in handle 2, with the root as source and sink and the socket factory as extra. -/
def shellOp : Spawn where
  execHandle := 2
  rootHandle := 0
  rootRights := .all
  source := 0
  sink := 0
  extraHandlesPtr := 0
  extraHandlesLen := 1
  argsBufferPtr := 0
  argsBufferLen := 0

def shellEnv : Environment where
  grants _ := ⟨4, .all, 0⟩
  grantsCopied := true
  loaded := true
  argsCopied := true
  stackMapped := true
  injected := .ok ()

/-- The kernel starts a process with one thread, which creates a socket pair. -/
def shellStart : List Input :=
  [.spawnKernelThread 0, .create 0 .ext2File .all, .create 0 .processManager .all,
    .create 0 .socketFactory .all, .resolve 0 none 3 .CREATE, .spawn 0 .all shellOp shellEnv,
    .load 0 2, .restore 0, .leave 0, .finish 0 1, .leave 0, .resolve 1 none 4 .CREATE,
    .createPair 1 .all, .leave 1]

theorem basic_of_run {inputs : List Input} {final : State}
    (run_eq : machine.run .boot inputs = .ok final) : Basic final :=
  machine.run_invariant (fun _ _ _ basic step_eq => Basic.step basic step_eq) basic_boot run_eq

theorem shellStart_permitted : machine.Permits .boot shellStart := by
  refine Machine.permits_cons _ trivial rfl ?_
  refine Machine.permits_cons _ (fun pid runs => ?_) rfl ?_
  · cases runs
    exact cleanAt_of_none rfl
  refine Machine.permits_cons _ (fun pid runs => ?_) rfl ?_
  · cases runs
    exact cleanAt_of_none rfl
  refine Machine.permits_cons _ (fun pid runs => ?_) rfl ?_
  · cases runs
    exact cleanAt_of_none rfl
  refine Machine.permits_cons _ trivial rfl ?_
  refine Machine.permits_cons _ trivial rfl ?_
  refine Machine.permits_cons _ trivial rfl ?_
  refine Machine.permits_cons _ trivial rfl ?_
  refine Machine.permits_cons _ trivial rfl ?_
  refine Machine.permits_cons _ (fun pid runs => ?_) rfl ?_
  · cases runs
    exact cleanAt_of_none rfl
  refine Machine.permits_cons _ trivial rfl ?_
  refine Machine.permits_cons _ trivial rfl ?_
  refine Machine.permits_cons _ (fun pid runs => ?_) rfl ?_
  · cases runs
    refine clean_of_none fun place written => ?_
    rcases written with rfl | rfl
    · rfl
    · rfl
  exact Machine.permits_cons _ trivial rfl trivial

/-- The thread closes the handle of its process to itself, and exits. -/
def shellExit : List Input := shellStart ++ [.close 1 1, .terminate 1]

theorem shellExit_permitted : machine.Permits .boot shellExit := by
  refine machine.permits_append shellStart_permitted fun mid run_eq => ?_
  obtain rfl := Except.ok.inj run_eq
  refine Machine.permits_cons _ (fun pid runs => ?_) rfl
    (Machine.permits_cons _ trivial rfl trivial)
  cases runs
  rintro pid - ⟨keeper, keeps⟩ all
  obtain rfl := all keeper keeps
  have same : some (Object.process 1) = some (.process pid) := keeps.1
  cases same
  exact absurd rfl keeps.2

/-- The thread is reaped while the parent has a handle to the process. -/
theorem shellReap_permitted : machine.Permits .boot (shellExit ++ [.reapThread 1]) := by
  refine machine.permits_append shellExit_permitted fun mid run_eq => ?_
  have held : mid.refs.target (.process 1) = some (.process 1) ∧
      mid.refs.target (.newProc 1) = none ∧ mid.refs.target (.oldProc 1) = none ∧
        mid.refs.target (.handle 0 5) = some (.process 1) := by
    obtain rfl := Except.ok.inj run_eq
    exact ⟨rfl, rfl, rfl, rfl⟩
  refine ⟨?_, fun _ _ => trivial⟩
  rintro pid - ⟨keeper, keeps⟩ all
  rcases all keeper keeps with rfl | rfl | rfl
  · cases held.1.symm.trans keeps.1
    rcases all (.handle 0 5) ⟨held.2.2.2, zero_ne_one⟩ with impossible | impossible | impossible
    · cases impossible
    · cases impossible
    · cases impossible
  · cases held.2.1.symm.trans keeps.1
  · cases held.2.2.1.symm.trans keeps.1

theorem shell_permitted :
    machine.Permits .boot (shellExit ++ [.reapThread 1] ++ [.close 0 5]) := by
  refine machine.permits_append shellReap_permitted fun mid run_eq => ?_
  have facts : mid.refs.target (.handle 0 5) = some (.process 1) ∧
      mid.refs.strong (.process 1) = 1 ∧ mid.current 0 = .ok 0 := by
    obtain rfl := Except.ok.inj run_eq
    exact ⟨rfl, rfl, rfl⟩
  obtain ⟨held, count, current_eq⟩ := facts
  refine ⟨fun pid runs => ?_, fun _ _ => trivial⟩
  cases current_eq.symm.trans runs
  rintro pid - ⟨keeper, keeps⟩ all other lingers other_held
  obtain rfl := all keeper keeps
  cases held.symm.trans keeps.1
  obtain rfl := (basic_of_run run_eq).counted.eq_of_strong_eq_one count held other_held
  exact absurd lingers zero_ne_one

theorem dead_processes_released_shell : ∃ final,
    machine.run .boot (shellExit ++ [.reapThread 1] ++ [.close 0 5]) = .ok final ∧
      Released final 1 := by
  obtain ⟨final, run_eq, next_eq, count⟩ : ∃ final,
      machine.run .boot (shellExit ++ [.reapThread 1] ++ [.close 0 5]) = .ok final ∧
        1 < final.nextPid ∧ final.refs.strong (.process 1) = 0 :=
    ⟨_, rfl, by decide, rfl⟩
  have dead : Dead final.refs.target 1 := fun place keeps =>
    (basic_of_run run_eq).counted.strong_eq_zero.mp count place keeps.1
  exact ⟨final, run_eq, dead_processes_released shell_permitted run_eq ⟨by decide, next_eq⟩ dead⟩

/-- A process whose only thread has exited, and whose parent has closed its handle, is kept by its
own handle for ever, and its sockets stay open. -/
theorem dead_process_kept :
    ∃ (inputs : List Input) (final : State), machine.run .boot inputs = .ok final ∧
      1 < final.nextPid ∧ Dead final.refs.target 1 ∧ final.refs.strong (.process 1) = 1 ∧
        HeldOnlyBy final.refs.target 1 4 ∧ final.isClosed 4 = false := by
  obtain ⟨final, run_eq, next_eq, count, held, socket_count, socket_held, still_open⟩ : ∃ final,
      machine.run .boot (shellStart ++ [.terminate 1, .reapThread 1, .close 0 5]) = .ok final ∧
        1 < final.nextPid ∧ final.refs.strong (.process 1) = 1 ∧
        final.refs.target (.handle 1 1) = some (.process 1) ∧
        final.refs.strong (.socket 4) = 1 ∧
        final.refs.target (.handle 1 5) = some (.socket 4) ∧ final.isClosed 4 = false :=
    ⟨_, rfl, by decide, rfl, rfl, rfl, rfl, rfl⟩
  have counted := (basic_of_run run_eq).counted
  refine ⟨_, final, run_eq, next_eq, fun place keeps => ?_, count, ⟨⟨5, socket_held⟩,
    fun place other => ?_⟩, still_open⟩
  · obtain rfl := counted.eq_of_strong_eq_one count held keeps.1
    exact keeps.2 rfl
  · exact ⟨5, counted.eq_of_strong_eq_one socket_count socket_held other⟩

end ProcessLife
end Vespertine
