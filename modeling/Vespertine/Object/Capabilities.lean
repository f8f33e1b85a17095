import Vespertine.Library.Transition
import Vespertine.Object.Handle

/-!
# Handle operations

All operations of the kernel that read or write handle tables and directories: system calls through
a handle, closing, duplicating and registering.  Everything such an operation takes from the rest
of the kernel (names copied from the caller, directory contents on disk, whether a program could be
started) is given by `Answers`.

A directory stores the objects linked in it, but not the rights of the handles they were linked
through; a lookup hands them out with the rights of the directory handle.  `Audit` records what the
tables do not: the rights each name was linked with, and for every handle derived from another the
rights of both.
-/

namespace Vespertine
namespace Capabilities

/-- Kernel objects, by kind; numbers tell objects of a kind apart. -/
inductive Object
  | directory (id : Nat)
  | file (id : Nat)
  | ext2File (id : Nat)
  | ext2Directory (id : Nat)
  | vmo (id : Nat)
  | framebuffer (id : Nat)
  | process (pid : Nat)
  | thread (id : Nat)
  | processManager
  | memoryManager
  | memPool (id : Nat)
  | clock
  | socket (id : Nat)
  | socketFactory
  | screenWriter
deriving DecidableEq, Repr

/-- Handle tables of all processes and contents of all directories. -/
structure State where
  tables : Nat → HandleTable Object
  tree : Nat → String → Option Object
  /-- Process number given next. -/
  nextPid : Nat
  /-- Number given to the next object that is created. -/
  nextObject : Nat

/-- What a handle operation takes from the rest of the kernel. -/
structure Answers where
  /-- The name copied from the caller by `Filename::new`. -/
  filename : Except InvocationError String
  /-- Whether the entry found on disk is a directory. -/
  ext2Child : Except InvocationError Bool
  /-- The grants copied from the caller of `Spawn`. -/
  grants : Except InvocationError (List HandleGrant)
  /-- The outcome of loading and starting the program of `Spawn`. -/
  started : Except InvocationError Unit
  /-- The outcome of an operation that touches neither handles nor directories. -/
  result : Except InvocationError Nat

namespace State

/-- Replace the table of a process. -/
def setTable (state : State) (pid : Nat) (table : HandleTable Object) : State :=
  { state with tables := Function.update state.tables pid table }

/-- Overwrite a name in a directory. -/
def setName (state : State) (dir : Nat) (name : String) (object : Option Object) : State :=
  let names := Function.update (state.tree dir) name object
  { state with tree := Function.update state.tree dir names }

/-- Add an object to the table of a process. -/
def insert (state : State) (pid : Nat) (object : Object) (rights : AccessRights) :
    HandleID × State :=
  let (id, table) := (state.tables pid).insert object rights
  (id, state.setTable pid table)

/-- Add a newly created object to the table of a process. -/
def create (state : State) (pid : Nat) (object : Nat → Object) (rights : AccessRights) :
    HandleID × State :=
  { state with nextObject := state.nextObject + 1 }.insert pid (object state.nextObject) rights

/-- `Directory::link`: the object of any handle of the caller, whatever its rights. -/
def link (state : State) (pid dir : Nat) (handleId : HandleID) (answers : Answers) :
    Except InvocationError (Nat × State) := do
  let filename ← answers.filename
  match (state.tables pid).get handleId with
  | none => .error .InvalidHandle
  | some entry =>
      return (0, state.setName dir filename (some entry.object))

/-- `Directory::unlink`. -/
def unlink (state : State) (dir : Nat) (answers : Answers) :
    Except InvocationError (Nat × State) := do
  let filename ← answers.filename
  return (0, state.setName dir filename none)

/-- `Directory::lookup`: the object, with the rights of the directory handle. -/
def lookup (state : State) (pid dir : Nat) (callingRights : AccessRights) (answers : Answers) :
    Except InvocationError (Nat × State) := do
  let filename ← answers.filename
  match state.tree dir filename with
  | none => .error .PathNotFound
  | some object => return state.insert pid object (callingRights.mask .all)

/-- `Directory::list_contents`: the entries go to a socket. -/
def list (state : State) (pid : Nat) (sink : HandleID) (answers : Answers) :
    Except InvocationError (Nat × State) := do
  let _ ← (state.tables pid).resolve sink .WRITE
  return (← answers.result, state)

/-- Lookup in an ext2 directory: a new object for the entry on disk. -/
def ext2Lookup (state : State) (pid : Nat) (callingRights : AccessRights) (answers : Answers) :
    Except InvocationError (Nat × State) := do
  let _ ← answers.filename
  let isDirectory ← answers.ext2Child
  let rights := callingRights.mask (.insert (.insert .READ .WRITE) .EXECUTE)
  return state.create pid (if isDirectory then .ext2Directory else .ext2File) rights

/-- The grants of `Spawn`, moved into the table of the child. -/
def grantHandles (parent : HandleTable Object) :
    HandleTable Object → List HandleGrant → Except InvocationError (HandleTable Object)
  | child, [] => .ok child
  | child, grant :: grants =>
      match parent.resolve grant.id grant.rights with
      | .ok object => grantHandles parent (child.insert object grant.rights).2 grants
      | .error _ => .error .InvalidHandle

/-- The table of a child before its own handle is added. -/
def childTable (parent : HandleTable Object) (op : Spawn) (answers : Answers) :
    Except InvocationError (HandleTable Object) := do
  let root ← parent.resolve op.rootHandle op.rootRights
  let table := HandleTable.new.insertAt 0 root op.rootRights
  let table := match parent.resolve op.source .READ with
    | .ok object => table.insertAt 2 object .READ
    | .error _ => table
  let table := match parent.resolve op.sink .WRITE with
    | .ok object => table.insertAt 3 object .WRITE
    | .error _ => table
  if op.extraHandlesLen > 0 then
    grantHandles parent table (← answers.grants)
  else
    return table

/-- `Spawn`: build the table of the child and add the child to the table of the parent. -/
def spawn (state : State) (pid : Nat) (callingRights : AccessRights) (op : Spawn)
    (answers : Answers) : Except InvocationError (Nat × State) := do
  if !callingRights.contains .CREATE then
    .error .AccessDenied
  let table ← childTable (state.tables pid) op answers
  let child := state.nextPid
  let table := table.insertAt 1 (.process child) (.insert (.insert .READ .WRITE) .MUTATE)
  answers.started
  let created := { state.setTable child table with nextPid := child + 1 }
  return created.insert pid (.process child) (.insert (.insert .READ .WRITE) .MUTATE)

/-- `KernelObject::invoke` of every object, as far as handles and directories are concerned. -/
def invoke (state : State) (pid : Nat) (entry : HandleEntry Object) (invocation : Invocation)
    (answers : Answers) : Except InvocationError (Nat × State) :=
  match entry.object, invocation with
  | .directory dir, .Directory (.Link _ _ handleId) => state.link pid dir handleId answers
  | .directory dir, .Directory (.Unlink ..) => state.unlink dir answers
  | .directory dir, .Directory (.Lookup ..) => state.lookup pid dir entry.rights answers
  | .directory _, .Directory (.List _ sink) => state.list pid sink answers
  | .ext2Directory _, .Directory (.Lookup ..) => state.ext2Lookup pid entry.rights answers
  | .ext2Directory _, .Directory (.List _ sink) => state.list pid sink answers
  | .ext2File _, .File .GetVmo => return state.create pid .vmo .all
  | .vmo _, .Vmo (.Clone ..) | .framebuffer _, .Vmo (.Clone ..) => do
      let _ ← answers.result
      return state.create pid .vmo .all
  | .process target, .Proc (.SpawnThread ..) => return state.create target .thread .all
  | .processManager, .ProcessManager (.Spawn op) => state.spawn pid entry.rights op answers
  | .memoryManager, .MemoryManager (.CreatePool _) =>
      if !entry.rights.contains .CREATE then
        .error .AccessDenied
      else
        return state.create pid .memPool (.insert (.insert .READ .WRITE) .CREATE)
  | .memPool _, .MemPool (.AllocateVmo _) =>
      if !entry.rights.contains .WRITE then
        .error .AccessDenied
      else do
        let _ ← answers.result
        return state.create pid .vmo (.insert (.insert .READ .WRITE) .MUTATE)
  | .memPool _, .MemPool (.CreateSubPool _) =>
      if !entry.rights.contains .WRITE then
        .error .AccessDenied
      else
        return state.create pid .memPool (.insert (.insert .READ .WRITE) .CREATE)
  | .socketFactory, .Socket (.Create ..) =>
      if !entry.rights.contains .CREATE then
        .error .AccessDenied
      else
        let (first, state) := state.create pid .socket .all
        let (second, state) := state.create pid .socket .all
        return ((first &&& 0xFFFFFFFF) ||| ((second &&& 0xFFFFFFFF) <<< 32), state)
  | _, _ => do return (← answers.result, state)

/-- `kernel_invoke`: resolve the handle with the demanded rights and invoke its object. -/
def kernelInvoke (state : State) (pid : Nat) (handle : HandleID) (invocation : Invocation)
    (answers : Answers) : Except InvocationError (Nat × State) := do
  let entry ← (state.tables pid).resolveEntry handle invocation.requiredRights
  state.invoke pid entry invocation answers

/-- `kernel_close`. -/
def kernelClose (state : State) (pid : Nat) (handle : HandleID) :
    Except InvocationError (Nat × State) := do
  let table ← (state.tables pid).close handle
  return (0, state.setTable pid table)

/-- `kernel_duplicate`. -/
def kernelDuplicate (state : State) (pid : Nat) (handle : HandleID)
    (requestedRights : AccessRights) : Except InvocationError (Nat × State) := do
  let (id, table) ← (state.tables pid).duplicate handle requestedRights
  return (id, state.setTable pid table)

end State

/-- A handle operation of a process. -/
inductive Operation
  | invoke (handle : HandleID) (invocation : Invocation) (answers : Answers)
  | close (handle : HandleID)
  | duplicate (handle : HandleID) (requestedRights : AccessRights)
  /-- `kernel_register_obj`, by which the kernel hands out its first objects. -/
  | register (object : Object) (rights : AccessRights)

/-- The state after an operation; a failed one changes nothing. -/
def State.perform (state : State) (pid : Nat) : Operation → Except InvocationError (Nat × State)
  | .invoke handle invocation answers => state.kernelInvoke pid handle invocation answers
  | .close handle => state.kernelClose pid handle
  | .duplicate handle requestedRights => state.kernelDuplicate pid handle requestedRights
  | .register object rights => .ok (state.insert pid object rights)

/-- No handles, no directory entries. -/
def State.boot : State := ⟨fun _ => .new, fun _ _ => none, 0, 0⟩

/-- A handle derived from another one. -/
structure Derivation where
  /-- The rights of the new handle. -/
  rights : AccessRights
  /-- The rights of the handle it came from or its object was linked through. -/
  limit : AccessRights
deriving DecidableEq, Repr

/-- What the tables do not say about the operations so far. -/
structure Audit where
  /-- The rights of the handle through which a name was linked. -/
  linked : Nat → String → AccessRights
  /-- All handles derived so far. -/
  derived : List Derivation

namespace State

/-- The rights of a handle; none for a number that is not in the table. -/
def rightsOf (state : State) (pid : Nat) (handle : HandleID) : AccessRights :=
  match (state.tables pid).get handle with
  | some entry => entry.rights
  | none => .new

/-- The handles a child of `pid` is given. -/
def spawnDerivations (state : State) (pid : Nat) (op : Spawn) (answers : Answers) :
    List Derivation :=
  let parent := state.tables pid
  let derive (handle : HandleID) (rights : AccessRights) : Derivation :=
    ⟨rights, state.rightsOf pid handle⟩
  let given (handle : HandleID) (rights : AccessRights) : List Derivation :=
    if (parent.resolve handle rights).isOk then [derive handle rights] else []
  let grants := match answers.grants with
    | .ok grants => if op.extraHandlesLen > 0 then grants else []
    | .error _ => []
  derive op.rootHandle op.rootRights :: given op.source .READ ++ given op.sink .WRITE ++
    grants.map fun grant => derive grant.id grant.rights

end State

/-- Record a successful operation of a process. -/
def Audit.record (audit : Audit) (state next : State) (pid : Nat) : Operation → Audit
  | .duplicate handle _ =>
      let id := (state.tables pid).nextId
      { audit with derived := ⟨next.rightsOf pid id, state.rightsOf pid handle⟩ :: audit.derived }
  | .invoke handle invocation answers =>
      let id := (state.tables pid).nextId
      match ((state.tables pid).get handle).map HandleEntry.object, invocation,
          answers.filename with
      | some (.directory dir), .Directory (.Link _ _ handleId), .ok name =>
          let names := Function.update (audit.linked dir) name (state.rightsOf pid handleId)
          { audit with linked := Function.update audit.linked dir names }
      | some (.directory dir), .Directory (.Lookup ..), .ok name =>
          { audit with derived := ⟨next.rightsOf pid id, audit.linked dir name⟩ :: audit.derived }
      | some (.ext2File _), .File .GetVmo, _ =>
          { audit with
            derived := ⟨next.rightsOf pid id, state.rightsOf pid handle⟩ :: audit.derived }
      | some .processManager, .ProcessManager (.Spawn op), _ =>
          { audit with derived := state.spawnDerivations pid op answers ++ audit.derived }
      | _, _, _ => audit
  | _ => audit

/-- Any processes making handle operations; `allowed` restricts which. -/
def system (allowed : State × Audit → Nat × Operation → Prop) :
    Machine (State × Audit) (Nat × Operation) InvocationError where
  step now event := match now.1.perform event.1 event.2 with
    | .ok (_, next) => .ok (next, now.2.record now.1 next event.1 event.2)
    | .error _ => .ok now
  permitted := allowed

/-- Operations that attenuate: a lookup that finds a name goes through a directory handle with no
more rights than the name was linked with, and `GetVmo` through a handle with all rights. -/
def Attenuates (now : State × Audit) : Nat × Operation → Prop
  | (pid, .invoke handle invocation answers) =>
      match ((now.1.tables pid).get handle).map HandleEntry.object, invocation,
          answers.filename with
      | some (.directory dir), .Directory (.Lookup ..), .ok name =>
          (now.1.rightsOf pid handle).contains invocation.requiredRights = true →
            (now.1.tree dir name).isSome = true →
            (now.2.linked dir name).contains ((now.1.rightsOf pid handle).mask .all) = true
      | some (.ext2File _), .File .GetVmo, _ =>
          (now.1.rightsOf pid handle).contains invocation.requiredRights = true →
            (now.1.rightsOf pid handle).contains .all = true
      | _, _, _ => True
  | _ => True

/-- No handle derived so far has more rights than it may have. -/
def NeverGrow (audit : Audit) : Prop :=
  ∀ derivation ∈ audit.derived, derivation.limit.contains derivation.rights = true

section Steps

variable {state next : State} {pid : Nat}

theorem rightsOf_of_entry {handle : HandleID} {entry : HandleEntry Object}
    (found : (state.tables pid).entries handle = some entry) :
    state.rightsOf pid handle = entry.rights := by
  rw [State.rightsOf, HandleTable.get, found]

/-- A handle is found with the rights it was inserted with. -/
theorem rightsOf_insert (state : State) (pid : Nat) (object : Object) (rights : AccessRights) :
    (state.insert pid object rights).2.rightsOf pid (state.tables pid).nextId = rights := by
  simp [State.insert, State.setTable, State.rightsOf, HandleTable.insert, HandleTable.get]

theorem rightsOf_create (state : State) (pid : Nat) (object : Nat → Object)
    (rights : AccessRights) :
    (state.create pid object rights).2.rightsOf pid (state.tables pid).nextId = rights :=
  rightsOf_insert { state with nextObject := state.nextObject + 1 } pid _ rights

/-- A handle that resolves has the rights it was resolved with. -/
theorem contains_of_resolve {handle : HandleID} {rights : AccessRights} {object : Object}
    (resolve_eq : (state.tables pid).resolve handle rights = .ok object) :
    (state.rightsOf pid handle).contains rights = true := by
  obtain ⟨entry, entry_eq, -⟩ := bind_eq_ok.mp resolve_eq
  obtain ⟨found, enough⟩ := HandleTable.resolveEntry_ok entry_eq
  rw [rightsOf_of_entry found]
  exact enough

/-- Every grant of a successful `Spawn` resolved in the parent. -/
theorem grantHandles_contains {child table : HandleTable Object} {grants : List HandleGrant}
    (grant_eq : State.grantHandles (state.tables pid) child grants = .ok table) :
    ∀ grant ∈ grants, (state.rightsOf pid grant.id).contains grant.rights = true := by
  induction grants generalizing child with
  | nil => simp
  | cons first grants ih =>
      rw [State.grantHandles] at grant_eq
      split at grant_eq
      next object resolve_eq =>
        intro grant mem
        rcases List.mem_cons.mp mem with rfl | later
        · exact contains_of_resolve resolve_eq
        · exact ih grant_eq grant later
      next => cases grant_eq

/-- The handles given to a child have no more rights than those of the parent. -/
theorem spawnDerivations_contains {op : Spawn} {answers : Answers} {table : HandleTable Object}
    (child_eq : State.childTable (state.tables pid) op answers = .ok table) :
    ∀ derivation ∈ state.spawnDerivations pid op answers,
      derivation.limit.contains derivation.rights = true := by
  have given (handle : HandleID) (rights : AccessRights) (derivation : Derivation)
      (mem : derivation ∈ if ((state.tables pid).resolve handle rights).isOk then
        [(⟨rights, state.rightsOf pid handle⟩ : Derivation)] else []) :
      derivation.limit.contains derivation.rights = true := by
    cases resolve_eq : (state.tables pid).resolve handle rights with
    | ok object =>
        rw [resolve_eq] at mem
        obtain rfl := List.mem_singleton.mp mem
        exact contains_of_resolve resolve_eq
    | error problem =>
        rw [resolve_eq] at mem
        cases mem
  obtain ⟨root, root_eq, rest_eq⟩ := bind_eq_ok.mp child_eq
  intro derivation mem
  simp only [State.spawnDerivations, List.cons_append, List.mem_cons, List.mem_append] at mem
  rcases mem with rfl | (source | sink) | granted
  · exact contains_of_resolve root_eq
  · exact given _ _ derivation source
  · exact given _ _ derivation sink
  · obtain ⟨grant, grant_mem, rfl⟩ := List.mem_map.mp granted
    dsimp only at rest_eq
    by_cases some_grants : op.extraHandlesLen > 0
    · rw [if_pos some_grants] at rest_eq
      obtain ⟨grants, grants_eq, moved_eq⟩ := bind_eq_ok.mp rest_eq
      simp only [grants_eq, if_pos some_grants] at grant_mem
      exact grantHandles_contains moved_eq grant grant_mem
    · cases grants_eq : answers.grants <;> simp [grants_eq, some_grants] at grant_mem

/-- A lookup finds its name and hands out the rights of the directory handle. -/
theorem lookup_rights {dir value : Nat} {rights : AccessRights} {answers : Answers} {name : String}
    (name_eq : answers.filename = .ok name)
    (lookup_eq : state.lookup pid dir rights answers = .ok (value, next)) :
    (state.tree dir name).isSome = true ∧
      next.rightsOf pid (state.tables pid).nextId = rights.mask .all := by
  rw [State.lookup, name_eq] at lookup_eq
  change (match state.tree dir name with
    | none => .error .PathNotFound
    | some object => .ok (state.insert pid object (rights.mask .all))) =
      Except.ok (ε := InvocationError) (value, next) at lookup_eq
  split at lookup_eq
  next => cases lookup_eq
  next object found =>
    obtain rfl : (state.insert pid object (rights.mask .all)).2 = next :=
      congrArg Prod.snd (Except.ok.inj lookup_eq)
    exact ⟨by rw [found]; rfl, rightsOf_insert state pid object _⟩

theorem spawn_child {value : Nat} {rights : AccessRights} {op : Spawn} {answers : Answers}
    (spawn_eq : state.spawn pid rights op answers = .ok (value, next)) :
    ∃ table, State.childTable (state.tables pid) op answers = .ok table := by
  rw [State.spawn] at spawn_eq
  split at spawn_eq
  · cases spawn_eq
  · obtain ⟨table, child_eq, -⟩ := bind_eq_ok.mp spawn_eq
    exact ⟨table, child_eq⟩

/-- One successful operation that attenuates derives no handle with too many rights. -/
theorem NeverGrow.record {audit : Audit} {operation : Operation} {value : Nat}
    (good : NeverGrow audit) (attenuates : Attenuates (state, audit) (pid, operation))
    (perform_eq : state.perform pid operation = .ok (value, next)) :
    NeverGrow (audit.record state next pid operation) := by
  have push {rights limit : AccessRights} (enough : limit.contains rights = true) :
      NeverGrow { audit with derived := ⟨rights, limit⟩ :: audit.derived } := by
    intro derivation mem
    rcases List.mem_cons.mp mem with rfl | older
    · exact enough
    · exact good derivation older
  cases operation with
  | close handle => exact good
  | register object rights => exact good
  | duplicate handle requestedRights =>
      obtain ⟨⟨id, table⟩, duplicate_eq, result_eq⟩ := bind_eq_ok.mp perform_eq
      rw [HandleTable.duplicate] at duplicate_eq
      split at duplicate_eq
      next => cases duplicate_eq
      next entry found =>
        split at duplicate_eq
        next enough =>
          cases duplicate_eq
          cases result_eq
          refine push ?_
          rw [rightsOf_of_entry found]
          exact (congrArg entry.rights.contains
            (rightsOf_insert state pid entry.object requestedRights)).trans enough
        next => cases duplicate_eq
  | invoke handle invocation answers =>
      obtain ⟨entry, entry_eq, invoke_eq⟩ := bind_eq_ok.mp perform_eq
      obtain ⟨found, enough⟩ := HandleTable.resolveEntry_ok entry_eq
      simp only [Attenuates, HandleTable.get, found, Option.map_some,
        rightsOf_of_entry found] at attenuates
      simp only [Audit.record, HandleTable.get, found, Option.map_some, rightsOf_of_entry found]
      split
      next => exact good
      next _ _ _ dir _ _ name object_eq name_eq =>
        obtain object_eq := Option.some.inj object_eq
        simp only [State.invoke, object_eq] at invoke_eq
        simp only [object_eq, name_eq] at attenuates
        obtain ⟨has_name, rights_eq⟩ := lookup_rights name_eq invoke_eq
        rw [rights_eq]
        exact push (attenuates enough has_name)
      next _ _ _ id object_eq =>
        obtain object_eq := Option.some.inj object_eq
        simp only [State.invoke, object_eq] at invoke_eq
        simp only [object_eq] at attenuates
        obtain rfl : (state.create pid .vmo .all).2 = next :=
          congrArg Prod.snd (Except.ok.inj invoke_eq)
        rw [rightsOf_create]
        exact push (attenuates enough)
      next _ _ _ op object_eq =>
        obtain object_eq := Option.some.inj object_eq
        simp only [State.invoke, object_eq] at invoke_eq
        obtain ⟨table, child_eq⟩ := spawn_child invoke_eq
        intro derivation mem
        rcases List.mem_append.mp mem with new | older
        · exact spawnDerivations_contains child_eq derivation new
        · exact good derivation older
      next => exact good

end Steps

/-- **Rights never grow.** In every run of handle operations that attenuate, every handle derived
by a lookup, by `GetVmo`, by duplicating or as a grant has rights contained in those of the handle
it came from or was linked through. -/
theorem rights_never_grow {linked : Nat → String → AccessRights}
    {operations : List (Nat × Operation)} {final : State × Audit}
    (attenuates : (system Attenuates).Permits (State.boot, ⟨linked, []⟩) operations)
    (run_eq : (system Attenuates).run (State.boot, ⟨linked, []⟩) operations = .ok final) :
    NeverGrow final.2 := by
  have keeps (now : State × Audit) (event : Nat × Operation) (next : State × Audit)
      (good : NeverGrow now.2) (allowed : Attenuates now event)
      (step_eq : (system Attenuates).step now event = .ok next) : NeverGrow next.2 := by
    obtain ⟨state, audit⟩ := now
    obtain ⟨pid, operation⟩ := event
    cases perform_eq : state.perform pid operation with
    | error problem =>
        simp only [system, perform_eq] at step_eq
        cases step_eq
        exact good
    | ok result =>
        simp only [system, perform_eq] at step_eq
        cases step_eq
        exact good.record allowed perform_eq
  have start : NeverGrow (State.boot, (⟨linked, []⟩ : Audit)).2 := by simp [NeverGrow]
  exact (system Attenuates).run_keeps keeps start attenuates run_eq

/-- Answers to an operation on the name `"f"`. -/
def named : Answers := ⟨.ok "f", .ok false, .ok [], .ok (), .ok 0⟩

/-- A file is linked in a directory and looked up through another handle of the directory. -/
def linkAndLookup (directoryRights fileRights : AccessRights) : List (Nat × Operation) :=
  [(1, .register (.directory 0) (.insert .READ .WRITE)),
    (1, .register (.directory 0) directoryRights), (1, .register (.ext2File 0) fileRights),
    (1, .invoke 1 (.Directory (.Link 0x1000 1 3)) named),
    (1, .invoke 2 (.Directory (.Lookup 0x1000 1)) named)]

/-- A read-only file looked up through a read-only handle is held read-only. -/
theorem rights_never_grow_read_only : ∃ final,
    (system Attenuates).run (State.boot, ⟨fun _ _ => .new, []⟩) (linkAndLookup .READ .READ) =
      .ok final ∧
    final.2.derived = [⟨.READ, .READ⟩] ∧ NeverGrow final.2 := by
  have attenuates : (system Attenuates).Permits (State.boot, ⟨fun _ _ => .new, []⟩)
      (linkAndLookup .READ .READ) := by
    refine (system Attenuates).permits_cons trivial rfl ?_
    refine (system Attenuates).permits_cons trivial rfl ?_
    refine (system Attenuates).permits_cons trivial rfl ?_
    refine (system Attenuates).permits_cons trivial rfl ?_
    refine (system Attenuates).permits_cons ?_ rfl trivial
    exact fun _ _ => rfl
  exact ⟨_, rfl, by decide, rights_never_grow attenuates rfl⟩

/-- A read-only file looked up through a directory handle with all rights is held with all rights,
and so is the memory object of a read-only file. -/
theorem rights_grow :
    (∃ final, (system fun _ _ => True).run (State.boot, ⟨fun _ _ => .new, []⟩)
        (linkAndLookup .all .READ) = .ok final ∧
      final.2.derived = [⟨.all, .READ⟩] ∧ ¬NeverGrow final.2) ∧
    ∃ final, (system fun _ _ => True).run (State.boot, ⟨fun _ _ => .new, []⟩)
        [(1, .register (.ext2File 0) .READ), (1, .invoke 1 (.File .GetVmo) named)] = .ok final ∧
      final.2.derived = [⟨.all, .READ⟩] ∧ ¬NeverGrow final.2 := by
  have exceeds {audit : Audit} (derived_eq : audit.derived = [⟨.all, .READ⟩]) :
      ¬NeverGrow audit := by
    intro good
    have contained := good ⟨.all, .READ⟩ (by simp [derived_eq])
    exact absurd contained (by decide)
  exact ⟨⟨_, rfl, by decide, exceeds (by decide)⟩, ⟨_, rfl, by decide, exceeds (by decide)⟩⟩

end Capabilities
end Vespertine
