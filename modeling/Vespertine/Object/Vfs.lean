import Vespertine.Drivers.FileReads
import Vespertine.Object.Handle

/-!
# The tree of directories

Objects are reached through handles and through the names of directories.  `kernel_walk` looks up
the parts of a path one after the other with a handle for each, of which it closes all but the last;
`mount_kernel_dir` links an object into a directory.

References to objects are places in the list of all objects that have been made.  Names are given as
the characters of a `str`, which Rust passes by pointer and length.
-/

namespace Vespertine
namespace Vfs

/-- The characters of a `str`. -/
abbrev Text := List Char

/-- The length of a `str`. -/
def byteLen (text : Text) : Nat := (String.ofList text).utf8ByteSize

/-- Objects of the tree; a directory maps names to objects. -/
inductive KernelObject
  | directory (tree : Text → Option Nat)
  | file (file : FileReads.FileObj)
  | other

/-- The handles of the current process and the objects of the kernel. -/
structure World where
  table : HandleTable Nat
  objects : List KernelObject

/-- `Filename::new`; the bytes of a `str` are valid UTF-8. -/
def newFilename (name : Text) : Except InvocationError Text :=
  if byteLen name > 254 then .error .NameTooLong else .ok name

/-- `DirectoryOp`, with the name in place of its pointer. -/
inductive DirectoryRequest
  | link (name : Text) (handleId : HandleID)
  | lookup (name : Text)

/-- `required_rights`. -/
def DirectoryRequest.requiredRights : DirectoryRequest → AccessRights
  | .link _ handleId => (Invocation.Directory (.Link 0 0 handleId)).requiredRights
  | .lookup _ => (Invocation.Directory (.Lookup 0 0)).requiredRights

namespace World

/-- `Directory::link`. -/
def link (world : World) (directory : Nat) (tree : Text → Option Nat) (name : Text)
    (handleId : HandleID) : Except InvocationError Nat × World :=
  match newFilename name with
  | .error problem => (.error problem, world)
  | .ok filename =>
      match world.table.get handleId with
      | none => (.error .InvalidHandle, world)
      | some entry =>
          let tree := Function.update tree filename (some entry.object)
          (.ok 0, { world with objects := world.objects.set directory (.directory tree) })

/-- `Directory::lookup`. -/
def lookup (world : World) (tree : Text → Option Nat) (name : Text) (callingRights : AccessRights) :
    Except InvocationError Nat × World :=
  match newFilename name with
  | .error problem => (.error problem, world)
  | .ok filename =>
      match tree filename with
      | none => (.error .PathNotFound, world)
      | some object =>
          let rights := callingRights.mask .all
          let (handleId, table) := world.table.insert object rights
          (.ok handleId, { world with table })

/-- `kernel_invoke` of a directory operation. -/
def kernelInvoke (world : World) (handle : HandleID) (request : DirectoryRequest) :
    Except InvocationError Nat × World :=
  match world.table.resolveEntry handle request.requiredRights with
  | .error problem => (.error problem, world)
  | .ok entry =>
      match world.objects[entry.object]? with
      | some (.directory tree) =>
          match request with
          | .link name handleId => world.link entry.object tree name handleId
          | .lookup name => world.lookup tree name entry.rights
      | _ => (.error .UnsupportedOperation, world)

/-- `kernel_close`, with its result dropped. -/
def kernelClose (world : World) (handle : HandleID) : World :=
  match world.table.close handle with
  | .ok table => { world with table }
  | .error _ => world

/-- The loop of `kernel_walk`. -/
def walkLoop (start : HandleID) :
    List Text → (last : HandleID) → World → Except InvocationError HandleID × World
  | [], last, world => (.ok last, world)
  | dir :: dirs, last, world =>
      if dir = [] ∨ dir = ['.'] ∨ dir = ['.', '.'] then
        walkLoop start dirs last world
      else
        match world.kernelInvoke last (.lookup dir) with
        | (.error problem, world) => (.error problem, world)
        | (.ok next, world) =>
            walkLoop start dirs next (if last ≠ start then world.kernelClose last else world)

/-- `kernel_walk`. -/
def kernelWalk (world : World) (path : Text) (handle : HandleID) :
    Except InvocationError HandleID × World :=
  let dirs := path.splitOn '/'
  let start := if dirs.head? = some [] then 0 else handle
  walkLoop start dirs start world

end World

/-! ## Names and objects -/

/-- The parts of a path that are looked up. -/
def IsName (dir : Text) : Prop := ¬(dir = [] ∨ dir = ['.'] ∨ dir = ['.', '.'])

instance (dir : Text) : Decidable (IsName dir) := inferInstanceAs (Decidable ¬_)

/-- The object that a name leads to from an object. -/
def child (objects : List KernelObject) (object : Nat) (name : Text) : Option Nat :=
  match objects[object]? with
  | some (.directory tree) => tree name
  | _ => none

/-- The object that names lead to from an object. -/
def resolve (objects : List KernelObject) : (object : Nat) → List Text → Option Nat
  | object, [] => some object
  | object, name :: names => (child objects object name).bind fun next => resolve objects next names

theorem resolve_append {objects : List KernelObject} {object : Nat} (front back : List Text) :
    resolve objects object (front ++ back) =
      (resolve objects object front).bind fun next => resolve objects next back := by
  induction front generalizing object with
  | nil => rfl
  | cons name front ih =>
      rw [List.cons_append, resolve, resolve]
      cases child objects object name with
      | none => rfl
      | some next => exact ih

/-! ## Handles -/

/-- Rights that suffice to look up and to link names. -/
def Usable (rights : AccessRights) : Prop :=
  rights.contains .READ = true ∧ rights.contains .WRITE = true

theorem Usable.mask {rights : AccessRights} (usable : Usable rights) :
    Usable (rights.mask .all) := by
  obtain ⟨bits⟩ := rights
  revert usable
  revert bits
  unfold Usable
  decide

/-- Numbers from the next one on are free, and there is room for some more. -/
structure Fresh (table : HandleTable Nat) (count : Nat) : Prop where
  positive : 0 < table.nextId
  free : ∀ id, table.nextId ≤ id → table.entries id = none
  room : table.nextId + count < wordSize

/-- Beside the entries of the caller there is one handle to an object, or it is the caller's handle
to the root. -/
structure Holds (entries : HandleID → Option (HandleEntry Nat)) (world : World) (handle : HandleID)
    (object : Nat) : Prop where
  below : handle < world.table.nextId
  entry : ∃ rights, Usable rights ∧ world.table.entries handle = some ⟨rights, object⟩
  own : handle ≠ 0 → entries handle = none
  others : ∀ id, id ≠ handle → world.table.entries id = entries id
  root : handle = 0 → world.table.entries 0 = entries 0

section Walk

variable {entries : HandleID → Option (HandleEntry Nat)} {world : World} {handle : HandleID}
  {object : Nat} {name : Text}

/-- Close a handle that is not the root's. -/
def World.release (world : World) (handle : HandleID) : World :=
  if handle ≠ 0 then world.kernelClose handle else world

theorem kernelClose_nextId (world : World) (handle : HandleID) :
    (world.kernelClose handle).table.nextId = world.table.nextId := by
  rw [World.kernelClose, HandleTable.close]
  split
  next close_eq =>
    split at close_eq
    next => cases close_eq; rfl
    next => cases close_eq
  next => rfl

theorem kernelClose_entries (world : World) (handle : HandleID) :
    (world.kernelClose handle).table.entries =
      Function.update world.table.entries handle none := by
  rw [World.kernelClose, HandleTable.close]
  split
  next close_eq =>
    split at close_eq
    next => cases close_eq; rfl
    next => cases close_eq
  next close_eq =>
    split at close_eq
    next => cases close_eq
    next absent => exact (Function.update_eq_self_iff.mpr absent.symm).symm

@[simp] theorem release_nextId (world : World) (handle : HandleID) :
    (world.release handle).table.nextId = world.table.nextId := by
  rw [World.release]
  split
  next => exact kernelClose_nextId world handle
  next => rfl

theorem release_entries (world : World) (handle id : HandleID) :
    (world.release handle).table.entries id =
      if handle ≠ 0 ∧ id = handle then none else world.table.entries id := by
  rw [World.release]
  split
  next ne =>
    rw [kernelClose_entries]
    by_cases same : id = handle
    · rw [if_pos ⟨ne, same⟩, same, Function.update_self]
    · rw [if_neg fun both => same both.2, Function.update_of_ne same]
  next eq => rw [if_neg fun both => eq both.1]

theorem Fresh.kernelClose {count : Nat} (fresh : Fresh world.table count) (handle : HandleID) :
    Fresh (world.kernelClose handle).table count := by
  constructor
  · rw [kernelClose_nextId]
    exact fresh.positive
  · intro id le
    rw [kernelClose_nextId] at le
    rw [kernelClose_entries]
    by_cases same : id = handle
    · rw [same, Function.update_self]
    · rw [Function.update_of_ne same]
      exact fresh.free id le
  · rw [kernelClose_nextId]
    exact fresh.room

theorem Fresh.release {count : Nat} (fresh : Fresh world.table count) (handle : HandleID) :
    Fresh (world.release handle).table count := by
  rw [World.release]
  split
  next => exact fresh.kernelClose handle
  next => exact fresh

theorem Fresh.insert {table : HandleTable Nat} {count : Nat} (fresh : Fresh table (count + 1))
    (object : Nat) (rights : AccessRights) : Fresh (table.insert object rights).2 count := by
  have room := fresh.room
  have next_eq : (table.insert object rights).2.nextId = table.nextId + 1 :=
    wrappingAdd_of_lt (by omega)
  constructor
  · omega
  · intro id le
    have ne : id ≠ table.nextId := by omega
    exact (Function.update_of_ne ne _ _).trans (fresh.free id (by omega))
  · omega

/-- Closing the handle leaves the entries of the caller. -/
theorem Holds.release (holds : Holds entries world handle object) :
    (world.release handle).table.entries = entries := by
  funext id
  rw [release_entries]
  split
  next both => rw [both.2, holds.own both.1]
  next neither =>
    by_cases same : id = handle
    · by_cases zero : handle = 0
      · rw [same, zero, holds.root zero]
      · exact absurd ⟨zero, same⟩ neither
    · exact holds.others id same

/-- The directory that a handle leads to. -/
theorem Holds.kernelInvoke {tree : Text → Option Nat} {request : DirectoryRequest}
    (holds : Holds entries world handle object)
    (object_eq : world.objects[object]? = some (.directory tree)) :
    ∃ rights, Usable rights ∧ world.kernelInvoke handle request = match request with
      | .link name handleId => world.link object tree name handleId
      | .lookup name => world.lookup tree name rights := by
  obtain ⟨rights, usable, entry_eq⟩ := holds.entry
  have enough : rights.contains request.requiredRights = true := by
    cases request with
    | link name handleId => exact usable.2
    | lookup name => exact usable.1
  refine ⟨rights, usable, ?_⟩
  rw [World.kernelInvoke, HandleTable.resolveEntry, entry_eq]
  simp only [enough, if_true, object_eq]

/-- Looking up a name exchanges the handle for one to the object of that name. -/
theorem Holds.lookup {next count : Nat} (holds : Holds entries world handle object)
    (fresh : Fresh world.table (count + 1)) (short : byteLen name ≤ 254)
    (found : child world.objects object name = some next) :
    ∃ handle' world', world.kernelInvoke handle (.lookup name) = (.ok handle', world') ∧
      Holds entries (world'.release handle) handle' next ∧ Fresh world'.table count ∧
      world'.objects = world.objects := by
  rw [child] at found
  split at found
  next tree object_eq =>
    obtain ⟨rights, usable, invoke_eq⟩ :=
      @Holds.kernelInvoke _ _ _ _ _ (.lookup name) holds object_eq
    have below := holds.below
    have next_eq : wrappingAdd world.table.nextId 1 = world.table.nextId + 1 :=
      wrappingAdd_of_lt (by have room := fresh.room; omega)
    have inserted := fresh.insert next (rights.mask .all)
    refine ⟨world.table.nextId,
      { world with table := (world.table.insert next (rights.mask .all)).2 }, ?_, ?_, inserted, rfl⟩
    · rw [invoke_eq]
      simp only [World.lookup, newFilename, if_neg (Nat.not_lt.mpr short), found]
      rfl
    · have ne : handle ≠ world.table.nextId := Nat.ne_of_lt below
      constructor
      · rw [release_nextId]
        exact (Nat.lt_succ_self _).trans_eq next_eq.symm
      · refine ⟨rights.mask .all, usable.mask, ?_⟩
        rw [release_entries, if_neg fun both => ne both.2.symm]
        exact Function.update_self world.table.nextId _ _
      · intro _
        rw [← holds.others world.table.nextId ne.symm]
        exact fresh.free _ le_rfl
      · intro id other
        rw [release_entries]
        split
        next both => rw [both.2, holds.own both.1]
        next neither =>
          refine (Function.update_of_ne other _ _).trans ?_
          by_cases same : id = handle
          · by_cases zero : handle = 0
            · rw [same, zero, holds.root zero]
            · exact absurd ⟨zero, same⟩ neither
          · exact holds.others id same
      · exact fun zero => absurd zero (Nat.ne_of_gt fresh.positive)
  next => cases found

end Walk

end Vfs
end Vespertine
