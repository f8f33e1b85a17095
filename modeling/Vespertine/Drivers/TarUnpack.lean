import Vespertine.Drivers.Tar

/-!
# The unpacked tree

Each entry of an archive is walked to, linked and released again.  Between the entries the caller
has its handles back, the names of the entries so far lead to their objects, and the directories of
the archive have no other names.
-/

namespace Vespertine
namespace Tar

open Vfs

/-! ## Mounting an entry -/

section Mount

variable {entries : HandleID → Option (HandleEntry Nat)} {world : World} {parentHandle : HandleID}
  {object : Nat} {name : Text} {count : Nat}

end Mount

/-! ## Unpacking -/

/-- The names of a directory of the archive, or of the root. -/
def IsDirectory (done : List Entry) (dirs : List Text) : Prop :=
  dirs = [] ∨ ∃ entry ∈ done, entry.names = dirs ∧ entry.kind = .directory

/-- The tree after some entries: `ids` gives the objects of the root and of their names. -/
structure Unpacked (root : Nat) (rootTree : Text → Option Nat) (done : List Entry)
    (objects : List KernelObject) (ids : List Text → Option Nat) : Prop where
  root_id : ids [] = some root
  known : ∀ names, ids names ≠ none → names = [] ∨ ∃ entry ∈ done, entry.names = names
  bounded : ∀ names object, ids names = some object → object < objects.length
  injective : ∀ left right object, ids left = some object → ids right = some object → left = right
  closed : ∀ dirs name, ids (dirs ++ [name]) ≠ none → IsDirectory done dirs
  /-- A directory has the names of the archive, and the root those that it had before. -/
  directory : ∀ dirs, IsDirectory done dirs → ∃ object tree, ids dirs = some object ∧
    objects[object]? = some (.directory tree) ∧
    ∀ name, tree name = (ids (dirs ++ [name])).or (if dirs = [] then rootTree name else none)
  file : ∀ entry ∈ done, ∀ contents, entry.kind = .regular contents →
    ∃ object, ids entry.names = some object ∧ objects[object]? = some (.file ⟨contents⟩)

section Unpacking

variable {root : Nat} {rootTree : Text → Option Nat} {done : List Entry}
  {objects : List KernelObject} {ids : List Text → Option Nat}

theorem IsDirectory.append {dirs : List Text} (isDirectory : IsDirectory done dirs)
    (later : List Entry) : IsDirectory (done ++ later) dirs :=
  isDirectory.imp id fun ⟨entry, mem, named⟩ => ⟨entry, List.mem_append_left later mem, named⟩

/-- The names lead to their object. -/
theorem Unpacked.resolve (unpacked : Unpacked root rootTree done objects ids) {names : List Text}
    {object : Nat} (id_eq : ids names = some object) :
    resolve objects root names = some object := by
  induction names using List.reverseRecOn generalizing object with
  | nil => exact unpacked.root_id.symm.trans id_eq
  | append_singleton dirs name ih =>
      obtain ⟨parent, tree, parent_eq, object_eq, tree_eq⟩ := unpacked.directory dirs
        (unpacked.closed dirs name (by rw [id_eq]; exact Option.some_ne_none _))
      have name_eq := tree_eq name
      rw [id_eq, Option.some_or] at name_eq
      rw [resolve_append, ih parent_eq, Option.bind_some, Vfs.resolve, child, object_eq]
      simp only [name_eq]
      rfl

theorem Unpacked.initial (object_eq : objects[root]? = some (.directory rootTree)) :
    Unpacked root rootTree [] objects fun names => if names = [] then some root else none := by
  have inside : root < objects.length := (List.getElem?_eq_some_iff.mp object_eq).1
  constructor
  · rfl
  · intro names known
    by_contra unknown
    exact known (if_neg fun empty => unknown (.inl empty))
  · intro names object id_eq
    split at id_eq
    next => cases id_eq; exact inside
    next => cases id_eq
  · intro left right object left_eq right_eq
    split at left_eq
    next left_empty =>
      split at right_eq
      next right_empty => rw [left_empty, right_empty]
      next => cases right_eq
    next => cases left_eq
  · intro dirs name known
    exact absurd (if_neg (by simp)) known
  · rintro dirs (rfl | ⟨entry, mem, -⟩)
    · exact ⟨root, rootTree, rfl, object_eq, fun name => by simp⟩
    · cases mem
  · intro entry mem
    cases mem

section Entered

variable {entry : Entry} {dirs : List Text} {name : Text} {parent : Nat} {tree : Text → Option Nat}

/-- The objects when an entry has been linked. -/
def entered (objects : List KernelObject) (parent : Nat) (tree : Text → Option Nat) (name : Text)
    (entry : Entry) : List KernelObject :=
  (objects ++ [entry.kind.object]).set parent
    (.directory (Function.update tree name (some objects.length)))

end Entered

end Unpacking

section Run

variable {entries : HandleID → Option (HandleEntry Nat)} {rights : AccessRights} {root : Nat}
  {rootTree : Text → Option Nat}

end Run

/-- What a walk of an entry's path finds: a directory that the archive has put nothing else into, or
a file of the entry's bytes. -/
def Finds (entries : List Entry) (rootTree : Text → Option Nat) (entry : Entry)
    (object : KernelObject) : Prop :=
  match entry.kind with
  | .directory => ∃ tree, object = .directory tree ∧
      ∀ name, (∀ other ∈ entries, other.names ≠ entry.names ++ [name]) →
        tree name = if entry.names = [] then rootTree name else none
  | .regular contents => object = .file ⟨contents⟩

/-- The record that a writer makes of an entry, with the octal digits of its size. -/
def encode (entry : Entry) (digits : List (Fin 8)) : List UInt8 :=
  let name := utf8 entry.path
  let size := utf8 (digits.map octalDigit)
  let typeflag : UInt8 := match entry.kind with
    | .directory => 0x35
    | .regular _ => 0x30
  let count := entry.kind.data.length
  (name ++ List.replicate (100 - name.length) 0) ++ (List.replicate 24 0x30 ++
    ((size ++ List.replicate (12 - size.length) 0) ++ (List.replicate 20 0x30 ++
      (typeflag :: (List.replicate 355 0 ++ (entry.kind.data ++
        List.replicate ((count + 511) / 512 * 512 - count) 0))))))

/-- A directory. -/
def dirEntry : Entry := ⟨['.', '/', 'd', '/'], [['d']], .directory⟩

end Tar
end Vespertine
