import Mathlib.Logic.Function.Basic
import Vespertine.Object.Abi

/-!
# Handle tables

A process reaches kernel objects through the numbered entries of its handle table.  An entry holds
a reference to an object and the rights with which the process holds it.  The table is generic in
the type of references.
-/

namespace Vespertine

/-- An object and the rights it is held with. -/
structure HandleEntry (ω : Type) where
  rights : AccessRights
  object : ω
deriving DecidableEq, Repr

/-- The handles of one process. -/
structure HandleTable (ω : Type) where
  entries : HandleID → Option (HandleEntry ω)
  nextId : Nat

namespace HandleTable

variable {ω : Type}

/-- A table without handles; numbers start at 1. -/
def new : HandleTable ω := ⟨fun _ => none, 1⟩

/-- Add an object under the next number. -/
def insert (table : HandleTable ω) (object : ω) (rights : AccessRights) :
    HandleID × HandleTable ω :=
  (table.nextId,
    ⟨Function.update table.entries table.nextId (some ⟨rights, object⟩),
      wrappingAdd table.nextId 1⟩)

/-- Put an object under a given number. -/
def insertAt (table : HandleTable ω) (id : HandleID) (object : ω) (rights : AccessRights) :
    HandleTable ω :=
  ⟨Function.update table.entries id (some ⟨rights, object⟩),
    if id ≥ table.nextId then wrappingAdd id 1 else table.nextId⟩

/-- The entry under a number. -/
def get (table : HandleTable ω) (id : HandleID) : Option (HandleEntry ω) := table.entries id

/-- Remove an entry. -/
def close (table : HandleTable ω) (id : HandleID) : Except InvocationError (HandleTable ω) :=
  match table.entries id with
  | some _ => .ok { table with entries := Function.update table.entries id none }
  | none => .error .InvalidHandle

/-- The entry under a number, if it has the required rights. -/
def resolveEntry (table : HandleTable ω) (id : HandleID) (required : AccessRights) :
    Except InvocationError (HandleEntry ω) :=
  match table.entries id with
  | none => .error .InvalidHandle
  | some entry => if entry.rights.contains required then .ok entry else .error .AccessDenied

/-- The object under a number, if the entry has the required rights. -/
def resolve (table : HandleTable ω) (id : HandleID) (required : AccessRights) :
    Except InvocationError ω := do
  let entry ← table.resolveEntry id required
  return entry.object

/-- Add the object of an entry again, with fewer or the same rights. -/
def duplicate (table : HandleTable ω) (id : HandleID) (requestedRights : AccessRights) :
    Except InvocationError (HandleID × HandleTable ω) :=
  match table.entries id with
  | none => .error .InvalidHandle
  | some entry =>
      if entry.rights.contains requestedRights then
        .ok (table.insert entry.object requestedRights)
      else
        .error .AccessDenied

/-- A resolved entry is in the table and has the required rights. -/
theorem resolveEntry_ok {table : HandleTable ω} {id : HandleID} {required : AccessRights}
    {entry : HandleEntry ω} (resolve_eq : table.resolveEntry id required = .ok entry) :
    table.entries id = some entry ∧ entry.rights.contains required = true := by
  rw [resolveEntry] at resolve_eq
  split at resolve_eq
  next => cases resolve_eq
  next found found_eq =>
    split at resolve_eq
    next enough =>
      cases resolve_eq
      exact ⟨found_eq, enough⟩
    next => cases resolve_eq

end HandleTable
end Vespertine
