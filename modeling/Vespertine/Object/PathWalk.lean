import Vespertine.Object.Vfs

/-!
# Handles of a walk

What a walk along a path leaves in the handle table.  `kernel_walk` and `walk_path` open a handle
for each part of the path and close the one before it, unless that is the handle they started from.
When a lookup fails they return at once, with the handle of the last directory still open.

Directories are given by what they answer to a lookup, so that those of a file system on disk are
among them.
-/

namespace Vespertine
namespace PathWalk

open Vfs (Text IsName)

/-- What an object answers to `DirectoryOp::Lookup`, invoked with some rights: the object of the
name and the rights that its handle gets. -/
abbrev Tree (ω : Type) := ω → Text → AccessRights → Except InvocationError (ω × AccessRights)

/-- Errors of a system call; the numbers under which they are passed are the same on both sides. -/
inductive SysError
  | InvalidPointer
  | BadAddress
  | OutOfMemory
  | InvalidHandle
  | AccessDenied
  | InvalidArgument
  | UnsupportedOperation
  | BufferFull
  | WouldBlock
  | PoolExhausted
  | NameTooLong
  | InvalidEncoding
  | NotMapped
  | ThreadSpawnFail
deriving DecidableEq, Repr

/-- `from_invocation_err`. -/
def SysError.fromInvocationErr : InvocationError → SysError
  | .AccessDenied => .AccessDenied
  | .InvalidHandle => .InvalidHandle
  | .InvalidArgument => .InvalidArgument
  | .InvalidPointer => .InvalidPointer
  | .UnsupportedOperation => .UnsupportedOperation
  | .BufferFull => .BufferFull
  | .OutOfMemory => .OutOfMemory
  | .PathNotFound => .BadAddress
  | .WouldBlock => .WouldBlock
  | .PoolExhausted => .PoolExhausted
  | .NameTooLong => .NameTooLong
  | .InvalidEncoding => .InvalidEncoding
  | .NotMapped => .NotMapped
  | .ThreadSpawnFail => .ThreadSpawnFail

section Model

variable {ω : Type} (tree : Tree ω)

/-- `kernel_invoke` of a lookup. -/
def invokeLookup (table : HandleTable ω) (handle : HandleID) (name : Text) :
    Except InvocationError HandleID × HandleTable ω :=
  match table.resolveEntry handle (Vfs.DirectoryRequest.lookup name).requiredRights with
  | .error problem => (.error problem, table)
  | .ok entry =>
      match tree entry.object name entry.rights with
      | .error problem => (.error problem, table)
      | .ok (object, rights) => ((table.insert object rights).map .ok id)

/-- The loop of `kernel_walk`; the result of `kernel_close` is dropped. -/
def kernelWalkLoop (start : HandleID) : List Text → (last : HandleID) → HandleTable ω →
    Except InvocationError HandleID × HandleTable ω
  | [], last, table => (.ok last, table)
  | dir :: dirs, last, table =>
      if dir = [] ∨ dir = ['.'] ∨ dir = ['.', '.'] then
        kernelWalkLoop start dirs last table
      else
        match invokeLookup tree table last dir with
        | (.error problem, table) => (.error problem, table)
        | (.ok next, table) =>
            kernelWalkLoop start dirs next
              (if last ≠ start then (table.close last).toOption.getD table else table)

/-- `kernel_walk`. -/
def kernelWalk (table : HandleTable ω) (path : Text) (handle : HandleID) :
    Except InvocationError HandleID × HandleTable ω :=
  let dirs := path.splitOn '/'
  let start := if dirs.head? = some [] then 0 else handle
  kernelWalkLoop tree start dirs start table

/-- The loop of `walk_path`; an error of `sys_close` is returned. -/
def walkPathLoop (root : HandleID) : List Text → (current : HandleID) → HandleTable ω →
    Except SysError HandleID × HandleTable ω
  | [], current, table => (.ok current, table)
  | segment :: segments, current, table =>
      match invokeLookup tree table current segment with
      | (.error problem, table) => (.error (.fromInvocationErr problem), table)
      | (.ok next, table) =>
          if current ≠ root then
            match table.close current with
            | .error problem => (.error (.fromInvocationErr problem), table)
            | .ok table => walkPathLoop root segments next table
          else
            walkPathLoop root segments next table

/-- `walk_path`. -/
def walkPath (table : HandleTable ω) (path : Text) (root : HandleID) :
    Except SysError HandleID × HandleTable ω :=
  walkPathLoop tree root ((path.splitOn '/').filter (· ≠ [])) root table

/-- The loop over the names that are looked up. -/
def descend (start : HandleID) : List Text → (last : HandleID) → HandleTable ω →
    Except InvocationError HandleID × HandleTable ω
  | [], last, table => (.ok last, table)
  | name :: names, last, table =>
      match invokeLookup tree table last name with
      | (.error problem, table) => (.error problem, table)
      | (.ok next, table) =>
          descend start names next
            (if last ≠ start then (table.close last).toOption.getD table else table)

/-- The entry that a name leads to. -/
def look (entry : HandleEntry ω) (name : Text) : Option (HandleEntry ω) :=
  if entry.rights.contains (Vfs.DirectoryRequest.lookup name).requiredRights then
    (tree entry.object name entry.rights).toOption.map fun found => ⟨found.2, found.1⟩
  else
    none

/-- The entry that names lead to. -/
def follow : (entry : HandleEntry ω) → List Text → Option (HandleEntry ω)
  | entry, [] => some entry
  | entry, name :: names => (look tree entry name).bind fun next => follow next names

/-- If the first of the names can be looked up, then all of them can. -/
def AllOrNothing (table : HandleTable ω) (start : HandleID) (names : List Text) : Prop :=
  ∀ entry, table.entries start = some entry →
    (follow tree entry (names.take 1)).isSome → (follow tree entry names).isSome

/-- A walk adds the handle that it returns, if there are names at all, and else no handle. -/
def Neutral {ε : Type} (names : List Text) (before : HandleTable ω)
    (outcome : Except ε HandleID × HandleTable ω) : Prop :=
  match outcome.1 with
  | .ok handle =>
      if names = [] then
        outcome.2.entries = before.entries
      else
        before.entries handle = none ∧
          ∃ entry, outcome.2.entries = Function.update before.entries handle (some entry)
  | .error _ => outcome.2.entries = before.entries

/-- Numbers from the next one on are free, and there is room for some more. -/
structure Ahead (table : HandleTable ω) (count : Nat) : Prop where
  free : ∀ id, table.nextId ≤ id → table.entries id = none
  room : table.nextId + count < wordSize

/-- A handle is the one of the caller, or one beside those of the caller. -/
structure Held (start : HandleID) (entries : HandleID → Option (HandleEntry ω)) (last : HandleID)
    (table : HandleTable ω) (entry : HandleEntry ω) : Prop where
  here : table.entries last = some entry
  started : start < table.nextId
  own : last = start → table.entries = entries
  opened : last ≠ start →
    entries last = none ∧ table.entries = Function.update entries last (some entry)

end Model

/-! ## Lookups -/

section Lookups

variable {ω : Type} {tree : Tree ω} {table : HandleTable ω} {start last : HandleID}
  {entries : HandleID → Option (HandleEntry ω)} {entry : HandleEntry ω}

/-- A lookup adds the entry that the name leads to, or it fails. -/
theorem invokeLookup_cases (tree : Tree ω) (table : HandleTable ω) (handle : HandleID)
    (name : Text) :
    (∃ entry next, table.entries handle = some entry ∧ look tree entry name = some next ∧
      invokeLookup tree table handle name =
        (.ok table.nextId, (table.insert next.object next.rights).2)) ∨
    ((∀ entry, table.entries handle = some entry → look tree entry name = none) ∧
      ∃ problem, invokeLookup tree table handle name = (.error problem, table)) := by
  rw [invokeLookup, HandleTable.resolveEntry]
  cases entry_eq : table.entries handle with
  | none =>
      refine .inr ⟨?_, .InvalidHandle, rfl⟩
      intro entry absurd_eq
      cases absurd_eq
  | some entry =>
      by_cases enough :
          entry.rights.contains (Vfs.DirectoryRequest.lookup name).requiredRights = true
      · cases answer_eq : tree entry.object name entry.rights with
        | error problem =>
            refine .inr ⟨?_, problem, ?_⟩
            · rintro _ ⟨⟩
              rw [look, if_pos enough, answer_eq]
              rfl
            · simp only [enough, if_true, answer_eq]
        | ok found =>
            refine .inl ⟨entry, ⟨found.2, found.1⟩, rfl, ?_, ?_⟩
            · rw [look, if_pos enough, answer_eq]
              rfl
            · simp only [enough, if_true, answer_eq]
              rfl
      · refine .inr ⟨?_, .AccessDenied, ?_⟩
        · rintro _ ⟨⟩
          rw [look, if_neg enough]
        · simp only [enough, if_false, Bool.false_eq_true]

theorem Ahead.insert {count : Nat} (ahead : Ahead table (count + 1)) (next : HandleEntry ω) :
    (table.insert next.object next.rights).2.nextId = table.nextId + 1 ∧
      Ahead (table.insert next.object next.rights).2 count := by
  have room := ahead.room
  have next_eq : (table.insert next.object next.rights).2.nextId = table.nextId + 1 :=
    wrappingAdd_of_lt (by omega)
  refine ⟨next_eq, ?_, by omega⟩
  intro id le
  have ne : id ≠ table.nextId := by omega
  exact (Function.update_of_ne ne _ _).trans (ahead.free id (by omega))

/-- Close a handle that is not the one that the walk started from. -/
def release (start last : HandleID) (table : HandleTable ω) : HandleTable ω :=
  if last ≠ start then (table.close last).toOption.getD table else table

theorem close_toOption_getD (table : HandleTable ω) (handle : HandleID) :
    (table.close handle).toOption.getD table =
      { table with entries := Function.update table.entries handle none } := by
  rw [HandleTable.close]
  cases entry_eq : table.entries handle with
  | none =>
      have same : Function.update table.entries handle none = table.entries :=
        Function.update_eq_self_iff.mpr entry_eq.symm
      rw [same]
      rfl
  | some entry => rfl

theorem release_nextId (start last : HandleID) (table : HandleTable ω) :
    (release start last table).nextId = table.nextId := by
  rw [release, close_toOption_getD]
  split <;> rfl

theorem Ahead.release {count : Nat} (ahead : Ahead table count) (start last : HandleID) :
    Ahead (release start last table) count := by
  refine ⟨?_, (release_nextId start last table).symm ▸ ahead.room⟩
  intro id le
  rw [release_nextId] at le
  rw [PathWalk.release, close_toOption_getD]
  split
  next =>
    by_cases same : id = last
    · exact same ▸ Function.update_self id _ _
    · exact (Function.update_of_ne same _ _).trans (ahead.free id le)
  next => exact ahead.free id le

/-- After a lookup the walk holds the new handle in place of the one before. -/
theorem Held.insert {count : Nat} (held : Held start entries last table entry)
    (ahead : Ahead table (count + 1)) (next : HandleEntry ω) :
    Held start entries table.nextId
      (release start last (table.insert next.object next.rights).2) next := by
  have fresh := ahead.free table.nextId le_rfl
  have ne_start : table.nextId ≠ start := Nat.ne_of_gt held.started
  have ne_last : last ≠ table.nextId := by
    rintro rfl
    cases fresh.symm.trans held.here
  have inserted : (table.insert next.object next.rights).2.entries =
      Function.update table.entries table.nextId (some next) := rfl
  have shape : entries table.nextId = none ∧
      (release start last (table.insert next.object next.rights).2).entries =
        Function.update entries table.nextId (some next) := by
    rw [release, close_toOption_getD]
    split
    next ne =>
      obtain ⟨absent, table_eq⟩ := held.opened ne
      refine ⟨?_, ?_⟩
      · rwa [table_eq, Function.update_of_ne ne_last.symm] at fresh
      · change Function.update (table.insert next.object next.rights).2.entries last none = _
        rw [inserted, table_eq]
        refine (Function.update_comm ne_last.symm _ _ _).trans ?_
        have same : Function.update entries last none = entries :=
          Function.update_eq_self_iff.mpr absent.symm
        rw [Function.update_idem, same]
    next same =>
      rw [← held.own (not_not.mp same)]
      exact ⟨fresh, rfl⟩
  constructor
  · rw [shape.2, Function.update_self]
  · rw [release_nextId, (ahead.insert next).1]
    exact Nat.lt_succ_of_lt held.started
  · exact fun same => absurd same ne_start
  · exact fun _ => shape

/-- A handle that is left open is seen in the table. -/
theorem Held.entries_eq_iff (held : Held start entries last table entry) :
    table.entries = entries ↔ last = start := by
  constructor
  · intro same
    by_contra ne
    have absent := (held.opened ne).1
    rw [← same, held.here] at absent
    cases absent
  · exact held.own

end Lookups

/-! ## Loops -/

section Loops

variable {ω : Type} {tree : Tree ω} {table : HandleTable ω} {start last : HandleID}
  {entries : HandleID → Option (HandleEntry ω)} {entry : HandleEntry ω} {names : List Text}

/-- The loop returns a handle to what the names lead to.  When a name is not found, the handles are
the ones of the caller only if it was the first. -/
theorem descend_spec (held : Held start entries last table entry)
    (ahead : Ahead table names.length) :
    (∃ final handle after, follow tree entry names = some final ∧
      descend tree start names last table = (.ok handle, after) ∧
      Held start entries handle after final ∧
      (names = [] → after = table) ∧ (names ≠ [] → handle ≠ start)) ∨
    (follow tree entry names = none ∧
      ∃ problem after, descend tree start names last table = (.error problem, after) ∧
        (after.entries = entries ↔ last = start ∧ follow tree entry (names.take 1) = none)) := by
  induction names generalizing last table entry with
  | nil => exact .inl ⟨entry, last, table, rfl, rfl, held, fun _ => rfl, fun ne => absurd rfl ne⟩
  | cons name names ih =>
      have first_eq : follow tree entry ((name :: names).take 1) = look tree entry name := by
        rw [List.take_succ_cons, List.take_zero, follow]
        exact Option.bind_fun_some _
      rw [first_eq, follow, descend]
      obtain ⟨found, next, found_eq, look_eq, invoke_eq⟩ | ⟨missing, problem, invoke_eq⟩ :=
        invokeLookup_cases tree table last name
      · cases held.here.symm.trans found_eq
        have held' := held.insert ahead next
        have ahead' := (ahead.insert next).2.release start last
        have ne_start : table.nextId ≠ start := Nat.ne_of_gt held.started
        rw [look_eq, invoke_eq, Option.bind_some]
        obtain ⟨final, handle, after, follow_eq, descend_eq, held_after, none_left, some_left⟩ |
          ⟨follow_eq, problem, after, descend_eq, same_iff⟩ := ih held' ahead'
        · refine .inl ⟨final, handle, after, follow_eq, descend_eq, held_after, ?_, ?_⟩
          · exact fun nil => absurd nil (List.cons_ne_nil _ _)
          · intro _
            cases names with
            | nil =>
                cases descend_eq
                exact ne_start
            | cons _ _ => exact some_left (List.cons_ne_nil _ _)
        · refine .inr ⟨follow_eq, problem, after, descend_eq, ?_⟩
          rw [same_iff]
          constructor
          · exact fun both => absurd both.1 ne_start
          · intro both
            cases both.2
      · refine .inr ⟨?_, problem, table, ?_, ?_⟩
        · rw [missing entry held.here]
          rfl
        · rw [invoke_eq]
        · rw [held.entries_eq_iff]
          exact ⟨fun same => ⟨same, missing entry held.here⟩, And.left⟩

/-- Skipping a part of the path is leaving it out. -/
theorem kernelWalkLoop_eq (dirs : List Text) :
    kernelWalkLoop tree start dirs last table =
      descend tree start (dirs.filter IsName) last table := by
  induction dirs generalizing last table with
  | nil => rfl
  | cons dir dirs ih =>
      rw [kernelWalkLoop]
      by_cases skipped : dir = [] ∨ dir = ['.'] ∨ dir = ['.', '.']
      · rw [if_pos skipped, ih,
          List.filter_cons_of_neg (by rwa [decide_eq_true_eq, IsName, not_not])]
      · rw [if_neg skipped,
          List.filter_cons_of_pos (by rwa [decide_eq_true_eq, IsName]), descend]
        split
        next => rfl
        next => exact ih

/-- A handle that was just used can be closed. -/
theorem walkPathLoop_eq (segments : List Text) (current : HandleID) :
    walkPathLoop tree start segments current table =
      (descend tree start segments current table).map
        (Except.mapError SysError.fromInvocationErr) id := by
  induction segments generalizing current table with
  | nil => rfl
  | cons segment segments ih =>
      rw [walkPathLoop, descend]
      obtain ⟨found, next, found_eq, -, invoke_eq⟩ | ⟨-, problem, invoke_eq⟩ :=
        invokeLookup_cases tree table current segment
      · rw [invoke_eq]
        by_cases other : current ≠ start
        · have present : ∃ entry,
              (table.insert next.object next.rights).2.entries current = some entry := by
            by_cases same : current = table.nextId
            · exact ⟨next, same ▸ Function.update_self _ _ _⟩
            · exact ⟨found, (Function.update_of_ne same _ _).trans found_eq⟩
          obtain ⟨entry, entry_eq⟩ := present
          simp only [if_pos other, HandleTable.close, entry_eq]
          exact ih _
        · simp only [if_neg other]
          exact ih _
      · rw [invoke_eq]
        rfl

/-- The condition under which the loop is neutral. -/
theorem descend_neutral_iff (ahead : Ahead table names.length) :
    Neutral names table (descend tree start names start table) ↔
      AllOrNothing tree table start names := by
  cases names with
  | nil => exact ⟨fun _ _ _ _ => rfl, fun _ => rfl⟩
  | cons name names =>
      cases start_eq : table.entries start with
      | none =>
          have failed : ∃ problem,
              descend tree start (name :: names) start table = (.error problem, table) := by
            rw [descend, invokeLookup, HandleTable.resolveEntry, start_eq]
            exact ⟨_, rfl⟩
          obtain ⟨problem, failed_eq⟩ := failed
          rw [failed_eq]
          refine ⟨?_, fun _ => rfl⟩
          intro _ entry entry_eq
          cases start_eq.symm.trans entry_eq
      | some entry =>
          have started : start < table.nextId := by
            by_contra above
            cases start_eq.symm.trans (ahead.free start (Nat.not_lt.mp above))
          have held : Held start table.entries start table entry :=
            ⟨start_eq, started, fun _ => rfl, fun ne => absurd rfl ne⟩
          have condition : AllOrNothing tree table start (name :: names) ↔
              ((follow tree entry ((name :: names).take 1)).isSome →
                (follow tree entry (name :: names)).isSome) := by
            rw [AllOrNothing, start_eq]
            exact ⟨fun all => all entry rfl, by rintro one _ ⟨⟩; exact one⟩
          rw [condition]
          obtain ⟨final, handle, after, follow_eq, descend_eq, held_after, -, some_left⟩ |
            ⟨follow_eq, problem, after, descend_eq, same_iff⟩ :=
              @descend_spec _ tree _ _ _ _ _ (name :: names) held ahead
          · rw [descend_eq, follow_eq]
            obtain ⟨absent, after_eq⟩ := held_after.opened (some_left (List.cons_ne_nil _ _))
            exact ⟨fun _ _ => rfl, fun _ => ⟨absent, final, after_eq⟩⟩
          · rw [descend_eq, follow_eq]
            refine same_iff.trans ?_
            cases follow tree entry ((name :: names).take 1) with
            | none => exact ⟨by rintro - ⟨⟩, fun _ => ⟨rfl, rfl⟩⟩
            | some next =>
                refine iff_of_false ?_ fun found => Bool.noConfusion (found rfl)
                rintro ⟨-, ⟨⟩⟩

theorem Neutral.of_mapError {ε ε' : Type} {change : ε → ε'}
    {outcome : Except ε HandleID × HandleTable ω} :
    Neutral names table (outcome.map (Except.mapError change) id) ↔
      Neutral names table outcome := by
  obtain ⟨result, after⟩ := outcome
  cases result with
  | error _ => exact Iff.rfl
  | ok _ => exact Iff.rfl

theorem Ahead.anti {count more : Nat} (ahead : Ahead table more) (le : count ≤ more) :
    Ahead table count :=
  ⟨ahead.free, Nat.lt_of_le_of_lt (Nat.add_le_add_left le _) ahead.room⟩

end Loops

/-! ## Walks -/

/-- The parts of a path that `kernel_walk` looks up. -/
def walkNames (path : Text) : List Text := (path.splitOn '/').filter IsName

/-- The parts of a path that `walk_path` looks up. -/
def walkSegments (path : Text) : List Text := (path.splitOn '/').filter (· ≠ [])

/-- The handle that `kernel_walk` starts from; absolute paths start from the root. -/
def walkStart (path : Text) (handle : HandleID) : HandleID :=
  if (path.splitOn '/').head? = some [] then 0 else handle

/-- What the directories of a list of objects answer. -/
def treeOf (objects : List Vfs.KernelObject) : Tree Nat := fun object name rights =>
  match objects[object]? with
  | some (.directory tree) =>
      match Vfs.newFilename name with
      | .error problem => .error problem
      | .ok filename =>
          match tree filename with
          | none => .error .PathNotFound
          | some found => .ok (found, rights.mask .all)
  | _ => .error .UnsupportedOperation

theorem kernelInvoke_lookup_eq (world : Vfs.World) (handle : HandleID) (name : Text) :
    world.kernelInvoke handle (.lookup name) =
      (invokeLookup (treeOf world.objects) world.table handle name).map id
        fun table => { world with table } := by
  rw [Vfs.World.kernelInvoke, invokeLookup]
  cases world.table.resolveEntry handle (Vfs.DirectoryRequest.lookup name).requiredRights with
  | error _ => rfl
  | ok entry =>
      simp only [treeOf]
      cases world.objects[entry.object]? with
      | none => rfl
      | some object =>
          cases object with
          | directory tree =>
              simp only [Vfs.World.lookup]
              cases Vfs.newFilename name with
              | error _ => rfl
              | ok filename =>
                  dsimp only
                  cases tree filename with
                  | none => rfl
                  | some _ => rfl
          | file _ => rfl
          | other => rfl

theorem walkLoop_eq (start : HandleID) (dirs : List Text) (last : HandleID) (world : Vfs.World) :
    Vfs.World.walkLoop start dirs last world =
      (kernelWalkLoop (treeOf world.objects) start dirs last world.table).map id
        fun table => { world with table } := by
  induction dirs generalizing last world with
  | nil => rfl
  | cons dir dirs ih =>
      rw [Vfs.World.walkLoop, kernelWalkLoop]
      split
      next => exact ih last world
      next =>
        rw [kernelInvoke_lookup_eq]
        obtain ⟨result, table⟩ := invokeLookup (treeOf world.objects) world.table last dir
        cases result with
        | error _ => rfl
        | ok next =>
            have close_eq : ({ world with table } : Vfs.World).kernelClose last =
                { world with table := (table.close last).toOption.getD table } := by
              rw [Vfs.World.kernelClose]
              cases table.close last with
              | error _ => rfl
              | ok _ => rfl
            simp only [Prod.map, id]
            rw [close_eq]
            split
            next => exact ih next _
            next => exact ih next _

/-- Walks among the directories in memory. -/
theorem kernelWalk_eq (world : Vfs.World) (path : Text) (handle : HandleID) :
    world.kernelWalk path handle =
      (kernelWalk (treeOf world.objects) world.table path handle).map id
        fun table => { world with table } :=
  walkLoop_eq _ _ _ world

/-- A walk is neutral for the handle table if and only if all of its lookups succeed or the first of
them fails. -/
theorem walks_neutral_iff {ω : Type} {table : HandleTable ω} (tree : Tree ω) (path : Text)
    (handle : HandleID) (ahead : Ahead table (path.splitOn '/').length) :
    (Neutral (walkNames path) table (kernelWalk tree table path handle) ↔
      AllOrNothing tree table (walkStart path handle) (walkNames path)) ∧
    (Neutral (walkSegments path) table (walkPath tree table path handle) ↔
      AllOrNothing tree table handle (walkSegments path)) := by
  constructor
  · have fewer : (walkNames path).length ≤ (path.splitOn '/').length := List.length_filter_le _ _
    rw [← descend_neutral_iff (ahead.anti fewer)]
    change Neutral _ _
      (kernelWalkLoop tree (walkStart path handle) _ (walkStart path handle) table) ↔ _
    rw [kernelWalkLoop_eq, walkNames]
  · have fewer : (walkSegments path).length ≤ (path.splitOn '/').length :=
      List.length_filter_le _ _
    rw [← descend_neutral_iff (ahead.anti fewer), walkPath, walkPathLoop_eq, Neutral.of_mapError,
      walkSegments]

/-- A root directory with an empty directory `a`. -/
def rootWithEmpty : List Vfs.KernelObject :=
  [.directory fun name => if name = ['a'] then some 1 else none, .directory fun _ => none]

/-- A table with the root directory only. -/
def rootTable : HandleTable Nat :=
  ⟨fun id => if id = 0 then some ⟨.all, 0⟩ else none, 1⟩

theorem rootTable_ahead {count : Nat} (small : count < 100) : Ahead rootTable count := by
  constructor
  · intro id le
    exact if_neg (Nat.ne_of_gt le)
  · have room : 1 + 100 < wordSize := by decide
    exact Nat.lt_trans (Nat.add_lt_add_left small 1) room

theorem walks_neutral_iff_root :
    (Neutral [['a']] rootTable (kernelWalk (treeOf rootWithEmpty) rootTable ['/', 'a'] 0) ↔
      AllOrNothing (treeOf rootWithEmpty) rootTable 0 [['a']]) ∧
    (Neutral [['a']] rootTable (walkPath (treeOf rootWithEmpty) rootTable ['/', 'a'] 0) ↔
      AllOrNothing (treeOf rootWithEmpty) rootTable 0 [['a']]) :=
  walks_neutral_iff (treeOf rootWithEmpty) ['/', 'a'] 0 (rootTable_ahead (by decide))

/-- Looking up `/a/b` fails, and the handle to `a` stays. -/
theorem failed_walk_leaks :
    ¬Neutral [['a'], ['b']] rootTable
      (kernelWalk (treeOf rootWithEmpty) rootTable ['/', 'a', '/', 'b'] 0) ∧
    ¬Neutral [['a'], ['b']] rootTable
      (walkPath (treeOf rootWithEmpty) rootTable ['/', 'a', '/', 'b'] 0) := by
  constructor
  · intro neutral
    have same := congrFun neutral 1
    revert same
    decide
  · intro neutral
    have same := congrFun neutral 1
    revert same
    decide


end PathWalk
end Vespertine
