import Mathlib.Data.List.Forall2
import Vespertine.Object.Capabilities

/-!
# The handle table of a new process

`Spawn` fills the fixed slots 0 to 3 of the child's table with `insert_at` and the slots of the
extra handles with `insert`, which takes the next number.  The next number depends on the fixed
slots that were filled before: a source or a sink that does not resolve in the parent leaves its
slot, and the slot of the child itself, to the extra handles.
-/

namespace Vespertine
namespace SpawnTable

variable {ω : Type}

/-- What a child is started with. -/
structure Child (ω : Type) where
  table : HandleTable ω
  /-- The grants written for the child. -/
  childExtraHandles : List HandleGrant

/-- What `Spawn` takes from the memory of its caller and from the rest of the kernel. -/
structure Environment where
  /-- The contents of the caller's array of grants. -/
  grants : Nat → HandleGrant
  grantsCopied : Bool
  /-- The outcome of `load_elf`. -/
  loaded : Bool
  argsCopied : Bool
  stackMapped : Bool
  /-- The outcome of `ProcessEnvironment::inject`. -/
  injected : Except InvocationError Unit

/-- The grants an invocation passes. -/
def Environment.parentGrants (env : Environment) (op : Spawn) : List HandleGrant :=
  (List.range op.extraHandlesLen).map env.grants

/-- The rights of a process to itself, and of its parent to it. -/
def processRights : AccessRights := .insert (.insert .READ .WRITE) .MUTATE

/-- The loop over the grants. -/
def grantHandles (parent : HandleTable ω) : HandleTable ω → List HandleGrant →
    Except InvocationError (Child ω)
  | child, [] => .ok ⟨child, []⟩
  | child, grant :: grants =>
      match parent.resolve grant.id grant.rights with
      | .ok object => do
          let (chd, table) := child.insert object grant.rights
          let rest ← grantHandles parent table grants
          return { rest with
            childExtraHandles := ⟨chd, grant.rights, grant.tag⟩ :: rest.childExtraHandles }
      | .error _ => .error .InvalidHandle

/-- Fill a fixed slot if the handle resolves. -/
def insertResolved (parent table : HandleTable ω) (slot : HandleID) (handle : HandleID)
    (rights : AccessRights) : HandleTable ω :=
  match parent.resolve handle rights with
  | .ok object => table.insertAt slot object rights
  | .error _ => table

/-- The table before the extra handles. -/
def fixedSlots (parent : HandleTable ω) (op : Spawn) (root : ω) : HandleTable ω :=
  let table := HandleTable.new.insertAt 0 root op.rootRights
  let table := insertResolved parent table 2 op.source .READ
  insertResolved parent table 3 op.sink .WRITE

/-- Copy the grants from the caller and move the handles. -/
def extraHandles (parent table : HandleTable ω) (op : Spawn) (env : Environment) :
    Except InvocationError (Child ω) :=
  if op.extraHandlesLen > 0 then
    if env.grantsCopied then
      grantHandles parent table (env.parentGrants op)
    else
      .error .InvalidPointer
  else
    .ok ⟨table, []⟩

/-- Load the program and prepare the stack. -/
def start (op : Spawn) (env : Environment) : Except InvocationError Unit :=
  if !env.loaded then
    .error .InvalidHandle
  else if op.argsBufferLen > 0 ∧ env.argsCopied = false then
    .error .InvalidPointer
  else if !env.stackMapped then
    .error .OutOfMemory
  else
    env.injected

/-- `Spawn` once the root is resolved and the list of grants allocated. -/
def buildChild (parent : HandleTable ω) (op : Spawn) (root self : ω) (env : Environment) :
    Except InvocationError (Child ω) := do
  let child ← extraHandles parent (fixedSlots parent op root) op env
  start op env
  return { child with table := child.table.insertAt 1 self processRights }

/-- `ProcessManager::invoke (Spawn)`; `self` is the new process.  The handle it returns to the
parent comes with the parent's new table. -/
def spawn (parent : HandleTable ω) (callingRights : AccessRights) (op : Spawn) (self : ω)
    (env : Environment) :
    Kernel (Except InvocationError (Child ω × HandleID × HandleTable ω)) :=
  if !callingRights.contains .CREATE then
    return .error .AccessDenied
  else
    match parent.resolve op.rootHandle op.rootRights with
    | .error problem => return .error problem
    | .ok root =>
        -- `Vec::with_capacity` panics when the list of 24-byte grants exceeds `isize::MAX` bytes.
        if 24 * op.extraHandlesLen < 2 ^ 63 then
          return (buildChild parent op root self env).map fun child =>
            (child, parent.insert self processRights)
        else
          .error .capacityOverflow

/-- A slot for a handle of the parent holds the object the handle resolves to, or nothing. -/
def HoldsResolved (parent table : HandleTable ω) (slot handle : HandleID) (rights : AccessRights) :
    Prop :=
  table.get slot = match parent.resolve handle rights with
    | .ok object => some ⟨rights, object⟩
    | .error _ => none

/-- A grant written for the child resolves to what the parent granted. -/
def Honours (parent table : HandleTable ω) (granted written : HandleGrant) : Prop :=
  written.rights = granted.rights ∧ written.tag = granted.tag ∧
    ∃ object, parent.resolve granted.id granted.rights = .ok object ∧
      table.get written.id = some ⟨granted.rights, object⟩

/-- What the init package promises to the child. -/
structure Promise (parent : HandleTable ω) (op : Spawn) (self : ω) (env : Environment)
    (child : Child ω) : Prop where
  root : ∃ object, parent.resolve op.rootHandle op.rootRights = .ok object ∧
    child.table.get 0 = some ⟨op.rootRights, object⟩
  own : child.table.get 1 = some ⟨processRights, self⟩
  source : HoldsResolved parent child.table 2 op.source .READ
  sink : HoldsResolved parent child.table 3 op.sink .WRITE
  grants : List.Forall₂ (Honours parent child.table) (env.parentGrants op) child.childExtraHandles

/-- The extra handles take consecutive numbers and leave the others alone. -/
structure Granted (parent start : HandleTable ω) (grants : List HandleGrant) (child : Child ω) :
    Prop where
  others : ∀ id, id < start.nextId ∨ start.nextId + grants.length ≤ id →
    child.table.get id = start.get id
  first : (child.childExtraHandles.map HandleGrant.id).head? = grants.head?.map fun _ =>
    start.nextId
  honours : List.Forall₂ (fun granted written => start.nextId ≤ written.id ∧
    Honours parent child.table granted written) grants child.childExtraHandles

theorem grantHandles_spec {parent start : HandleTable ω} {grants : List HandleGrant}
    {child : Child ω} (fits : start.nextId + grants.length < wordSize)
    (grant_eq : grantHandles parent start grants = .ok child) :
    Granted parent start grants child := by
  induction grants generalizing start child with
  | nil =>
      cases grant_eq
      exact ⟨fun _ _ => rfl, rfl, .nil⟩
  | cons grant grants ih =>
      rw [List.length_cons] at fits
      rw [grantHandles] at grant_eq
      split at grant_eq
      next object resolve_eq =>
        obtain ⟨rest, rest_eq, child_eq⟩ := bind_eq_ok.mp grant_eq
        cases child_eq
        have next_eq : wrappingAdd start.nextId 1 = start.nextId + 1 :=
          wrappingAdd_of_lt (by omega)
        rw [next_eq] at rest_eq
        have granted := ih (show start.nextId + 1 + grants.length < wordSize by omega) rest_eq
        refine ⟨fun id outside => ?_, rfl,
          .cons ⟨le_rfl, rfl, rfl, object, resolve_eq, ?_⟩ (granted.honours.imp ?_)⟩
        · rw [List.length_cons] at outside
          refine (granted.others id ?_).trans (Function.update_of_ne ?_ _ _)
          · exact outside.imp Nat.lt_succ_of_lt fun le => by dsimp only; omega
          · exact fun same => by subst same; omega
        · refine (granted.others start.nextId (.inl (Nat.lt_succ_self _))).trans ?_
          exact Function.update_self _ _ _
        · exact fun _ _ later => ⟨Nat.le_of_succ_le later.1, later.2⟩
      next => cases grant_eq

section Slots

variable {parent table : HandleTable ω} {slot handle id : HandleID} {object : ω}
  {rights : AccessRights}

theorem get_insertAt_same : (table.insertAt slot object rights).get slot = some ⟨rights, object⟩ :=
  Function.update_self _ _ _

theorem get_insertAt_other (ne : id ≠ slot) :
    (table.insertAt slot object rights).get id = table.get id :=
  Function.update_of_ne ne _ _

theorem get_insertResolved_other (ne : id ≠ slot) :
    (insertResolved parent table slot handle rights).get id = table.get id := by
  rw [insertResolved]
  split
  · exact get_insertAt_other ne
  · rfl

/-- A slot that was empty holds what the handle resolves to. -/
theorem holdsResolved_insertResolved (empty : table.get slot = none) :
    HoldsResolved parent (insertResolved parent table slot handle rights) slot handle rights := by
  rw [HoldsResolved, insertResolved]
  cases parent.resolve handle rights with
  | ok object => exact get_insertAt_same
  | error problem => exact empty

end Slots

section Fixed

variable (parent : HandleTable ω) (op : Spawn) (root : ω)

theorem fixedSlots_root : (fixedSlots parent op root).get 0 = some ⟨op.rootRights, root⟩ := by
  rw [fixedSlots, get_insertResolved_other (by decide), get_insertResolved_other (by decide),
    get_insertAt_same]

theorem fixedSlots_source : HoldsResolved parent (fixedSlots parent op root) 2 op.source .READ := by
  rw [HoldsResolved, fixedSlots, get_insertResolved_other (by decide)]
  apply holdsResolved_insertResolved
  exact get_insertAt_other (by decide)

theorem fixedSlots_sink : HoldsResolved parent (fixedSlots parent op root) 3 op.sink .WRITE := by
  apply holdsResolved_insertResolved
  rw [get_insertResolved_other (by decide)]
  exact get_insertAt_other (by decide)

/-- The extra handles start behind the last fixed slot that was filled. -/
theorem fixedSlots_nextId : (fixedSlots parent op root).nextId =
    if (parent.resolve op.sink .WRITE).isOk then 4
    else if (parent.resolve op.source .READ).isOk then 3 else 1 := by
  simp only [fixedSlots, insertResolved]
  cases parent.resolve op.source .READ <;> cases parent.resolve op.sink .WRITE <;> rfl

end Fixed

/-- `Spawn` returns the fixed slots and the granted ones, with the child itself in slot 1. -/
theorem buildChild_ok {parent : HandleTable ω} {op : Spawn} {root self : ω} {env : Environment}
    {child : Child ω} (small : 24 * op.extraHandlesLen < 2 ^ 63)
    (build_eq : buildChild parent op root self env = .ok child) :
    ∃ granted, Granted parent (fixedSlots parent op root) (env.parentGrants op) granted ∧
      child = { granted with table := granted.table.insertAt 1 self processRights } := by
  obtain ⟨granted, granted_eq, rest_eq⟩ := bind_eq_ok.mp build_eq
  obtain ⟨_, -, child_eq⟩ := bind_eq_ok.mp rest_eq
  refine ⟨granted, ?_, (Except.ok.inj child_eq).symm⟩
  have next_le : (fixedSlots parent op root).nextId ≤ 4 := by
    rw [fixedSlots_nextId]
    split <;> [decide; split <;> decide]
  rw [extraHandles] at granted_eq
  split at granted_eq
  next =>
    obtain ⟨-, moved_eq⟩ := guard_eq_ok.mp granted_eq
    refine grantHandles_spec ?_ moved_eq
    simp only [Environment.parentGrants, List.length_map, List.length_range, wordSize]
    omega
  next none_granted =>
    cases granted_eq
    have len_eq : op.extraHandlesLen = 0 := by omega
    rw [Environment.parentGrants, len_eq]
    exact ⟨fun _ _ => rfl, rfl, .nil⟩

theorem spawn_ok {parent : HandleTable ω} {callingRights : AccessRights} {op : Spawn} {self : ω}
    {env : Environment} {child : Child ω} {handle : HandleID} {table : HandleTable ω}
    (spawn_eq : spawn parent callingRights op self env = .ok (.ok (child, handle, table))) :
    ∃ root, parent.resolve op.rootHandle op.rootRights = .ok root ∧
      24 * op.extraHandlesLen < 2 ^ 63 ∧ buildChild parent op root self env = .ok child := by
  rw [spawn] at spawn_eq
  split at spawn_eq
  next => cases spawn_eq
  next =>
    split at spawn_eq
    next => cases spawn_eq
    next root root_eq =>
      obtain ⟨small, built_eq⟩ := guard_eq_ok.mp spawn_eq
      obtain ⟨built, build_eq, result_eq⟩ := map_eq_ok.mp (Except.ok.inj built_eq)
      cases result_eq
      exact ⟨root, root_eq, small, build_eq⟩

section Promise

variable {parent : HandleTable ω} {op : Spawn} {root self : ω} {env : Environment}
  {granted : Child ω}

/-- With all extra handles behind the fixed slots, or none at all, the promise is kept. -/
theorem promise_of_apart
    (holds : Granted parent (fixedSlots parent op root) (env.parentGrants op) granted)
    (root_eq : parent.resolve op.rootHandle op.rootRights = .ok root)
    (apart : env.parentGrants op = [] ∨ 4 ≤ (fixedSlots parent op root).nextId) :
    Promise parent op self env
      { granted with table := granted.table.insertAt 1 self processRights } := by
  have kept (id : Nat) (lt : id < 4) (ne : id ≠ 1) :
      (granted.table.insertAt 1 self processRights).get id =
        (fixedSlots parent op root).get id := by
    rw [get_insertAt_other ne]
    apply holds.others
    rcases apart with none_granted | next_le
    · rw [none_granted, List.length_nil]
      exact Nat.lt_or_ge id _
    · exact .inl (lt.trans_le next_le)
  refine ⟨⟨root, root_eq, ?_⟩, get_insertAt_same, ?_, ?_, ?_⟩
  · rw [kept 0 (by decide) (by decide), fixedSlots_root]
  · rw [HoldsResolved, kept 2 (by decide) (by decide)]
    exact fixedSlots_source parent op root
  · rw [HoldsResolved, kept 3 (by decide) (by decide)]
    exact fixedSlots_sink parent op root
  · rcases apart with none_granted | next_le
    · have honours := holds.honours
      rw [none_granted] at honours ⊢
      rw [List.forall₂_nil_left_iff.mp honours]
      exact .nil
    · refine holds.honours.imp ?_
      rintro grant written ⟨id_ge, rights_eq, tag_eq, object, resolve_eq, found⟩
      refine ⟨rights_eq, tag_eq, object, resolve_eq, ?_⟩
      have ne : written.id ≠ 1 := fun same => by
        have := same ▸ next_le.trans id_ge
        omega
      rw [get_insertAt_other ne]
      exact found

/-- With an extra handle in a fixed slot, the promise is broken. -/
theorem not_promise_of_overlap
    (holds : Granted parent (fixedSlots parent op root) (env.parentGrants op) granted)
    (fresh : ∀ id entry, parent.get id = some entry → entry.object ≠ self)
    (some_granted : env.parentGrants op ≠ [])
    (no_sink : (parent.resolve op.sink .WRITE).isOk = false) :
    ¬ Promise parent op self env
      { granted with table := granted.table.insertAt 1 self processRights } := by
  intro promise
  obtain ⟨grant, grants, grants_eq⟩ := List.exists_cons_of_ne_nil some_granted
  obtain ⟨-, first, honours⟩ := holds
  obtain ⟨-, -, -, sink, kept⟩ := promise
  rw [grants_eq] at first honours kept
  obtain ⟨written, rest, ⟨-, -, -, object, resolve_eq, found⟩, -, written_eq⟩ :=
    List.forall₂_cons_left_iff.mp honours
  rw [written_eq] at first kept
  have id_eq : written.id = (fixedSlots parent op root).nextId := Option.some.inj first
  rw [fixedSlots_nextId, no_sink] at id_eq
  obtain ⟨⟨-, -, other, other_eq, honoured⟩, -⟩ := List.forall₂_cons.mp kept
  by_cases source : (parent.resolve op.source .READ).isOk
  · -- the grant is in the slot of the sink
    rw [if_neg Bool.false_ne_true, if_pos source] at id_eq
    rw [HoldsResolved, get_insertAt_other (by decide), ← id_eq, found] at sink
    cases resolve_sink : parent.resolve op.sink .WRITE with
    | ok object => rw [resolve_sink] at no_sink; cases no_sink
    | error problem => rw [resolve_sink] at sink; cases sink
  · -- the child itself is in the slot of the grant
    rw [if_neg Bool.false_ne_true, if_neg source] at id_eq
    rw [id_eq, get_insertAt_same] at honoured
    obtain ⟨entry, entry_eq, object_eq⟩ := bind_eq_ok.mp other_eq
    refine fresh _ entry (HandleTable.resolveEntry_ok entry_eq).1 ?_
    cases object_eq
    exact (congrArg HandleEntry.object (Option.some.inj honoured)).symm

/-- A child gets what it is promised exactly when its parent grants no extra handles, or the sink
fills the last fixed slot. -/
theorem spawn_promise_iff {callingRights : AccessRights} {child : Child ω} {handle : HandleID}
    {table : HandleTable ω} (fresh : ∀ id entry, parent.get id = some entry → entry.object ≠ self)
    (spawn_eq : spawn parent callingRights op self env = .ok (.ok (child, handle, table))) :
    Promise parent op self env child ↔
      op.extraHandlesLen = 0 ∨ ∃ object, parent.resolve op.sink .WRITE = .ok object := by
  obtain ⟨root, root_eq, small, build_eq⟩ := spawn_ok spawn_eq
  obtain ⟨granted, holds, rfl⟩ := buildChild_ok small build_eq
  have nil_iff : env.parentGrants op = [] ↔ op.extraHandlesLen = 0 := by
    rw [Environment.parentGrants, List.map_eq_nil_iff, List.range_eq_nil]
  cases sink_eq : parent.resolve op.sink .WRITE with
  | ok object =>
      refine iff_of_true (promise_of_apart holds root_eq (.inr ?_)) (.inr ⟨object, rfl⟩)
      rw [fixedSlots_nextId, sink_eq]
      exact le_rfl
  | error problem =>
      rw [← nil_iff]
      by_cases none_granted : env.parentGrants op = []
      · exact iff_of_true (promise_of_apart holds root_eq (.inl none_granted)) (.inl none_granted)
      · have no_sink : (parent.resolve op.sink .WRITE).isOk = false := by rw [sink_eq]; rfl
        refine iff_of_false (not_promise_of_overlap holds fresh none_granted no_sink) ?_
        exact not_or.mpr ⟨none_granted, nofun⟩

end Promise

/-- A parent with a root directory 10 under handle 0 and a file 20 under handle 5. -/
def parentTable : HandleTable Nat :=
  (HandleTable.new.insertAt 0 10 .all).insertAt 5 20 .all

/-- `Spawn` with one grant of handle 5 for reading. -/
def spawnFile (sink : HandleID) : Spawn where
  execHandle := 5
  rootHandle := 0
  rootRights := .READ
  source := 7
  sink := sink
  extraHandlesPtr := 0x1000
  extraHandlesLen := 1
  argsBufferPtr := 0
  argsBufferLen := 0

/-- Everything succeeds. -/
def grantFile : Environment where
  grants _ := ⟨5, .READ, 9⟩
  grantsCopied := true
  loaded := true
  argsCopied := true
  stackMapped := true
  injected := .ok ()

theorem parentTable_fresh (id : HandleID) (entry : HandleEntry Nat)
    (found : parentTable.get id = some entry) : entry.object ≠ 30 := by
  simp only [parentTable, HandleTable.get, HandleTable.insertAt, HandleTable.new,
    Function.update_apply] at found
  split_ifs at found <;> cases found <;> decide

theorem spawn_promise_iff_sink :
    ∃ child handle table, spawn parentTable .all (spawnFile 5) 30 grantFile =
      .ok (.ok (child, handle, table)) ∧ Promise parentTable (spawnFile 5) 30 grantFile child := by
  obtain ⟨child, handle, table, spawn_eq⟩ : ∃ child handle table,
      spawn parentTable .all (spawnFile 5) 30 grantFile = .ok (.ok (child, handle, table)) :=
    ⟨_, _, _, rfl⟩
  refine ⟨child, handle, table, spawn_eq, ?_⟩
  exact (spawn_promise_iff parentTable_fresh spawn_eq).mpr (.inr ⟨20, rfl⟩)

/-- Neither source nor sink resolves: the child finds itself where it was promised the file. -/
theorem grant_overwritten :
    ∃ (parent : HandleTable Nat) (op : Spawn) (self : Nat) (env : Environment) (child : Child Nat)
      (handle : HandleID) (table : HandleTable Nat),
      (∀ id entry, parent.get id = some entry → entry.object ≠ self) ∧
        spawn parent .all op self env = .ok (.ok (child, handle, table)) ∧
        ¬ Promise parent op self env child := by
  obtain ⟨child, handle, table, spawn_eq⟩ : ∃ child handle table,
      spawn parentTable .all (spawnFile 7) 30 grantFile = .ok (.ok (child, handle, table)) :=
    ⟨_, _, _, rfl⟩
  refine ⟨parentTable, spawnFile 7, 30, grantFile, child, handle, table, parentTable_fresh,
    spawn_eq, ?_⟩
  obtain ⟨root, -, small, build_eq⟩ := spawn_ok spawn_eq
  obtain ⟨granted, holds, rfl⟩ := buildChild_ok small build_eq
  exact not_promise_of_overlap holds parentTable_fresh (by decide) rfl

/-- The tables are those of the model of all handle operations. -/
theorem grantHandles_table (parent child : HandleTable Capabilities.Object)
    (grants : List HandleGrant) :
    (grantHandles parent child grants).map Child.table =
      Capabilities.State.grantHandles parent child grants := by
  induction grants generalizing child with
  | nil => rfl
  | cons grant grants ih =>
      rw [grantHandles, Capabilities.State.grantHandles]
      cases parent.resolve grant.id grant.rights with
      | ok object =>
          dsimp only
          rw [← ih]
          cases grantHandles parent (child.insert object grant.rights).2 grants <;> rfl
      | error problem => rfl

/-- The table of a child before its own handle is added, in both models. -/
theorem extraHandles_table (parent : HandleTable Capabilities.Object) (op : Spawn)
    (env : Environment) (answers : Capabilities.Answers)
    (grants_eq : answers.grants =
      if env.grantsCopied then .ok (env.parentGrants op) else .error .InvalidPointer) :
    Capabilities.State.childTable parent op answers =
      (do
        let root ← parent.resolve op.rootHandle op.rootRights
        (extraHandles parent (fixedSlots parent op root) op env).map Child.table) := by
  rw [Capabilities.State.childTable]
  congr 1
  funext root
  have moved (table : HandleTable Capabilities.Object) :
      (if op.extraHandlesLen > 0 then
        (do Capabilities.State.grantHandles parent table (← answers.grants))
      else pure table) = (extraHandles parent table op env).map Child.table := by
    rw [extraHandles, grants_eq]
    split
    next =>
      cases env.grantsCopied with
      | true => exact (grantHandles_table ..).symm
      | false => rfl
    next => rfl
  rw [← moved, fixedSlots, insertResolved, insertResolved]
  cases parent.resolve op.source .READ <;> cases parent.resolve op.sink .WRITE <;> rfl

end SpawnTable
end Vespertine
