import Vespertine.Memory.Vmo
import Vespertine.Object.Handle
import Vespertine.Object.MemPool

/-!
# What pools count

A pool is charged when a memory object is allocated from it, with the size the object has then.
Objects that are resized or cloned, and objects whose last handle is closed, have nothing to do with
their pool any more: the counters say how much was ever allocated, not how much there is.

Here one operation follows another, and `try_allocate` is a function.
-/

namespace Vespertine
namespace MemPool

open Function (update)

variable {π κ : Type} [DecidableEq π] [DecidableEq κ]

/-- `try_allocate` on the first of these pools, of which each is the parent of the one before. -/
def tryAllocate (limit : π → Option UInt64) (size : UInt64) :
    List π → (π → UInt64) → Except InvocationError Unit × (π → UInt64)
  | [], allocated => (.ok (), allocated)
  | pool :: parents, allocated =>
      if exceeds (limit pool) (allocated pool) size then
        (.error .PoolExhausted, allocated)
      else
        let reserved := update allocated pool (allocated pool + size)
        match tryAllocate limit size parents reserved with
        | (.ok (), allocated) => (.ok (), allocated)
        | (.error problem, allocated) =>
            (.error problem, update allocated pool (allocated pool - size))

/-- What handles of pools and memory objects refer to. -/
inductive Object (π : Type) where
  | memPool (pool : π)
  | vmo (id : Nat)
  deriving DecidableEq

/-- A memory object and the pool it counts to; a clone counts to the pool of its source. -/
structure PoolVmo (π : Type) where
  origin : π
  vmo : Vmo

/-- The processes are `ρ`. -/
structure Store (π ρ : Type) where
  allocated : π → UInt64
  tables : ρ → HandleTable (Object π)
  /-- The memory objects that have a handle. -/
  vmos : Nat → Option (PoolVmo π)
  nextVmo : Nat
  created : π → Bool
  /-- The frames that the page allocator returns next. -/
  supply : List Nat
  /-- The allocations that have succeeded, with the pools they were made from. -/
  granted : List (π × UInt64)

/-- What is asked of a pool or of a memory object. -/
inductive Request (π : Type) where
  | allocateVmo (size : UInt64)
  /-- The new pool is one that does not exist yet. -/
  | createSubPool (limit : UInt64) (pool : π)
  | resize (newSize : UInt64)
  | clone (offset len : UInt64)

inductive Operation (π : Type) where
  | invoke (handle : HandleID) (request : Request π)
  | close (handle : HandleID)

/-- Why an operation does not come to an end. -/
inductive Stop where
  /-- The new pool is not one that is yet to be created there, or there is no such object. -/
  | disabled
  | panicked (panic : Panic)

/-- The rights that the handle must have. -/
def Request.requiredRights : Request π → AccessRights
  | .allocateVmo size => (Invocation.MemPool (.AllocateVmo size.toNat)).requiredRights
  | .createSubPool limit _ => (Invocation.MemPool (.CreateSubPool limit.toNat)).requiredRights
  | .resize newSize => (Invocation.Vmo (.Resize newSize.toNat)).requiredRights
  | .clone offset len => (Invocation.Vmo (.Clone offset.toNat len.toNat)).requiredRights

section Operations

variable {ρ : Type} [DecidableEq ρ]

namespace Store

/-- Add a handle to the table of a process. -/
def insert (store : Store π ρ) (pid : ρ) (object : Object π) (rights : AccessRights) :
    Except InvocationError HandleID × Store π ρ :=
  let (id, table) := (store.tables pid).insert object rights
  (.ok id, { store with tables := update store.tables pid table })

/-- Add a handle of a new memory object. -/
def insertVmo (store : Store π ρ) (pid : ρ) (origin : π) (vmo : Vmo) (rights : AccessRights) :
    Except InvocationError HandleID × Store π ρ :=
  { store with
    vmos := update store.vmos store.nextVmo (some ⟨origin, vmo⟩)
    nextVmo := store.nextVmo + 1 }.insert pid (.vmo store.nextVmo) rights

/-- `MemPoolOp::AllocateVmo`. -/
def allocateVmo (pools : Pools π) (store : Store π ρ) (pid : ρ) (rights : AccessRights) (pool : π)
    (size : UInt64) : Except InvocationError HandleID × Store π ρ :=
  if !rights.contains .WRITE then
    (.error .AccessDenied, store)
  else
    match tryAllocate pools.limit size (pools.lineage pool) store.allocated with
    | (.error problem, allocated) => (.error problem, { store with allocated })
    | (.ok (), allocated) =>
        { store with allocated, granted := (pool, size) :: store.granted }.insertVmo pid pool
          (.new size.toNat) (.insert (.insert .READ .WRITE) .MUTATE)

/-- `MemPoolOp::CreateSubPool`. -/
def createSubPool (pools : Pools π) (store : Store π ρ) (pid : ρ) (rights : AccessRights) (pool : π)
    (limit : UInt64) (subPool : π) : Except Stop (Except InvocationError HandleID × Store π ρ) :=
  if !rights.contains .WRITE then
    .ok (.error .AccessDenied, store)
  else if pools.parent subPool = some pool ∧ pools.limit subPool = some limit ∧
      store.created subPool = false then
    .ok ({ store with created := update store.created subPool true }.insert pid (.memPool subPool)
      (.insert (.insert .READ .WRITE) .CREATE))
  else
    .error .disabled

/-- `VmoOp::Resize`. -/
def resize (store : Store π ρ) (id : Nat) (object : PoolVmo π) (newSize : UInt64) :
    Except InvocationError HandleID × Store π ρ :=
  match object.vmo.resizeObject newSize.toNat with
  | .error () => (.error .UnsupportedOperation, store)
  | .ok (vmo, freed) =>
      (.ok 0, { store with
        vmos := update store.vmos id (some { object with vmo })
        supply := freed ++ store.supply })

/-- `VmoOp::Clone`. -/
def clone (store : Store π ρ) (pid : ρ) (object : PoolVmo π) (offset len : UInt64) :
    Except Stop (Except InvocationError HandleID × Store π ρ) :=
  match object.vmo.cloneRange offset.toNat len.toNat store.supply with
  | .error panic => .error (.panicked panic)
  | .ok (.error (), supply) => .ok (.error .InvalidArgument, { store with supply })
  | .ok (.ok child, supply) => .ok ({ store with supply }.insertVmo pid object.origin child .all)

/-- `kernel_close`; the handle of a memory object is the only one. -/
def close (store : Store π ρ) (pid : ρ) (handle : HandleID) :
    Except InvocationError HandleID × Store π ρ :=
  match (store.tables pid).close handle with
  | .error problem => (.error problem, store)
  | .ok table =>
      let closed := { store with tables := update store.tables pid table }
      match (store.tables pid).get handle with
      | some ⟨_, .vmo id⟩ =>
          (.ok 0, { closed with
            vmos := update store.vmos id none
            supply := ((store.vmos id).elim [] fun object => object.vmo.drop) ++ store.supply })
      | _ => (.ok 0, closed)

/-- `MemPool::invoke`. -/
def invokePool (pools : Pools π) (store : Store π ρ) (pid : ρ) (rights : AccessRights) (pool : π) :
    Request π → Except Stop (Except InvocationError HandleID × Store π ρ)
  | .allocateVmo size => .ok (store.allocateVmo pools pid rights pool size)
  | .createSubPool limit subPool => store.createSubPool pools pid rights pool limit subPool
  | .resize _ | .clone _ _ => .ok (.error .UnsupportedOperation, store)

/-- `VmoObject::invoke`. -/
def invokeVmo (store : Store π ρ) (pid : ρ) (id : Nat) (object : PoolVmo π) :
    Request π → Except Stop (Except InvocationError HandleID × Store π ρ)
  | .resize newSize => .ok (store.resize id object newSize)
  | .clone offset len => store.clone pid object offset len
  | .allocateVmo _ | .createSubPool _ _ => .ok (.error .UnsupportedOperation, store)

/-- `invoke` of the object behind a handle. -/
def invoke (pools : Pools π) (store : Store π ρ) (pid : ρ) (entry : HandleEntry (Object π))
    (request : Request π) : Except Stop (Except InvocationError HandleID × Store π ρ) :=
  match entry.object with
  | .memPool pool => store.invokePool pools pid entry.rights pool request
  | .vmo id =>
      match store.vmos id with
      -- A handle keeps its object alive.
      | none => .error .disabled
      | some object => store.invokeVmo pid id object request

/-- An operation of a process, with what it returns. -/
def perform (pools : Pools π) (store : Store π ρ) (pid : ρ) :
    Operation π → Except Stop (Except InvocationError HandleID × Store π ρ)
  | .close handle => .ok (store.close pid handle)
  | .invoke handle request =>
      match (store.tables pid).resolveEntry handle request.requiredRights with
      | .error problem => .ok (.error problem, store)
      | .ok entry => store.invoke pools pid entry request

/-- A pool that no sum of which overflows. -/
def Roomy (pools : Pools π) (store : Store π ρ) (pool : π) (size : UInt64) : Prop :=
  ∀ above ∈ pools.lineage pool, (store.allocated above).toNat + size.toNat < 2 ^ 64

/-- The sums of what is allocated and what is asked for do not overflow. -/
def InRange (pools : Pools π) (store : Store π ρ) : ρ × Operation π → Prop
  | (pid, .invoke handle (.allocateVmo size)) => ∀ rights pool,
      (store.tables pid).get handle = some ⟨rights, .memPool pool⟩ → store.Roomy pools pool size
  | _ => True

/-- The size of the memory objects that count to a pool or to one below it. -/
def liveTotal (pools : Pools π) (store : Store π ρ) (pool : π) : Nat :=
  ((List.range store.nextVmo).map fun id =>
    match store.vmos id with
    | some object => if pool ∈ pools.lineage object.origin then object.vmo.size else 0
    | none => 0).sum

/-- No pool was charged, and there is no memory object. -/
structure Fresh (store : Store π ρ) : Prop where
  allocated_eq : ∀ pool, store.allocated pool = 0
  granted_eq : store.granted = []
  vmos_eq : ∀ id, store.vmos id = none

end Store

/-- Any processes perform any operations, as long as the sums stay in range. -/
def system (pools : Pools π) : Machine (Store π ρ) (ρ × Operation π) Stop where
  step store input := (store.perform pools input.1 input.2).map Prod.snd
  permitted := Store.InRange pools

end Operations

/-!
### Nothing is given back
-/

section Allocation

variable {limit : π → Option UInt64} {size : UInt64} {chain : List π} {allocated after : π → UInt64}

/-- A reservation that fails leaves no trace. -/
theorem tryAllocate_error {problem : InvocationError}
    (refused : tryAllocate limit size chain allocated = (.error problem, after)) :
    after = allocated := by
  induction chain generalizing allocated after problem with
  | nil => cases refused
  | cons pool parents ih =>
      simp only [tryAllocate] at refused
      split at refused
      · exact (Prod.mk.inj refused).2.symm
      · split at refused
        next => cases refused
        next inner_eq =>
          have inner := ih inner_eq
          rw [← (Prod.mk.inj refused).2, inner, Function.update_self, Function.update_idem,
            UInt64.add_sub_cancel, Function.update_eq_self]

theorem tryAllocate_problem {problem : InvocationError}
    (refused : tryAllocate limit size chain allocated = (.error problem, after)) :
    problem = .PoolExhausted := by
  induction chain generalizing allocated after problem with
  | nil => cases refused
  | cons pool parents ih =>
      simp only [tryAllocate] at refused
      split at refused
      · exact (Except.error.inj (Prod.mk.inj refused).1).symm
      · split at refused
        next => cases refused
        next inner_eq =>
          rw [← Except.error.inj (Prod.mk.inj refused).1]
          exact ih inner_eq

/-- A reservation that succeeds fits everywhere, and is made everywhere. -/
theorem tryAllocate_ok (nodup : chain.Nodup)
    (granted : tryAllocate limit size chain allocated = (.ok (), after)) (pool : π) :
    (pool ∈ chain → exceeds (limit pool) (allocated pool) size = false) ∧
      after pool = if pool ∈ chain then allocated pool + size else allocated pool := by
  induction chain generalizing allocated after with
  | nil => simp [← (Prod.mk.inj granted).2]
  | cons first parents ih =>
      obtain ⟨not_mem, nodup⟩ := List.nodup_cons.mp nodup
      simp only [tryAllocate] at granted
      split at granted
      · cases (Prod.mk.inj granted).1
      next fits =>
        split at granted
        next inner_eq =>
          obtain ⟨above, after_eq⟩ := ih nodup inner_eq
          rw [← (Prod.mk.inj granted).2, after_eq]
          rcases eq_or_ne pool first with rfl | ne
          · simpa [not_mem] using fits
          · simpa [ne] using above
        next => cases (Prod.mk.inj granted).1

end Allocation

/-!
### A call that is left alone
-/

section Alone

variable {pools : Pools π} {state : State π κ} {call : κ} {start pool : π} {size : UInt64}
  {held : List π}

/-- Some steps of a call, none of which fails for no reason, lead from one state to another. -/
def Leads (pools : Pools π) (call : κ) (state final : State π κ) : Prop :=
  ∃ count, (machine pools).run state (List.replicate count (.advance call false)) = .ok final

theorem Leads.trans {mid final : State π κ} (first : Leads pools call state mid)
    (second : Leads pools call mid final) : Leads pools call state final := by
  obtain ⟨count, first_eq⟩ := first
  obtain ⟨more, second_eq⟩ := second
  refine ⟨count + more, ?_⟩
  rw [← List.replicate_append_replicate, (machine pools).run_append_ok _ first_eq, second_eq]

theorem Leads.of_step {next : State π κ}
    (step_eq : step pools state (.advance call false) = .ok next) : Leads pools call state next :=
  ⟨1, (machine pools).run_cons_ok [] step_eq⟩

/-- The turn of the loop in one pool, from the load to the reservation or the refusal. -/
theorem leads_turn (pools : Pools π) (phase_eq : state.phase call = .loading start size held pool) :
    Leads pools call state
      (if exceeds (pools.limit pool) (state.allocated pool) size then
        { state with phase := update state.phase call (.rolling size held) }
      else
        state.reserve pools call start size held pool) := by
  have loads : step pools state (.advance call false) = .ok { state with
      phase := update state.phase call
        (.trying start size held pool (state.allocated pool)) } := by
    simp [step, phase_eq]
  refine (Leads.of_step loads).trans (.of_step ?_)
  simp only [step, Function.update_self, State.attempt]
  split
  · simp
  · simp [State.reserve]

/-- Without anyone coming in between, `try_allocate` ends as the function says: having reserved
everywhere, or about to take back what it held before. -/
theorem leads_tryAllocate (pools : Pools π)
    (phase_eq : state.phase call = .loading start size held pool) :
    match tryAllocate pools.limit size (pools.lineage pool) state.allocated with
    | (.ok (), allocated) => Leads pools call state
        ⟨allocated, update state.phase call (.returned (.ok ())), (start, size) :: state.granted⟩
    | (.error _, _) => Leads pools call state
        { state with phase := update state.phase call (.rolling size held) } := by
  induction length_eq : (pools.lineage pool).length generalizing state held pool with
  | zero =>
      rw [pools.lineage_eq] at length_eq
      cases length_eq
  | succ length ih =>
      have turn : Leads pools call state _ := leads_turn pools phase_eq
      rw [pools.lineage_eq] at length_eq ⊢
      rw [tryAllocate]
      split at turn
      next refuses =>
        rw [if_pos refuses]
        exact turn
      next fits =>
        rw [if_neg fits]
        rw [State.reserve] at turn
        split at turn
        next up parent_eq =>
          rw [parent_eq] at length_eq ⊢
          let reserved : State π κ :=
            ⟨update state.allocated pool (state.allocated pool + size),
              update state.phase call (.loading start size (pool :: held) up), state.granted⟩
          have phase_up : reserved.phase call = .loading start size (pool :: held) up :=
            Function.update_self ..
          have above := ih phase_up (by simpa using length_eq)
          dsimp only [Option.elim_some, reserved] at above ⊢
          cases inner_eq : tryAllocate pools.limit size (pools.lineage up)
            (update state.allocated pool (state.allocated pool + size)) with
          | mk result after =>
              rw [inner_eq] at above
              cases result with
              | ok value => simpa using turn.trans above
              | error problem =>
                  refine (turn.trans above).trans (.of_step ?_)
                  simp [step, State.rollBack]
        next root =>
          rw [root]
          exact turn

/-- A call that is left alone returns what the function returns, with the counters that it
leaves. -/
theorem leads_returned (pools : Pools π)
    (phase_eq : state.phase call = .loading pool size [] pool) :
    ∃ final, Leads pools call state final ∧
      final.phase call =
        .returned (tryAllocate pools.limit size (pools.lineage pool) state.allocated).1 ∧
      final.allocated = (tryAllocate pools.limit size (pools.lineage pool) state.allocated).2 := by
  have leads := leads_tryAllocate pools phase_eq
  cases outcome : tryAllocate pools.limit size (pools.lineage pool) state.allocated with
  | mk result allocated =>
      rw [outcome] at leads
      cases result with
      | ok value => exact ⟨_, leads, by simp, rfl⟩
      | error problem =>
          have problem_eq := tryAllocate_problem outcome
          subst problem_eq
          have last : step pools { state with phase := update state.phase call (.rolling size []) }
              (.advance call false) = .ok { state with
                phase := update state.phase call (.returned (.error .PoolExhausted)) } := by
            simp [step]
          refine ⟨_, leads.trans (.of_step last), by simp, (tryAllocate_error outcome).symm⟩

end Alone

section Runs

variable {ρ : Type} [DecidableEq ρ] {pools : Pools π} {store next : Store π ρ} {pid : ρ}

/-- Each pool counts what was ever allocated from it and from those below it, within its limit. -/
structure Counted (pools : Pools π) (store : Store π ρ) : Prop where
  allocated_eq : ∀ pool, (store.allocated pool).toNat = charged pools store.granted pool
  within : ∀ pool lim, pools.limit pool = some lim → store.allocated pool ≤ lim

/-- Counters and charges are the same. -/
def SameCounts (store next : Store π ρ) : Prop :=
  next.allocated = store.allocated ∧ next.granted = store.granted

omit [DecidableEq ρ] in
theorem Counted.congr (counted : Counted pools store) (same : SameCounts store next) :
    Counted pools next := by
  constructor
  · intro pool
    rw [same.1, same.2]
    exact counted.allocated_eq pool
  · intro pool lim limit_eq
    rw [same.1]
    exact counted.within pool lim limit_eq

omit [DecidableEq π] in
theorem close_same (store : Store π ρ) (pid : ρ) (handle : HandleID) :
    SameCounts store (store.close pid handle).2 := by
  rw [Store.close]
  split
  · exact ⟨rfl, rfl⟩
  · split <;> exact ⟨rfl, rfl⟩

omit [DecidableEq π] [DecidableEq ρ] in
theorem resize_same (store : Store π ρ) (id : Nat) (object : PoolVmo π) (newSize : UInt64) :
    SameCounts store (store.resize id object newSize).2 := by
  rw [Store.resize]
  split <;> exact ⟨rfl, rfl⟩

omit [DecidableEq π] in
theorem clone_same {object : PoolVmo π} {offset len : UInt64}
    {result : Except InvocationError HandleID}
    (clone_eq : store.clone pid object offset len = .ok (result, next)) :
    SameCounts store next := by
  rw [Store.clone] at clone_eq
  split at clone_eq
  · cases clone_eq
  · cases clone_eq
    exact ⟨rfl, rfl⟩
  · cases clone_eq
    exact ⟨rfl, rfl⟩

theorem createSubPool_same {rights : AccessRights} {pool subPool : π} {lim : UInt64}
    {result : Except InvocationError HandleID}
    (create_eq : store.createSubPool pools pid rights pool lim subPool = .ok (result, next)) :
    SameCounts store next := by
  rw [Store.createSubPool] at create_eq
  split at create_eq
  · cases create_eq
    exact ⟨rfl, rfl⟩
  · split at create_eq
    · cases create_eq
      exact ⟨rfl, rfl⟩
    · cases create_eq

/-- An allocation that fails changes no counter, and one that succeeds is charged to every
ancestor. -/
theorem Counted.allocateVmo (counted : Counted pools store) {rights : AccessRights} {pool : π}
    {size : UInt64} (roomy : store.Roomy pools pool size) :
    Counted pools (store.allocateVmo pools pid rights pool size).2 := by
  rw [Store.allocateVmo]
  split
  · exact counted
  · split
    next refused =>
      exact counted.congr ⟨tryAllocate_error refused, rfl⟩
    next allocated reserved =>
      have spec := tryAllocate_ok (pools.nodup_lineage pool) reserved
      constructor
      · intro other
        change (allocated other).toNat = charged pools ((pool, size) :: store.granted) other
        rw [charged_cons, ← counted.allocated_eq other, (spec other).2]
        split
        next mem =>
          rw [UInt64.toNat_add, Nat.mod_eq_of_lt (roomy other mem), Nat.add_comm]
        next => rw [Nat.zero_add]
      · intro other lim limit_eq
        change allocated other ≤ lim
        rw [(spec other).2]
        split
        next mem => simpa [exceeds, limit_eq] using (spec other).1 mem
        next => exact counted.within other lim limit_eq

theorem allocateVmo_suffix (rights : AccessRights) (pool : π) (size : UInt64) :
    store.granted <:+ (store.allocateVmo pools pid rights pool size).2.granted := by
  rw [Store.allocateVmo]
  split
  · exact List.suffix_rfl
  · split
    · exact List.suffix_rfl
    · exact List.suffix_cons _ _

omit [DecidableEq π] in
theorem invokeVmo_same {id : Nat} {object : PoolVmo π} {request : Request π}
    {result : Except InvocationError HandleID}
    (invoke_eq : store.invokeVmo pid id object request = .ok (result, next)) :
    SameCounts store next := by
  cases request with
  | resize newSize =>
      have pair_eq : store.resize id object newSize = (result, next) := Except.ok.inj invoke_eq
      have same := resize_same store id object newSize
      rwa [pair_eq] at same
  | clone offset len => exact clone_same invoke_eq
  | allocateVmo | createSubPool =>
      cases invoke_eq
      exact ⟨rfl, rfl⟩

theorem invokePool_same {rights : AccessRights} {pool : π} {request : Request π}
    {result : Except InvocationError HandleID} (other : ∀ size, request ≠ .allocateVmo size)
    (invoke_eq : store.invokePool pools pid rights pool request = .ok (result, next)) :
    SameCounts store next := by
  cases request with
  | allocateVmo size => exact absurd rfl (other size)
  | createSubPool limit subPool => exact createSubPool_same invoke_eq
  | resize | clone =>
      cases invoke_eq
      exact ⟨rfl, rfl⟩

/-- An operation allocates from a pool, or it leaves the counters alone. -/
theorem perform_cases {operation : Operation π} {result : Except InvocationError HandleID}
    (perform_eq : store.perform pools pid operation = .ok (result, next)) :
    SameCounts store next ∨ ∃ handle size rights pool,
      operation = .invoke handle (.allocateVmo size) ∧
        (store.tables pid).get handle = some ⟨rights, .memPool pool⟩ ∧
        store.allocateVmo pools pid rights pool size = (result, next) := by
  cases operation with
  | close handle =>
      have pair_eq : store.close pid handle = (result, next) := Except.ok.inj perform_eq
      have same := close_same store pid handle
      rw [pair_eq] at same
      exact .inl same
  | invoke handle request =>
      simp only [Store.perform] at perform_eq
      split at perform_eq
      next =>
        cases perform_eq
        exact .inl ⟨rfl, rfl⟩
      next entry resolve_eq =>
        obtain ⟨rights, object⟩ := entry
        cases object with
        | memPool pool =>
            by_cases other : ∀ size, request ≠ .allocateVmo size
            · exact .inl (invokePool_same other perform_eq)
            · obtain ⟨size, request_eq⟩ := not_forall_not.mp other
              subst request_eq
              have found := (HandleTable.resolveEntry_ok resolve_eq).1
              exact .inr ⟨handle, size, rights, pool, rfl, found, Except.ok.inj perform_eq⟩
        | vmo id =>
            simp only [Store.invoke] at perform_eq
            split at perform_eq
            next => cases perform_eq
            next => exact .inl (invokeVmo_same perform_eq)

theorem Counted.perform (counted : Counted pools store) {operation : Operation π}
    {result : Except InvocationError HandleID} (in_range : store.InRange pools (pid, operation))
    (perform_eq : store.perform pools pid operation = .ok (result, next)) :
    Counted pools next ∧ store.granted <:+ next.granted := by
  obtain same | ⟨handle, size, rights, pool, rfl, found, allocate_eq⟩ := perform_cases perform_eq
  · exact ⟨counted.congr same, same.2 ▸ List.suffix_rfl⟩
  · have next_eq : (store.allocateVmo pools pid rights pool size).2 = next := by rw [allocate_eq]
    subst next_eq
    exact ⟨counted.allocateVmo (in_range rights pool found), allocateVmo_suffix rights pool size⟩

omit [DecidableEq ρ] in
theorem Counted.fresh (fresh : store.Fresh) : Counted pools store where
  allocated_eq pool := by
    rw [fresh.allocated_eq, fresh.granted_eq]
    rfl
  within pool lim _ := by
    rw [fresh.allocated_eq]
    exact UInt64.zero_le

theorem Counted.run {inputs : List (ρ × Operation π)} (counted : Counted pools store)
    (permits : (system pools).Permits store inputs)
    (run_eq : (system pools).run store inputs = .ok next) :
    Counted pools next ∧ store.granted <:+ next.granted := by
  have keeps (state : Store π ρ) (input : ρ × Operation π) (later : Store π ρ)
      (kept : Counted pools state ∧ store.granted <:+ state.granted)
      (in_range : state.InRange pools input)
      (step_eq : (system pools).step state input = .ok later) :
      Counted pools later ∧ store.granted <:+ later.granted := by
    obtain ⟨⟨result, after⟩, perform_eq, rfl⟩ := map_eq_ok.mp step_eq
    obtain ⟨counted_after, suffix⟩ := kept.1.perform in_range perform_eq
    exact ⟨counted_after, kept.2.trans suffix⟩
  exact (system pools).run_keeps keeps ⟨counted, List.suffix_rfl⟩ permits run_eq

theorem charged_le_of_suffix {earlier later : List (π × UInt64)} (suffix : earlier <:+ later)
    (pool : π) : charged pools earlier pool ≤ charged pools later pool := by
  obtain ⟨more, rfl⟩ := suffix
  simp [charged]

/-- At every moment each pool counts the sizes of all allocations ever made from it or from the
pools below it, within its limit; no counter ever falls, and only an allocation changes one. -/
theorem pools_count_allocations {start mid final : Store π ρ}
    {inputs rest : List (ρ × Operation π)} (fresh : start.Fresh)
    (permits : (system pools).Permits start inputs)
    (run_eq : (system pools).run start inputs = .ok mid)
    (later_permits : (system pools).Permits mid rest)
    (later_eq : (system pools).run mid rest = .ok final) :
    (∀ pool, (final.allocated pool).toNat = charged pools final.granted pool) ∧
      (∀ pool lim, pools.limit pool = some lim → charged pools final.granted pool ≤ lim.toNat) ∧
      (∀ pool, mid.allocated pool ≤ final.allocated pool) ∧
      ∀ pid operation result next, final.perform pools pid operation = .ok (result, next) →
        (∀ handle size, operation ≠ .invoke handle (.allocateVmo size)) →
        next.allocated = final.allocated := by
  have first := ((Counted.fresh fresh).run permits run_eq).1
  obtain ⟨second, suffix⟩ := first.run later_permits later_eq
  refine ⟨second.allocated_eq, fun pool lim limit_eq => ?_, fun pool => ?_, ?_⟩
  · rw [← second.allocated_eq, ← UInt64.le_iff_toNat_le]
    exact second.within pool lim limit_eq
  · rw [UInt64.le_iff_toNat_le, first.allocated_eq, second.allocated_eq]
    exact charged_le_of_suffix suffix pool
  · intro pid operation result next perform_eq other
    obtain same | ⟨handle, size, _, _, operation_eq, _⟩ := perform_cases perform_eq
    · exact same.1
    · exact absurd operation_eq (other handle size)

end Runs

/-- One process with a handle of the lower pool. -/
def shop : Store Bool Unit where
  allocated _ := 0
  tables _ := (HandleTable.new.insert (.memPool true) .all).2
  vmos _ := none
  nextVmo := 0
  created _ := true
  supply := []
  granted := []

theorem pools_count_allocations_closed :
    ∃ mid final, (system nested).run shop [((), .invoke 1 (.allocateVmo 40))] = .ok mid ∧
      (system nested).run mid [((), .close 2)] = .ok final ∧
      (final.allocated true).toNat = 40 ∧
      ((∀ pool, (final.allocated pool).toNat = charged nested final.granted pool) ∧
        (∀ pool lim, nested.limit pool = some lim →
          charged nested final.granted pool ≤ lim.toNat) ∧
        (∀ pool, mid.allocated pool ≤ final.allocated pool) ∧
        ∀ pid operation result next, final.perform nested pid operation = .ok (result, next) →
          (∀ handle size, operation ≠ .invoke handle (.allocateVmo size)) →
          next.allocated = final.allocated) := by
  have run_eq : (system nested).run shop [((), .invoke 1 (.allocateVmo 40))] = .ok _ := rfl
  have permits : (system nested).Permits shop [((), .invoke 1 (.allocateVmo 40))] := by
    refine ⟨fun rights pool found => ?_, fun _ _ => trivial⟩
    obtain rfl : true = pool := by
      cases found
      rfl
    unfold Store.Roomy
    decide
  have fresh : shop.Fresh := ⟨fun _ => rfl, rfl, fun _ => rfl⟩
  have close_permits (mid : Store Bool Unit) : (system nested).Permits mid [((), .close 2)] :=
    ⟨trivial, fun _ _ => trivial⟩
  exact ⟨_, _, run_eq, rfl, rfl,
    pools_count_allocations fresh permits run_eq (close_permits _) rfl⟩

/-- A closed object stays charged, and one that grows is not charged again, so that there is more
than the limit. -/
theorem charges_not_settled :
    (∃ final, (system nested).run shop [((), .invoke 1 (.allocateVmo 40)), ((), .close 2)] =
        .ok final ∧ (final.allocated true).toNat = 40 ∧ final.liveTotal nested true = 0) ∧
    ∃ final, (system nested).run shop
        [((), .invoke 1 (.allocateVmo 40)), ((), .invoke 2 (.resize 8192))] = .ok final ∧
      (final.allocated true).toNat = 40 ∧ final.liveTotal nested true = 8192 ∧
      nested.limit true = some 100 :=
  ⟨⟨_, rfl, rfl, rfl⟩, _, rfl, rfl, rfl, rfl⟩

end MemPool
end Vespertine
