import Vespertine.Kernel
import Vespertine.Library.Transition
import Vespertine.Library.Waiters

/-!
# Memory pools

A pool counts what was allocated from it and from the pools below it, and may have a limit.
`try_allocate` reserves the size in the pool with a compare-and-exchange, then in its parent and so
on; if an ancestor refuses, the reservations already made are taken back, the last one first.  Other
calls come in between at every atomic operation.

The pools and their parents are given; a pool that is yet to be created has nothing allocated.
-/

namespace Vespertine

/-- Pools with their limits and parents. -/
structure Pools (π : Type) where
  limit : π → Option UInt64
  parent : π → Option π
  /-- A pool and its ancestors; a pool is created after its parent, so that they come to an end. -/
  lineage : π → List π
  lineage_eq : ∀ pool, lineage pool = pool :: (parent pool).elim [] lineage

namespace Pools

variable {π : Type} (pools : Pools π)

theorem lineage_of_root {pool : π} (root : pools.parent pool = none) :
    pools.lineage pool = [pool] := by
  rw [pools.lineage_eq, root]
  rfl

theorem lineage_of_parent {pool up : π} (parent_eq : pools.parent pool = some up) :
    pools.lineage pool = pool :: pools.lineage up := by
  rw [pools.lineage_eq, parent_eq]
  rfl

/-- The ancestors of an ancestor are ancestors. -/
theorem length_lineage_le {pool above : π} (mem : above ∈ pools.lineage pool) :
    (pools.lineage above).length ≤ (pools.lineage pool).length := by
  induction length_eq : (pools.lineage pool).length generalizing pool with
  | zero =>
      rw [pools.lineage_eq] at length_eq
      cases length_eq
  | succ length ih =>
      cases parent_eq : pools.parent pool with
      | none =>
          rw [pools.lineage_of_root parent_eq, List.mem_singleton] at mem
          rw [mem, length_eq]
      | some up =>
          rw [pools.lineage_of_parent parent_eq] at mem length_eq
          rcases List.mem_cons.mp mem with rfl | mem
          · rw [pools.lineage_of_parent parent_eq, length_eq]
          · have le := ih mem (by simpa using length_eq)
            omega

/-- No pool is its own ancestor. -/
theorem nodup_lineage (pool : π) : (pools.lineage pool).Nodup := by
  induction length_eq : (pools.lineage pool).length generalizing pool with
  | zero =>
      rw [pools.lineage_eq] at length_eq
      cases length_eq
  | succ length ih =>
      cases parent_eq : pools.parent pool with
      | none =>
          rw [pools.lineage_of_root parent_eq]
          exact List.nodup_singleton pool
      | some up =>
          have cons_eq := pools.lineage_of_parent parent_eq
          rw [cons_eq] at length_eq ⊢
          refine List.nodup_cons.mpr ⟨fun mem => ?_, ih up (by simpa using length_eq)⟩
          have le := pools.length_lineage_le mem
          rw [cons_eq, List.length_cons] at le
          omega

end Pools

namespace MemPool

open Function (update)
open Waiters (total Light)

/-- Where a call of `try_allocate` is; `held` are the pools in which it has reserved, the last one
first. -/
inductive Phase (π : Type) where
  | idle
  /-- About to load the counter of a pool. -/
  | loading (start : π) (size : UInt64) (held : List π) (pool : π)
  /-- The value in the variable `current`. -/
  | trying (start : π) (size : UInt64) (held : List π) (pool : π) (current : UInt64)
  /-- A pool has refused; about to take back a reservation. -/
  | rolling (size : UInt64) (held : List π)
  | returned (result : Except InvocationError Unit)

structure State (π κ : Type) where
  allocated : π → UInt64
  phase : κ → Phase π
  /-- The allocations that have succeeded, with the pools they were made from. -/
  granted : List (π × UInt64)

inductive Input (π κ : Type) where
  /-- A call of `try_allocate` begins. -/
  | tryAllocate (call : κ) (pool : π) (size : UInt64)
  /-- The next step of a call; a weak compare-and-exchange may fail for no reason. -/
  | advance (call : κ) (spurious : Bool)

/-- A call that cannot take this step now. -/
inductive Disabled where
  | disabled

/-- `current + size > lim`, for a pool that has a limit. -/
def exceeds (limit : Option UInt64) (current size : UInt64) : Bool :=
  match limit with
  | none => false
  | some lim => lim < current + size

variable {π κ : Type} [DecidableEq π] [DecidableEq κ]

namespace State

def new : State π κ := ⟨fun _ => 0, fun _ => .idle, []⟩

/-- The compare-and-exchange has succeeded; go on with the parent, or return. -/
def reserve (pools : Pools π) (state : State π κ) (call : κ) (start : π) (size : UInt64)
    (held : List π) (pool : π) : State π κ :=
  let allocated := update state.allocated pool (state.allocated pool + size)
  match pools.parent pool with
  | some up =>
      { state with
        allocated
        phase := update state.phase call (.loading start size (pool :: held) up) }
  | none =>
      { allocated
        phase := update state.phase call (.returned (.ok ()))
        granted := (start, size) :: state.granted }

/-- One turn of the loop. -/
def attempt (pools : Pools π) (state : State π κ) (call : κ) (start : π) (size : UInt64)
    (held : List π) (pool : π) (current : UInt64) (spurious : Bool) : State π κ :=
  if exceeds (pools.limit pool) current size then
    { state with phase := update state.phase call (.rolling size held) }
  else if state.allocated pool = current ∧ spurious = false then
    state.reserve pools call start size held pool
  else
    { state with
      phase := update state.phase call (.trying start size held pool (state.allocated pool)) }

/-- `allocated.fetch_sub(size)` in the pool that was reserved last. -/
def rollBack (state : State π κ) (call : κ) (size : UInt64) (pool : π) (held : List π) :
    State π κ :=
  { state with
    allocated := update state.allocated pool (state.allocated pool - size)
    phase := update state.phase call (.rolling size held) }

end State

def step (pools : Pools π) (state : State π κ) : Input π κ → Except Disabled (State π κ)
  | .tryAllocate call pool size =>
      match state.phase call with
      | .idle | .returned _ =>
          .ok { state with phase := update state.phase call (.loading pool size [] pool) }
      | _ => .error .disabled
  | .advance call spurious =>
      match state.phase call with
      | .loading start size held pool =>
          .ok { state with
            phase := update state.phase call (.trying start size held pool (state.allocated pool)) }
      | .trying start size held pool current =>
          .ok (state.attempt pools call start size held pool current spurious)
      | .rolling size (pool :: held) => .ok (state.rollBack call size pool held)
      | .rolling _ [] =>
          .ok { state with phase := update state.phase call (.returned (.error .PoolExhausted)) }
      | .idle | .returned _ => .error .disabled

/-- The sum of what is allocated and what is asked for does not overflow. -/
def InRange (state : State π κ) : Input π κ → Prop
  | .advance call _ => ∀ start size held pool current,
      state.phase call = .trying start size held pool current → current.toNat + size.toNat < 2 ^ 64
  | .tryAllocate .. => True

/-- Calls are made at will, as long as the sums stay in range. -/
def machine (pools : Pools π) : Machine (State π κ) (Input π κ) Disabled := ⟨step pools, InRange⟩

/-- The total of the successful allocations from a pool and from those below it. -/
def charged (pools : Pools π) (granted : List (π × UInt64)) (pool : π) : Nat :=
  (granted.map fun grant => if pool ∈ pools.lineage grant.1 then grant.2.toNat else 0).sum

theorem charged_cons (pools : Pools π) (start : π) (size : UInt64) (granted : List (π × UInt64))
    (pool : π) : charged pools ((start, size) :: granted) pool =
      (if pool ∈ pools.lineage start then size.toNat else 0) + charged pools granted pool := by
  simp [charged]

/-- No call is in progress. -/
def Quiet (state : State π κ) : Prop :=
  ∀ call, state.phase call = .idle ∨ ∃ result, state.phase call = .returned result

/-!
### Accounting
-/

/-- What a call has reserved in a pool without having succeeded yet. -/
@[simp] def reserved (pool : π) : Phase π → Nat
  | .loading _ size held _ | .trying _ size held _ _ | .rolling size held =>
      if pool ∈ held then size.toNat else 0
  | .idle | .returned _ => 0

/-- A call goes up the lineage of the pool it was made from. -/
@[simp] def OnPath (pools : Pools π) : Phase π → Prop
  | .loading start _ held pool | .trying start _ held pool _ =>
      held.reverse ++ pools.lineage pool = pools.lineage start
  | .rolling _ held => held.Nodup
  | .idle | .returned _ => True

structure Sound (pools : Pools π) (state : State π κ) : Prop where
  allocated_eq : ∀ pool, (state.allocated pool).toNat =
    charged pools state.granted pool + total (reserved pool) state.phase
  light : ∀ pool, Light (reserved pool) state.phase
  on_path : ∀ call, OnPath pools (state.phase call)
  within : ∀ pool lim, pools.limit pool = some lim → state.allocated pool ≤ lim

namespace Sound

variable {pools : Pools π} {state next : State π κ} {call : κ}

omit [DecidableEq κ] in
theorem new : Sound pools (State.new : State π κ) where
  allocated_eq pool := by
    rw [Waiters.total_eq_zero (by simp [State.new])]
    rfl
  light pool := by simp [Light, State.new]
  on_path call := trivial
  within pool lim _ := UInt64.zero_le

theorem on_path_update (sound : Sound pools state) {after : Phase π} (path : OnPath pools after)
    (other : κ) : OnPath pools (update state.phase call after other) := by
  rcases eq_or_ne other call with rfl | ne
  · simpa using path
  · simpa [ne] using sound.on_path other

/-- A step that touches no counter and reserves nothing. -/
theorem move (sound : Sound pools state) {after : Phase π} (path : OnPath pools after)
    (same : ∀ pool, reserved pool after = reserved pool (state.phase call)) :
    Sound pools { state with phase := update state.phase call after } where
  allocated_eq pool := by
    have changes := Waiters.total_update (sound.light pool) call after
    rw [same] at changes
    rw [sound.allocated_eq pool]
    dsimp only
    omega
  light pool := (sound.light pool).step
  on_path := sound.on_path_update path
  within := sound.within

omit [DecidableEq κ] in
/-- A pool in which a call is about to reserve is none of those in which it has. -/
theorem not_mem_held (sound : Sound pools state) {start pool : π} {size current : UInt64}
    {held : List π} (phase_eq : state.phase call = .trying start size held pool current) :
    pool ∉ held := by
  have path := sound.on_path call
  rw [phase_eq, OnPath, pools.lineage_eq pool] at path
  have nodup := pools.nodup_lineage start
  rw [← path, List.nodup_append] at nodup
  intro mem
  exact nodup.2.2 pool (List.mem_reverse.mpr mem) pool List.mem_cons_self rfl

omit [DecidableEq κ] in
theorem within_update (sound : Sound pools state) {pool : π} {size : UInt64}
    (fits : exceeds (pools.limit pool) (state.allocated pool) size = false)
    (other : π) (lim : UInt64) (limit_eq : pools.limit other = some lim) :
    update state.allocated pool (state.allocated pool + size) other ≤ lim := by
  rcases eq_or_ne other pool with rfl | ne
  · simpa [exceeds, limit_eq] using fits
  · simpa [ne] using sound.within other lim limit_eq

theorem reserve (sound : Sound pools state) {start pool : π} {size : UInt64} {held : List π}
    (phase_eq : state.phase call = .trying start size held pool (state.allocated pool))
    (fits : exceeds (pools.limit pool) (state.allocated pool) size = false)
    (in_range : (state.allocated pool).toNat + size.toNat < 2 ^ 64) :
    Sound pools (state.reserve pools call start size held pool) := by
  have path := sound.on_path call
  rw [phase_eq, OnPath] at path
  have fresh := sound.not_mem_held phase_eq
  have sum_eq : (state.allocated pool + size).toNat =
      (state.allocated pool).toNat + size.toNat := by
    rw [UInt64.toNat_add]
    exact Nat.mod_eq_of_lt in_range
  rw [State.reserve]
  split
  next up parent_eq =>
    rw [pools.lineage_of_parent parent_eq] at path
    refine ⟨fun other => ?_, fun other => (sound.light other).step,
      sound.on_path_update (by simpa using path), sound.within_update fits⟩
    have changes := Waiters.total_update (sound.light other) call
      (.loading start size (pool :: held) up)
    have before := sound.allocated_eq other
    dsimp only
    rcases eq_or_ne other pool with rfl | ne
    · rw [Function.update_self, sum_eq]
      simp only [phase_eq, reserved, fresh, List.mem_cons_self, if_true, if_false] at changes
      omega
    · rw [Function.update_of_ne ne]
      simp only [phase_eq, reserved, List.mem_cons, ne, false_or] at changes
      omega
  next root =>
    rw [pools.lineage_of_root root] at path
    refine ⟨fun other => ?_, fun other => (sound.light other).step, sound.on_path_update trivial,
      sound.within_update fits⟩
    have changes := Waiters.total_update (sound.light other) call (.returned (.ok ()))
    have before := sound.allocated_eq other
    rw [charged_cons, ← path]
    dsimp only
    rcases eq_or_ne other pool with rfl | ne
    · have mem : other ∈ held.reverse ++ [other] := by simp
      rw [Function.update_self, sum_eq, if_pos mem]
      simp only [phase_eq, reserved, fresh, if_false] at changes
      omega
    · have mem_iff : other ∈ held.reverse ++ [pool] ↔ other ∈ held := by simp [ne]
      rw [Function.update_of_ne ne]
      simp only [phase_eq, reserved] at changes
      simp only [mem_iff]
      omega

/-- The pool still holds the reservation that is taken back. -/
theorem rollBack (sound : Sound pools state) {pool : π} {size : UInt64} {held : List π}
    (phase_eq : state.phase call = .rolling size (pool :: held)) :
    Sound pools (state.rollBack call size pool held) := by
  have path := sound.on_path call
  rw [phase_eq, OnPath, List.nodup_cons] at path
  have size_le : size ≤ state.allocated pool := by
    have held_le : size.toNat ≤ total (reserved pool) state.phase := by
      simpa [phase_eq] using Waiters.le_total (sound.light pool) call
    rw [UInt64.le_iff_toNat_le, sound.allocated_eq]
    omega
  refine ⟨fun other => ?_, fun other => (sound.light other).step,
    sound.on_path_update path.2, fun other lim limit_eq => ?_⟩
  · have changes := Waiters.total_update (sound.light other) call (.rolling size held)
    have before := sound.allocated_eq other
    simp only [State.rollBack]
    rcases eq_or_ne other pool with rfl | ne
    · rw [Function.update_self, UInt64.toNat_sub_of_le _ _ size_le]
      simp only [phase_eq, reserved, path.1, List.mem_cons_self, if_true, if_false] at changes
      omega
    · rw [Function.update_of_ne ne]
      simp only [phase_eq, reserved, List.mem_cons, ne, false_or] at changes
      omega
  · have bound := sound.within other lim limit_eq
    rcases eq_or_ne other pool with rfl | ne
    · refine UInt64.le_trans ?_ bound
      simp [State.rollBack, UInt64.le_iff_toNat_le, UInt64.toNat_sub_of_le _ _ size_le]
    · simpa [State.rollBack, ne] using bound

theorem attempt (sound : Sound pools state) {start pool : π} {size current : UInt64}
    {held : List π} {spurious : Bool}
    (phase_eq : state.phase call = .trying start size held pool current)
    (in_range : current.toNat + size.toNat < 2 ^ 64) :
    Sound pools (state.attempt pools call start size held pool current spurious) := by
  have path := sound.on_path call
  rw [phase_eq, OnPath] at path
  rw [State.attempt]
  split
  · refine sound.move ?_ (by simp [phase_eq])
    have nodup := pools.nodup_lineage start
    rw [← path] at nodup
    exact List.nodup_reverse.mp (List.Nodup.of_append_left nodup)
  next fits =>
    split
    next unchanged =>
      obtain ⟨rfl, _⟩ := unchanged
      exact sound.reserve phase_eq (by simpa using fits) in_range
    next => exact sound.move path (by simp [phase_eq])

theorem step (sound : Sound pools state) {input : Input π κ} (in_range : InRange state input)
    (step_eq : MemPool.step pools state input = .ok next) : Sound pools next := by
  cases input with
  | tryAllocate call pool size =>
      simp only [MemPool.step] at step_eq
      split at step_eq
      next phase_eq =>
        obtain rfl := Except.ok.inj step_eq
        exact sound.move rfl (by simp [phase_eq])
      next phase_eq =>
        obtain rfl := Except.ok.inj step_eq
        exact sound.move rfl (by simp [phase_eq])
      next => cases step_eq
  | advance call spurious =>
      simp only [MemPool.step] at step_eq
      split at step_eq
      next phase_eq =>
        obtain rfl := Except.ok.inj step_eq
        have path := sound.on_path call
        rw [phase_eq] at path
        exact sound.move path (by simp [phase_eq])
      next phase_eq =>
        obtain rfl := Except.ok.inj step_eq
        exact sound.attempt phase_eq (in_range _ _ _ _ _ phase_eq)
      next phase_eq =>
        obtain rfl := Except.ok.inj step_eq
        exact sound.rollBack phase_eq
      next phase_eq =>
        obtain rfl := Except.ok.inj step_eq
        exact sound.move trivial (by simp [phase_eq])
      next => cases step_eq
      next => cases step_eq

end Sound

/-- At every moment each pool is within its limit and covers the allocations charged to it, and
when no call is in progress it holds nothing else. -/
theorem reservations_within_limits {pools : Pools π} {inputs : List (Input π κ)}
    {final : State π κ} (permits : (machine pools).Permits State.new inputs)
    (run_eq : (machine pools).run State.new inputs = .ok final) :
    (∀ pool lim, pools.limit pool = some lim → final.allocated pool ≤ lim) ∧
      (∀ pool, charged pools final.granted pool ≤ (final.allocated pool).toNat) ∧
      (Quiet final → ∀ pool, (final.allocated pool).toNat = charged pools final.granted pool) := by
  have sound : Sound pools final := (machine pools).run_keeps
    (fun state input next sound in_range step_eq => sound.step in_range step_eq) .new permits run_eq
  refine ⟨sound.within, fun pool => ?_, fun quiet pool => ?_⟩
  · rw [sound.allocated_eq]
    omega
  · have none : total (reserved pool) final.phase = 0 := by
      refine Waiters.total_eq_zero fun call => ?_
      rcases quiet call with idle | ⟨result, returned⟩
      · simp [idle]
      · simp [returned]
    rw [sound.allocated_eq, none, Nat.add_zero]

/-- A pool of 100 bytes below one of 50. -/
def nested : Pools Bool where
  limit below := some (if below then 100 else 50)
  parent below := if below then some false else none
  lineage below := if below then [true, false] else [false]
  lineage_eq below := by cases below <;> rfl

/-- The lower pool has room for 60 bytes, but not the one above it. -/
def refused : List (Input Bool Unit) :=
  .tryAllocate () true 60 :: List.replicate 6 (.advance () false)

theorem reservations_within_limits_refused :
    ∃ final, (machine nested).Permits State.new refused ∧
      (machine nested).run State.new refused = .ok final ∧
      final.phase () = .returned (.error .PoolExhausted) ∧ Quiet final ∧
      ((∀ pool lim, nested.limit pool = some lim → final.allocated pool ≤ lim) ∧
        (∀ pool, charged nested final.granted pool ≤ (final.allocated pool).toNat) ∧
        ∀ pool, (final.allocated pool).toNat = charged nested final.granted pool) := by
  have run_eq : (machine nested).run State.new refused = .ok _ := rfl
  have permits : (machine nested).Permits State.new refused := by
    repeat' refine (machine nested).permits_cons ?_ rfl ?_
    all_goals first | trivial | (intro _ _ _ _ _ phase_eq; cases phase_eq) <;> decide
  obtain ⟨within, covers, exact_when⟩ := reservations_within_limits permits run_eq
  exact ⟨_, permits, run_eq, rfl, fun _ => .inr ⟨_, rfl⟩, within, covers,
    exact_when fun _ => .inr ⟨_, rfl⟩⟩

end MemPool
end Vespertine
