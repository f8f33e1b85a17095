import Vespertine.Object.PoolAccounting

/-!
# Requests of every size

The size that a pool is asked for comes from a user call.  It is added to the counters without a
check, so that a sum that wraps around looks as if it were within a limit.
-/

namespace Vespertine
namespace MemPool

variable {π : Type} [DecidableEq π] {limit : π → Option UInt64} {size : UInt64}
  {allocated : π → UInt64}

/-- A request that is granted fits in exact arithmetic, and is counted exactly. -/
def GrantsExactly (limit : π → Option UInt64) (size : UInt64) (chain : List π)
    (allocated : π → UInt64) (result : Except InvocationError Unit × (π → UInt64)) : Prop :=
  result.1 = .ok () →
    (∀ pool ∈ chain, ∀ lim, limit pool = some lim →
      (allocated pool).toNat + size.toNat ≤ lim.toNat) ∧
    ∀ pool ∈ chain, (result.2 pool).toNat = (allocated pool).toNat + size.toNat

theorem toNat_add_eq_iff (current size : UInt64) :
    (current + size).toNat = current.toNat + size.toNat ↔
      current.toNat + size.toNat < 2 ^ 64 := by
  rw [UInt64.toNat_add]
  constructor
  · intro exact_sum
    rw [← exact_sum]
    exact Nat.mod_lt _ (by decide)
  · exact Nat.mod_eq_of_lt

/-- A request is granted if no pool of the chain refuses it. -/
theorem tryAllocate_granted {chain : List π} (nodup : chain.Nodup)
    (fits : ∀ pool ∈ chain, exceeds (limit pool) (allocated pool) size = false) :
    (tryAllocate limit size chain allocated).1 = .ok () := by
  induction chain generalizing allocated with
  | nil => rfl
  | cons pool parents ih =>
      obtain ⟨not_mem, nodup⟩ := List.nodup_cons.mp nodup
      have above : ∀ other ∈ parents,
          exceeds (limit other) (Function.update allocated pool (allocated pool + size) other)
            size = false := by
        intro other mem
        have ne : other ≠ pool := fun eq => not_mem (eq ▸ mem)
        rw [Function.update_of_ne ne]
        exact fits other (List.mem_cons_of_mem pool mem)
      have granted := ih nodup above
      have here : ¬exceeds (limit pool) (allocated pool) size = true := by
        rw [fits pool List.mem_cons_self]
        nofun
      rw [tryAllocate, if_neg here]
      obtain ⟨⟨outcome, after⟩, result_eq⟩ : ∃ result, tryAllocate limit size parents
        (Function.update allocated pool (allocated pool + size)) = result := ⟨_, rfl⟩
      rw [result_eq] at granted
      obtain rfl : outcome = .ok () := granted
      simp only [result_eq]

/-- Limits are kept exactly if no sum in the chain wraps around, or a pool of the chain refuses. -/
theorem grantsExactly_iff (pools : Pools π) (pool : π) (size : UInt64)
    (allocated : π → UInt64) :
    GrantsExactly pools.limit size (pools.lineage pool) allocated
        (tryAllocate pools.limit size (pools.lineage pool) allocated) ↔
      (∀ above ∈ pools.lineage pool, (allocated above).toNat + size.toNat < 2 ^ 64) ∨
        ∃ above ∈ pools.lineage pool,
          exceeds (pools.limit above) (allocated above) size = true := by
  obtain ⟨⟨outcome, after⟩, result_eq⟩ : ∃ result,
    tryAllocate pools.limit size (pools.lineage pool) allocated = result := ⟨_, rfl⟩
  have nodup := pools.nodup_lineage pool
  rw [result_eq]
  cases outcome with
  | error problem =>
      refine iff_of_true nofun (.inr ?_)
      by_contra none_refuses
      push Not at none_refuses
      have granted := tryAllocate_granted nodup fun above mem =>
        Bool.eq_false_iff.mpr (none_refuses above mem)
      rw [result_eq] at granted
      cases granted
  | ok =>
      have spec := tryAllocate_ok nodup result_eq
      constructor
      · intro grants
        refine .inl fun above mem => (toNat_add_eq_iff _ _).mp ?_
        have counted : (after above).toNat = _ := (grants rfl).2 above mem
        rwa [(spec above).2, if_pos mem] at counted
      · rintro (exact_sums | ⟨above, mem, refuses⟩) -
        · refine ⟨fun above mem lim limit_eq => ?_, fun above mem => ?_⟩
          · have fits := (spec above).1 mem
            rw [limit_eq] at fits
            have sum_le : (allocated above + size).toNat ≤ lim.toNat :=
              UInt64.le_iff_toNat_le.mp (UInt64.not_lt.mp (of_decide_eq_false fits))
            rwa [(toNat_add_eq_iff _ _).mpr (exact_sums above mem)] at sum_le
          · dsimp only
            rw [(spec above).2, if_pos mem, (toNat_add_eq_iff _ _).mpr (exact_sums above mem)]
        · rw [(spec above).1 mem] at refuses
          cases refuses

/-- Pools that are limited to 100 and to 50 bytes and have given one byte each grant all but one of
`2 ^ 64` bytes, and count nothing any more. -/
theorem grants_beyond_limits :
    (∀ pool lim, nested.limit pool = some lim → (1 : UInt64) ≤ lim) ∧
      tryAllocate nested.limit 0xFFFFFFFFFFFFFFFF (nested.lineage true) (fun _ => 1) =
        (.ok (), fun _ => 0) ∧
      ¬GrantsExactly nested.limit 0xFFFFFFFFFFFFFFFF (nested.lineage true) (fun _ => 1)
        (tryAllocate nested.limit 0xFFFFFFFFFFFFFFFF (nested.lineage true) fun _ => 1) := by
  have granted : (tryAllocate nested.limit 0xFFFFFFFFFFFFFFFF (nested.lineage true)
    fun _ => 1).1 = .ok () := rfl
  refine ⟨fun pool lim limit_eq => ?_, ?_, fun grants => ?_⟩
  · cases pool <;> cases limit_eq <;> decide
  · refine Prod.ext granted (funext fun pool => ?_)
    cases pool <;> rfl
  · exact absurd ((grants granted).1 true List.mem_cons_self 100 rfl) (by decide)

end MemPool
end Vespertine
