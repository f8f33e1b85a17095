import Mathlib.Data.List.Iterate
import Mathlib.Data.List.Nodup
import Mathlib.Data.List.Perm.Subperm
import Mathlib.Data.Nat.Find

/-!
# Chains of links

A walk follows links from a first node until it meets the end.  Where a link depends on a key of
its node only, no key is met twice before the end: the walk would go round for ever.  So a walk
that ends is no longer than there are keys.
-/

namespace Vespertine

variable {α κ : Type*}

/-- The end is met after so many links, and not before. -/
structure EndsAfter (link : α → α) (stop start : α) (count : Nat) : Prop where
  meets : link^[count] start = stop
  before : ∀ step < count, link^[step] start ≠ stop

namespace EndsAfter

variable {link : α → α} {stop start : α} {count : Nat} {key : α → κ}

theorem zero : EndsAfter link stop stop 0 := ⟨rfl, nofun⟩

theorem succ (not_stop : start ≠ stop) (rest : EndsAfter link stop (link start) count) :
    EndsAfter link stop start (count + 1) := by
  refine ⟨rest.meets, fun step step_lt => ?_⟩
  cases step with
  | zero => exact not_stop
  | succ step => exact rest.before step (Nat.lt_of_succ_lt_succ step_lt)

/-- Split a chain at its first link. -/
theorem tail (ends : EndsAfter link stop start (count + 1)) :
    EndsAfter link stop (link start) count :=
  ⟨ends.meets, fun step step_lt => ends.before (step + 1) (Nat.succ_lt_succ step_lt)⟩

/-- A chain that meets the end has a first place where it does. -/
theorem exists_le {steps : Nat} (meets : link^[steps] start = stop) :
    ∃ count ≤ steps, EndsAfter link stop start count := by
  classical
  have met : ∃ step, link^[step] start = stop := ⟨steps, meets⟩
  exact ⟨Nat.find met, Nat.find_min' met meets, Nat.find_spec met, fun _ => Nat.find_min met⟩

/-- If a key came again, the end would have been met as long before. -/
theorem key_ne (ends : EndsAfter link stop start count)
    (link_congr : ∀ first second, key first = key second → link first = link second)
    {first second : Nat} (lt : first < second) (inside : second < count) :
    key (link^[first] start) ≠ key (link^[second] start) := by
  intro same
  have joined : link^[first + 1] start = link^[second + 1] start := by
    rw [Function.iterate_succ_apply', Function.iterate_succ_apply']
    exact link_congr _ _ same
  obtain ⟨rest, count_eq⟩ := Nat.exists_eq_add_of_lt inside
  have early : link^[rest + (first + 1)] start = stop := by
    rw [Function.iterate_add_apply, joined, ← Function.iterate_add_apply,
      show rest + (second + 1) = count by omega]
    exact ends.meets
  exact ends.before (rest + (first + 1)) (by omega) early

/-- No key is met twice. -/
theorem keys_nodup (ends : EndsAfter link stop start count)
    (link_congr : ∀ first second, key first = key second → link first = link second) :
    ((List.iterate link start count).map key).Nodup := by
  rw [← List.range_map_iterate, List.map_map]
  refine List.Nodup.map_on ?_ List.nodup_range
  intro first first_mem second second_mem same
  rcases lt_trichotomy first second with lt | eq | gt
  · exact absurd same (ends.key_ne link_congr lt (List.mem_range.mp second_mem))
  · exact eq
  · exact absurd same.symm (ends.key_ne link_congr gt (List.mem_range.mp first_mem))

/-- A chain is no longer than there are keys. -/
theorem count_le {key : α → Nat} {bound : Nat} (ends : EndsAfter link stop start count)
    (link_congr : ∀ first second, key first = key second → link first = link second)
    (key_lt : ∀ node, key node < bound) : count ≤ bound := by
  have inside : (List.iterate link start count).map key ⊆ List.range bound := by
    intro value mem
    obtain ⟨node, -, rfl⟩ := List.mem_map.mp mem
    exact List.mem_range.mpr (key_lt node)
  have length_le := (List.subperm_of_subset (ends.keys_nodup link_congr) inside).length_le
  rwa [List.length_map, List.length_iterate, List.length_range] at length_le

end EndsAfter

end Vespertine
