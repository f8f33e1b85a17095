import Mathlib.Logic.Function.Basic

/-!
# Values that an earlier owner left

Cells of values that are copied from one another and overwritten in part.  Some values are stale:
they may be whatever an earlier owner left there.  Staleness follows the values through copies, and
is known without the values, so two contents that agree but for stale values go on to agree.
-/

namespace Vespertine
namespace Leftovers

open Function (update)

variable {φ ι υ : Type}

/-- What is written to a cell. -/
inductive Source (φ ι υ : Type)
  /-- The contents of a cell. -/
  | copy (source : φ)
  /-- Some values; the others stay. -/
  | patch (values : ι → Option υ)

namespace Source

/-- The contents of a cell that has been written. -/
def read (source : Source φ ι υ) (memory : φ → ι → υ) (target : φ) : ι → υ :=
  match source with
  | .copy cell => memory cell
  | .patch values => fun index => (values index).getD (memory target index)

/-- The stale values of a cell that has been written. -/
def taint (source : Source φ ι υ) (stale : φ → ι → Bool) (target : φ) : ι → Bool :=
  match source with
  | .copy cell => stale cell
  | .patch values => fun index => (values index).isNone && stale target index

end Source

/-- Contents agree but for stale values. -/
def Agree (stale : φ → ι → Bool) (left right : φ → ι → υ) : Prop :=
  ∀ cell index, stale cell index = false → left cell index = right cell index

variable [DecidableEq φ]

/-- All values of some cells become stale. -/
def release (stale : φ → ι → Bool) (cells : List φ) : φ → ι → Bool :=
  fun cell index => decide (cell ∈ cells) || stale cell index

/-- Write cells, one after another. -/
def storeAll : (φ → ι → υ) → List (φ × Source φ ι υ) → φ → ι → υ
  | memory, [] => memory
  | memory, (target, source) :: writes =>
      storeAll (update memory target (source.read memory target)) writes

/-- The stale values after cells have been written. -/
def taintAll : (φ → ι → Bool) → List (φ × Source φ ι υ) → φ → ι → Bool
  | stale, [] => stale
  | stale, (target, source) :: writes =>
      taintAll (update stale target (source.taint stale target)) writes

section Writes

variable {stale : φ → ι → Bool} {left right : φ → ι → υ} {cell : φ} {index : ι}

theorem Agree.write (agree : Agree stale left right) (target : φ) (source : Source φ ι υ) :
    Agree (update stale target (source.taint stale target))
      (update left target (source.read left target))
      (update right target (source.read right target)) := by
  intro cell index fresh
  by_cases same : cell = target
  · subst same
    rw [Function.update_self] at fresh ⊢
    rw [Function.update_self]
    cases source with
    | copy source => exact agree source index fresh
    | patch values =>
        simp only [Source.taint, Source.read] at fresh ⊢
        cases value_eq : values index with
        | some value => rfl
        | none =>
            rw [value_eq] at fresh
            exact agree cell index fresh
  · rw [Function.update_of_ne same] at fresh ⊢
    rw [Function.update_of_ne same]
    exact agree cell index fresh

/-- Contents that agree go on to agree. -/
theorem Agree.storeAll (agree : Agree stale left right) (writes : List (φ × Source φ ι υ)) :
    Agree (taintAll stale writes) (storeAll left writes) (storeAll right writes) := by
  induction writes generalizing stale left right with
  | nil => exact agree
  | cons write writes ih => exact ih (agree.write write.1 write.2)

theorem Agree.release (agree : Agree stale left right) (cells : List φ) :
    Agree (release stale cells) left right :=
  fun cell index fresh => agree cell index (Bool.or_eq_false_iff.mp fresh).2

/-- A value that is stale after a write has been stale before, in its cell or where it is copied
from. -/
theorem taint_source {target : φ} {source : Source φ ι υ}
    (tainted : update stale target (source.taint stale target) cell index = true) :
    ∃ origin, stale origin index = true ∧ ∀ memory : φ → ι → υ,
      update memory target (source.read memory target) cell index = memory origin index := by
  by_cases same : cell = target
  · subst same
    simp only [Function.update_self] at tainted ⊢
    cases source with
    | copy source => exact ⟨source, tainted, fun memory => rfl⟩
    | patch values =>
        simp only [Source.taint, Bool.and_eq_true, Option.isNone_iff_eq_none] at tainted
        refine ⟨cell, tainted.2, fun memory => ?_⟩
        simp only [Source.read, tainted.1, Option.getD_none]
  · simp only [Function.update_of_ne same] at tainted ⊢
    exact ⟨cell, tainted, fun memory => rfl⟩

/-- A value that is stale after writes has come from a stale one, whatever the contents are. -/
theorem taintAll_source {writes : List (φ × Source φ ι υ)}
    (tainted : taintAll stale writes cell index = true) :
    ∃ origin, stale origin index = true ∧ ∀ memory : φ → ι → υ,
      storeAll memory writes cell index = memory origin index := by
  induction writes generalizing stale with
  | nil => exact ⟨cell, tainted, fun memory => rfl⟩
  | cons write writes ih =>
      obtain ⟨middle, middle_stale, follows⟩ := ih tainted
      obtain ⟨origin, origin_stale, written⟩ := taint_source middle_stale
      exact ⟨origin, origin_stale, fun memory => (follows _).trans (written memory)⟩

end Writes

end Leftovers
end Vespertine
