import Mathlib.Data.Set.Card
import Mathlib.Logic.Function.Basic

/-!
# Reference counts

Places hold references to objects, and every object carries a count that is raised when a reference
to it is stored and lowered when one goes.  As long as references come and go in this way only, the
count of an object is the number of places that hold it.
-/

namespace Vespertine

/-- References and the counts of the objects they lead to. -/
structure Refs (ρ ω : Type*) where
  target : ρ → Option ω
  strong : ω → Nat

namespace Refs

variable {ρ ω : Type*} [DecidableEq ρ] [DecidableEq ω]

/-- No references. -/
def empty : Refs ρ ω := ⟨fun _ => none, fun _ => 0⟩

/-- Drop what a place holds. -/
def clear (refs : Refs ρ ω) (place : ρ) : Refs ρ ω :=
  match refs.target place with
  | none => refs
  | some object =>
      { target := Function.update refs.target place none
        strong := Function.update refs.strong object (refs.strong object - 1) }

/-- Store a new reference, and drop what the place has held. -/
def put (refs : Refs ρ ω) (place : ρ) (object : ω) : Refs ρ ω :=
  let cloned := { refs with
    strong := Function.update refs.strong object (refs.strong object + 1) }
  let cleared := cloned.clear place
  { cleared with target := Function.update cleared.target place (some object) }

/-- The counts are true. -/
structure Counted (refs : Refs ρ ω) : Prop where
  finite : {place | refs.target place ≠ none}.Finite
  count : ∀ object, {place | refs.target place = some object}.ncard = refs.strong object

variable {refs : Refs ρ ω} {place other : ρ} {object : ω}

@[simp] theorem target_clear (refs : Refs ρ ω) (place : ρ) :
    (refs.clear place).target = Function.update refs.target place none := by
  rw [clear]
  split
  next empty => rw [← empty, Function.update_eq_self]
  next => rfl

@[simp] theorem target_put (refs : Refs ρ ω) (place : ρ) (object : ω) :
    (refs.put place object).target = Function.update refs.target place (some object) := by
  simp [put]

/-- What a place contributes to the count of an object. -/
def contribution (content : Option ω) (object : ω) : Nat := if content = some object then 1 else 0

theorem strong_clear_le (refs : Refs ρ ω) (place : ρ) (object : ω) :
    (refs.clear place).strong object ≤ refs.strong object := by
  rw [clear]
  split
  · exact le_rfl
  next held _ =>
    rcases eq_or_ne object held with rfl | ne
    · simp
    · simp [ne]

omit [DecidableEq ρ] in
/-- The holders of an object are the other places that hold it, and this one if it does. -/
theorem ncard_holders {target : ρ → Option ω} (finite : {other | target other = some object}.Finite)
    (place : ρ) : {other | target other = some object}.ncard =
      {other | other ≠ place ∧ target other = some object}.ncard +
        contribution (target place) object := by
  rw [contribution]
  split_ifs with held
  · have rest_finite : {other | other ≠ place ∧ target other = some object}.Finite :=
      finite.subset fun other holds => holds.2
    rw [← Set.ncard_insert_of_notMem (a := place) (by simp) rest_finite]
    congr 1
    ext other
    rcases eq_or_ne other place with rfl | ne
    · simp [held]
    · simp [ne]
  · rw [Nat.add_zero]
    congr 1
    ext other
    rcases eq_or_ne other place with rfl | ne
    · simp [held]
    · simp [ne]

namespace Counted

omit [DecidableEq ρ] [DecidableEq ω] in
theorem empty : Counted (Refs.empty : Refs ρ ω) := by
  refine ⟨?_, fun object => ?_⟩
  · simp [Refs.empty]
  · simp [Refs.empty]

omit [DecidableEq ρ] [DecidableEq ω] in
theorem finite_of (counted : Counted refs) (object : ω) :
    {place | refs.target place = some object}.Finite :=
  counted.finite.subset fun place held => by simp_all

omit [DecidableEq ρ] [DecidableEq ω] in
theorem strong_eq_zero (counted : Counted refs) :
    refs.strong object = 0 ↔ ∀ place, refs.target place ≠ some object := by
  rw [← counted.count object, Set.ncard_eq_zero (counted.finite_of object),
    Set.eq_empty_iff_forall_notMem]
  exact Iff.rfl

omit [DecidableEq ρ] [DecidableEq ω] in
theorem strong_pos (counted : Counted refs) (held : refs.target place = some object) :
    0 < refs.strong object :=
  Nat.pos_of_ne_zero fun zero => counted.strong_eq_zero.mp zero place held

omit [DecidableEq ρ] [DecidableEq ω] in
/-- An object with one reference is in one place. -/
theorem eq_of_strong_eq_one (counted : Counted refs) (one : refs.strong object = 1)
    (held : refs.target place = some object) (elsewhere : refs.target other = some object) :
    other = place := by
  obtain ⟨only, holders_eq⟩ := Set.ncard_eq_one.mp ((counted.count object).trans one)
  have eq_only : ∀ holder, refs.target holder = some object → holder = only := fun holder holds =>
    (Set.ext_iff.mp holders_eq holder).mp holds
  rw [eq_only place held, eq_only other elsewhere]

/-- Changing what one place holds, with the counts changed accordingly. -/
theorem change (counted : Counted refs) {next : Refs ρ ω} {content : Option ω}
    (target_eq : next.target = Function.update refs.target place content)
    (strong_eq : ∀ object, next.strong object + contribution (refs.target place) object =
      refs.strong object + contribution content object) : Counted next := by
  have finite : {other | next.target other ≠ none}.Finite := by
    refine (counted.finite.insert place).subset fun other held => ?_
    rcases eq_or_ne other place with rfl | ne
    · exact Set.mem_insert _ _
    · refine Set.mem_insert_of_mem _ fun empty => held ?_
      rw [target_eq, Function.update_of_ne ne, empty]
  refine ⟨finite, fun object => ?_⟩
  have rest : {other | other ≠ place ∧ next.target other = some object} =
      {other | other ≠ place ∧ refs.target other = some object} := by
    ext other
    refine and_congr_right fun ne => ?_
    rw [target_eq, Function.update_of_ne ne]
  have next_finite : {other | next.target other = some object}.Finite :=
    finite.subset fun other held => by simp_all
  have content_eq : next.target place = content := by
    rw [target_eq, Function.update_self]
  have after := ncard_holders next_finite place
  have before := ncard_holders (counted.finite_of object) place
  have changed := strong_eq object
  rw [rest, content_eq] at after
  rw [counted.count object] at before
  omega

theorem clear (counted : Counted refs) (place : ρ) : Counted (refs.clear place) := by
  refine counted.change (target_clear refs place) fun object => ?_
  cases held : refs.target place with
  | none => simp [Refs.clear, held]
  | some dropped =>
      rcases eq_or_ne object dropped with rfl | ne
      · have positive := counted.strong_pos held
        simp only [Refs.clear, held, Function.update_self, contribution]
        simp
        omega
      · simp [Refs.clear, held, ne, contribution, ne.symm]

theorem put (counted : Counted refs) (place : ρ) (object : ω) :
    Counted (refs.put place object) := by
  refine counted.change (target_put refs place object) fun other => ?_
  cases held : refs.target place with
  | none =>
      rcases eq_or_ne other object with rfl | ne
      · simp [Refs.put, Refs.clear, held, contribution]
      · simp [Refs.put, Refs.clear, held, contribution, ne, ne.symm]
  | some dropped =>
      have positive := counted.strong_pos held
      rcases eq_or_ne other object with rfl | ne
      · rcases eq_or_ne other dropped with rfl | apart
        · simp [Refs.put, Refs.clear, held, contribution]
        · simp [Refs.put, Refs.clear, held, contribution, apart, apart.symm]
      · rcases eq_or_ne other dropped with rfl | apart
        · simp [Refs.put, Refs.clear, held, contribution, ne, ne.symm]
          omega
        · simp [Refs.put, Refs.clear, held, contribution, ne, ne.symm, apart, apart.symm]

end Counted
end Refs
end Vespertine
