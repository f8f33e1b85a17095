import Mathlib.Algebra.BigOperators.Finprod
import Mathlib.Data.List.Nodup
import Mathlib.Logic.Function.Basic

/-!
# Threads and their phases

Any number of threads, each in a phase, take steps one at a time.  A step of one thread changes its
own phase, and a thread that it wakes.  `Waits` ties a queue to the phase of its members, `Holds`
ties a lock to the phase of its holder, `total` adds up what the threads weigh in their phases, and
`census` counts the threads in a kind of phase.
-/

namespace Vespertine
namespace Waiters

open Function (update)

variable {τ φ : Type*} [DecidableEq τ] {phase : τ → φ} {kind : φ → Prop} {thread : τ} {after : φ}

/-- Some thread is in a phase of this kind. -/
def Present (phase : τ → φ) (kind : φ → Prop) : Prop := ∃ thread, kind (phase thread)

/-- A step of a thread of another kind keeps the ones that there are. -/
theorem Present.keep (found : Present phase kind) (other : ¬ kind (phase thread)) :
    Present (update phase thread after) kind := by
  obtain ⟨witness, holds⟩ := found
  have ne : witness ≠ thread := by
    rintro rfl
    exact other holds
  exact ⟨witness, by simpa [ne] using holds⟩

theorem Present.enter (holds : kind after) : Present (update phase thread after) kind :=
  ⟨thread, by simpa using holds⟩

/-- A thread that stays of its kind keeps the ones that there are. -/
theorem Present.stay (found : Present phase kind) (stays : kind (phase thread) → kind after) :
    Present (update phase thread after) kind := by
  by_cases was : kind (phase thread)
  · exact .enter (stays was)
  · exact found.keep was

/-- Who is in a phase after the step of a thread that is not was in it before. -/
theorem phase_before {target : φ} {other : τ} (ne : after ≠ target)
    (eq : update phase thread after other = target) : phase other = target := by
  rcases eq_or_ne other thread with rfl | other_ne
  · exact absurd (by simpa using eq) ne
  · simpa [other_ne] using eq

/-!
### Queues
-/

/-- The members of a queue are the threads in a phase of this kind, each once. -/
structure Waits (queue : List τ) (phase : τ → φ) (kind : φ → Prop) : Prop where
  nodup : queue.Nodup
  mem_iff : ∀ thread, thread ∈ queue ↔ kind (phase thread)

/-- The members of a queue are sent to another phase. -/
def drained (queue : List τ) (after : φ) (phase : τ → φ) (thread : τ) : φ :=
  if thread ∈ queue then after else phase thread

namespace Waits

variable {queue : List τ}

omit [DecidableEq τ] in
theorem nil (none : ∀ thread, ¬ kind (phase thread)) : Waits [] phase kind :=
  ⟨List.nodup_nil, fun thread => by simpa using none thread⟩

/-- A step that does not touch the queue. -/
theorem keep (waits : Waits queue phase kind) (same : kind after ↔ kind (phase thread)) :
    Waits queue (update phase thread after) kind := by
  refine ⟨waits.nodup, fun other => ?_⟩
  rcases eq_or_ne other thread with rfl | ne
  · rw [waits.mem_iff, Function.update_self, same]
  · rw [waits.mem_iff, Function.update_of_ne ne]

theorem push (waits : Waits queue phase kind) (outside : ¬ kind (phase thread))
    (inside : kind after) : Waits (queue ++ [thread]) (update phase thread after) kind := by
  have not_mem : thread ∉ queue := fun mem => outside ((waits.mem_iff thread).mp mem)
  refine ⟨?_, fun other => ?_⟩
  · rw [List.nodup_append]
    refine ⟨waits.nodup, List.nodup_singleton _, fun member mem other other_mem => ?_⟩
    rintro rfl
    obtain rfl : member = thread := by simpa using other_mem
    exact not_mem mem
  · rcases eq_or_ne other thread with rfl | ne
    · simpa using inside
    · simp [ne, waits.mem_iff]

theorem pop (waits : Waits (thread :: queue) phase kind) (outside : ¬ kind after) :
    Waits queue (update phase thread after) kind := by
  obtain ⟨not_mem, nodup⟩ := List.nodup_cons.mp waits.nodup
  refine ⟨nodup, fun other => ?_⟩
  rcases eq_or_ne other thread with rfl | ne
  · simp [not_mem, outside]
  · rw [Function.update_of_ne ne, ← waits.mem_iff]
    simp [ne]

/-- Every member leaves at once. -/
theorem drain (waits : Waits queue phase kind) (outside : ¬ kind after) :
    Waits [] (drained queue after phase) kind := by
  refine nil fun thread => ?_
  by_cases mem : thread ∈ queue
  · simpa [drained, mem] using outside
  · simpa [drained, mem] using fun holds => mem ((waits.mem_iff thread).mpr holds)

/-- The members that leave were not of another kind and do not become of it. -/
theorem drained_iff (waits : Waits queue phase kind) {other : φ → Prop}
    (was : ∀ before, kind before → ¬ other before) (fails : ¬ other after) (thread : τ) :
    other (drained queue after phase thread) ↔ other (phase thread) := by
  by_cases mem : thread ∈ queue
  · have queued := (waits.mem_iff thread).mp mem
    simp [drained, mem, fails, was _ queued]
  · simp [drained, mem]

omit [DecidableEq τ] in
theorem congr {later : τ → φ} (waits : Waits queue phase kind)
    (same : ∀ thread, kind (later thread) ↔ kind (phase thread)) : Waits queue later kind :=
  ⟨waits.nodup, fun thread => (waits.mem_iff thread).trans (same thread).symm⟩

end Waits

/-!
### Locks
-/

/-- The holder of a lock is the thread in a phase of this kind. -/
def Holds (holder : Option τ) (phase : τ → φ) (kind : φ → Prop) : Prop :=
  ∀ thread, holder = some thread ↔ kind (phase thread)

namespace Holds

variable {holder : Option τ}

/-- A step that does not touch the lock. -/
theorem keep (holds : Holds holder phase kind) (same : kind after ↔ kind (phase thread)) :
    Holds holder (update phase thread after) kind := by
  intro other
  rcases eq_or_ne other thread with rfl | ne
  · rw [holds, Function.update_self, same]
  · rw [holds, Function.update_of_ne ne]

omit [DecidableEq τ] in
theorem congr {later : τ → φ} (holds : Holds holder phase kind)
    (same : ∀ thread, kind (later thread) ↔ kind (phase thread)) : Holds holder later kind :=
  fun thread => (holds thread).trans (same thread).symm

theorem take (holds : Holds none phase kind) (inside : kind after) :
    Holds (some thread) (update phase thread after) kind := by
  intro other
  rcases eq_or_ne other thread with rfl | ne
  · simpa using inside
  · rw [Function.update_of_ne ne, ← holds]
    simpa using ne.symm

theorem release (holds : Holds holder phase kind) (was : kind (phase thread))
    (outside : ¬ kind after) : Holds none (update phase thread after) kind := by
  intro other
  rcases eq_or_ne other thread with rfl | ne
  · simpa using outside
  · have held : holder = some thread := (holds thread).mpr was
    rw [Function.update_of_ne ne, ← holds, held]
    simpa using ne.symm

omit [DecidableEq τ] in
/-- A free lock has nobody inside. -/
theorem free (holds : Holds none phase kind) (thread : τ) : ¬ kind (phase thread) := by
  rw [← holds]
  simp

end Holds

/-!
### Counts
-/

/-- What the threads weigh together. -/
noncomputable def total (weight : φ → Nat) (phase : τ → φ) : Nat := ∑ᶠ thread, weight (phase thread)

/-- All but finitely many threads weigh nothing. -/
def Light (weight : φ → Nat) (phase : τ → φ) : Prop :=
  {thread | weight (phase thread) ≠ 0}.Finite

section Total

variable {weight : φ → Nat}

theorem Light.step (light : Light weight phase) : Light weight (update phase thread after) := by
  refine (light.insert thread).subset fun other heavy => ?_
  rcases eq_or_ne other thread with rfl | ne
  · exact Set.mem_insert _ _
  · exact Set.mem_insert_of_mem _ (by simpa [ne] using heavy)

omit [DecidableEq τ] in
/-- The weight of one thread and that of the others. -/
theorem total_eq (light : Light weight phase) (thread : τ) :
    total weight phase = weight (phase thread) +
      ∑ᶠ (other) (_ : other ≠ thread), weight (phase other) :=
  (add_finsum_cond_ne thread light).symm

/-- A step of one thread changes the total by what that thread weighs. -/
theorem total_update (light : Light weight phase) (thread : τ) (after : φ) :
    total weight (update phase thread after) + weight (phase thread) =
      total weight phase + weight after := by
  have rest_eq : ∑ᶠ (other) (_ : other ≠ thread), weight (update phase thread after other) =
      ∑ᶠ (other) (_ : other ≠ thread), weight (phase other) := by
    refine finsum_congr fun other => finsum_congr fun ne => ?_
    rw [Function.update_of_ne ne]
  rw [total_eq light.step thread, total_eq light thread, rest_eq, Function.update_self]
  omega

omit [DecidableEq τ] in
theorem le_total (light : Light weight phase) (thread : τ) :
    weight (phase thread) ≤ total weight phase := by
  rw [total_eq light thread]
  omega

omit [DecidableEq τ] in
theorem total_eq_zero (none : ∀ thread, weight (phase thread) = 0) : total weight phase = 0 :=
  finsum_eq_zero_of_forall_eq_zero none

end Total

open Classical in
/-- What one thread adds to the count. -/
noncomputable def share (kind : φ → Prop) (phase : φ) : Nat := if kind phase then 1 else 0

theorem share_of (holds : kind after) : share kind after = 1 := by simp [share, holds]

theorem share_of_not (fails : ¬ kind after) : share kind after = 0 := by simp [share, fails]

theorem share_le_one (kind : φ → Prop) (phase : φ) : share kind phase ≤ 1 := by
  rw [share]
  split_ifs <;> simp

/-- The number of threads in a phase of this kind. -/
noncomputable def census (phase : τ → φ) (kind : φ → Prop) : Nat := total (share kind) phase

/-- The threads of this kind can be counted. -/
def FinitelyMany (phase : τ → φ) (kind : φ → Prop) : Prop := Light (share kind) phase

omit [DecidableEq τ] in
theorem finitelyMany_of_forall (none : ∀ thread, ¬ kind (phase thread)) :
    FinitelyMany phase kind := by
  simp [FinitelyMany, Light, share_of_not (none _)]

theorem FinitelyMany.step (finite : FinitelyMany phase kind) :
    FinitelyMany (update phase thread after) kind :=
  Light.step finite

/-- A step of one thread changes the count by what that thread adds. -/
theorem census_update (finite : FinitelyMany phase kind) (thread : τ) (after : φ) :
    census (update phase thread after) kind + share kind (phase thread) =
      census phase kind + share kind after :=
  total_update finite thread after

/-- A thread that stays of its kind. -/
theorem census_keep (finite : FinitelyMany phase kind) (same : kind after ↔ kind (phase thread)) :
    census (update phase thread after) kind = census phase kind := by
  have share_eq : share kind after = share kind (phase thread) := by
    by_cases holds : kind after
    · rw [share_of holds, share_of (same.mp holds)]
    · rw [share_of_not holds, share_of_not (mt same.mpr holds)]
  have := census_update finite thread after
  omega

/-- A thread that stays of its kind or becomes of it. -/
theorem census_le (finite : FinitelyMany phase kind) (stays : kind (phase thread) → kind after) :
    census phase kind ≤ census (update phase thread after) kind := by
  have share_le : share kind (phase thread) ≤ share kind after := by
    by_cases before : kind (phase thread)
    · rw [share_of before, share_of (stays before)]
    · rw [share_of_not before]
      exact Nat.zero_le _
  have := census_update finite thread after
  omega

/-- A thread that becomes of this kind. -/
theorem census_enter (finite : FinitelyMany phase kind) (was : ¬ kind (phase thread))
    (holds : kind after) : census (update phase thread after) kind = census phase kind + 1 := by
  have := census_update finite thread after
  rwa [share_of_not was, share_of holds] at this

/-- A thread that was of this kind and is not any more. -/
theorem census_leave (finite : FinitelyMany phase kind) (was : kind (phase thread))
    (fails : ¬ kind after) : census (update phase thread after) kind + 1 = census phase kind := by
  have := census_update finite thread after
  rwa [share_of was, share_of_not fails] at this

omit [DecidableEq τ] in
theorem census_pos (finite : FinitelyMany phase kind) :
    0 < census phase kind ↔ Present phase kind := by
  constructor
  · intro positive
    by_contra absent
    have none : census phase kind = 0 :=
      total_eq_zero fun thread => share_of_not fun holds => absent ⟨thread, holds⟩
    omega
  · rintro ⟨thread, holds⟩
    have := le_total finite thread
    rw [share_of holds] at this
    exact this

end Waiters
end Vespertine
