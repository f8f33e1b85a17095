import Mathlib.Data.Nat.Init
import Mathlib.Tactic.ByContra
import Vespertine.Library.Transition

/-!
# Infinite behaviours

A behaviour is an unbounded run of a machine.  What is promised for "later" is proved with a rank:
it never grows, and it falls whenever a step happens that is bound to recur.
-/

namespace Vespertine

/-- An infinite run, every input of which is permitted. -/
structure Machine.Behavior {σ ι ε : Type*} (machine : Machine σ ι ε) where
  state : Nat → σ
  input : Nat → ι
  permits : ∀ moment, machine.permitted (state moment) (input moment)
  steps : ∀ moment, machine.step (state moment) (input moment) = .ok (state (moment + 1))

namespace Machine.Behavior

variable {σ ι ε : Type*} {machine : Machine σ ι ε} (behavior : machine.Behavior)

/-- An invariant of the steps holds at every moment. -/
theorem keeps {invariant : σ → Prop}
    (keeps : ∀ state input next, invariant state → machine.permitted state input →
      machine.step state input = .ok next → invariant next)
    (start : invariant (behavior.state 0)) (moment : Nat) : invariant (behavior.state moment) := by
  induction moment with
  | zero => exact start
  | succ moment ih => exact keeps _ _ _ ih (behavior.permits moment) (behavior.steps moment)

/-- What one step cannot undo stays. -/
theorem stays (holds : σ → Prop) {start : Nat}
    (step : ∀ moment, start ≤ moment → holds (behavior.state moment) →
      holds (behavior.state (moment + 1)))
    (at_start : holds (behavior.state start)) {moment : Nat} (le : start ≤ moment) :
    holds (behavior.state moment) := by
  induction moment, le using Nat.le_induction with
  | base => exact at_start
  | succ moment le ih => exact step moment le ih

end Machine.Behavior

/-- A rank that never grows, and falls at steps that recur for ever, leads to the goal. -/
theorem eventually_of_recurring (rank : Nat → Nat) (goal : Nat → Prop) {recurring : Nat → Prop}
    {start : Nat}
    (recurs : ∀ moment, start ≤ moment → ∃ later, moment ≤ later ∧ recurring later)
    (keeps : ∀ moment, start ≤ moment → ¬ goal moment → rank (moment + 1) ≤ rank moment)
    (falls : ∀ moment, start ≤ moment → ¬ goal moment → recurring moment →
      rank (moment + 1) < rank moment) : ∃ moment, start ≤ moment ∧ goal moment := by
  induction rank_eq : rank start using Nat.strongRecOn generalizing start with
  | ind bound ih =>
      by_contra never
      have missed : ∀ moment, start ≤ moment → ¬ goal moment :=
        fun moment le reached => never ⟨moment, le, reached⟩
      obtain ⟨later, le, recurring⟩ := recurs start (Nat.le_refl _)
      have bounded : ∀ moment, start ≤ moment → rank moment ≤ rank start := by
        intro moment from_start
        induction moment, from_start using Nat.le_induction with
        | base => exact Nat.le_refl _
        | succ moment from_start before =>
            exact Nat.le_trans (keeps moment from_start (missed moment from_start)) before
      have lower : rank (later + 1) < rank start :=
        Nat.lt_of_lt_of_le (falls later le (missed later le) recurring) (bounded later le)
      have after : start ≤ later + 1 := Nat.le_succ_of_le le
      obtain ⟨moment, from_later, reached⟩ := ih (rank (later + 1)) (rank_eq ▸ lower)
        (fun moment from_later => recurs moment (Nat.le_trans after from_later))
        (fun moment from_later => keeps moment (Nat.le_trans after from_later))
        (fun moment from_later => falls moment (Nat.le_trans after from_later)) rfl
      exact missed moment (Nat.le_trans after from_later) reached

end Vespertine
