import Mathlib.Logic.Relation

/-!
# Runs of a partial step function

A system takes one input at a time and may fail.  `Permits` says that every input of a sequence
is allowed in the state it meets, and `run_ok` is the invariant rule: if each permitted step
succeeds and keeps the invariant, so does every permitted run.
-/

namespace Vespertine

/-- Split a computation that returned at a bind. -/
theorem bind_eq_ok {ε α β : Type} {first : Except ε α} {rest : α → Except ε β} {result : β} :
    (first >>= rest) = .ok result ↔ ∃ value, first = .ok value ∧ rest value = .ok result := by
  cases first with
  | error problem => simp [bind, Except.bind]
  | ok value => simp [bind, Except.bind]

/-- Split a computation that failed at a bind. -/
theorem bind_eq_error {ε α β : Type} {first : Except ε α} {rest : α → Except ε β} {problem : ε} :
    (first >>= rest) = .error problem ↔
      first = .error problem ∨ ∃ value, first = .ok value ∧ rest value = .error problem := by
  cases first with
  | error other => simp [bind, Except.bind]
  | ok value => simp [bind, Except.bind]

/-- Split a computation that returned a mapped value. -/
theorem map_eq_ok {ε α β : Type} {first : Except ε α} {convert : α → β} {result : β} :
    first.map convert = .ok result ↔ ∃ value, first = .ok value ∧ convert value = result := by
  cases first with
  | error problem => simp [Except.map]
  | ok value => simp [Except.map]

/-- Split a computation that returned behind a guard. -/
theorem guard_eq_ok {ε α : Type} {condition : Prop} [Decidable condition] {value : Except ε α}
    {problem : ε} {result : α} :
    (if condition then value else .error problem) = .ok result ↔
      condition ∧ value = .ok result := by
  split
  next holds => simp [holds]
  next fails => simp [fails]

/-- A computation with its errors renamed returns what it returned before. -/
theorem mapError_eq_ok {ε ε' α : Type} {first : Except ε α} {rename : ε → ε'} {result : α} :
    first.mapError rename = .ok result ↔ first = .ok result := by
  cases first with
  | error problem => exact iff_of_false (by rintro ⟨⟩) (by rintro ⟨⟩)
  | ok value =>
      exact ⟨fun same => congrArg _ (Except.ok.inj same),
        fun same => congrArg _ (Except.ok.inj same)⟩

section Loops

variable {σ ι ε : Type} {body : σ → ι → Except ε σ}

/-- A loop over the numbers below a bound succeeds if each round does, from what the round before
has left. -/
theorem foldlM_range_ok {body : σ → Nat → Except ε σ} (invariant : Nat → σ → Prop) {start : σ}
    {count : Nat} (begins : invariant 0 start)
    (round : ∀ index < count, ∀ state, invariant index state →
      ∃ next, body state index = .ok next ∧ invariant (index + 1) next) :
    ∃ final, (List.range count).foldlM body start = .ok final ∧ invariant count final := by
  induction count with
  | zero => exact ⟨start, rfl, begins⟩
  | succ count ih =>
      obtain ⟨state, state_eq, holds⟩ := ih fun index lt => round index (Nat.lt_succ_of_lt lt)
      obtain ⟨final, final_eq, final_holds⟩ := round count (Nat.lt_succ_self count) state holds
      refine ⟨final, ?_, final_holds⟩
      rw [List.range_succ, List.foldlM_append, state_eq]
      simp [bind, Except.bind, final_eq, pure, Except.pure]

/-- Every round of a loop that succeeds does. -/
theorem ok_of_foldlM_ok {indices : List ι} {start final : σ}
    (loop_eq : indices.foldlM body start = .ok final) {index : ι} (mem : index ∈ indices) :
    ∃ state next, body state index = .ok next := by
  induction indices generalizing start with
  | nil => cases mem
  | cons first rest ih =>
      rw [List.foldlM_cons] at loop_eq
      cases first_eq : body start first with
      | error problem =>
          rw [first_eq] at loop_eq
          cases loop_eq
      | ok next =>
          rw [first_eq] at loop_eq
          rcases List.mem_cons.mp mem with rfl | mem
          · exact ⟨start, next, first_eq⟩
          · exact ih loop_eq mem

end Loops

/-- A system that consumes one input at a time and may fail. -/
structure Machine (σ ι ε : Type*) where
  /-- One step of the system. -/
  step : σ → ι → Except ε σ
  /-- Inputs the environment may offer in a state. -/
  permitted : σ → ι → Prop

namespace Machine

variable {σ ι ε : Type*} (machine : Machine σ ι ε)

/-- Execute a sequence of inputs, stopping at the first failure. -/
def run : σ → List ι → Except ε σ
  | state, [] => .ok state
  | state, input :: inputs => do
      let next ← machine.step state input
      run next inputs

/-- Every input of the sequence is permitted in the state that meets it. -/
def Permits : σ → List ι → Prop
  | _, [] => True
  | state, input :: inputs =>
      machine.permitted state input ∧
        ∀ next, machine.step state input = .ok next → Permits next inputs

@[simp] theorem run_nil (state : σ) : machine.run state [] = .ok state := rfl

theorem run_cons_ok {state next : σ} {input : ι} (inputs : List ι)
    (step_eq : machine.step state input = .ok next) :
    machine.run state (input :: inputs) = machine.run next inputs := by
  rw [run, step_eq]
  rfl

theorem run_append_ok {state mid : σ} {inputs : List ι} (rest : List ι)
    (run_eq : machine.run state inputs = .ok mid) :
    machine.run state (inputs ++ rest) = machine.run mid rest := by
  induction inputs generalizing state with
  | nil =>
      obtain rfl : state = mid := by simpa using run_eq
      rfl
  | cons input inputs ih =>
      rw [run] at run_eq
      cases step_eq : machine.step state input with
      | error problem =>
          rw [step_eq] at run_eq
          cases run_eq
      | ok next =>
          rw [step_eq] at run_eq
          exact (machine.run_cons_ok (inputs ++ rest) step_eq).trans (ih run_eq)

/-- Split a successful run at its first step. -/
theorem run_cons_eq_ok {state final : σ} {input : ι} {inputs : List ι}
    (run_eq : machine.run state (input :: inputs) = .ok final) :
    ∃ next, machine.step state input = .ok next ∧ machine.run next inputs = .ok final := by
  rw [run] at run_eq
  cases step_eq : machine.step state input with
  | error problem =>
      rw [step_eq] at run_eq
      cases run_eq
  | ok next =>
      rw [step_eq] at run_eq
      exact ⟨next, rfl, run_eq⟩

/-- Split a successful run anywhere. -/
theorem run_append_eq_ok {state final : σ} {inputs rest : List ι}
    (run_eq : machine.run state (inputs ++ rest) = .ok final) :
    ∃ mid, machine.run state inputs = .ok mid ∧ machine.run mid rest = .ok final := by
  induction inputs generalizing state with
  | nil => exact ⟨state, rfl, run_eq⟩
  | cons input inputs ih =>
      obtain ⟨next, step_eq, rest_eq⟩ := machine.run_cons_eq_ok run_eq
      obtain ⟨mid, mid_eq, final_eq⟩ := ih rest_eq
      exact ⟨mid, (machine.run_cons_ok inputs step_eq).trans mid_eq, final_eq⟩

theorem permits_cons {state next : σ} {input : ι} {inputs : List ι}
    (allowed : machine.permitted state input) (step_eq : machine.step state input = .ok next)
    (rest : machine.Permits next inputs) : machine.Permits state (input :: inputs) := by
  refine ⟨allowed, fun other other_eq => ?_⟩
  obtain rfl : next = other := Except.ok.inj (step_eq.symm.trans other_eq)
  exact rest

/-- A sequence is permitted if its first part is, and the rest where that leads to. -/
theorem permits_append {state : σ} {inputs rest : List ι} (first : machine.Permits state inputs)
    (second : ∀ mid, machine.run state inputs = .ok mid → machine.Permits mid rest) :
    machine.Permits state (inputs ++ rest) := by
  induction inputs generalizing state with
  | nil => exact second state rfl
  | cons input inputs ih =>
      refine ⟨first.1, fun next step_eq => ih (first.2 next step_eq) fun mid run_eq => ?_⟩
      exact second mid ((machine.run_cons_ok inputs step_eq).trans run_eq)

/-- Where a permitted sequence has come to, the rest of it is permitted. -/
theorem permits_rest {state mid : σ} {inputs rest : List ι}
    (permits : machine.Permits state (inputs ++ rest))
    (run_eq : machine.run state inputs = .ok mid) :
    machine.Permits mid rest := by
  induction inputs generalizing state with
  | nil =>
      obtain rfl : state = mid := by simpa using run_eq
      exact permits
  | cons input inputs ih =>
      obtain ⟨next, step_eq, rest_eq⟩ := machine.run_cons_eq_ok run_eq
      exact ih (permits.2 next step_eq) rest_eq

/-- The first part of a permitted sequence is permitted. -/
theorem permits_first {state : σ} {inputs rest : List ι}
    (permits : machine.Permits state (inputs ++ rest)) : machine.Permits state inputs := by
  induction inputs generalizing state with
  | nil => trivial
  | cons input inputs ih => exact ⟨permits.1, fun next step_eq => ih (permits.2 next step_eq)⟩

/-- Inputs that are permitted in every state. -/
theorem permits_of_mem {inputs : List ι} (state : σ)
    (allowed : ∀ input ∈ inputs, ∀ state, machine.permitted state input) :
    machine.Permits state inputs := by
  induction inputs generalizing state with
  | nil => trivial
  | cons input inputs ih =>
      refine ⟨allowed input List.mem_cons_self state, fun next _ => ih next fun later mem => ?_⟩
      exact allowed later (List.mem_cons_of_mem _ mem)

/-- Permitted runs succeed and keep every invariant that permitted steps keep. -/
theorem run_ok {invariant : σ → Prop}
    (keeps : ∀ state input, invariant state → machine.permitted state input →
      ∃ next, machine.step state input = .ok next ∧ invariant next)
    {state : σ} {inputs : List ι} (holds : invariant state)
    (permits : machine.Permits state inputs) :
    ∃ final, machine.run state inputs = .ok final ∧ invariant final := by
  induction inputs generalizing state with
  | nil => exact ⟨state, rfl, holds⟩
  | cons input inputs ih =>
      obtain ⟨next, step_eq, next_holds⟩ := keeps state input holds permits.1
      obtain ⟨final, run_eq, final_holds⟩ := ih next_holds (permits.2 next step_eq)
      exact ⟨final, (machine.run_cons_ok inputs step_eq).trans run_eq, final_holds⟩

/-- Every state a permitted run passes through keeps the invariant, also when a later step fails. -/
theorem run_keeps {invariant : σ → Prop}
    (keeps : ∀ state input next, invariant state → machine.permitted state input →
      machine.step state input = .ok next → invariant next)
    {state final : σ} {inputs : List ι} (holds : invariant state)
    (permits : machine.Permits state inputs) (run_eq : machine.run state inputs = .ok final) :
    invariant final := by
  induction inputs generalizing state with
  | nil =>
      obtain rfl : state = final := by simpa using run_eq
      exact holds
  | cons input inputs ih =>
      obtain ⟨next, step_eq, rest_eq⟩ := machine.run_cons_eq_ok run_eq
      exact ih (keeps state input next holds permits.1 step_eq) (permits.2 next step_eq) rest_eq

/-- A permitted run that fails does so at a step from a state with the invariant. -/
theorem run_eq_error {invariant : σ → Prop}
    (keeps : ∀ state input next, invariant state → machine.permitted state input →
      machine.step state input = .ok next → invariant next)
    {state : σ} {inputs : List ι} {problem : ε} (holds : invariant state)
    (permits : machine.Permits state inputs) (run_eq : machine.run state inputs = .error problem) :
    ∃ mid input, invariant mid ∧ machine.permitted mid input ∧
      machine.step mid input = .error problem := by
  induction inputs generalizing state with
  | nil => cases run_eq
  | cons input inputs ih =>
      cases step_eq : machine.step state input with
      | error other =>
          rw [run, step_eq] at run_eq
          cases run_eq
          exact ⟨state, input, holds, permits.1, step_eq⟩
      | ok next =>
          rw [machine.run_cons_ok inputs step_eq] at run_eq
          exact ih (keeps state input next holds permits.1 step_eq) (permits.2 next step_eq) run_eq

/-- What every step keeps, permitted or not, holds in every state that is reached. -/
theorem run_invariant {invariant : σ → Prop}
    (keeps : ∀ state input next, invariant state → machine.step state input = .ok next →
      invariant next)
    {state final : σ} {inputs : List ι} (holds : invariant state)
    (run_eq : machine.run state inputs = .ok final) : invariant final := by
  induction inputs generalizing state with
  | nil =>
      obtain rfl : state = final := by simpa using run_eq
      exact holds
  | cons input inputs ih =>
      obtain ⟨next, step_eq, rest_eq⟩ := machine.run_cons_eq_ok run_eq
      exact ih (keeps state input next holds step_eq) rest_eq

/-- Every state that the sequence passes through has the property. -/
def Always (property : σ → Prop) : σ → List ι → Prop
  | state, [] => property state
  | state, input :: inputs =>
      property state ∧ ∀ next, machine.step state input = .ok next → Always property next inputs

/-- Where a step keeps the property exactly when it is permitted, a run that succeeds has the
property throughout exactly when it is permitted. -/
theorem always_iff_permits {property invariant : σ → Prop}
    (step_iff : ∀ state input next, invariant state → property state →
      machine.step state input = .ok next →
        invariant next ∧ (property next ↔ machine.permitted state input))
    {state final : σ} {inputs : List ι} (holds : invariant state) (start : property state)
    (run_eq : machine.run state inputs = .ok final) :
    machine.Always property state inputs ↔ machine.Permits state inputs := by
  induction inputs generalizing state with
  | nil => exact iff_of_true start trivial
  | cons input inputs ih =>
      obtain ⟨next, step_eq, rest_eq⟩ := machine.run_cons_eq_ok run_eq
      obtain ⟨next_holds, next_iff⟩ := step_iff state input next holds start step_eq
      constructor
      · rintro ⟨-, later⟩
        have always := later next step_eq
        have next_property : property next := by
          cases inputs with
          | nil => exact always
          | cons => exact always.1
        exact machine.permits_cons (next_iff.mp next_property) step_eq
          ((ih next_holds next_property rest_eq).mp always)
      · rintro ⟨allowed, later⟩
        refine ⟨start, fun other other_eq => ?_⟩
        obtain rfl : next = other := Except.ok.inj (step_eq.symm.trans other_eq)
        exact (ih next_holds (next_iff.mpr allowed) rest_eq).mpr (later next step_eq)

/-- Where a step returns with the property exactly when it is permitted, a run returns with the
property throughout exactly when it is permitted. -/
theorem returns_always_iff_permits {property invariant : σ → Prop}
    (keeps : ∀ state input next, invariant state → machine.step state input = .ok next →
      invariant next)
    (step_iff : ∀ state input, invariant state → property state →
      ((∃ next, machine.step state input = .ok next ∧ property next) ↔
        machine.permitted state input))
    {state : σ} {inputs : List ι} (holds : invariant state) (start : property state) :
    ((∃ final, machine.run state inputs = .ok final) ∧ machine.Always property state inputs) ↔
      machine.Permits state inputs := by
  induction inputs generalizing state with
  | nil => exact iff_of_true ⟨⟨state, rfl⟩, start⟩ trivial
  | cons input inputs ih =>
      constructor
      · rintro ⟨⟨final, run_eq⟩, -, later⟩
        obtain ⟨next, step_eq, rest_eq⟩ := machine.run_cons_eq_ok run_eq
        have always := later next step_eq
        have next_property : property next := by
          cases inputs with
          | nil => exact always
          | cons => exact always.1
        have next_holds := keeps state input next holds step_eq
        exact machine.permits_cons ((step_iff state input holds start).mp
          ⟨next, step_eq, next_property⟩) step_eq
          ((ih next_holds next_property).mp ⟨⟨final, rest_eq⟩, always⟩)
      · rintro ⟨allowed, later⟩
        obtain ⟨next, step_eq, next_property⟩ := (step_iff state input holds start).mpr allowed
        have next_holds := keeps state input next holds step_eq
        obtain ⟨⟨final, run_eq⟩, always⟩ := (ih next_holds next_property).mpr (later next step_eq)
        refine ⟨⟨final, (machine.run_cons_ok inputs step_eq).trans run_eq⟩, start, ?_⟩
        intro other other_eq
        obtain rfl : next = other := Except.ok.inj (step_eq.symm.trans other_eq)
        exact always

/-- Permissions that agree wherever an invariant holds permit the same runs. -/
theorem permits_congr {step : σ → ι → Except ε σ} {first second : σ → ι → Prop}
    {invariant : σ → Prop}
    (keeps : ∀ state input next, invariant state → step state input = .ok next → invariant next)
    (agree : ∀ state input, invariant state → (first state input ↔ second state input))
    {state : σ} (inputs : List ι) (holds : invariant state) :
    (Machine.mk step first).Permits state inputs ↔
      (Machine.mk step second).Permits state inputs := by
  induction inputs generalizing state with
  | nil => exact Iff.rfl
  | cons input inputs ih =>
      refine and_congr (agree state input holds) (forall_congr' fun next => ?_)
      exact imp_congr_right fun step_eq => ih (keeps state input next holds step_eq)

end Machine
end Vespertine
