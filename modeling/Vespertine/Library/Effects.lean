import Mathlib.Order.Defs.Unbundled

/-!
# Programs that keep their state on failure

A program runs on a state and returns or fails; a failure leaves the state as it was at that point.
`Along` says that a program moves the state along a relation, however it ends.
-/

namespace Vespertine

variable {ε σ α β : Type}

/-- Go on after a first part that returned. -/
theorem run_bind_of_ok {first : EStateM ε σ α} {start middle : σ} {result : α}
    (first_eq : first start = .ok result middle) (rest : α → EStateM ε σ β) :
    (first >>= rest) start = rest result middle := by
  change EStateM.bind first rest start = _
  rw [EStateM.bind, first_eq]

theorem run_bind_of_error {first : EStateM ε σ α} {start last : σ} {failure : ε}
    (first_eq : first start = .error failure last) (rest : α → EStateM ε σ β) :
    (first >>= rest) start = .error failure last := by
  change EStateM.bind first rest start = _
  rw [EStateM.bind, first_eq]

/-- Split a run that returned at a bind. -/
theorem run_bind_ok {first : EStateM ε σ α} {rest : α → EStateM ε σ β} {start last : σ}
    {value : β} :
    (first >>= rest) start = .ok value last ↔
      ∃ result middle, first start = .ok result middle ∧ rest result middle = .ok value last := by
  change EStateM.bind first rest start = _ ↔ _
  rw [EStateM.bind]
  cases first start with
  | ok result middle =>
      refine ⟨fun rest_eq => ⟨result, middle, rfl, rest_eq⟩, ?_⟩
      rintro ⟨_, _, ⟨⟩, rest_eq⟩
      exact rest_eq
  | error failure middle =>
      refine ⟨nofun, ?_⟩
      rintro ⟨_, _, ⟨⟩, _⟩

/-- Split a run that failed at a bind. -/
theorem run_bind_error {first : EStateM ε σ α} {rest : α → EStateM ε σ β} {start last : σ}
    {failure : ε} :
    (first >>= rest) start = .error failure last ↔
      first start = .error failure last ∨
        ∃ result middle, first start = .ok result middle ∧
          rest result middle = .error failure last := by
  change EStateM.bind first rest start = _ ↔ _
  rw [EStateM.bind]
  cases first start with
  | ok result middle =>
      refine ⟨fun rest_eq => .inr ⟨result, middle, rfl, rest_eq⟩, ?_⟩
      rintro (failed | ⟨_, _, ⟨⟩, rest_eq⟩)
      · cases failed
      · exact rest_eq
  | error problem middle =>
      constructor
      · intro failed
        cases failed
        exact .inl rfl
      · rintro (failed | ⟨_, _, ⟨⟩, _⟩)
        cases failed
        rfl

/-- The state in which a run ended. -/
def finalState : EStateM.Result ε σ α → σ
  | .ok _ last | .error _ last => last

/-- A program moves the state along a relation. -/
def Along (relation : σ → σ → Prop) (program : EStateM ε σ α) : Prop :=
  ∀ start, relation start (finalState (program start))

namespace Along

variable {relation : σ → σ → Prop} {program : EStateM ε σ α}

theorem of_error (along : Along relation program) {start last : σ} {failure : ε}
    (run_eq : program start = .error failure last) : relation start last := by
  have moved := along start
  rwa [run_eq] at moved

theorem of_ok (along : Along relation program) {start last : σ} {value : α}
    (run_eq : program start = .ok value last) : relation start last := by
  have moved := along start
  rwa [run_eq] at moved

theorem bind [IsTrans σ relation] {rest : α → EStateM ε σ β} (along : Along relation program)
    (along_rest : ∀ value, Along relation (rest value)) : Along relation (program >>= rest) := by
  intro start
  change relation start (finalState (EStateM.bind program rest start))
  rw [EStateM.bind]
  cases run_eq : program start with
  | ok value middle => exact IsTrans.trans _ _ _ (along.of_ok run_eq) (along_rest value middle)
  | error failure middle => exact along.of_error run_eq

end Along

end Vespertine
