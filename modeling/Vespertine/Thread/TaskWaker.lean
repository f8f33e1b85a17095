import Vespertine.Thread.Executor

/-!
# Tasks and their wakers

A waker is a counted reference to its task, and waking pushes that reference onto the run queue,
whether or not the task is in the queue already, and whether or not it has finished.  The executor
polls whatever it pops; a poll that returns `Ready` drops the executor's references only.

There is one executor, which is not described again here: of its steps only the pop and the return
of a poll touch tasks.
-/

namespace Vespertine
namespace TaskWaker

open Function (update)

/-- The tasks are `χ`. -/
structure State (χ : Type) where
  runQueue : List χ
  /-- The task that the executor polls. -/
  polled : Option χ
  /-- The wakers of a task that exist. -/
  wakers : χ → Nat
  spawned : χ → Bool
  /-- A poll of the task has returned `Ready`. -/
  ready : χ → Bool

inductive Input (χ : Type) where
  | spawn (task : χ)
  /-- `task_waker_clone`. -/
  | clone (task : χ)
  /-- `task_waker_wake`, which consumes the waker. -/
  | wake (task : χ)
  /-- `task_waker_wake_by_ref`. -/
  | wakeByRef (task : χ)
  /-- `task_waker_drop`. -/
  | drop (task : χ)
  /-- `Executor::run` pops a task, creates its waker and calls `poll`. -/
  | pop
  /-- The poll returns `Ready`, or `Pending`, and the executor drops its waker. -/
  | finish (ready : Bool)

/-- An input that is not possible now. -/
inductive Disabled where
  | disabled

variable {χ : Type} [DecidableEq χ]

namespace State

def new : State χ := ⟨[], none, fun _ => 0, fun _ => false, fun _ => false⟩

/-- `push_task`. -/
def pushTask (state : State χ) (task : χ) : State χ :=
  { state with runQueue := state.runQueue ++ [task] }

/-- A waker more. -/
def addWaker (state : State χ) (task : χ) : State χ :=
  { state with wakers := update state.wakers task (state.wakers task + 1) }

/-- A waker less. -/
def removeWaker (state : State χ) (task : χ) : State χ :=
  { state with wakers := update state.wakers task (state.wakers task - 1) }

end State

def step (state : State χ) : Input χ → Except Disabled (State χ)
  | .spawn task =>
      if state.spawned task = false then
        .ok ({ state with spawned := update state.spawned task true }.pushTask task)
      else
        .error .disabled
  | .clone task => if 0 < state.wakers task then .ok (state.addWaker task) else .error .disabled
  | .wake task =>
      if 0 < state.wakers task then .ok ((state.removeWaker task).pushTask task)
      else .error .disabled
  | .wakeByRef task => if 0 < state.wakers task then .ok (state.pushTask task) else .error .disabled
  | .drop task => if 0 < state.wakers task then .ok (state.removeWaker task) else .error .disabled
  | .pop =>
      match state.polled, state.runQueue with
      | none, task :: rest =>
          .ok ({ state with runQueue := rest, polled := some task }.addWaker task)
      | _, _ => .error .disabled
  | .finish ready =>
      match state.polled with
      | none => .error .disabled
      | some task =>
          .ok { state.removeWaker task with
            polled := none
            ready := if ready then update state.ready task true else state.ready }

/-- A poll returns `Ready` only when the task was not woken since it was popped, and no waker of a
task is invoked after that. -/
def WokenOnce (state : State χ) : Input χ → Prop
  | .finish true => ∀ task, state.polled = some task → task ∉ state.runQueue
  | .wake task | .wakeByRef task => state.ready task = false
  | _ => True

def machine : Machine (State χ) (Input χ) Disabled := ⟨step, WokenOnce⟩

/-- `Task::poll` was not called on a task whose poll had returned `Ready`. -/
def NotRepolled (state : State χ) : Prop :=
  ∀ task, state.polled = some task → state.ready task = false

/-!
### The executor's queue
-/

section Executor

variable {θ κ ω ρ : Type} [DecidableEq θ] [DecidableEq κ] [DecidableEq ω] [DecidableEq ρ]
  {roster : Scheduler.Roster θ κ} {executor : θ} {state next : Executor.State θ κ ω ρ χ}

/-- The task that the executor polls. -/
def executorPolls (state : Executor.State θ κ ω ρ χ) : Option χ :=
  match state.phase with
  | .polling task => some task
  | _ => none

omit [DecidableEq χ] in
/-- The executor does with its queue and the polled task what is done here: it leaves them alone,
pushes a task, pops one, or returns from a poll. -/
theorem executor_moves {input : Executor.Input θ κ ω ρ χ}
    (turn : Executor.Turn roster executor state input next) :
    (next.runQueue = state.runQueue ∧ executorPolls next = executorPolls state) ∨
      (∃ task, next.runQueue = state.runQueue ++ [task] ∧
        executorPolls next = executorPolls state) ∨
      (∃ task, executorPolls state = none ∧ state.runQueue = task :: next.runQueue ∧
        executorPolls next = some task) ∨
      ∃ task, executorPolls state = some task ∧ next.runQueue = state.runQueue ∧
        executorPolls next = none := by
  cases turn with
  | push => exact .inr (.inl ⟨_, rfl, rfl⟩)
  | popTask phase_eq free queue_eq =>
      exact .inr (.inr (.inl ⟨_, by simp [executorPolls, phase_eq], queue_eq, rfl⟩))
  | finishPoll phase_eq =>
      exact .inr (.inr (.inr ⟨_, by rw [executorPolls, phase_eq], rfl, rfl⟩))
  | other | lookAway | lookAsleep | wake => exact .inl ⟨rfl, rfl⟩
  | register phase_eq | popNone phase_eq | lockQueue phase_eq | mark phase_eq | back phase_eq
  | unlock phase_eq | yield phase_eq =>
      exact .inl ⟨rfl, by simp [executorPolls, phase_eq, Executor.State.register]⟩

end Executor

/-!
### One poll after `Ready`
-/

/-- A task that the executor or a waker can lead to. -/
def Known (state : State χ) (task : χ) : Prop :=
  task ∈ state.runQueue ∨ state.polled = some task ∨ 0 < state.wakers task ∨
    state.ready task = true

/-- Tasks that have finished are neither queued nor polled, and every task was spawned once. -/
structure Sound (state : State χ) : Prop where
  not_queued : ∀ task, state.ready task = true → task ∉ state.runQueue
  not_polled : NotRepolled state
  spawned : ∀ task, Known state task → state.spawned task = true

namespace Sound

variable {state next : State χ} {task : χ}

omit [DecidableEq χ] in
theorem new : Sound (State.new : State χ) where
  not_queued := by simp [State.new]
  not_polled := by simp [NotRepolled, State.new]
  spawned := by simp [Known, State.new]

omit [DecidableEq χ] in
/-- Wakers do not matter for what is queued and polled. -/
theorem setWakers (sound : Sound state) {wakers : χ → Nat}
    (known : ∀ other, 0 < wakers other → state.spawned other = true) :
    Sound { state with wakers } where
  not_queued := sound.not_queued
  not_polled := sound.not_polled
  spawned other := by
    rintro (queued | polled | waker | ready)
    · exact sound.spawned other (.inl queued)
    · exact sound.spawned other (.inr (.inl polled))
    · exact known other waker
    · exact sound.spawned other (.inr (.inr (.inr ready)))

theorem addWaker (sound : Sound state) (spawned : state.spawned task = true) :
    Sound (state.addWaker task) := by
  refine sound.setWakers fun other waker => ?_
  rcases eq_or_ne other task with rfl | ne
  · exact spawned
  · exact sound.spawned other (.inr (.inr (.inl (by simpa [ne] using waker))))

theorem removeWaker (sound : Sound state) (task : χ) : Sound (state.removeWaker task) := by
  refine sound.setWakers fun other waker => sound.spawned other (.inr (.inr (.inl ?_)))
  rcases eq_or_ne other task with rfl | ne
  · simp at waker
    omega
  · simpa [ne] using waker

omit [DecidableEq χ] in
/-- A task that has not finished may be queued, also once more. -/
theorem pushTask (sound : Sound state) (spawned : state.spawned task = true)
    (unfinished : state.ready task = false) : Sound (state.pushTask task) where
  not_queued other ready := by
    have ne : other ≠ task := by
      rintro rfl
      simp [State.pushTask, unfinished] at ready
    simpa [State.pushTask, ne] using sound.not_queued other ready
  not_polled := sound.not_polled
  spawned other := by
    rintro (queued | polled | waker | ready)
    · rcases List.mem_append.mp queued with queued | queued
      · exact sound.spawned other (.inl queued)
      · rwa [List.mem_singleton.mp queued]
    · exact sound.spawned other (.inr (.inl polled))
    · exact sound.spawned other (.inr (.inr (.inl waker)))
    · exact sound.spawned other (.inr (.inr (.inr ready)))

theorem spawn (sound : Sound state) (fresh : state.spawned task = false) :
    Sound ({ state with spawned := update state.spawned task true }.pushTask task) := by
  refine Sound.pushTask ⟨sound.not_queued, sound.not_polled, fun other known => ?_⟩ (by simp) ?_
  · rcases eq_or_ne other task with rfl | ne
    · simp
    · simpa [ne] using sound.spawned other known
  · by_contra ready
    have spawned := sound.spawned task (.inr (.inr (.inr (by simpa using ready))))
    simp [fresh] at spawned

theorem pop (sound : Sound state) {rest : List χ} (queue_eq : state.runQueue = task :: rest) :
    Sound ({ state with runQueue := rest, polled := some task }.addWaker task) := by
  have queued : task ∈ state.runQueue := by simp [queue_eq]
  have spawned := sound.spawned task (.inl queued)
  refine Sound.addWaker ⟨fun other ready mem => ?_, fun other polled => ?_, fun other => ?_⟩ spawned
  · exact sound.not_queued other ready (by simp [queue_eq, show other ∈ rest from mem])
  · obtain rfl : task = other := Option.some.inj polled
    by_contra ready
    exact sound.not_queued task (by simpa using ready) queued
  · rintro (mem | polled | waker | ready)
    · exact sound.spawned other (.inl (by simp [queue_eq, show other ∈ rest from mem]))
    · obtain rfl : task = other := Option.some.inj polled
      exact spawned
    · exact sound.spawned other (.inr (.inr (.inl waker)))
    · exact sound.spawned other (.inr (.inr (.inr ready)))

theorem finish (sound : Sound state) {ready : Bool} (polled_eq : state.polled = some task)
    (not_woken : ready = true → task ∉ state.runQueue) :
    Sound { state.removeWaker task with
      polled := none
      ready := if ready then update state.ready task true else state.ready } := by
  have removed := sound.removeWaker task
  have spawned := sound.spawned task (.inr (.inl polled_eq))
  cases ready with
  | false =>
      refine ⟨sound.not_queued, by simp [NotRepolled], fun other => ?_⟩
      rintro (queued | polled | waker | ready)
      · exact removed.spawned other (.inl queued)
      · cases polled
      · exact removed.spawned other (.inr (.inr (.inl waker)))
      · exact removed.spawned other (.inr (.inr (.inr ready)))
  | true =>
      refine ⟨fun other ready => ?_, by simp [NotRepolled], fun other => ?_⟩
      · rcases eq_or_ne other task with rfl | ne
        · exact not_woken rfl
        · exact sound.not_queued other (by simpa [ne] using ready)
      · rintro (queued | polled | waker | ready)
        · exact removed.spawned other (.inl queued)
        · cases polled
        · exact removed.spawned other (.inr (.inr (.inl waker)))
        · rcases eq_or_ne other task with rfl | ne
          · exact spawned
          · exact sound.spawned other (.inr (.inr (.inr (by simpa [ne] using ready))))

theorem step (sound : Sound state) {input : Input χ} (allowed : WokenOnce state input)
    (step_eq : TaskWaker.step state input = .ok next) : Sound next := by
  cases input with
  | spawn task =>
      obtain ⟨fresh, step_eq⟩ := guard_eq_ok.mp step_eq
      obtain rfl := Except.ok.inj step_eq
      exact sound.spawn fresh
  | clone task =>
      obtain ⟨waker, step_eq⟩ := guard_eq_ok.mp step_eq
      obtain rfl := Except.ok.inj step_eq
      exact sound.addWaker (sound.spawned task (.inr (.inr (.inl waker))))
  | wake task =>
      obtain ⟨waker, step_eq⟩ := guard_eq_ok.mp step_eq
      obtain rfl := Except.ok.inj step_eq
      exact (sound.removeWaker task).pushTask
        (sound.spawned task (.inr (.inr (.inl waker)))) allowed
  | wakeByRef task =>
      obtain ⟨waker, step_eq⟩ := guard_eq_ok.mp step_eq
      obtain rfl := Except.ok.inj step_eq
      exact sound.pushTask (sound.spawned task (.inr (.inr (.inl waker)))) allowed
  | drop task =>
      obtain ⟨_, step_eq⟩ := guard_eq_ok.mp step_eq
      obtain rfl := Except.ok.inj step_eq
      exact sound.removeWaker task
  | pop =>
      simp only [TaskWaker.step] at step_eq
      split at step_eq
      next queue_eq =>
        obtain rfl := Except.ok.inj step_eq
        exact sound.pop queue_eq
      next => cases step_eq
  | finish ready =>
      simp only [TaskWaker.step] at step_eq
      split at step_eq
      next => cases step_eq
      next task polled_eq =>
        obtain rfl := Except.ok.inj step_eq
        refine sound.finish polled_eq fun is_ready => ?_
        subst is_ready
        exact allowed task polled_eq

end Sound

/-- If no task returns `Ready` while it is queued once more, and no waker of a task is invoked after
that, then no task is polled after it has returned `Ready`. -/
theorem never_polled_after_ready {inputs : List (Input χ)} {final : State χ}
    (permits : machine.Permits State.new inputs)
    (run_eq : machine.run State.new inputs = .ok final) : NotRepolled final :=
  (machine.run_keeps (fun _ _ _ sound allowed step_eq => sound.step allowed step_eq) Sound.new
    permits run_eq).not_polled

/-- A task that is woken through one clone of its waker, and finishes in its second poll. -/
def wokenOnce : List (Input Unit) :=
  [.spawn (), .pop, .clone (), .finish false, .wake (), .pop, .finish true]

theorem never_polled_after_ready_once :
    ∃ final, machine.Permits State.new wokenOnce ∧ machine.run State.new wokenOnce = .ok final ∧
      final.ready () = true ∧ NotRepolled final := by
  have run_eq : machine.run State.new wokenOnce = .ok _ := rfl
  have permits : machine.Permits State.new wokenOnce := by
    repeat' refine machine.permits_cons ?_ rfl ?_
    all_goals first | trivial | exact fun task polled => List.not_mem_nil
  exact ⟨_, permits, run_eq, rfl, never_polled_after_ready permits run_eq⟩

/-- Two clones of a waker are stored and both are invoked; the task finishes when it is polled for
the first of them, and is polled again for the second. -/
theorem polled_after_ready :
    ∃ final, machine.run State.new [.spawn (), .pop, .clone (), .clone (), .finish false, .wake (),
        .wake (), .pop, .finish true, .pop] = .ok final ∧
      final.polled = some () ∧ final.ready () = true ∧ ¬ NotRepolled final :=
  ⟨_, rfl, rfl, rfl, fun never => Bool.noConfusion (never () rfl)⟩

end TaskWaker
end Vespertine
