import Vespertine.Library.Transition
import Vespertine.Library.Waiters

/-!
# The mutex

A thread that finds the mutex locked locks its wait queue, looks at the flag once more and puts
itself into the queue; `unlock` clears the flag before it takes the lock of the queue, and wakes
the first thread without handing it the mutex.  In between, another thread may take the mutex or
queue itself.

Threads take one atomic operation or one critical section of the wait queue at a time.  A load under
the lock of the queue is an operation of its own, for the flag is not behind that lock.
-/

namespace Vespertine
namespace Mutex

open Function (update)
open Waiters (Waits Holds)

/-- Where a thread is in `lock` or `unlock`. -/
inductive Phase where
  /-- In neither. -/
  | idle
  /-- About to swap `is_locked`. -/
  | entering
  /-- The swap found the mutex locked; about to lock the wait queue. -/
  | contended
  /-- It holds the lock of the wait queue. -/
  | inside
  /-- Under the lock, it has loaded `true`. -/
  | blocking
  | queued
  /-- Taken from the queue and made runnable; about to swap `is_locked` again. -/
  | woken
  /-- `unlock` has cleared `is_locked`; about to pop the wait queue. -/
  | unlocking
  deriving DecidableEq

/-- Threads that hold the lock of the wait queue. -/
def Phase.Locks (phase : Phase) : Prop := phase = .inside ∨ phase = .blocking

structure State (τ : Type) where
  isLocked : Bool
  waitQueue : List τ
  /-- The thread that holds the lock of the wait queue. -/
  holder : Option τ
  /-- The guards that exist; they may be sent from one thread to another. -/
  guards : Nat
  phase : τ → Phase

inductive Input (τ : Type) where
  /-- A call of `lock` begins. -/
  | lock (thread : τ)
  /-- A guard is dropped, or given up by `CondVar::wait`: `unlock` begins with its store. -/
  | unlock (thread : τ)
  /-- The next step of a call. -/
  | advance (thread : τ)

/-- A thread that cannot take this step now. -/
inductive Disabled where
  | disabled

variable {τ : Type} [DecidableEq τ]

namespace State

/-- `Mutex::new`. -/
def new : State τ := ⟨false, [], none, 0, fun _ => .idle⟩

/-- `is_locked.swap(true)`, which returns with a guard if the mutex was not locked. -/
def swap (state : State τ) (thread : τ) : State τ :=
  if state.isLocked then
    { state with phase := update state.phase thread .contended }
  else
    { state with
      isLocked := true
      guards := state.guards + 1
      phase := update state.phase thread .idle }

/-- `wait_queue.lock()`. -/
def lockQueue (state : State τ) (thread : τ) : State τ :=
  { state with holder := some thread, phase := update state.phase thread .inside }

/-- `is_locked.load()`; a thread that sees the mutex free unlocks the queue and starts again. -/
def load (state : State τ) (thread : τ) : State τ :=
  if state.isLocked then
    { state with phase := update state.phase thread .blocking }
  else
    { state with holder := none, phase := update state.phase thread .entering }

/-- `wq.push(current_thread)`, `drop(wq)` and `schedule`. -/
def push (state : State τ) (thread : τ) : State τ :=
  { state with
    waitQueue := state.waitQueue ++ [thread]
    holder := none
    phase := update state.phase thread .queued }

/-- `is_locked.store(false)`; the guard is gone. -/
def store (state : State τ) (thread : τ) : State τ :=
  { state with
    isLocked := false
    guards := state.guards - 1
    phase := update state.phase thread .unlocking }

/-- `wq.pop()` under the lock of the queue, and `wake_thread`. -/
def pop (state : State τ) (thread : τ) : State τ :=
  match state.waitQueue with
  | [] => { state with phase := update state.phase thread .idle }
  | next :: rest =>
      { state with
        waitQueue := rest
        phase := update (update state.phase next .woken) thread .idle }

end State

def step (state : State τ) : Input τ → Except Disabled (State τ)
  | .lock thread =>
      match state.phase thread with
      | .idle => .ok { state with phase := update state.phase thread .entering }
      | _ => .error .disabled
  | .unlock thread =>
      match state.phase thread with
      | .idle => if 0 < state.guards then .ok (state.store thread) else .error .disabled
      | _ => .error .disabled
  | .advance thread =>
      match state.phase thread with
      | .entering | .woken => .ok (state.swap thread)
      | .contended =>
          if state.holder = none then .ok (state.lockQueue thread) else .error .disabled
      | .inside => .ok (state.load thread)
      | .blocking => .ok (state.push thread)
      | .unlocking => if state.holder = none then .ok (state.pop thread) else .error .disabled
      | .idle | .queued => .error .disabled

/-- Threads lock and unlock at will. -/
def machine : Machine (State τ) (Input τ) Disabled := ⟨step, fun _ _ => True⟩

/-!
### What a step does
-/

section Steps

variable {state next : State τ} {thread : τ}

/-- The outcomes of a step. -/
inductive Turn (state : State τ) (thread : τ) : State τ → Prop where
  | enter (phase_eq : state.phase thread = .idle) :
      Turn state thread { state with phase := update state.phase thread .entering }
  | acquire (phase_eq : state.phase thread = .entering ∨ state.phase thread = .woken)
      (free : state.isLocked = false) :
      Turn state thread
        ⟨true, state.waitQueue, state.holder, state.guards + 1, update state.phase thread .idle⟩
  | contend (phase_eq : state.phase thread = .entering ∨ state.phase thread = .woken)
      (locked : state.isLocked = true) :
      Turn state thread { state with phase := update state.phase thread .contended }
  | lockQueue (phase_eq : state.phase thread = .contended) (free : state.holder = none) :
      Turn state thread (state.lockQueue thread)
  | block (phase_eq : state.phase thread = .inside) (locked : state.isLocked = true) :
      Turn state thread { state with phase := update state.phase thread .blocking }
  | retry (phase_eq : state.phase thread = .inside) (free : state.isLocked = false) :
      Turn state thread
        { state with holder := none, phase := update state.phase thread .entering }
  | push (phase_eq : state.phase thread = .blocking) : Turn state thread (state.push thread)
  | store (phase_eq : state.phase thread = .idle) (held : 0 < state.guards) :
      Turn state thread (state.store thread)
  | popNone (phase_eq : state.phase thread = .unlocking) (free : state.holder = none)
      (queue_eq : state.waitQueue = []) :
      Turn state thread { state with phase := update state.phase thread .idle }
  | popSome {woken : τ} {rest : List τ} (phase_eq : state.phase thread = .unlocking)
      (free : state.holder = none) (queue_eq : state.waitQueue = woken :: rest) :
      Turn state thread { state with
        waitQueue := rest
        phase := update (update state.phase woken .woken) thread .idle }

theorem swap_turn (phase_eq : state.phase thread = .entering ∨ state.phase thread = .woken) :
    Turn state thread (state.swap thread) := by
  rw [State.swap]
  split
  next locked => exact .contend phase_eq locked
  next free => exact .acquire phase_eq (by simpa using free)

theorem load_turn (phase_eq : state.phase thread = .inside) :
    Turn state thread (state.load thread) := by
  rw [State.load]
  split
  next locked => exact .block phase_eq locked
  next free => exact .retry phase_eq (by simpa using free)

theorem pop_turn (phase_eq : state.phase thread = .unlocking) (free : state.holder = none) :
    Turn state thread (state.pop thread) := by
  rw [State.pop]
  split
  next queue_eq => exact .popNone phase_eq free queue_eq
  next queue_eq => exact .popSome phase_eq free queue_eq

/-- A step is one of these. -/
theorem step_turn {input : Input τ} (step_eq : step state input = .ok next) :
    ∃ thread, Turn state thread next := by
  cases input with
  | lock thread =>
      simp only [step] at step_eq
      split at step_eq
      next phase_eq =>
        obtain rfl := Except.ok.inj step_eq
        exact ⟨thread, .enter phase_eq⟩
      next => cases step_eq
  | unlock thread =>
      simp only [step] at step_eq
      split at step_eq
      next phase_eq =>
        obtain ⟨held, step_eq⟩ := guard_eq_ok.mp step_eq
        obtain rfl := Except.ok.inj step_eq
        exact ⟨thread, .store phase_eq held⟩
      next => cases step_eq
  | advance thread =>
      refine ⟨thread, ?_⟩
      simp only [step] at step_eq
      split at step_eq
      next phase_eq =>
        obtain rfl := Except.ok.inj step_eq
        exact swap_turn (.inl phase_eq)
      next phase_eq =>
        obtain rfl := Except.ok.inj step_eq
        exact swap_turn (.inr phase_eq)
      next phase_eq =>
        obtain ⟨free, step_eq⟩ := guard_eq_ok.mp step_eq
        obtain rfl := Except.ok.inj step_eq
        exact .lockQueue phase_eq free
      next phase_eq =>
        obtain rfl := Except.ok.inj step_eq
        exact load_turn phase_eq
      next phase_eq =>
        obtain rfl := Except.ok.inj step_eq
        exact .push phase_eq
      next phase_eq =>
        obtain ⟨free, step_eq⟩ := guard_eq_ok.mp step_eq
        obtain rfl := Except.ok.inj step_eq
        exact pop_turn phase_eq free
      next => cases step_eq
      next => cases step_eq

end Steps

/-!
### Nobody is forgotten
-/

/-- An unlock is between its store and its pop. -/
def Releasing (state : State τ) : Prop := Waiters.Present state.phase (· = .unlocking)

/-- A woken thread has not retried the swap. -/
def Retrying (state : State τ) : Prop := Waiters.Present state.phase (· = .woken)

structure Sound (state : State τ) : Prop where
  guards_eq : state.guards = if state.isLocked then 1 else 0
  waits : Waits state.waitQueue state.phase (· = .queued)
  holds : Holds state.holder state.phase Phase.Locks
  /-- A thread that is about to queue itself has a release ahead of it. -/
  blocking_served : ∀ thread, state.phase thread = .blocking →
    state.isLocked = true ∨ Releasing state
  queue_served : state.waitQueue ≠ [] → state.isLocked = true ∨ Releasing state ∨ Retrying state

namespace Sound

variable {state next : State τ} {thread : τ}

omit [DecidableEq τ] in
theorem new : Sound (State.new : State τ) where
  guards_eq := rfl
  waits := .nil (by simp [State.new])
  holds := by simp [Holds, State.new, Phase.Locks]
  blocking_served := by simp [State.new]
  queue_served := by simp [State.new]

omit [DecidableEq τ] in
/-- While the mutex is locked, its guard will be dropped. -/
theorem of_locked {queue : List τ} {holder : Option τ} {phase : τ → Phase}
    (waits : Waits queue phase (· = .queued)) (holds : Holds holder phase Phase.Locks) :
    Sound ⟨true, queue, holder, 1, phase⟩ where
  guards_eq := rfl
  waits := waits
  holds := holds
  blocking_served _ _ := .inl rfl
  queue_served _ := .inl rfl

/-- A step that leaves the flag and the queue alone, of a thread on which nobody relies. -/
theorem quiet (sound : Sound state) {holder : Option τ} {after : Phase}
    (holds : Holds holder (update state.phase thread after) Phase.Locks)
    (not_queued : after ≠ .queued) (not_blocking : after ≠ .blocking)
    (was_idle : state.phase thread ≠ .queued ∧ state.phase thread ≠ .unlocking ∧
      state.phase thread ≠ .woken) :
    Sound { state with holder, phase := update state.phase thread after } where
  guards_eq := sound.guards_eq
  waits := sound.waits.keep (by simp [not_queued, was_idle.1])
  holds := holds
  blocking_served := by
    intro other other_eq
    have before := Waiters.phase_before not_blocking other_eq
    exact (sound.blocking_served other before).imp_right (·.keep was_idle.2.1)
  queue_served := by
    intro nonempty
    refine (sound.queue_served nonempty).imp_right (Or.imp ?_ ?_)
    · exact (·.keep was_idle.2.1)
    · exact (·.keep was_idle.2.2)

/-- The thread that loaded `true` saw a guard, whose drop has not popped the queue since. -/
theorem push (sound : Sound state) (phase_eq : state.phase thread = .blocking) :
    Sound (state.push thread) where
  guards_eq := sound.guards_eq
  waits := sound.waits.push (by simp [phase_eq]) rfl
  holds := sound.holds.release (.inr phase_eq) (by simp [Phase.Locks])
  blocking_served := by
    intro other other_eq
    have before := Waiters.phase_before (by simp) other_eq
    exact (sound.blocking_served other before).imp_right (·.keep (by simp [phase_eq]))
  queue_served _ := by
    refine (sound.blocking_served thread phase_eq).imp_right fun releasing => .inl ?_
    exact releasing.keep (by simp [phase_eq])

theorem store (sound : Sound state) (phase_eq : state.phase thread = .idle)
    (held : 0 < state.guards) : Sound (state.store thread) where
  guards_eq := by
    have guards_eq := sound.guards_eq
    have : state.guards = 1 := by split at guards_eq <;> omega
    simp [State.store, this]
  waits := sound.waits.keep (by simp [phase_eq])
  holds := sound.holds.keep (by simp [phase_eq, Phase.Locks])
  blocking_served _ _ := .inr (.enter rfl)
  queue_served _ := .inr (.inl (.enter rfl))

omit [DecidableEq τ] in
/-- The lock of the queue is free, so nobody is about to queue itself. -/
theorem not_blocking (sound : Sound state) (free : state.holder = none) (thread : τ) :
    state.phase thread ≠ .blocking := by
  intro phase_eq
  have holds := sound.holds
  rw [free] at holds
  exact holds.free thread (.inr phase_eq)

theorem popNone (sound : Sound state) (phase_eq : state.phase thread = .unlocking)
    (free : state.holder = none) (queue_eq : state.waitQueue = []) :
    Sound { state with phase := update state.phase thread .idle } where
  guards_eq := sound.guards_eq
  waits := sound.waits.keep (by simp [phase_eq])
  holds := sound.holds.keep (by simp [phase_eq, Phase.Locks])
  blocking_served := by
    intro other other_eq
    exact absurd (Waiters.phase_before (by simp) other_eq) (sound.not_blocking free other)
  queue_served nonempty := absurd queue_eq nonempty

theorem popSome (sound : Sound state) {woken : τ} {rest : List τ}
    (phase_eq : state.phase thread = .unlocking) (free : state.holder = none)
    (queue_eq : state.waitQueue = woken :: rest) :
    Sound { state with
      waitQueue := rest
      phase := update (update state.phase woken .woken) thread .idle } := by
  have waits := sound.waits
  rw [queue_eq] at waits
  have woken_eq : state.phase woken = .queued := (waits.mem_iff woken).mp List.mem_cons_self
  have ne : thread ≠ woken := by
    rintro rfl
    simp [phase_eq] at woken_eq
  have thread_eq : update state.phase woken .woken thread = .unlocking := by simp [ne, phase_eq]
  refine ⟨sound.guards_eq, ?_, ?_, ?_, fun _ => .inr (.inr ?_)⟩
  · exact (waits.pop (by simp)).keep (by simp [thread_eq])
  · refine Holds.keep (sound.holds.keep ?_) ?_
    · simp [woken_eq, Phase.Locks]
    · simp [thread_eq, Phase.Locks]
  · intro other other_eq
    have before := Waiters.phase_before (by simp) (Waiters.phase_before (by simp) other_eq)
    exact absurd before (sound.not_blocking free other)
  · exact Waiters.Present.keep (.enter rfl) (by simp [thread_eq])

theorem turn (sound : Sound state) (turn : Turn state thread next) : Sound next := by
  cases turn with
  | enter phase_eq =>
      refine sound.quiet (sound.holds.keep ?_) (by simp) (by simp) (by simp [phase_eq])
      simp [phase_eq, Phase.Locks]
  | acquire phase_eq free =>
      have guards_eq : state.guards = 0 := by simpa [free] using sound.guards_eq
      rw [guards_eq]
      refine of_locked (sound.waits.keep ?_) (sound.holds.keep ?_)
      · rcases phase_eq with phase_eq | phase_eq <;> simp [phase_eq]
      · rcases phase_eq with phase_eq | phase_eq <;> simp [phase_eq, Phase.Locks]
  | contend phase_eq locked =>
      have guards_eq : state.guards = 1 := by simpa [locked] using sound.guards_eq
      rw [guards_eq, locked]
      refine of_locked (sound.waits.keep ?_) (sound.holds.keep ?_)
      · rcases phase_eq with phase_eq | phase_eq <;> simp [phase_eq]
      · rcases phase_eq with phase_eq | phase_eq <;> simp [phase_eq, Phase.Locks]
  | lockQueue phase_eq free =>
      have holds := sound.holds
      rw [free] at holds
      exact sound.quiet (holds.take (.inl rfl)) (by simp) (by simp) (by simp [phase_eq])
  | block phase_eq locked =>
      have guards_eq : state.guards = 1 := by simpa [locked] using sound.guards_eq
      rw [guards_eq, locked]
      refine of_locked (sound.waits.keep ?_) (sound.holds.keep ?_)
      · simp [phase_eq]
      · simp [phase_eq, Phase.Locks]
  | retry phase_eq free =>
      refine sound.quiet ?_ (by simp) (by simp) (by simp [phase_eq])
      exact sound.holds.release (.inl phase_eq) (by simp [Phase.Locks])
  | push phase_eq => exact sound.push phase_eq
  | store phase_eq held => exact sound.store phase_eq held
  | popNone phase_eq free queue_eq => exact sound.popNone phase_eq free queue_eq
  | popSome phase_eq free queue_eq => exact sound.popSome phase_eq free queue_eq

theorem run {inputs : List (Input τ)} {final : State τ}
    (run_eq : machine.run State.new inputs = .ok final) : Sound final := by
  refine machine.run_invariant (fun state input next sound step_eq => ?_) new run_eq
  obtain ⟨thread, turn⟩ := step_turn step_eq
  exact sound.turn turn

end Sound

/-- A thread waits for a mutex that is free, and nothing is under way to change that. -/
def Stranded (state : State τ) : Prop :=
  state.isLocked = false ∧ state.waitQueue ≠ [] ∧ ¬ Releasing state ∧ ¬ Retrying state

/-- In whatever order the threads take their steps, at most one guard exists, and no thread waits
for a free mutex unless an unlock is about to pop the queue or a woken thread is about to swap. -/
theorem one_guard_and_none_stranded {inputs : List (Input τ)} {final : State τ}
    (run_eq : machine.run State.new inputs = .ok final) :
    final.guards ≤ 1 ∧ ¬ Stranded final := by
  have sound := Sound.run run_eq
  constructor
  · rw [sound.guards_eq]
    split <;> simp
  · rintro ⟨free, waiting, not_releasing, not_retrying⟩
    rcases sound.queue_served waiting with locked | releasing | retrying
    · simp [free] at locked
    · exact not_releasing releasing
    · exact not_retrying retrying

/-- Thread 0 has the mutex when thread 1 comes; it unlocks, but has not popped the queue yet. -/
def contended : List (Input Nat) :=
  [.lock 0, .advance 0, .lock 1, .advance 1, .advance 1, .advance 1, .advance 1, .unlock 0]

theorem one_guard_and_none_stranded_contended :
    ∃ final, machine.run State.new contended = .ok final ∧
      final.isLocked = false ∧ final.waitQueue = [1] ∧ (final.guards ≤ 1 ∧ ¬ Stranded final) := by
  have run_eq : machine.run State.new contended = .ok _ := rfl
  exact ⟨_, run_eq, rfl, rfl, one_guard_and_none_stranded run_eq⟩

end Mutex
end Vespertine
