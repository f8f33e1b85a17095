import Vespertine.Library.Transition
import Vespertine.Library.Waiters

/-!
# The semaphore

`wait` takes a unit from the counter with a compare-and-exchange, or puts its thread into the wait
queue when there is none; `signal` adds a unit first and pops the queue afterwards.  The unit is not
handed to the thread that is woken, which competes for it with everyone else.

Threads take one atomic operation or one critical section of the wait queue at a time.  The counter
is an `isize`, so that it wraps around.
-/

namespace Vespertine
namespace Semaphore

open Function (update)
open Waiters (Waits Holds FinitelyMany census)

/-- Where a thread is in `wait` or `signal`.  The flag of a phase of `wait` marks a thread that was
taken from the queue, and has neither returned nor queued itself again. -/
inductive Phase where
  | idle
  /-- About to load the counter. -/
  | starting (woken : Bool)
  /-- The value in the variable `counter`. -/
  | loaded (woken : Bool) (counter : Int64)
  /-- It holds the lock of the wait queue. -/
  | inside (woken : Bool)
  /-- Under the lock, it has loaded a value that is not positive. -/
  | blocking (woken : Bool)
  | queued
  /-- `signal` has incremented the counter; about to pop the wait queue. -/
  | signalling
  deriving DecidableEq

/-- Threads that hold the lock of the wait queue. -/
def Phase.Locks : Phase → Prop
  | .inside _ | .blocking _ => True
  | _ => False

/-- Threads taken from the queue that have not looked at the counter since, or saw a unit there and
have not tried to take it yet. -/
def Phase.Rivals : Phase → Prop
  | .starting woken => woken = true
  | .loaded woken counter => woken = true ∧ 0 < counter
  | _ => False

/-- Threads about to queue themselves. -/
def Phase.Blocks : Phase → Prop
  | .blocking _ => True
  | _ => False

structure State (τ : Type) where
  counter : Int64
  waitQueue : List τ
  /-- The thread that holds the lock of the wait queue. -/
  holder : Option τ
  phase : τ → Phase
  /-- The calls of `wait` that have returned. -/
  completed : Nat
  /-- The increments that `signal` has performed. -/
  increments : Nat

inductive Input (τ : Type) where
  | wait (thread : τ)
  /-- A call of `signal` begins with its increment. -/
  | signal (thread : τ)
  /-- The next step of a call; a weak compare-and-exchange may fail for no reason. -/
  | advance (thread : τ) (spurious : Bool)

/-- A thread that cannot take this step now. -/
inductive Disabled where
  | disabled

variable {τ : Type} [DecidableEq τ]

namespace State

/-- `Semaphore::new`. -/
def new (counter : Int64) : State τ := ⟨counter, [], none, fun _ => .idle, 0, 0⟩

/-- `counter.load()`. -/
def load (state : State τ) (thread : τ) (woken : Bool) : State τ :=
  { state with phase := update state.phase thread (.loaded woken state.counter) }

/-- `wait` has taken a unit and returns. -/
def take (state : State τ) (thread : τ) : State τ :=
  { state with
    counter := state.counter - 1
    phase := update state.phase thread .idle
    completed := state.completed + 1 }

/-- `counter.compare_exchange_weak(counter, counter - 1)`. -/
def compareExchange (state : State τ) (thread : τ) (woken : Bool) (counter : Int64)
    (spurious : Bool) : State τ :=
  if state.counter = counter ∧ spurious = false then
    state.take thread
  else
    state.load thread woken

/-- `wait_queue.lock()`. -/
def lockQueue (state : State τ) (thread : τ) (woken : Bool) : State τ :=
  { state with holder := some thread, phase := update state.phase thread (.inside woken) }

/-- The load under the lock; a thread that sees a unit unlocks the queue and tries again. -/
def recheck (state : State τ) (thread : τ) (woken : Bool) : State τ :=
  if 0 < state.counter then
    { state with
      holder := none
      phase := update state.phase thread (.loaded woken state.counter) }
  else
    { state with phase := update state.phase thread (.blocking woken) }

/-- `wq.push(current_thread)`, `drop(wq)` and `schedule`. -/
def push (state : State τ) (thread : τ) : State τ :=
  { state with
    waitQueue := state.waitQueue ++ [thread]
    holder := none
    phase := update state.phase thread .queued }

/-- `counter.fetch_add(1)`. -/
def fetchAdd (state : State τ) (thread : τ) : State τ :=
  { state with
    counter := state.counter + 1
    phase := update state.phase thread .signalling
    increments := state.increments + 1 }

/-- `wake_thread` for the first thread of the queue. -/
def wake (state : State τ) (thread next : τ) (rest : List τ) : State τ :=
  { state with
    waitQueue := rest
    phase := update (update state.phase next (.starting true)) thread .idle }

/-- `wq.pop()` under the lock of the queue, and `wake_thread`. -/
def pop (state : State τ) (thread : τ) : State τ :=
  match state.waitQueue with
  | [] => { state with phase := update state.phase thread .idle }
  | next :: rest => state.wake thread next rest

end State

def step (state : State τ) : Input τ → Except Disabled (State τ)
  | .wait thread =>
      match state.phase thread with
      | .idle => .ok { state with phase := update state.phase thread (.starting false) }
      | _ => .error .disabled
  | .signal thread =>
      match state.phase thread with
      | .idle => .ok (state.fetchAdd thread)
      | _ => .error .disabled
  | .advance thread spurious =>
      match state.phase thread with
      | .starting woken => .ok (state.load thread woken)
      | .loaded woken counter =>
          if 0 < counter then
            .ok (state.compareExchange thread woken counter spurious)
          else if state.holder = none then
            .ok (state.lockQueue thread woken)
          else
            .error .disabled
      | .inside woken => .ok (state.recheck thread woken)
      | .blocking _ => .ok (state.push thread)
      | .signalling => if state.holder = none then .ok (state.pop thread) else .error .disabled
      | .idle | .queued => .error .disabled

/-- No increment overflows the counter. -/
def InRange (state : State τ) : Input τ → Prop
  | .signal _ => state.counter ≠ Int64.maxValue
  | _ => True

/-- Threads wait and signal at will, as long as the counter stays in its range. -/
def machine : Machine (State τ) (Input τ) Disabled := ⟨step, InRange⟩

/-!
### What a step does
-/

section Steps

variable {state next : State τ} {thread : τ}

/-- The outcomes of a step. -/
inductive Turn (state : State τ) (thread : τ) : State τ → Prop where
  | enter (phase_eq : state.phase thread = .idle) :
      Turn state thread { state with phase := update state.phase thread (.starting false) }
  | load {woken : Bool} (phase_eq : state.phase thread = .starting woken) :
      Turn state thread (state.load thread woken)
  | take {woken : Bool} (phase_eq : state.phase thread = .loaded woken state.counter)
      (positive : 0 < state.counter) : Turn state thread (state.take thread)
  | miss {woken : Bool} {counter : Int64} (phase_eq : state.phase thread = .loaded woken counter) :
      Turn state thread (state.load thread woken)
  | lockQueue {woken : Bool} {counter : Int64}
      (phase_eq : state.phase thread = .loaded woken counter) (exhausted : ¬ 0 < counter)
      (free : state.holder = none) : Turn state thread (state.lockQueue thread woken)
  | retry {woken : Bool} (phase_eq : state.phase thread = .inside woken) :
      Turn state thread { state with
        holder := none
        phase := update state.phase thread (.loaded woken state.counter) }
  | block {woken : Bool} (phase_eq : state.phase thread = .inside woken)
      (exhausted : ¬ 0 < state.counter) :
      Turn state thread { state with phase := update state.phase thread (.blocking woken) }
  | push {woken : Bool} (phase_eq : state.phase thread = .blocking woken) :
      Turn state thread (state.push thread)
  | popNone (phase_eq : state.phase thread = .signalling) (free : state.holder = none)
      (queue_eq : state.waitQueue = []) :
      Turn state thread { state with phase := update state.phase thread .idle }
  | popSome {woken : τ} {rest : List τ} (phase_eq : state.phase thread = .signalling)
      (free : state.holder = none) (queue_eq : state.waitQueue = woken :: rest) :
      Turn state thread (state.wake thread woken rest)

theorem compareExchange_turn {woken spurious : Bool} {counter : Int64}
    (phase_eq : state.phase thread = .loaded woken counter) (positive : 0 < counter) :
    Turn state thread (state.compareExchange thread woken counter spurious) := by
  rw [State.compareExchange]
  split
  next both =>
    obtain ⟨rfl, _⟩ := both
    exact .take phase_eq positive
  next => exact .miss phase_eq

theorem recheck_turn {woken : Bool} (phase_eq : state.phase thread = .inside woken) :
    Turn state thread (state.recheck thread woken) := by
  rw [State.recheck]
  split
  next => exact .retry phase_eq
  next exhausted => exact .block phase_eq exhausted

theorem pop_turn (phase_eq : state.phase thread = .signalling) (free : state.holder = none) :
    Turn state thread (state.pop thread) := by
  rw [State.pop]
  split
  next queue_eq => exact .popNone phase_eq free queue_eq
  next queue_eq => exact .popSome phase_eq free queue_eq

theorem advance_turn {spurious : Bool}
    (step_eq : step state (.advance thread spurious) = .ok next) : Turn state thread next := by
  simp only [step] at step_eq
  split at step_eq
  next phase_eq =>
    obtain rfl := Except.ok.inj step_eq
    exact .load phase_eq
  next phase_eq =>
    split at step_eq
    next positive =>
      obtain rfl := Except.ok.inj step_eq
      exact compareExchange_turn phase_eq positive
    next exhausted =>
      obtain ⟨free, step_eq⟩ := guard_eq_ok.mp step_eq
      obtain rfl := Except.ok.inj step_eq
      exact .lockQueue phase_eq exhausted free
  next phase_eq =>
    obtain rfl := Except.ok.inj step_eq
    exact recheck_turn phase_eq
  next phase_eq =>
    obtain rfl := Except.ok.inj step_eq
    exact .push phase_eq
  next phase_eq =>
    obtain ⟨free, step_eq⟩ := guard_eq_ok.mp step_eq
    obtain rfl := Except.ok.inj step_eq
    exact pop_turn phase_eq free
  next => cases step_eq
  next => cases step_eq

/-- A step is an increment, or one of these. -/
theorem step_turn {input : Input τ} (step_eq : step state input = .ok next) :
    (∃ thread, input = .signal thread ∧ state.phase thread = .idle ∧ next = state.fetchAdd thread) ∨
      ∃ thread, Turn state thread next := by
  cases input with
  | wait thread =>
      simp only [step] at step_eq
      split at step_eq
      next phase_eq =>
        obtain rfl := Except.ok.inj step_eq
        exact .inr ⟨thread, .enter phase_eq⟩
      next => cases step_eq
  | signal thread =>
      simp only [step] at step_eq
      split at step_eq
      next phase_eq => exact .inl ⟨thread, rfl, phase_eq, (Except.ok.inj step_eq).symm⟩
      next => cases step_eq
  | advance thread spurious => exact .inr ⟨thread, advance_turn step_eq⟩

end Steps

/-!
### Units and the threads that serve them
-/

theorem toInt_add_one {counter : Int64} (in_range : counter ≠ Int64.maxValue) :
    (counter + 1).toInt = counter.toInt + 1 := by
  have not_max : counter.toInt ≠ 2 ^ 63 - 1 := fun eq => in_range (Int64.toInt_inj.mp eq)
  have upper := counter.toInt_lt
  have lower := counter.le_toInt
  rw [Int64.toInt_add, Int64.toInt_one]
  exact Int.bmod_eq_of_le (by omega) (by omega)

theorem toInt_pos {counter : Int64} : 0 < counter ↔ 0 < counter.toInt := by
  rw [Int64.lt_iff_toInt_lt, Int64.toInt_zero]

theorem toInt_sub_one {counter : Int64} (positive : 0 < counter) :
    (counter - 1).toInt = counter.toInt - 1 := by
  have lower := toInt_pos.mp positive
  have upper := counter.toInt_lt
  rw [Int64.toInt_sub, Int64.toInt_one]
  exact Int.bmod_eq_of_le (by omega) (by omega)

/-- The calls of `signal` that are between their increment and their pop. -/
noncomputable def signals (state : State τ) : Nat := census state.phase (· = .signalling)

/-- The woken threads that are after a unit. -/
noncomputable def rivals (state : State τ) : Nat := census state.phase Phase.Rivals

structure Sound (initial : Int64) (state : State τ) : Prop where
  counter_eq : state.counter.toInt = initial.toInt + state.increments - state.completed
  spent : state.completed = 0 ∨ 0 ≤ state.counter.toInt
  waits : Waits state.waitQueue state.phase (· = .queued)
  holds : Holds state.holder state.phase Phase.Locks
  signals_finite : FinitelyMany state.phase (· = .signalling)
  rivals_finite : FinitelyMany state.phase Phase.Rivals
  /-- Every unit that came since a thread saw none has its pop still ahead. -/
  blocking_served : ∀ thread, (state.phase thread).Blocks → state.counter.toInt ≤ signals state
  queue_served : state.waitQueue ≠ [] → state.counter.toInt ≤ signals state + rivals state

namespace Sound

variable {initial : Int64} {state next : State τ} {thread : τ}

omit [DecidableEq τ] in
theorem new (initial : Int64) : Sound initial (State.new initial : State τ) where
  counter_eq := by simp [State.new]
  spent := .inl rfl
  waits := .nil (by simp [State.new])
  holds := by simp [Holds, State.new, Phase.Locks]
  signals_finite := Waiters.finitelyMany_of_forall (by simp [State.new])
  rivals_finite := Waiters.finitelyMany_of_forall (by simp [State.new, Phase.Rivals])
  blocking_served := by simp [State.new, Phase.Blocks]
  queue_served := by simp [State.new]

/-- A step that leaves the counter and the queue alone, and after which nobody counts less while
there is a unit. -/
theorem quiet (sound : Sound initial state) {holder : Option τ} {after : Phase}
    (holds : Holds holder (update state.phase thread after) Phase.Locks)
    (queued_same : after = .queued ↔ state.phase thread = .queued)
    (signalling_same : after = .signalling ↔ state.phase thread = .signalling)
    (rivals_kept : (state.phase thread).Rivals → 0 < state.counter → after.Rivals)
    (exhausted : after.Blocks → state.counter.toInt ≤ 0) :
    Sound initial { state with holder, phase := update state.phase thread after } where
  counter_eq := sound.counter_eq
  spent := sound.spent
  waits := sound.waits.keep queued_same
  holds := holds
  signals_finite := sound.signals_finite.step
  rivals_finite := sound.rivals_finite.step
  blocking_served := by
    intro other blocks
    rw [signals, Waiters.census_keep sound.signals_finite signalling_same]
    rcases eq_or_ne other thread with rfl | ne
    · have empty := exhausted (by simpa using blocks)
      have := Int.natCast_nonneg (census state.phase (· = .signalling))
      exact empty.trans this
    · exact sound.blocking_served other (by simpa [ne] using blocks)
  queue_served := by
    intro nonempty
    have served := sound.queue_served nonempty
    rw [signals, rivals, Waiters.census_keep sound.signals_finite signalling_same]
    by_cases positive : 0 < state.counter
    · have rivals_le : rivals state ≤ census (update state.phase thread after) Phase.Rivals :=
        Waiters.census_le sound.rivals_finite fun before => rivals_kept before positive
      rw [signals] at served
      dsimp only
      omega
    · have empty : state.counter.toInt ≤ 0 := not_lt.mp (toInt_pos.not.mp positive)
      dsimp only
      omega

theorem take (sound : Sound initial state) {woken : Bool} {counter : Int64}
    (phase_eq : state.phase thread = .loaded woken counter) (positive : 0 < state.counter) :
    Sound initial (state.take thread) := by
  have lower := toInt_pos.mp positive
  have counter_eq : (state.take thread).counter.toInt = state.counter.toInt - 1 :=
    toInt_sub_one positive
  have signals_eq : signals (state.take thread) = signals state :=
    Waiters.census_keep sound.signals_finite (by simp [phase_eq])
  refine ⟨?_, ?_, ?_, ?_, sound.signals_finite.step, sound.rivals_finite.step, ?_, ?_⟩
  · have before := sound.counter_eq
    rw [counter_eq]
    simp only [State.take]
    push_cast
    omega
  · right
    omega
  · exact sound.waits.keep (by simp [phase_eq])
  · exact sound.holds.keep (by simp [phase_eq, Phase.Locks])
  · intro other blocks
    have ne : other ≠ thread := by
      rintro rfl
      simp [State.take, Phase.Blocks] at blocks
    have served := sound.blocking_served other (by simpa [State.take, ne] using blocks)
    omega
  · intro nonempty
    have served := sound.queue_served nonempty
    -- The unit is gone, and with it at most one of the woken threads.
    have rivals_le : rivals state ≤ rivals (state.take thread) + 1 := by
      have changes : rivals (state.take thread) + _ = rivals state + _ :=
        Waiters.census_update sound.rivals_finite thread .idle
      have share_le := Waiters.share_le_one Phase.Rivals (state.phase thread)
      omega
    omega

theorem push (sound : Sound initial state) {woken : Bool}
    (phase_eq : state.phase thread = .blocking woken) : Sound initial (state.push thread) := by
  have signals_eq : signals (state.push thread) = signals state :=
    Waiters.census_keep sound.signals_finite (by simp [phase_eq])
  have blocks : (state.phase thread).Blocks := by simp [phase_eq, Phase.Blocks]
  have served : state.counter.toInt ≤ signals state := sound.blocking_served thread blocks
  refine ⟨sound.counter_eq, sound.spent, ?_, ?_, sound.signals_finite.step,
    sound.rivals_finite.step, fun _ _ => ?_, fun _ => ?_⟩
  · exact sound.waits.push (by simp [phase_eq]) rfl
  · exact sound.holds.release (by simp [phase_eq, Phase.Locks]) (by simp [Phase.Locks])
  · rw [signals_eq]
    exact served
  · rw [signals_eq]
    exact served.trans (by omega)

theorem fetchAdd (sound : Sound initial state) (phase_eq : state.phase thread = .idle)
    (in_range : state.counter ≠ Int64.maxValue) : Sound initial (state.fetchAdd thread) := by
  have counter_eq : (state.fetchAdd thread).counter.toInt = state.counter.toInt + 1 :=
    toInt_add_one in_range
  have signals_eq : signals (state.fetchAdd thread) = signals state + 1 :=
    Waiters.census_enter sound.signals_finite (by simp [phase_eq]) rfl
  have rivals_eq : rivals (state.fetchAdd thread) = rivals state :=
    Waiters.census_keep sound.rivals_finite (by simp [phase_eq, Phase.Rivals])
  refine ⟨?_, ?_, ?_, ?_, sound.signals_finite.step, sound.rivals_finite.step, ?_, ?_⟩
  · have before := sound.counter_eq
    rw [counter_eq]
    simp only [State.fetchAdd]
    push_cast
    omega
  · rw [counter_eq]
    exact sound.spent.imp_right (by omega)
  · exact sound.waits.keep (by simp [phase_eq])
  · exact sound.holds.keep (by simp [phase_eq, Phase.Locks])
  · intro other blocks
    have ne : other ≠ thread := by
      rintro rfl
      simp [State.fetchAdd, Phase.Blocks] at blocks
    have served := sound.blocking_served other (by simpa [State.fetchAdd, ne] using blocks)
    rw [counter_eq, signals_eq]
    omega
  · intro nonempty
    have served := sound.queue_served nonempty
    rw [counter_eq, signals_eq, rivals_eq]
    omega

omit [DecidableEq τ] in
/-- The lock of the queue is free, so nobody is about to queue itself. -/
theorem not_blocks (sound : Sound initial state) (free : state.holder = none) (thread : τ) :
    ¬ (state.phase thread).Blocks := by
  intro blocks
  have holds := sound.holds
  rw [free] at holds
  refine holds.free thread ?_
  cases phase_eq : state.phase thread with
  | blocking woken => trivial
  | _ =>
      rw [phase_eq] at blocks
      exact blocks.elim

theorem popNone (sound : Sound initial state) (phase_eq : state.phase thread = .signalling)
    (free : state.holder = none) (queue_eq : state.waitQueue = []) :
    Sound initial { state with phase := update state.phase thread .idle } where
  counter_eq := sound.counter_eq
  spent := sound.spent
  waits := sound.waits.keep (by simp [phase_eq])
  holds := sound.holds.keep (by simp [phase_eq, Phase.Locks])
  signals_finite := sound.signals_finite.step
  rivals_finite := sound.rivals_finite.step
  blocking_served := by
    intro other blocks
    rcases eq_or_ne other thread with rfl | ne
    · simp [Phase.Blocks] at blocks
    · exact absurd (by simpa [ne] using blocks) (sound.not_blocks free other)
  queue_served nonempty := absurd queue_eq nonempty

/-- The pop turns a call of `signal` into a woken thread. -/
theorem wake (sound : Sound initial state) {woken : τ} {rest : List τ}
    (phase_eq : state.phase thread = .signalling) (free : state.holder = none)
    (queue_eq : state.waitQueue = woken :: rest) :
    Sound initial (state.wake thread woken rest) := by
  have waits := sound.waits
  rw [queue_eq] at waits
  have woken_eq : state.phase woken = .queued := (waits.mem_iff woken).mp List.mem_cons_self
  have ne : thread ≠ woken := by
    rintro rfl
    simp [phase_eq] at woken_eq
  have thread_eq : update state.phase woken (.starting true) thread = .signalling := by
    simp [ne, phase_eq]
  have signals_eq : signals (state.wake thread woken rest) + 1 = signals state := by
    rw [signals, State.wake, Waiters.census_leave sound.signals_finite.step thread_eq (by simp),
      Waiters.census_keep sound.signals_finite (by simp [woken_eq])]
    rfl
  have rivals_eq : rivals (state.wake thread woken rest) = rivals state + 1 := by
    have holds : (Phase.starting true).Rivals := rfl
    rw [rivals, State.wake,
      Waiters.census_keep sound.rivals_finite.step (by simp [thread_eq, Phase.Rivals]),
      Waiters.census_enter sound.rivals_finite (by simp [woken_eq, Phase.Rivals]) holds]
    rfl
  refine ⟨sound.counter_eq, sound.spent, ?_, ?_, sound.signals_finite.step.step,
    sound.rivals_finite.step.step, ?_, fun _ => ?_⟩
  · exact (waits.pop (by simp)).keep (by simp [thread_eq])
  · refine Holds.keep (sound.holds.keep ?_) ?_
    · simp [woken_eq, Phase.Locks]
    · simp [thread_eq, Phase.Locks]
  · intro other blocks
    rcases eq_or_ne other thread with rfl | other_ne
    · simp [State.wake, Phase.Blocks] at blocks
    rcases eq_or_ne other woken with rfl | other_ne'
    · simp [State.wake, other_ne, Phase.Blocks] at blocks
    · refine absurd ?_ (sound.not_blocks free other)
      simpa [State.wake, other_ne, other_ne'] using blocks
  · have served := sound.queue_served (by simp [queue_eq])
    change state.counter.toInt ≤ _
    omega

theorem turn (sound : Sound initial state) (turn : Turn state thread next) :
    Sound initial next := by
  cases turn with
  | enter phase_eq =>
      refine sound.quiet (sound.holds.keep ?_) ?_ ?_ ?_ ?_ <;>
        simp [phase_eq, Phase.Locks, Phase.Rivals, Phase.Blocks]
  | load phase_eq | miss phase_eq =>
      refine sound.quiet (sound.holds.keep ?_) ?_ ?_ ?_ ?_ <;>
        simp +contextual [phase_eq, Phase.Locks, Phase.Rivals, Phase.Blocks]
  | take phase_eq positive => exact sound.take phase_eq positive
  | lockQueue phase_eq exhausted free =>
      have holds := sound.holds
      rw [free] at holds
      refine sound.quiet (holds.take (by simp [Phase.Locks])) ?_ ?_ ?_ ?_ <;>
        simp [phase_eq, Phase.Rivals, Phase.Blocks, exhausted]
  | retry phase_eq =>
      refine sound.quiet (sound.holds.release ?_ ?_) ?_ ?_ ?_ ?_ <;>
        simp [phase_eq, Phase.Locks, Phase.Rivals, Phase.Blocks]
  | block phase_eq exhausted =>
      have empty : state.counter.toInt ≤ 0 := not_lt.mp (toInt_pos.not.mp exhausted)
      refine sound.quiet (sound.holds.keep ?_) ?_ ?_ ?_ ?_ <;>
        simp [phase_eq, Phase.Locks, Phase.Rivals, empty]
  | push phase_eq => exact sound.push phase_eq
  | popNone phase_eq free queue_eq => exact sound.popNone phase_eq free queue_eq
  | popSome phase_eq free queue_eq => exact sound.wake phase_eq free queue_eq

theorem run {inputs : List (Input τ)} {final : State τ}
    (permits : machine.Permits (State.new initial) inputs)
    (run_eq : machine.run (State.new initial) inputs = .ok final) : Sound initial final := by
  refine machine.run_keeps (fun state input next sound in_range step_eq => ?_) (new initial)
    permits run_eq
  obtain ⟨thread, rfl, phase_eq, rfl⟩ | ⟨thread, turn⟩ := step_turn step_eq
  · exact sound.fetchAdd phase_eq in_range
  · exact sound.turn turn

end Sound

/-- A thread waits although there is a unit, and nothing is under way to change that. -/
def Stranded (state : State τ) : Prop :=
  0 < state.counter ∧ state.waitQueue ≠ [] ∧ (∀ thread, state.phase thread ≠ .signalling) ∧
    ∀ thread, ¬ (state.phase thread).Rivals

/-- In whatever order the threads take their steps, the counter is exact, it is never taken below
zero, and no thread waits next to a unit unless a signal is about to pop the queue or a woken thread
is about to look for it or to take it. -/
theorem counts_and_strands_nobody {initial : Int64} {inputs : List (Input τ)} {final : State τ}
    (permits : machine.Permits (State.new initial) inputs)
    (run_eq : machine.run (State.new initial) inputs = .ok final) :
    (final.completed = 0 ∨ (final.completed : Int) ≤ initial.toInt + final.increments) ∧
      final.counter.toInt = initial.toInt + final.increments - final.completed ∧
      min initial.toInt 0 ≤ final.counter.toInt ∧ ¬ Stranded final := by
  have sound := Sound.run permits run_eq
  have counter_eq := sound.counter_eq
  refine ⟨?_, counter_eq, ?_, ?_⟩
  · exact sound.spent.imp_right (by omega)
  · rcases sound.spent with unspent | nonneg
    · exact min_le_of_left_le (by omega)
    · exact min_le_of_right_le nonneg
  · rintro ⟨positive, waiting, no_signal, no_rival⟩
    have served := sound.queue_served waiting
    have lower := toInt_pos.mp positive
    have none_signals : ¬ 0 < signals final := by
      rw [signals, Waiters.census_pos sound.signals_finite]
      exact fun ⟨thread, phase_eq⟩ => no_signal thread phase_eq
    have none_rivals : ¬ 0 < rivals final := by
      rw [rivals, Waiters.census_pos sound.rivals_finite]
      exact fun ⟨thread, woken⟩ => no_rival thread woken
    omega

/-- A thread begins to wait, finds no unit and queues itself. -/
def queueing (thread : Fin 3) : List (Input (Fin 3)) :=
  [.wait thread, .advance thread false, .advance thread false, .advance thread false,
    .advance thread false]

theorem counts_and_strands_nobody_signalled :
    ∃ final, machine.Permits (State.new 0) (queueing 0 ++ [.signal 1]) ∧
      machine.run (State.new 0) (queueing 0 ++ [.signal 1]) = .ok final ∧
      final.waitQueue = [0] ∧
      ((final.completed = 0 ∨ (final.completed : Int) ≤ (0 : Int64).toInt + final.increments) ∧
        final.counter.toInt = (0 : Int64).toInt + final.increments - final.completed ∧
        min (0 : Int64).toInt 0 ≤ final.counter.toInt ∧ ¬ Stranded final) := by
  have run_eq : machine.run (State.new 0) (queueing 0 ++ [.signal 1]) = .ok _ := rfl
  have permits : machine.Permits (State.new 0) (queueing 0 ++ [.signal 1]) := by
    refine machine.permits_append ?_ fun mid mid_eq => ?_
    · refine machine.permits_of_mem _ fun input mem state => ?_
      simp only [queueing, List.mem_cons, List.not_mem_nil, or_false] at mem
      rcases mem with rfl | rfl | rfl | rfl | rfl <;> trivial
    · obtain rfl := Except.ok.inj mid_eq
      have in_range : (0 : Int64) ≠ Int64.maxValue := by decide
      exact ⟨in_range, fun _ _ => trivial⟩
  exact ⟨_, permits, run_eq, rfl, counts_and_strands_nobody permits run_eq⟩

private local instance threeCallers : NeZero 3 := ⟨by decide⟩

/-- Threads 0 and 1 are queued, 0 is woken and has looked at the counter again. -/
def reexamined : List (Input (Fin 3)) :=
  queueing 0 ++ queueing 1 ++ [.signal 2, .advance 2 false, .advance 0 false]

/-- A counter that starts below zero is below the number of completed calls, the counter wraps
around, and there are units and waiting threads when a woken thread has seen the unit but not taken
it. -/
theorem literal_counts_fail :
    (∃ final : State (Fin 3), machine.run (State.new (-1)) [] = .ok final ∧
      ¬ (final.completed : Int) ≤ (-1 : Int64).toInt + final.increments) ∧
    (∃ final : State (Fin 3), machine.run (State.new Int64.maxValue) [.signal 0] = .ok final ∧
      final.counter.toInt ≠ Int64.maxValue.toInt + final.increments - final.completed ∧
      ¬ min Int64.maxValue.toInt 0 ≤ final.counter.toInt) ∧
    ∃ final, machine.run (State.new 0) reexamined = .ok final ∧
      0 < final.counter ∧ final.waitQueue = [1] ∧ (∀ thread, final.phase thread ≠ .signalling) ∧
      ∀ thread, final.phase thread ≠ .starting true := by
  refine ⟨⟨_, rfl, by decide⟩, ⟨_, rfl, by decide, by decide⟩, _, rfl, by decide, rfl, ?_, ?_⟩
  · decide
  · decide

end Semaphore
end Vespertine
