import Vespertine.Library.Behavior
import Vespertine.Thread.Wakeup

/-!
# The executor

`Executor::run` pops tasks from the run queue and polls them.  When it finds the queue empty it
locks it again, looks once more, marks its thread blocked and only then lets go of the lock, so
that `push_task`, which looks at the thread under the same lock, cannot come in between.

The executor shares the machine with everything the scheduler does.  Two things are taken from the
environment: a polled task does not block the thread it is polled on, and nobody locks the address
space of the kernel process for writing, on which `schedule` would have to wait.
-/

namespace Vespertine
namespace Executor

open Scheduler (System Roster ThreadState Event scheduling)
open Wakeup (blocker blocked_of_step wakeThread_ready)

/-- Where `Executor::run` is. -/
inductive Phase (χ : Type) where
  /-- Before `EXECUTOR_THREAD_PTR.store`. -/
  | starting
  /-- About to lock the queue and pop. -/
  | top
  | polling (task : χ)
  /-- The queue was empty; about to lock it again. -/
  | emptied
  /-- It holds the lock. -/
  | locked
  /-- It holds the lock, and the thread is marked blocked. -/
  | marked
  /-- About to call `schedule`. -/
  | leaving

/-- Where a call of `push_task` is; it holds the lock from the push to its end. -/
inductive PushPhase where
  | idle
  | pushed
  /-- It has seen the executor blocked. -/
  | waking
  deriving DecidableEq

/-- Who holds the lock of the run queue. -/
inductive Holder (ρ : Type) where
  | executor
  | push (call : ρ)

/-- The calls of `push_task` are `ρ` and the tasks are `χ`. -/
structure State (θ κ ω ρ χ : Type) where
  sys : System θ κ ω
  /-- `EXECUTOR_THREAD_PTR`. -/
  executorThread : Option θ
  runQueue : List χ
  holder : Option (Holder ρ)
  phase : Phase χ
  pushes : ρ → PushPhase
  /-- The tasks that were ever pushed, in order. -/
  pushed : List χ
  /-- The tasks that were ever popped, in order. -/
  popped : List χ

inductive Input (θ κ ω ρ χ : Type) where
  /-- An event of the scheduler that is none of the following. -/
  | other (event : Event θ κ ω)
  /-- `Executor::run` begins. -/
  | register (core : κ)
  /-- `RUN_QUEUE.lock().pop_front()`. -/
  | pop (core : κ)
  /-- `poll` returns, and the task is dropped or waits for its waker. -/
  | finishPoll (core : κ)
  | lockQueue (core : κ)
  /-- `queue.is_empty()`, and if so the thread is marked blocked. -/
  | recheck (core : κ)
  /-- `drop(queue)`. -/
  | unlock (core : κ)
  /-- `sched.schedule()`. -/
  | yield (core : κ)
  /-- `push_task` locks the queue and pushes. -/
  | push (call : ρ) (task : χ)
  /-- It looks at the executor's thread. -/
  | look (call : ρ)
  /-- It calls `wake_thread`. -/
  | wake (call : ρ) (core : κ)

variable {θ κ ω ρ χ : Type} [DecidableEq θ] [DecidableEq κ] [DecidableEq ω] [DecidableEq ρ]

/-- The executor holds the lock, with interrupts disabled. -/
def Phase.locks : Phase χ → Bool
  | .locked | .marked => true
  | _ => false

namespace State

/-- The executor's thread executes on a core. -/
def Runs (state : State θ κ ω ρ χ) (executor : θ) (core : κ) : Prop :=
  state.sys.currentThread core = executor ∧ state.sys.phase core = .running

instance (state : State θ κ ω ρ χ) (executor : θ) (core : κ) :
    Decidable (state.Runs executor core) :=
  inferInstanceAs (Decidable (_ ∧ _))

/-- The pointer that `Executor::run` stores is that of the thread that executes it. -/
def register (state : State θ κ ω ρ χ) (core : κ) : State θ κ ω ρ χ :=
  { state with executorThread := some (state.sys.currentThread core), phase := .top }

/-- One turn of the loop, up to the poll or the second look. -/
def pop (state : State θ κ ω ρ χ) : State θ κ ω ρ χ :=
  match state.runQueue with
  | [] => { state with phase := .emptied }
  | task :: rest =>
      { state with runQueue := rest, popped := state.popped ++ [task], phase := .polling task }

/-- The second look: mark the thread, or go back to the queue. -/
def recheck (roster : Roster θ κ) (state : State θ κ ω ρ χ) (core : κ) :
    Except Scheduler.Fault (State θ κ ω ρ χ) :=
  match state.runQueue with
  | [] =>
      (Scheduler.step roster state.sys (.block core)).map fun sys =>
        { state with sys, phase := .marked }
  | _ :: _ => .ok { state with phase := .top, holder := none }

/-- A call of `push_task` unlocks the queue and returns. -/
def endPush (state : State θ κ ω ρ χ) (call : ρ) : State θ κ ω ρ χ :=
  { state with holder := none, pushes := Function.update state.pushes call .idle }

/-- What `push_task` does after the push. -/
def look (roster : Roster θ κ) (state : State θ κ ω ρ χ) (call : ρ) :
    Except Scheduler.Fault (State θ κ ω ρ χ) :=
  match state.executorThread with
  | none => .ok (state.endPush call)
  | some thread =>
      if state.sys.state thread = .blocked then
        (Scheduler.step roster state.sys (.wake thread)).map fun sys =>
          { state with sys, pushes := Function.update state.pushes call .waking }
      else
        .ok (state.endPush call)

/-- `wake_thread` and the end of `push_task`. -/
def wake (roster : Roster θ κ) (state : State θ κ ω ρ χ) (call : ρ) (core : κ) :
    Except Scheduler.Fault (State θ κ ω ρ χ) :=
  match state.executorThread with
  | none => .error .disabled
  | some thread =>
      (Scheduler.step roster state.sys (.wakeThread core thread)).map fun sys =>
        { state with sys }.endPush call

end State

def step (roster : Roster θ κ) (executor : θ) (state : State θ κ ω ρ χ) :
    Input θ κ ω ρ χ → Except Scheduler.Fault (State θ κ ω ρ χ)
  | .other event =>
      -- Interrupts are off while the executor holds the lock.
      if ∀ core ∈ scheduling event,
          ¬ (state.sys.currentThread core = executor ∧ state.phase.locks = true) then
        (Scheduler.step roster state.sys event).map fun sys => { state with sys }
      else
        .error .disabled
  | .register core =>
      match state.phase with
      | .starting => if state.Runs executor core then .ok (state.register core)
          else .error .disabled
      | _ => .error .disabled
  | .pop core =>
      match state.phase, state.holder with
      | .top, none => if state.Runs executor core then .ok state.pop else .error .disabled
      | _, _ => .error .disabled
  | .finishPoll core =>
      match state.phase with
      | .polling _ =>
          if state.Runs executor core then .ok { state with phase := .top } else .error .disabled
      | _ => .error .disabled
  | .lockQueue core =>
      match state.phase, state.holder with
      | .emptied, none =>
          if state.Runs executor core then
            .ok { state with phase := .locked, holder := some .executor }
          else
            .error .disabled
      | _, _ => .error .disabled
  | .recheck core =>
      match state.phase with
      | .locked =>
          if state.Runs executor core then state.recheck roster core else .error .disabled
      | _ => .error .disabled
  | .unlock core =>
      match state.phase with
      | .marked =>
          if state.sys.currentThread core = executor then
            .ok { state with phase := .leaving, holder := none }
          else
            .error .disabled
      | _ => .error .disabled
  | .yield core =>
      match state.phase with
      | .leaving =>
          -- `drop(queue)` has restored the interrupts, so this may come after an interrupt's own.
          if state.sys.currentThread core = executor then
            (Scheduler.step roster state.sys (.schedule core)).map fun sys =>
              { state with sys, phase := .top }
          else
            .error .disabled
      | _ => .error .disabled
  | .push call task =>
      match state.pushes call, state.holder with
      | .idle, none =>
          .ok { state with
            runQueue := state.runQueue ++ [task]
            pushed := state.pushed ++ [task]
            holder := some (.push call)
            pushes := Function.update state.pushes call .pushed }
      | _, _ => .error .disabled
  | .look call =>
      match state.pushes call with
      | .pushed => state.look roster call
      | _ => .error .disabled
  | .wake call core =>
      match state.pushes call with
      | .waking => state.wake roster call core
      | _ => .error .disabled

/-- Nothing but its own empty queue blocks the executor. -/
def Unblocked (executor : θ) (state : State θ κ ω ρ χ) : Input θ κ ω ρ χ → Prop
  | .other event => ∀ core ∈ blocker event, state.sys.currentThread core ≠ executor
  | _ => True

def machine (roster : Roster θ κ) (executor : θ) :
    Machine (State θ κ ω ρ χ) (Input θ κ ω ρ χ) Scheduler.Fault where
  step := step roster executor
  permitted := Unblocked executor

/-- Before `Executor::run`. -/
structure Fresh (executor : θ) (state : State θ κ ω ρ χ) : Prop where
  not_blocked : state.sys.state executor ≠ .blocked
  executorThread_eq : state.executorThread = none
  runQueue_eq : state.runQueue = []
  holder_eq : state.holder = none
  phase_eq : state.phase = .starting
  pushes_eq : ∀ call, state.pushes call = .idle
  pushed_eq : state.pushed = []
  popped_eq : state.popped = []

/-- A step of `Executor::run` itself. -/
def Input.own : Input θ κ ω ρ χ → Prop
  | .register _ | .pop _ | .finishPoll _ | .lockQueue _ | .recheck _ | .unlock _ | .yield _ => True
  | _ => False

/-- The executor, once it is not blocked any more, gets on: it is given a core, it is given the
lock, and what it polls returns. -/
def ServesExecutor (roster : Roster θ κ) (executor : θ)
    (behavior : (machine (ω := ω) (ρ := ρ) (χ := χ) roster executor).Behavior) : Prop :=
  ∀ start, (∀ moment, start ≤ moment → (behavior.state moment).sys.state executor ≠ .blocked) →
    ∃ moment, start ≤ moment ∧ (behavior.input moment).own

/-- Every call of `push_task` returns. -/
def ServesPushes (roster : Roster θ κ) (executor : θ)
    (behavior : (machine (ω := ω) (ρ := ρ) (χ := χ) roster executor).Behavior) : Prop :=
  ∀ call start, (behavior.state start).pushes call ≠ .idle →
    ∃ moment, start ≤ moment ∧ (behavior.state moment).pushes call = .idle

/-- The executor does not sleep while there is work that no push is about to tell it of. -/
def NotAsleep (executor : θ) (state : State θ κ ω ρ χ) : Prop :=
  ¬ (state.sys.state executor = .blocked ∧ ¬ Wakeup.Queued state.sys executor ∧
    state.runQueue ≠ [] ∧ ∀ call, state.pushes call = .idle)

/-!
### What a step does
-/

section Steps

variable {roster : Roster θ κ} {executor : θ} {state next : State θ κ ω ρ χ}

/-- The outcomes of a step. -/
inductive Turn (roster : Roster θ κ) (executor : θ) (state : State θ κ ω ρ χ) :
    Input θ κ ω ρ χ → State θ κ ω ρ χ → Prop where
  | other {event : Event θ κ ω} {sys : System θ κ ω}
      (sys_eq : Scheduler.step roster state.sys event = .ok sys) :
      Turn roster executor state (.other event) { state with sys }
  | register {core : κ} (phase_eq : state.phase = .starting) (runs : state.Runs executor core) :
      Turn roster executor state (.register core) (state.register core)
  | popTask {core : κ} {task : χ} {rest : List χ} (phase_eq : state.phase = .top)
      (free : state.holder = none) (queue_eq : state.runQueue = task :: rest) :
      Turn roster executor state (.pop core)
        { state with runQueue := rest, popped := state.popped ++ [task], phase := .polling task }
  | popNone {core : κ} (phase_eq : state.phase = .top) (queue_eq : state.runQueue = []) :
      Turn roster executor state (.pop core) { state with phase := .emptied }
  | finishPoll {core : κ} {task : χ} (phase_eq : state.phase = .polling task) :
      Turn roster executor state (.finishPoll core) { state with phase := .top }
  | lockQueue {core : κ} (phase_eq : state.phase = .emptied) (free : state.holder = none) :
      Turn roster executor state (.lockQueue core)
        { state with phase := .locked, holder := some .executor }
  | mark {core : κ} {sys : System θ κ ω} (phase_eq : state.phase = .locked)
      (queue_eq : state.runQueue = []) :
      Turn roster executor state (.recheck core) { state with sys, phase := .marked }
  | back {core : κ} (phase_eq : state.phase = .locked) (queue_ne : state.runQueue ≠ []) :
      Turn roster executor state (.recheck core) { state with phase := .top, holder := none }
  | unlock {core : κ} (phase_eq : state.phase = .marked) :
      Turn roster executor state (.unlock core) { state with phase := .leaving, holder := none }
  | yield {core : κ} {sys : System θ κ ω} (phase_eq : state.phase = .leaving)
      (sys_eq : Scheduler.step roster state.sys (.schedule core) = .ok sys) :
      Turn roster executor state (.yield core) { state with sys, phase := .top }
  | push {call : ρ} {task : χ} (idle : state.pushes call = .idle) (free : state.holder = none) :
      Turn roster executor state (.push call task) { state with
        runQueue := state.runQueue ++ [task]
        pushed := state.pushed ++ [task]
        holder := some (.push call)
        pushes := Function.update state.pushes call .pushed }
  | lookAway {call : ρ} (busy : state.pushes call ≠ .idle)
      (awake : ∀ thread ∈ state.executorThread, state.sys.state thread ≠ .blocked) :
      Turn roster executor state (.look call) (state.endPush call)
  | lookAsleep {call : ρ} {thread : θ} {sys : System θ κ ω} (busy : state.pushes call ≠ .idle)
      (sys_eq : Scheduler.step roster state.sys (.wake thread) = .ok sys) :
      Turn roster executor state (.look call)
        { state with sys, pushes := Function.update state.pushes call .waking }
  | wake {call : ρ} {core : κ} {thread : θ} {sys : System θ κ ω} (busy : state.pushes call ≠ .idle)
      (thread_eq : state.executorThread = some thread)
      (sys_eq : Scheduler.step roster state.sys (.wakeThread core thread) = .ok sys) :
      Turn roster executor state (.wake call core) ({ state with sys }.endPush call)

theorem recheck_turn {core : κ} (phase_eq : state.phase = .locked)
    (recheck_eq : state.recheck roster core = .ok next) :
    Turn roster executor state (.recheck core) next := by
  rw [State.recheck] at recheck_eq
  split at recheck_eq
  next queue_eq =>
    obtain ⟨sys, _, rfl⟩ := map_eq_ok.mp recheck_eq
    exact .mark phase_eq queue_eq
  next task rest queue_eq =>
    cases recheck_eq
    exact .back phase_eq (by rw [queue_eq]; nofun)

theorem look_turn {call : ρ} (busy : state.pushes call ≠ .idle)
    (look_eq : state.look roster call = .ok next) :
    Turn roster executor state (.look call) next := by
  rw [State.look] at look_eq
  split at look_eq
  next unregistered =>
    cases look_eq
    exact .lookAway busy (by rw [unregistered]; nofun)
  next thread registered =>
    split at look_eq
    next =>
      obtain ⟨sys, sys_eq, rfl⟩ := map_eq_ok.mp look_eq
      exact .lookAsleep busy sys_eq
    next awake =>
      cases look_eq
      refine .lookAway busy fun other is_thread => ?_
      obtain rfl : thread = other := Option.some.inj (registered.symm.trans is_thread)
      exact awake

theorem wake_turn {call : ρ} {core : κ} (busy : state.pushes call ≠ .idle)
    (wake_eq : state.wake roster call core = .ok next) :
    Turn roster executor state (.wake call core) next := by
  rw [State.wake] at wake_eq
  split at wake_eq
  next => cases wake_eq
  next thread registered =>
    obtain ⟨sys, sys_eq, rfl⟩ := map_eq_ok.mp wake_eq
    exact .wake busy registered sys_eq

theorem turn_of_step {input : Input θ κ ω ρ χ}
    (step_eq : step roster executor state input = .ok next) :
    Turn roster executor state input next := by
  cases input with
  | other event =>
      obtain ⟨_, moved_eq⟩ := guard_eq_ok.mp step_eq
      obtain ⟨sys, sys_eq, rfl⟩ := map_eq_ok.mp moved_eq
      exact .other sys_eq
  | register core =>
      rw [step] at step_eq
      split at step_eq
      next phase_eq =>
        obtain ⟨runs, ⟨⟩⟩ := guard_eq_ok.mp step_eq
        exact .register phase_eq runs
      next => cases step_eq
  | pop core =>
      rw [step] at step_eq
      split at step_eq
      next phase_eq free =>
        obtain ⟨_, ⟨⟩⟩ := guard_eq_ok.mp step_eq
        rw [State.pop]
        split
        next queue_eq => exact .popNone phase_eq queue_eq
        next task rest queue_eq => exact .popTask phase_eq free queue_eq
      next => cases step_eq
  | finishPoll core =>
      rw [step] at step_eq
      split at step_eq
      next task phase_eq =>
        obtain ⟨_, ⟨⟩⟩ := guard_eq_ok.mp step_eq
        exact .finishPoll phase_eq
      next => cases step_eq
  | lockQueue core =>
      rw [step] at step_eq
      split at step_eq
      next phase_eq free =>
        obtain ⟨_, ⟨⟩⟩ := guard_eq_ok.mp step_eq
        exact .lockQueue phase_eq free
      next => cases step_eq
  | recheck core =>
      rw [step] at step_eq
      split at step_eq
      next phase_eq =>
        obtain ⟨_, recheck_eq⟩ := guard_eq_ok.mp step_eq
        exact recheck_turn phase_eq recheck_eq
      next => cases step_eq
  | unlock core =>
      rw [step] at step_eq
      split at step_eq
      next phase_eq =>
        obtain ⟨_, ⟨⟩⟩ := guard_eq_ok.mp step_eq
        exact .unlock phase_eq
      next => cases step_eq
  | yield core =>
      rw [step] at step_eq
      split at step_eq
      next phase_eq =>
        obtain ⟨_, moved_eq⟩ := guard_eq_ok.mp step_eq
        obtain ⟨sys, sys_eq, rfl⟩ := map_eq_ok.mp moved_eq
        exact .yield phase_eq sys_eq
      next => cases step_eq
  | push call task =>
      rw [step] at step_eq
      split at step_eq
      next idle free =>
        cases step_eq
        exact .push idle free
      next => cases step_eq
  | look call =>
      rw [step] at step_eq
      split at step_eq
      next busy => exact look_turn (by rw [busy]; nofun) step_eq
      next => cases step_eq
  | wake call core =>
      rw [step] at step_eq
      split at step_eq
      next busy => exact wake_turn (by rw [busy]; nofun) step_eq
      next => cases step_eq

end Steps

/-!
### Safety
-/

section Safety

variable {roster : Roster θ κ} {executor : θ} {state next : State θ κ ω ρ χ}

structure Sound (executor : θ) (state : State θ κ ω ρ χ) : Prop where
  told : state.sys.state executor = .blocked →
    state.runQueue = [] ∨ ∃ call, state.pushes call ≠ .idle
  registered : ∀ thread ∈ state.executorThread, thread = executor
  unregistered : state.executorThread = none →
    state.sys.state executor ≠ .blocked ∧ state.phase = .starting
  push_holds : ∀ call, state.pushes call ≠ .idle → state.holder = some (.push call)
  executor_holds : state.phase.locks = true → state.holder = some .executor
  conserved : state.pushed = state.popped ++ state.runQueue

namespace Sound

section Parts

omit [DecidableEq θ] [DecidableEq κ] [DecidableEq ω] [DecidableEq ρ]

theorem idle_of_free (sound : Sound executor state) (free : state.holder = none) (call : ρ) :
    state.pushes call = .idle := by
  by_contra busy
  have holds := sound.push_holds call busy
  rw [free] at holds
  cases holds

theorem idle_of_locks (sound : Sound executor state) (locks : state.phase.locks = true)
    (call : ρ) : state.pushes call = .idle := by
  by_contra busy
  have holds := sound.push_holds call busy
  rw [sound.executor_holds locks] at holds
  cases holds

theorem not_locks (sound : Sound executor state) {call : ρ} (busy : state.pushes call ≠ .idle) :
    state.phase.locks = false := by
  by_contra locks
  exact busy (sound.idle_of_locks (eq_true_of_ne_false locks) call)

theorem only_push (sound : Sound executor state) {call other : ρ}
    (busy : state.pushes call ≠ .idle) (other_busy : state.pushes other ≠ .idle) :
    other = call := by
  have holds := sound.push_holds call busy
  rw [sound.push_holds other other_busy] at holds
  cases holds
  rfl

/-- An executor that has registered is past its start. -/
theorem thread_ne_none (sound : Sound executor state) (started : state.phase ≠ .starting) :
    state.executorThread ≠ none :=
  fun unregistered => started (sound.unregistered unregistered).2

/-- The executor goes from one place of its loop to another. -/
theorem advance (sound : Sound executor state) {phase : Phase χ} (started : state.phase ≠ .starting)
    (unlocks : phase.locks = false) : Sound executor { state with phase } where
  told := sound.told
  registered := sound.registered
  unregistered none_eq := absurd none_eq (sound.thread_ne_none started)
  push_holds := sound.push_holds
  executor_holds locks := absurd locks (by rw [unlocks]; nofun)
  conserved := sound.conserved

/-- The scheduler moves without blocking the executor. -/
theorem move (sound : Sound executor state) {sys : System θ κ ω}
    (kept : sys.state executor = .blocked → state.sys.state executor = .blocked) :
    Sound executor { state with sys } where
  told blocked := sound.told (kept blocked)
  registered := sound.registered
  unregistered none_eq :=
    ⟨fun blocked => (sound.unregistered none_eq).1 (kept blocked),
      (sound.unregistered none_eq).2⟩
  push_holds := sound.push_holds
  executor_holds := sound.executor_holds
  conserved := sound.conserved

/-- A call of `push_task` ends with the executor awake. -/
theorem endPush [DecidableEq ρ] (sound : Sound executor state) {call : ρ}
    (busy : state.pushes call ≠ .idle) (awake : state.sys.state executor ≠ .blocked) :
    Sound executor (state.endPush call) where
  told blocked := absurd blocked awake
  registered := sound.registered
  unregistered := sound.unregistered
  push_holds other other_busy := by
    rcases eq_or_ne other call with rfl | apart
    · exact absurd (Function.update_self ..) other_busy
    · have was_busy : state.pushes other ≠ .idle := by
        simpa [State.endPush, apart] using other_busy
      exact absurd (sound.only_push busy was_busy) apart
  executor_holds locks := by
    have holds := sound.not_locks busy
    rw [show state.phase.locks = true from locks] at holds
    cases holds
  conserved := sound.conserved

theorem awake_of_look (sound : Sound executor state)
    (awake : ∀ thread ∈ state.executorThread, state.sys.state thread ≠ .blocked) :
    state.sys.state executor ≠ .blocked := by
  cases thread_eq : state.executorThread with
  | none => exact (sound.unregistered thread_eq).1
  | some thread =>
      obtain rfl := sound.registered thread thread_eq
      exact awake thread thread_eq

theorem register (sound : Sound executor state) {core : κ} (runs : state.Runs executor core) :
    Sound executor (state.register core) where
  told := sound.told
  registered _ is_thread := (Option.some.inj is_thread).symm.trans runs.1
  unregistered := nofun
  push_holds := sound.push_holds
  executor_holds := nofun
  conserved := sound.conserved

/-- A task that is taken was told of, for nobody holds the lock. -/
theorem popTask (sound : Sound executor state) {task : χ} {rest : List χ}
    (started : state.phase ≠ .starting) (free : state.holder = none)
    (queue_eq : state.runQueue = task :: rest) :
    Sound executor { state with
      runQueue := rest
      popped := state.popped ++ [task]
      phase := .polling task } where
  told blocked := by
    obtain empty | ⟨call, busy⟩ := sound.told blocked
    · rw [queue_eq] at empty
      cases empty
    · exact absurd (sound.idle_of_free free call) busy
  registered := sound.registered
  unregistered none_eq := absurd none_eq (sound.thread_ne_none started)
  push_holds := sound.push_holds
  executor_holds := nofun
  conserved := by
    rw [sound.conserved, queue_eq, List.append_assoc]
    rfl

theorem lockQueue (sound : Sound executor state) (started : state.phase ≠ .starting)
    (free : state.holder = none) :
    Sound executor { state with phase := .locked, holder := some .executor } where
  told := sound.told
  registered := sound.registered
  unregistered none_eq := absurd none_eq (sound.thread_ne_none started)
  push_holds call busy := absurd (sound.idle_of_free free call) busy
  executor_holds _ := rfl
  conserved := sound.conserved

/-- The executor may be blocked now, and there is no task. -/
theorem mark (sound : Sound executor state) {sys : System θ κ ω} (phase_eq : state.phase = .locked)
    (queue_eq : state.runQueue = []) : Sound executor { state with sys, phase := .marked } where
  told _ := .inl queue_eq
  registered := sound.registered
  unregistered none_eq := absurd none_eq (sound.thread_ne_none (by rw [phase_eq]; nofun))
  push_holds := sound.push_holds
  executor_holds _ := sound.executor_holds (by rw [phase_eq]; rfl)
  conserved := sound.conserved

/-- The executor gives the lock of the queue back. -/
theorem leaveQueue (sound : Sound executor state) {phase : Phase χ}
    (locks : state.phase.locks = true) (unlocks : phase.locks = false) :
    Sound executor { state with phase, holder := none } where
  told := sound.told
  registered := sound.registered
  unregistered none_eq := by
    have starting := (sound.unregistered none_eq).2
    rw [starting] at locks
    cases locks
  push_holds call busy := absurd (sound.idle_of_locks locks call) busy
  executor_holds still := absurd still (by rw [unlocks]; nofun)
  conserved := sound.conserved

/-- From here on the call is about to tell the executor. -/
theorem push [DecidableEq ρ] (sound : Sound executor state) {call : ρ} {task : χ}
    (free : state.holder = none) : Sound executor { state with
      runQueue := state.runQueue ++ [task]
      pushed := state.pushed ++ [task]
      holder := some (.push call)
      pushes := Function.update state.pushes call .pushed } where
  told _ := .inr ⟨call, by simp⟩
  registered := sound.registered
  unregistered := sound.unregistered
  push_holds other busy := by
    rcases eq_or_ne other call with rfl | apart
    · rfl
    · have was_busy : state.pushes other ≠ .idle := by simpa [apart] using busy
      exact absurd (sound.idle_of_free free other) was_busy
  executor_holds locks := by
    have holds := sound.executor_holds locks
    rw [free] at holds
    cases holds
  conserved := by rw [sound.conserved, List.append_assoc]

/-- A call that has seen the executor blocked goes on to wake it. -/
theorem goWake [DecidableEq ρ] (sound : Sound executor state) {call : ρ}
    (busy : state.pushes call ≠ .idle) :
    Sound executor { state with pushes := Function.update state.pushes call .waking } where
  told _ := .inr ⟨call, by simp⟩
  registered := sound.registered
  unregistered := sound.unregistered
  push_holds other other_busy := by
    rcases eq_or_ne other call with rfl | apart
    · exact sound.push_holds other busy
    · exact sound.push_holds other (by simpa [apart] using other_busy)
  executor_holds := sound.executor_holds
  conserved := sound.conserved

end Parts

theorem turn {input : Input θ κ ω ρ χ} (sound : Sound executor state)
    (unblocked : Unblocked executor state input) (turn : Turn roster executor state input next) :
    Sound executor next := by
  cases turn with
  | other sys_eq =>
      apply sound.move
      intro blocked
      rcases blocked_of_step sys_eq blocked with was | ⟨core, marked, current⟩
      · exact was
      · exact absurd current (unblocked core marked)
  | register phase_eq runs => exact sound.register runs
  | popTask phase_eq free queue_eq =>
      exact sound.popTask (by rw [phase_eq]; nofun) free queue_eq
  | popNone phase_eq queue_eq => exact sound.advance (by rw [phase_eq]; nofun) rfl
  | finishPoll phase_eq => exact sound.advance (by rw [phase_eq]; nofun) rfl
  | lockQueue phase_eq free => exact sound.lockQueue (by rw [phase_eq]; nofun) free
  | mark phase_eq queue_eq => exact sound.mark phase_eq queue_eq
  | back phase_eq queue_ne => exact sound.leaveQueue (by rw [phase_eq]; rfl) rfl
  | unlock phase_eq => exact sound.leaveQueue (by rw [phase_eq]; rfl) rfl
  | yield phase_eq sys_eq =>
      have moved : Sound executor { state with phase := .top } :=
        sound.advance (by rw [phase_eq]; nofun) rfl
      apply moved.move
      intro blocked
      rcases blocked_of_step sys_eq blocked with was | ⟨core, ⟨⟩, _⟩
      exact was
  | push idle free => exact sound.push free
  | lookAway busy awake => exact sound.endPush busy (sound.awake_of_look awake)
  | @lookAsleep call thread sys busy sys_eq =>
      have moved : Sound executor { state with sys } := by
        apply sound.move
        intro blocked
        rcases blocked_of_step sys_eq blocked with was | ⟨core, ⟨⟩, _⟩
        exact was
      exact moved.goWake busy
  | @wake call core thread sys busy thread_eq sys_eq =>
      obtain rfl := sound.registered thread thread_eq
      have awake : sys.state thread ≠ .blocked := by rw [wakeThread_ready sys_eq]; nofun
      have moved : Sound thread { state with sys } :=
        sound.move fun blocked => absurd blocked awake
      exact moved.endPush busy awake

omit [DecidableEq θ] [DecidableEq κ] [DecidableEq ω] [DecidableEq ρ] in
theorem notAsleep (sound : Sound executor state) : NotAsleep executor state := by
  rintro ⟨blocked, _, work, all_idle⟩
  obtain empty | ⟨call, busy⟩ := sound.told blocked
  · exact work empty
  · exact busy (all_idle call)

end Sound

omit [DecidableEq θ] [DecidableEq κ] [DecidableEq ω] [DecidableEq ρ] in
theorem Fresh.sound (fresh : Fresh executor state) : Sound executor state where
  told blocked := absurd blocked fresh.not_blocked
  registered := by rw [fresh.executorThread_eq]; nofun
  unregistered _ := ⟨fresh.not_blocked, fresh.phase_eq⟩
  push_holds call busy := absurd (fresh.pushes_eq call) busy
  executor_holds := by rw [fresh.phase_eq]; nofun
  conserved := by rw [fresh.pushed_eq, fresh.popped_eq, fresh.runQueue_eq]; rfl

theorem sound_step (roster : Roster θ κ) (executor : θ) (state : State θ κ ω ρ χ)
    (input : Input θ κ ω ρ χ) (next : State θ κ ω ρ χ) (sound : Sound executor state)
    (permits : (machine roster executor).permitted state input)
    (step_eq : (machine roster executor).step state input = .ok next) : Sound executor next :=
  sound.turn permits (turn_of_step step_eq)

end Safety

/-!
### Progress
-/

section Progress

variable {roster : Roster θ κ} {executor : θ} {state next : State θ κ ω ρ χ}
  {input : Input θ κ ω ρ χ}

/-- What was pushed stays pushed. -/
theorem pushed_extends (turn : Turn roster executor state input next) :
    state.pushed <+: next.pushed := by
  cases turn with
  | push idle free => exact List.prefix_append ..
  | _ => exact List.prefix_rfl

/-- While there is work, an executor that is awake stays awake. -/
theorem awake_of_turn (unblocked : Unblocked executor state input)
    (turn : Turn roster executor state input next) (work : state.runQueue ≠ [])
    (awake : state.sys.state executor ≠ .blocked) : next.sys.state executor ≠ .blocked := by
  intro blocked
  cases turn with
  | other sys_eq =>
      rcases blocked_of_step sys_eq blocked with was | ⟨core, marked, current⟩
      · exact awake was
      · exact unblocked core marked current
  | mark phase_eq queue_eq => exact work queue_eq
  | yield phase_eq sys_eq =>
      rcases blocked_of_step sys_eq blocked with was | ⟨core, ⟨⟩, _⟩
      exact awake was
  | lookAsleep busy sys_eq =>
      rcases blocked_of_step sys_eq blocked with was | ⟨core, ⟨⟩, _⟩
      exact awake was
  | wake busy thread_eq sys_eq =>
      rcases blocked_of_step sys_eq blocked with was | ⟨core, ⟨⟩, _⟩
      exact awake was
  | _ => exact awake blocked

/-- A call of `push_task` does not end before the executor is awake. -/
theorem busy_of_turn (sound : Sound executor state) (turn : Turn roster executor state input next)
    (blocked : next.sys.state executor = .blocked) {call : ρ} (busy : state.pushes call ≠ .idle) :
    next.pushes call ≠ .idle := by
  cases turn with
  | push idle free => exact absurd (sound.idle_of_free free call) busy
  | lookAway other_busy awake => exact absurd blocked (sound.awake_of_look awake)
  | @lookAsleep other thread sys other_busy sys_eq =>
      obtain rfl := sound.only_push busy other_busy
      simp
  | @wake other core thread sys other_busy thread_eq sys_eq =>
      obtain rfl := sound.registered thread thread_eq
      cases (wakeThread_ready sys_eq).symm.trans blocked
  | _ => exact busy

/-- How many steps of its own the executor is away from the queue. -/
def Phase.rank : Phase χ → Nat
  | .top => 0
  | .starting | .polling _ | .locked | .leaving => 1
  | .emptied | .marked => 2

/-- How many steps of its own the executor is away from popping an entry. -/
def State.rank (state : State θ κ ω ρ χ) (index : Nat) : Nat :=
  3 * (index + 1 - state.popped.length) + state.phase.rank

theorem rank_lt (turn : Turn roster executor state input next) (own : input.own)
    (work : state.runQueue ≠ []) {index : Nat} (waits : state.popped.length ≤ index) :
    next.rank index < state.rank index := by
  cases turn with
  | popTask phase_eq free queue_eq =>
      simp only [State.rank, phase_eq, Phase.rank, List.length_append, List.length_singleton]
      omega
  | popNone phase_eq queue_eq => exact absurd queue_eq work
  | mark phase_eq queue_eq => exact absurd queue_eq work
  | other | push | lookAway | lookAsleep | wake => exact own.elim
  | _ phase_eq => simp [State.rank, State.register, phase_eq, Phase.rank]

theorem rank_eq (turn : Turn roster executor state input next) (other : ¬ input.own)
    (index : Nat) : next.rank index = state.rank index := by
  cases turn with
  | other | push | lookAway | lookAsleep | wake => rfl
  | _ => exact absurd trivial other

end Progress

section Behaviors

variable {roster : Roster θ κ} {executor : θ}
  {behavior : (machine (ω := ω) (ρ := ρ) (χ := χ) roster executor).Behavior}

theorem turn_at (behavior : (machine (ω := ω) (ρ := ρ) (χ := χ) roster executor).Behavior)
    (moment : Nat) :
    Turn roster executor (behavior.state moment) (behavior.input moment)
      (behavior.state (moment + 1)) :=
  turn_of_step (behavior.steps moment)

/-- Where there is work for ever, the executor is awake at last. -/
theorem wakes_for_work (sound : ∀ moment, Sound executor (behavior.state moment))
    (pushes : ServesPushes roster executor behavior) {start : Nat}
    (work : ∀ moment, start ≤ moment → (behavior.state moment).runQueue ≠ []) :
    ∃ awake, start ≤ awake ∧
      ∀ moment, awake ≤ moment → (behavior.state moment).sys.state executor ≠ .blocked := by
  by_contra never
  -- A single moment at which it is awake would do, so it sleeps all the time.
  have asleep : ∀ moment, start ≤ moment →
      (behavior.state moment).sys.state executor = .blocked := by
    intro moment le
    by_contra awake
    refine never ⟨moment, le, fun later from_moment => ?_⟩
    exact behavior.stays (fun state => state.sys.state executor ≠ .blocked)
      (fun later from_moment is_awake =>
      awake_of_turn (behavior.permits later) (turn_at behavior later)
        (work later (Nat.le_trans le from_moment)) is_awake) awake from_moment
  obtain empty | ⟨call, busy⟩ := (sound start).told (asleep start (Nat.le_refl _))
  · exact work start (Nat.le_refl _) empty
  · obtain ⟨moment, le, idle⟩ := pushes call start busy
    have still_busy : (behavior.state moment).pushes call ≠ .idle :=
      behavior.stays (fun state => state.pushes call ≠ .idle) (fun later from_start is_busy =>
        busy_of_turn (sound later) (turn_at behavior later)
          (asleep (later + 1) (Nat.le_succ_of_le from_start)) is_busy) busy le
    exact still_busy idle

theorem pushed_grows
    (behavior : (machine (ω := ω) (ρ := ρ) (χ := χ) roster executor).Behavior)
    {start moment : Nat} (le : start ≤ moment) :
    (behavior.state start).pushed <+: (behavior.state moment).pushed :=
  behavior.stays (fun state => (behavior.state start).pushed <+: state.pushed)
    (fun later _ grown => grown.trans (pushed_extends (turn_at behavior later))) List.prefix_rfl le

theorem pops_every_push (sound : ∀ moment, Sound executor (behavior.state moment))
    (serves : ServesExecutor roster executor behavior)
    (pushes : ServesPushes roster executor behavior) {start index : Nat} {task : χ}
    (pushed : (behavior.state start).pushed[index]? = some task) :
    ∃ moment, start ≤ moment ∧ (behavior.state moment).popped[index]? = some task := by
  have bound : index < (behavior.state start).pushed.length :=
    (List.getElem?_eq_some_iff.mp pushed).1
  -- It is enough that so many entries are popped.
  suffices reached : ∃ moment, start ≤ moment ∧ index < (behavior.state moment).popped.length by
    obtain ⟨moment, le, popped⟩ := reached
    refine ⟨moment, le, ?_⟩
    obtain ⟨more, grown⟩ := pushed_grows behavior le
    rw [← pushed, ← List.getElem?_append_left bound, grown, (sound moment).conserved,
      List.getElem?_append_left popped]
  by_contra never
  have waits : ∀ moment, start ≤ moment → (behavior.state moment).popped.length ≤ index :=
    fun moment le => Nat.le_of_not_lt fun popped => never ⟨moment, le, popped⟩
  have work : ∀ moment, start ≤ moment → (behavior.state moment).runQueue ≠ [] := by
    intro moment le empty
    have grown := (pushed_grows behavior le).length_le
    rw [(sound moment).conserved, empty, List.append_nil] at grown
    have := waits moment le
    omega
  obtain ⟨awake, le, stays_awake⟩ := wakes_for_work sound pushes work
  have recurs : ∀ moment, awake ≤ moment → ∃ later, moment ≤ later ∧ (behavior.input later).own :=
    fun moment from_awake =>
      serves moment fun later from_moment => stays_awake later (Nat.le_trans from_awake from_moment)
  have falls : ∀ moment, awake ≤ moment → (behavior.input moment).own →
      (behavior.state (moment + 1)).rank index < (behavior.state moment).rank index :=
    fun moment from_awake own => rank_lt (turn_at behavior moment) own
      (work moment (Nat.le_trans le from_awake)) (waits moment (Nat.le_trans le from_awake))
  obtain ⟨_, _, impossible⟩ := eventually_of_recurring
    (fun moment => (behavior.state moment).rank index) (fun _ => False) recurs
    (fun moment from_awake _ => by
      by_cases own : (behavior.input moment).own
      · exact Nat.le_of_lt (falls moment from_awake own)
      · exact Nat.le_of_eq (rank_eq (turn_at behavior moment) own index))
    (fun moment from_awake _ own => falls moment from_awake own)
  exact impossible

/-- Whatever the interleaving, the executor does not sleep while there is work that no push is
about to tell it of, the tasks popped so far are those pushed first, and every task that was pushed
is popped. -/
theorem executor_never_sleeps_on_work (roster : Roster θ κ) {state : State θ κ ω ρ χ}
    (fresh : Fresh executor state) :
    (∀ inputs final, (machine roster executor).Permits state inputs →
      (machine roster executor).run state inputs = .ok final →
        NotAsleep executor final ∧ final.pushed = final.popped ++ final.runQueue) ∧
    ∀ behavior : (machine roster executor).Behavior, behavior.state 0 = state →
      ServesExecutor roster executor behavior → ServesPushes roster executor behavior →
        ∀ (start index : Nat) (task : χ), (behavior.state start).pushed[index]? = some task →
          ∃ moment, start ≤ moment ∧ (behavior.state moment).popped[index]? = some task := by
  constructor
  · intro inputs final permits run_eq
    have sound : Sound executor final :=
      (machine roster executor).run_keeps (sound_step roster executor) fresh.sound permits run_eq
    exact ⟨sound.notAsleep, sound.conserved⟩
  · intro behavior starts serves pushes start index task pushed
    have sound : ∀ moment, Sound executor (behavior.state moment) :=
      behavior.keeps (sound_step roster executor) (by rw [starts]; exact fresh.sound)
    exact pops_every_push sound serves pushes pushed

def soloStart : State Nat Unit Unit Unit Nat :=
  ⟨Scheduler.soloBoot, none, [], none, .starting, fun _ => .idle, [], []⟩

theorem soloStart_fresh : Fresh 2 soloStart :=
  ⟨nofun, rfl, rfl, rfl, rfl, fun _ => rfl, rfl, rfl⟩

/-- A task is pushed before the executor starts; it is polled once, and nothing else happens. -/
def soloInput : Nat → Input Nat Unit Unit Unit Nat
  | 0 => .push () 7
  | 1 => .look ()
  | 2 => .register ()
  | 3 => .pop ()
  | 4 => .finishPoll ()
  | 5 => .pop ()
  | 6 => .lockQueue ()
  | 7 => .recheck ()
  | 8 => .unlock ()
  | _ => .other (.takeMail ())

def soloAt : Nat → State Nat Unit Unit Unit Nat
  | 0 => soloStart
  | moment + 1 =>
      match step Scheduler.soloRoster 2 (soloAt moment) (soloInput moment) with
      | .ok next => next
      | .error _ => soloAt moment

theorem soloAt_settled (more : Nat) : soloAt (more + 9) = soloAt 9 := by
  induction more with
  | zero => rfl
  | succ more ih =>
      rw [Nat.succ_add, soloAt, ih]
      rfl

theorem soloAt_step (moment : Nat) :
    step Scheduler.soloRoster 2 (soloAt moment) (soloInput moment) = .ok (soloAt (moment + 1)) := by
  match moment with
  | 0 | 1 | 2 | 3 | 4 | 5 | 6 | 7 | 8 => rfl
  | more + 9 =>
      rw [soloAt_settled more, Nat.add_right_comm, soloAt_settled (more + 1)]
      rfl

def soloBehavior :
    (machine (ω := Unit) (ρ := Unit) (χ := Nat) Scheduler.soloRoster 2).Behavior where
  state := soloAt
  input := soloInput
  permits moment := by
    match moment with
    | 0 | 1 | 2 | 3 | 4 | 5 | 6 | 7 | 8 => trivial
    | more + 9 => nofun
  steps := soloAt_step

theorem soloBehavior_asleep (more : Nat) :
    (soloBehavior.state (more + 9)).sys.state 2 = .blocked ∧
      ∀ call, (soloBehavior.state (more + 9)).pushes call = .idle := by
  rw [show soloBehavior.state (more + 9) = soloAt 9 from soloAt_settled more]
  exact ⟨rfl, fun _ => rfl⟩

theorem executor_never_sleeps_on_work_solo :
    (soloBehavior.state 1).pushed[0]? = some 7 ∧
      (∃ moment, 1 ≤ moment ∧ (soloBehavior.state moment).popped[0]? = some 7) ∧
      ∃ final, (machine Scheduler.soloRoster 2).run soloStart [.push () 7, .look ()] = .ok final ∧
        NotAsleep 2 final := by
  obtain ⟨safe, live⟩ := executor_never_sleeps_on_work Scheduler.soloRoster soloStart_fresh
  refine ⟨rfl, live soloBehavior rfl ?_ ?_ 1 0 7 rfl, _, rfl,
    (safe [.push () 7, .look ()] _ ?_ rfl).1⟩
  · intro start awake
    exact absurd (soloBehavior_asleep start).1 (awake (start + 9) (Nat.le_add_right ..))
  · intro call start _
    exact ⟨start + 9, Nat.le_add_right .., (soloBehavior_asleep start).2 call⟩
  · exact (machine _ _).permits_of_mem _ fun input mem state => by
      rcases List.mem_cons.mp mem with rfl | mem
      · trivial
      · cases List.mem_singleton.mp mem
        trivial

end Behaviors

end Executor
end Vespertine
