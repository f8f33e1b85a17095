import Vespertine.Thread.Scheduler

/-!
# Context switches

`schedule` chooses the next thread, makes it current, and only then takes the read lock on the
address space of its process, to load the page tables.  If a writer holds that lock, `RwLock::read`
blocks the current thread, which is the next thread by now, and calls `schedule` again on the stack
of the previous thread.

A stack pointer stands for what is stored on the stack there: whose stack it is, and which calls of
`schedule` on it have not returned.
-/

namespace Vespertine
namespace ContextSwitch

open Scheduler

/-- A call of `schedule` that has chosen its next thread and has not switched to it. -/
structure Call (θ : Type) where
  prev : θ
  next : θ
  /-- The context switches that were made since this call began. -/
  switches : Nat

structure Context (θ : Type) where
  owner : θ
  /-- The unfinished calls of `schedule`, innermost first. -/
  calls : List (Call θ)
  position : Nat

/-- One execution of `switch_threads`. -/
structure Switch (θ : Type) where
  call : Call θ
  /-- The stack pointer that went into the control block of the previous thread. -/
  stored : Context θ
  resumed : Context θ
  /-- The stack pointer at which the stack of the next thread was left last. -/
  lastOut : Context θ

/-- The words of an `RwLock`. -/
structure RwLockState where
  writer : Bool
  readers : Nat
  writersWaiting : Nat

inductive LockOp where
  | readLock
  | readUnlock
  | writeLock
  | writeUnlock
  | beginWaiting
  | endWaiting

/-- What the code around the scheduler does to a lock. -/
def RwLockState.apply (lock : RwLockState) : LockOp → Except Fault RwLockState
  | .readLock =>
      if lock.writer = false ∧ lock.writersWaiting = 0 then
        .ok { lock with readers := lock.readers + 1 }
      else
        .error .disabled
  | .readUnlock =>
      if 0 < lock.readers then .ok { lock with readers := lock.readers - 1 } else .error .disabled
  | .writeLock =>
      if lock.writer = false ∧ lock.readers = 0 then
        .ok { lock with writer := true }
      else
        .error .disabled
  | .writeUnlock =>
      if lock.writer = true then
        .ok { lock with writer := false, readers := 0 }
      else
        .error .disabled
  | .beginWaiting => .ok { lock with writersWaiting := lock.writersWaiting + 1 }
  | .endWaiting =>
      if 0 < lock.writersWaiting then
        .ok { lock with writersWaiting := lock.writersWaiting - 1 }
      else
        .error .disabled

structure State (θ κ ω π : Type) where
  sys : System θ κ ω
  process : θ → π
  /-- The lock on the address space of a process. -/
  vmm : π → RwLockState
  stackPtr : θ → Context θ
  /-- The stack on which a core executes. -/
  cpu : κ → Context θ
  /-- The last stack pointer at which a stack was left. -/
  lastOut : θ → Context θ
  /-- The context switches so far. -/
  switches : List (Switch θ)
  /-- `schedule` was called while a call of it was unfinished on the same stack. -/
  reentered : Bool

inductive Input (θ κ ω π : Type) where
  /-- An event of the scheduler that switches no context. -/
  | other (event : Event θ κ ω)
  | spawn (thread : θ) (core : κ) (priority : Nat) (process : π) (stackPtr : Nat)
  | initTimerDaemon (core : κ) (stackPtr : Nat)
  | lock (process : π) (op : LockOp)
  /-- `schedule` up to its use of the address space lock, called with this stack pointer. -/
  | schedule (core : κ) (stackPtr : Nat)
  /-- One turn of the loop of `RwLock::read`, and the rest of `schedule` if it gets the lock. -/
  | read (core : κ) (queue : ω)

variable {θ κ ω π : Type} [DecidableEq θ] [DecidableEq κ] [DecidableEq ω] [DecidableEq π]

/-- A new stack holds a context of its own thread. -/
def State.initStack (state : State θ κ ω π) (thread : θ) (position : Nat) : State θ κ ω π :=
  { state with
    stackPtr := Function.update state.stackPtr thread ⟨thread, [], position⟩
    lastOut := Function.update state.lastOut thread ⟨thread, [], position⟩ }

/-- `switch_threads_avx` and `switch_threads_legacy`, called with `rest` below on the stack. -/
def switchThreads (state : State θ κ ω π) (core : κ) (call : Call θ) (rest : List (Call θ)) :
    State θ κ ω π :=
  let outer := rest.map fun call => { call with switches := call.switches + 1 }
  let stored := { state.cpu core with calls := outer }
  let lastOut := Function.update state.lastOut stored.owner stored
  let resumed := state.stackPtr call.next
  { state with
    stackPtr := Function.update state.stackPtr call.prev stored
    cpu := Function.update state.cpu core resumed
    lastOut
    switches := state.switches ++ [⟨call, stored, resumed, lastOut call.next⟩] }

/-- `SchedulerState::schedule` once it has chosen: return, switch, or look at the page tables. -/
def afterChoice (state : State θ κ ω π) (core : κ) (prev next : θ) : State θ κ ω π :=
  if prev = next then
    state
  else if state.process prev = state.process next then
    switchThreads state core ⟨prev, next, 0⟩ (state.cpu core).calls
  else
    { state with
      cpu := Function.update state.cpu core
        { state.cpu core with calls := ⟨prev, next, 0⟩ :: (state.cpu core).calls } }

/-- Mark that `schedule` was called, and with which stack pointer. -/
def State.enter (state : State θ κ ω π) (core : κ) (position : Nat) : State θ κ ω π :=
  { state with
    cpu := Function.update state.cpu core { state.cpu core with position }
    reentered := state.reentered || !(state.cpu core).calls.isEmpty }

/-- The events that are inputs of their own here. -/
def touchesStacks : Event θ κ ω → Bool
  | .spawn .. | .initTimerDaemon _ | .schedule _ | .reenter .. => true
  | _ => false

def step (roster : Roster θ κ) (state : State θ κ ω π) :
    Input θ κ ω π → Except Fault (State θ κ ω π)
  | .other event =>
      -- The current thread of a core inside `schedule` does nothing else.
      if touchesStacks event = false ∧ ∀ core ∈ actor event, (state.cpu core).calls = [] then
        (Scheduler.step roster state.sys event).map fun sys => { state with sys }
      else
        .error .disabled
  | .spawn thread core priority process position =>
      (Scheduler.step roster state.sys (.spawn thread core priority)).map fun sys =>
        { state with sys, process := Function.update state.process thread process }.initStack thread
          position
  | .initTimerDaemon core position =>
      (Scheduler.step roster state.sys (.initTimerDaemon core)).map fun sys =>
        { state with sys }.initStack (roster.daemon core) position
  | .lock process op =>
      ((state.vmm process).apply op).map fun lock =>
        { state with vmm := Function.update state.vmm process lock }
  | .schedule core position =>
      -- Interrupts are off inside `schedule`; only its own wait for the lock calls it again.
      if (state.cpu core).calls = [] ∨ state.sys.phase core = .leaving then
        (Scheduler.step roster state.sys (.schedule core)).map fun sys =>
          afterChoice ({ state with sys }.enter core position) core (state.sys.currentThread core)
            (sys.currentThread core)
      else
        .error .disabled
  | .read core queue =>
      match (state.cpu core).calls with
      | [] => .error .disabled
      | call :: rest =>
          let lock := state.vmm (state.process call.next)
          if state.sys.phase core = .leaving then
            .error .disabled
          else if lock.writer = false ∧ lock.writersWaiting = 0 then
            .ok (switchThreads state core call rest)
          else if lock.writer = true then
            (Scheduler.step roster state.sys (.reenter core queue)).map fun sys =>
              { state with sys }
          else
            .ok state

/-- A core that has just been set up runs its first thread on that thread's stack. -/
structure Fresh (roster : Roster θ κ) (state : State θ κ ω π) : Prop where
  boot : Boot roster state.sys
  cpu_owner : ∀ core, (state.cpu core).owner = state.sys.currentThread core
  cpu_calls : ∀ core, (state.cpu core).calls = []
  stack_owner : ∀ thread, (state.stackPtr thread).owner = thread
  stack_calls : ∀ thread, (state.stackPtr thread).calls = []
  lastOut_eq : ∀ thread, state.lastOut thread = state.stackPtr thread
  switches_eq : state.switches = []
  reentered_eq : state.reentered = false

/-- A switch that leaves the previous thread where it was interrupted and resumes the next thread
where it was left, as the first one of its call. -/
structure Switch.Clean (switch : Switch θ) : Prop where
  first : switch.call.switches = 0
  stored_own : switch.stored.owner = switch.call.prev
  resumed_own : switch.resumed.owner = switch.call.next
  resumed_last : switch.resumed = switch.lastOut

/-- All switches were clean, and `schedule` was never called inside itself. -/
structure Safe (state : State θ κ ω π) : Prop where
  clean : ∀ switch ∈ state.switches, switch.Clean
  not_reentered : state.reentered = false

/-- No writer holds the address space lock when `schedule` takes it. -/
def Unlocked (state : State θ κ ω π) : Input θ κ ω π → Prop
  | .read core _ => ∀ call ∈ (state.cpu core).calls.head?,
      (state.vmm (state.process call.next)).writer = false
  | _ => True

def machine (roster : Roster θ κ) : Machine (State θ κ ω π) (Input θ κ ω π) Fault where
  step := step roster
  permitted := Unlocked

/-!
### What the other events leave alone
-/

section Frame

variable {roster : Roster θ κ} {sys next : System θ κ ω} {core : κ} {thread : θ}

/-- The threads that the cores run, and what these threads are doing. -/
def Steady (sys next : System θ κ ω) : Prop :=
  next.currentThread = sys.currentThread ∧ next.phase = sys.phase

/-- An event that is not of a core's own thread leaves the cores alone. -/
theorem step_steady {event : Event θ κ ω} (no_actor : actor event = none)
    (not_schedule : ∀ core, event ≠ .schedule core)
    (not_reenter : ∀ core queue, event ≠ .reenter core queue)
    (step_eq : Scheduler.step roster sys event = .ok next) : Steady sys next := by
  cases event with
  | spawn thread home priority =>
      obtain ⟨_, ⟨⟩⟩ := guard_eq_ok.mp step_eq
      exact ⟨rfl, rfl⟩
  | initTimerDaemon core =>
      obtain ⟨_, push_eq⟩ := guard_eq_ok.mp step_eq
      obtain ⟨_, current_eq, phase_eq⟩ := push_untouched push_eq
      exact ⟨current_eq, phase_eq⟩
  | beginWait core queue => cases no_actor
  | enterWait core => cases no_actor
  | sleep core => cases no_actor
  | block core => cases no_actor
  | wake thread =>
      obtain ⟨_, ⟨⟩⟩ := guard_eq_ok.mp step_eq
      exact ⟨rfl, rfl⟩
  | popWait queue =>
      obtain rfl | ⟨thread, popped, pop_eq, ⟨⟩⟩ := popQueue_eq_ok step_eq
      · exact ⟨rfl, rfl⟩
      · obtain ⟨_, current_eq, phase_eq⟩ := popQueue_untouched pop_eq
        exact ⟨current_eq, phase_eq⟩
  | wakeThread core thread =>
      obtain ⟨_, woken_eq⟩ := guard_eq_ok.mp step_eq
      split at woken_eq
      next =>
        obtain ⟨_, current_eq, phase_eq⟩ := push_untouched woken_eq
        exact ⟨current_eq, phase_eq⟩
      next =>
        cases woken_eq
        exact ⟨rfl, rfl⟩
  | beginWakeThread core thread =>
      obtain ⟨_, begin_eq⟩ := guard_eq_ok.mp step_eq
      obtain ⟨_, ⟨⟩⟩ := guard_eq_ok.mp begin_eq
      exact ⟨rfl, rfl⟩
  | finishWakeThread core thread =>
      obtain ⟨_, ⟨⟩⟩ := guard_eq_ok.mp step_eq
      exact ⟨rfl, rfl⟩
  | wakeDaemon core =>
      obtain ⟨_, push_eq⟩ := guard_eq_ok.mp step_eq
      obtain ⟨_, current_eq, phase_eq⟩ := push_untouched push_eq
      exact ⟨current_eq, phase_eq⟩
  | expire core thread =>
      obtain ⟨_, push_eq⟩ := guard_eq_ok.mp step_eq
      obtain ⟨_, current_eq, phase_eq⟩ := push_untouched push_eq
      exact ⟨current_eq, phase_eq⟩
  | takeMail core =>
      obtain rfl | ⟨thread, popped, pop_eq, push_eq⟩ := takeMail_eq_ok step_eq
      · exact ⟨rfl, rfl⟩
      · obtain ⟨_, current_eq, phase_eq⟩ := push_untouched push_eq
        obtain ⟨_, popped_current, popped_phase⟩ := popQueue_untouched pop_eq
        exact ⟨current_eq.trans popped_current, phase_eq.trans popped_phase⟩
  | schedule core => exact absurd rfl (not_schedule core)
  | reenter core queue => exact absurd rfl (not_reenter core queue)
  | terminate core => cases no_actor
  | kill thread =>
      obtain ⟨_, ⟨⟩⟩ := guard_eq_ok.mp step_eq
      exact ⟨rfl, rfl⟩
  | reap =>
      obtain rfl | ⟨thread, popped, pop_eq, ⟨⟩⟩ := popQueue_eq_ok step_eq
      · exact ⟨rfl, rfl⟩
      · obtain ⟨_, current_eq, phase_eq⟩ := popQueue_untouched pop_eq
        exact ⟨current_eq, phase_eq⟩

/-- An event of a core's own thread leaves the other cores alone. -/
theorem step_actor {event : Event θ κ ω} (actor_eq : actor event = some core)
    (step_eq : Scheduler.step roster sys event = .ok next) :
    next.currentThread = sys.currentThread ∧
      ∀ other, other ≠ core → next.phase other = sys.phase other := by
  cases event <;> cases actor_eq
  case enterWait =>
    obtain ⟨queue, _, rfl⟩ := enterWait_eq_ok step_eq
    exact ⟨rfl, fun other ne => Function.update_of_ne ne ..⟩
  all_goals
    obtain ⟨_, ⟨⟩⟩ := guard_eq_ok.mp step_eq
    exact ⟨rfl, fun other ne => Function.update_of_ne ne ..⟩

theorem requeue_steady {prev : θ} (requeue_eq : requeue roster sys core prev thread = .ok next) :
    Steady sys next := by
  unfold requeue at requeue_eq
  split at requeue_eq
  · dsimp only at requeue_eq
    split at requeue_eq
    · obtain ⟨_, current_eq, phase_eq⟩ := push_untouched requeue_eq
      exact ⟨current_eq, phase_eq⟩
    · cases requeue_eq
      exact ⟨rfl, rfl⟩
  · cases requeue_eq
    exact ⟨rfl, rfl⟩

/-- `schedule` changes the thread of its own core, which then runs. -/
theorem schedule_frame (schedule_eq : Scheduler.schedule roster sys core = .ok next) :
    next.phase core = .running ∧ ∀ other, other ≠ core →
      next.currentThread other = sys.currentThread other ∧ next.phase other = sys.phase other := by
  rcases pop_eq : sys.pop core with ⟨found, popped⟩
  obtain ⟨requeued, requeue_eq, rfl⟩ := schedule_eq_ok pop_eq schedule_eq
  obtain ⟨_, popped_current, popped_phase⟩ := pop_untouched pop_eq
  obtain ⟨current_eq, phase_eq⟩ := requeue_steady requeue_eq
  constructor
  · simp [dispatch, System.setPhase]
  · intro other ne
    simp only [dispatch, System.setPhase, System.setState, Function.update_of_ne ne, current_eq,
      phase_eq, popped_current, popped_phase, and_self]

end Frame

/-!
### Runs
-/

section Runs

variable {roster : Roster θ κ} {state next : State θ κ ω π} {core : κ}

/-- What a core executes: its current thread, or the stack of the thread it is about to leave. -/
inductive OnStack (state : State θ κ ω π) (core : κ) : Prop
  | own (calls_eq : (state.cpu core).calls = [])
      (owner_eq : (state.cpu core).owner = state.sys.currentThread core)
  | leaving (call : Call θ) (calls_eq : (state.cpu core).calls = [call])
      (owner_eq : (state.cpu core).owner = call.prev)
      (first : call.switches = 0) (ne : call.prev ≠ call.next)
      (next_eq : call.next = state.sys.currentThread core)
      (phase_eq : state.sys.phase core = .running)

/-- Every stack pointer is in the control block of the owner of the stack, and is the last one. -/
structure Sound (state : State θ κ ω π) : Prop where
  safe : Safe state
  owner : ∀ thread, (state.stackPtr thread).owner = thread
  calls : ∀ thread, (state.stackPtr thread).calls = []
  last : ∀ thread, state.lastOut thread = state.stackPtr thread
  cores : ∀ core, OnStack state core

omit [DecidableEq θ] [DecidableEq κ] [DecidableEq ω] [DecidableEq π] in
theorem Sound.fresh (fresh : Fresh roster state) : Sound state where
  safe := ⟨by simp [fresh.switches_eq], fresh.reentered_eq⟩
  owner := fresh.stack_owner
  calls := fresh.stack_calls
  last := fresh.lastOut_eq
  cores core := .own (fresh.cpu_calls core) (fresh.cpu_owner core)

omit [DecidableEq θ] [DecidableEq κ] [DecidableEq ω] [DecidableEq π] in
/-- A core is not affected by changes elsewhere. -/
theorem OnStack.congr (on_stack : OnStack state core) (cpu_eq : next.cpu core = state.cpu core)
    (current_eq : next.sys.currentThread core = state.sys.currentThread core)
    (phase_eq : (state.cpu core).calls ≠ [] → next.sys.phase core = state.sys.phase core) :
    OnStack next core := by
  cases on_stack with
  | own calls_eq owner_eq =>
      exact .own (cpu_eq ▸ calls_eq) (by rw [cpu_eq, current_eq]; exact owner_eq)
  | leaving call calls_eq owner_eq first ne next_eq running =>
      refine .leaving call (cpu_eq ▸ calls_eq) (cpu_eq ▸ owner_eq) first ne ?_ ?_
      · rw [current_eq]
        exact next_eq
      · rw [phase_eq (by simp [calls_eq])]
        exact running

omit [DecidableEq π] in
/-- An event that switches nothing. -/
theorem Sound.other (sound : Sound state) {sys : System θ κ ω} {event : Event θ κ ω}
    (step_eq : Scheduler.step roster state.sys event = .ok sys)
    (idle : ∀ core ∈ actor event, (state.cpu core).calls = [])
    (not_schedule : ∀ core, event ≠ .schedule core)
    (not_reenter : ∀ core queue, event ≠ .reenter core queue) : Sound { state with sys } := by
  refine ⟨⟨sound.safe.clean, sound.safe.not_reentered⟩, sound.owner, sound.calls, sound.last,
    fun core => ?_⟩
  cases actor_eq : actor event with
  | none =>
      obtain ⟨current_eq, phase_eq⟩ := step_steady actor_eq not_schedule not_reenter step_eq
      exact (sound.cores core).congr rfl (congrFun current_eq core) fun _ => congrFun phase_eq core
  | some acting =>
      obtain ⟨current_eq, phase_eq⟩ := step_actor actor_eq step_eq
      refine (sound.cores core).congr rfl (congrFun current_eq core) fun busy => phase_eq core ?_
      rintro rfl
      exact busy (idle core actor_eq)

omit [DecidableEq κ] [DecidableEq ω] [DecidableEq π] in
theorem Sound.initStack (sound : Sound state) (thread : θ) (position : Nat) :
    Sound (state.initStack thread position) where
  safe := ⟨sound.safe.clean, sound.safe.not_reentered⟩
  owner other := by
    rcases eq_or_ne other thread with rfl | ne
    · simp [State.initStack]
    · simpa [State.initStack, ne] using sound.owner other
  calls other := by
    rcases eq_or_ne other thread with rfl | ne
    · simp [State.initStack]
    · simpa [State.initStack, ne] using sound.calls other
  last other := by
    rcases eq_or_ne other thread with rfl | ne
    · simp [State.initStack]
    · simpa [State.initStack, ne] using sound.last other
  cores core := (sound.cores core).congr rfl rfl fun _ => rfl

omit [DecidableEq ω] [DecidableEq π] in
/-- A switch from the stack of the previous thread, with no other call below. -/
theorem Sound.switchThreads (safe : Safe state)
    (owner : ∀ thread, (state.stackPtr thread).owner = thread)
    (calls : ∀ thread, (state.stackPtr thread).calls = [])
    (last : ∀ thread, state.lastOut thread = state.stackPtr thread)
    (others : ∀ other, other ≠ core → OnStack state other) {call : Call θ}
    (first : call.switches = 0) (ne : call.prev ≠ call.next)
    (owner_eq : (state.cpu core).owner = call.prev)
    (next_eq : call.next = state.sys.currentThread core) :
    Sound (switchThreads state core call []) := by
  have last_next : Function.update state.lastOut (state.cpu core).owner
      { state.cpu core with calls := [] } call.next = state.stackPtr call.next := by
    rw [owner_eq, Function.update_of_ne ne.symm, last]
  constructor
  · refine ⟨fun switch mem => ?_, safe.not_reentered⟩
    rcases List.mem_append.mp mem with was | new
    · exact safe.clean switch was
    · rw [List.mem_singleton.mp new]
      exact ⟨first, owner_eq, owner call.next, last_next.symm⟩
  · intro thread
    rcases eq_or_ne thread call.prev with rfl | other
    · simpa [ContextSwitch.switchThreads] using owner_eq
    · simpa [ContextSwitch.switchThreads, other] using owner thread
  · intro thread
    rcases eq_or_ne thread call.prev with rfl | other
    · simp [ContextSwitch.switchThreads]
    · simpa [ContextSwitch.switchThreads, other] using calls thread
  · intro thread
    rcases eq_or_ne thread call.prev with rfl | other
    · simp [ContextSwitch.switchThreads, owner_eq]
    · simpa [ContextSwitch.switchThreads, owner_eq, other] using last thread
  · intro other
    rcases eq_or_ne other core with rfl | elsewhere
    · apply OnStack.own
      · simpa [ContextSwitch.switchThreads] using calls call.next
      · simpa [ContextSwitch.switchThreads, ← next_eq] using owner call.next
    · refine (others other elsewhere).congr ?_ rfl fun _ => rfl
      exact Function.update_of_ne elsewhere ..

omit [DecidableEq θ] [DecidableEq ω] [DecidableEq π] in
/-- The choice of `schedule` was made on the stack of the thread that it leaves. -/
theorem Sound.pend (safe : Safe state)
    (owner : ∀ thread, (state.stackPtr thread).owner = thread)
    (calls : ∀ thread, (state.stackPtr thread).calls = [])
    (last : ∀ thread, state.lastOut thread = state.stackPtr thread)
    (others : ∀ other, other ≠ core → OnStack state other) {prev : θ}
    (calls_eq : (state.cpu core).calls = []) (owner_eq : (state.cpu core).owner = prev)
    (phase_eq : state.sys.phase core = .running) (ne : prev ≠ state.sys.currentThread core) :
    Sound { state with
      cpu := Function.update state.cpu core
        { state.cpu core with
          calls := ⟨prev, state.sys.currentThread core, 0⟩ :: (state.cpu core).calls } } := by
  refine ⟨⟨safe.clean, safe.not_reentered⟩, owner, calls, last, fun other => ?_⟩
  rcases eq_or_ne other core with rfl | elsewhere
  · refine .leaving ⟨prev, state.sys.currentThread other, 0⟩ ?_ ?_ rfl ne rfl phase_eq
    · simp [calls_eq]
    · simpa using owner_eq
  · refine (others other elsewhere).congr ?_ rfl fun _ => rfl
    exact Function.update_of_ne elsewhere ..

omit [DecidableEq θ] [DecidableEq κ] [DecidableEq ω] [DecidableEq π] in
theorem Sound.stay (safe : Safe state)
    (owner : ∀ thread, (state.stackPtr thread).owner = thread)
    (calls : ∀ thread, (state.stackPtr thread).calls = [])
    (last : ∀ thread, state.lastOut thread = state.stackPtr thread)
    (others : ∀ other, other ≠ core → OnStack state other)
    (calls_eq : (state.cpu core).calls = [])
    (owner_eq : (state.cpu core).owner = state.sys.currentThread core) : Sound state := by
  refine ⟨safe, owner, calls, last, fun other => ?_⟩
  rcases eq_or_ne other core with rfl | elsewhere
  · exact .own calls_eq owner_eq
  · exact others other elsewhere

omit [DecidableEq ω] in
theorem Sound.afterChoice (safe : Safe state)
    (owner : ∀ thread, (state.stackPtr thread).owner = thread)
    (calls : ∀ thread, (state.stackPtr thread).calls = [])
    (last : ∀ thread, state.lastOut thread = state.stackPtr thread)
    (others : ∀ other, other ≠ core → OnStack state other) {prev : θ}
    (calls_eq : (state.cpu core).calls = []) (owner_eq : (state.cpu core).owner = prev)
    (phase_eq : state.sys.phase core = .running) :
    Sound (afterChoice state core prev (state.sys.currentThread core)) := by
  unfold ContextSwitch.afterChoice
  split
  next same => exact Sound.stay safe owner calls last others calls_eq (owner_eq.trans same)
  next ne =>
    split
    next =>
      rw [calls_eq]
      exact Sound.switchThreads safe owner calls last others rfl ne owner_eq rfl
    next => exact Sound.pend safe owner calls last others calls_eq owner_eq phase_eq ne

omit [DecidableEq θ] [DecidableEq κ] [DecidableEq ω] [DecidableEq π] in
/-- `schedule` begins on the stack of the current thread, with no call below. -/
theorem Sound.settled (sound : Sound state)
    (free : (state.cpu core).calls = [] ∨ state.sys.phase core = .leaving) :
    (state.cpu core).calls = [] ∧ (state.cpu core).owner = state.sys.currentThread core := by
  cases sound.cores core with
  | own calls_eq owner_eq => exact ⟨calls_eq, owner_eq⟩
  | leaving call calls_eq _ _ _ _ phase_eq => simp [calls_eq, phase_eq] at free

omit [DecidableEq π] in
/-- What holds between the choice of a thread and what `schedule` does about it. -/
theorem Sound.entered (sound : Sound state) {sys : System θ κ ω} (position : Nat)
    (calls_eq : (state.cpu core).calls = [])
    (step_eq : Scheduler.step roster state.sys (.schedule core) = .ok sys) :
    Safe ({ state with sys }.enter core position) ∧ sys.phase core = .running ∧
      ∀ other, other ≠ core → OnStack ({ state with sys }.enter core position) other := by
  obtain ⟨phase_eq, frame⟩ := schedule_frame (step_schedule_eq_ok step_eq)
  refine ⟨⟨sound.safe.clean, ?_⟩, phase_eq, fun other elsewhere => ?_⟩
  · simp [State.enter, calls_eq, sound.safe.not_reentered]
  · refine (sound.cores other).congr ?_ (frame other elsewhere).1 fun _ => (frame other elsewhere).2
    exact Function.update_of_ne elsewhere ..

theorem Sound.schedule (sound : Sound state) {sys : System θ κ ω} {position : Nat}
    (free : (state.cpu core).calls = [] ∨ state.sys.phase core = .leaving)
    (step_eq : Scheduler.step roster state.sys (.schedule core) = .ok sys) :
    Sound (ContextSwitch.afterChoice ({ state with sys }.enter core position) core
      (state.sys.currentThread core) (sys.currentThread core)) := by
  obtain ⟨calls_eq, owner_eq⟩ := sound.settled free
  obtain ⟨safe, phase_eq, others⟩ := sound.entered position calls_eq step_eq
  refine Sound.afterChoice safe sound.owner sound.calls sound.last others ?_ ?_ phase_eq
  · simpa [State.enter] using calls_eq
  · simpa [State.enter] using owner_eq

/-- The page tables are read while no writer holds the lock. -/
theorem Sound.read (sound : Sound state) {queue : ω} (unlocked : Unlocked state (.read core queue))
    (step_eq : step roster state (.read core queue) = .ok next) : Sound next := by
  cases sound.cores core with
  | own calls_eq owner_eq =>
      rw [ContextSwitch.step, calls_eq] at step_eq
      cases step_eq
  | leaving call calls_eq owner_eq first ne next_eq phase_eq =>
      have free : (state.vmm (state.process call.next)).writer = false :=
        unlocked call (by simp [calls_eq])
      rw [ContextSwitch.step, calls_eq] at step_eq
      simp only [phase_eq, free, reduceCtorEq, if_false, true_and, Bool.false_eq_true] at step_eq
      split at step_eq
      · cases step_eq
        exact Sound.switchThreads sound.safe sound.owner sound.calls sound.last
          (fun other _ => sound.cores other) first ne owner_eq next_eq
      · cases step_eq
        exact sound

theorem Sound.step {input : Input θ κ ω π} (sound : Sound state) (unlocked : Unlocked state input)
    (step_eq : step roster state input = .ok next) : Sound next := by
  cases input with
  | other event =>
      obtain ⟨⟨plain, idle⟩, moved_eq⟩ := guard_eq_ok.mp step_eq
      obtain ⟨sys, sys_eq, rfl⟩ := map_eq_ok.mp moved_eq
      refine sound.other sys_eq idle ?_ ?_
      · rintro core rfl
        cases plain
      · rintro core queue rfl
        cases plain
  | spawn thread home priority process position =>
      obtain ⟨sys, sys_eq, rfl⟩ := map_eq_ok.mp step_eq
      have moved := sound.other sys_eq (by simp [actor]) nofun nofun
      have placed : Sound { state with
          sys, process := Function.update state.process thread process } :=
        ⟨⟨moved.safe.clean, moved.safe.not_reentered⟩, moved.owner, moved.calls, moved.last,
          fun core => (moved.cores core).congr rfl rfl fun _ => rfl⟩
      exact placed.initStack thread position
  | initTimerDaemon core position =>
      obtain ⟨sys, sys_eq, rfl⟩ := map_eq_ok.mp step_eq
      exact (sound.other sys_eq (by simp [actor]) nofun nofun).initStack _ position
  | lock process op =>
      obtain ⟨lock, _, rfl⟩ := map_eq_ok.mp step_eq
      exact ⟨⟨sound.safe.clean, sound.safe.not_reentered⟩, sound.owner, sound.calls, sound.last,
        fun core => (sound.cores core).congr rfl rfl fun _ => rfl⟩
  | schedule core position =>
      obtain ⟨free, moved_eq⟩ := guard_eq_ok.mp step_eq
      obtain ⟨sys, sys_eq, rfl⟩ := map_eq_ok.mp moved_eq
      exact sound.schedule free sys_eq
  | read core queue => exact sound.read unlocked step_eq

/-- In every run in which no writer holds the address space lock when `schedule` takes it, every
context switch is clean and `schedule` never calls itself. -/
theorem switches_clean {final : State θ κ ω π} {inputs : List (Input θ κ ω π)}
    (fresh : Fresh roster state) (permits : (machine roster).Permits state inputs)
    (run_eq : (machine roster).run state inputs = .ok final) : Safe final := by
  have keeps : ∀ (state : State θ κ ω π) input next, Sound state → Unlocked state input →
      step roster state input = .ok next → Sound next :=
    fun _ _ _ sound unlocked step_eq => sound.step unlocked step_eq
  exact ((machine roster).run_keeps keeps (Sound.fresh fresh) permits run_eq).safe

/-- The condition leaves out nothing else: a call that finds a writer is called again. -/
theorem read_locked_reenters {blocked : State θ κ ω π} {call : Call θ} {rest : List (Call θ)}
    {queue : ω} {position : Nat} (calls_eq : (state.cpu core).calls = call :: rest)
    (locked : (state.vmm (state.process call.next)).writer = true)
    (read_eq : step roster state (.read core queue) = .ok blocked)
    (schedule_eq : step roster blocked (.schedule core position) = .ok next) :
    next.reentered = true := by
  rw [step, calls_eq] at read_eq
  simp only [locked, Bool.true_eq_false, false_and, if_false, if_true] at read_eq
  split at read_eq
  · cases read_eq
  · obtain ⟨sys, _, rfl⟩ := map_eq_ok.mp read_eq
    obtain ⟨_, moved_eq⟩ := guard_eq_ok.mp schedule_eq
    obtain ⟨chosen, _, rfl⟩ := map_eq_ok.mp moved_eq
    unfold afterChoice
    split
    · simp [State.enter, calls_eq]
    · split <;> simp [switchThreads, State.enter, calls_eq]

/-- One core runs thread 2 of process 0. -/
def soloState : State Nat Unit Unit Nat where
  sys := soloBoot
  process _ := 0
  vmm _ := ⟨false, 0, 0⟩
  stackPtr thread := ⟨thread, [], 0⟩
  cpu _ := ⟨2, [], 0⟩
  lastOut thread := ⟨thread, [], 0⟩
  switches := []
  reentered := false

theorem soloState_fresh : Fresh soloRoster soloState :=
  ⟨soloBoot_boot, fun _ => rfl, fun _ => rfl, fun _ => rfl, fun _ => rfl, fun _ => rfl, rfl, rfl⟩

/-- Thread 3 of process 1 is started, and the timer interrupts the two threads in turn. -/
def soloInputs : List (Input Nat Unit Unit Nat) :=
  [.spawn 3 () 0 1 100, .other (.takeMail ()), .schedule () 10, .read () (), .schedule () 20,
    .read () ()]

theorem switches_clean_two_threads :
    ∃ final, (machine soloRoster).run soloState soloInputs = .ok final ∧ Safe final ∧
      final.cpu () = ⟨2, [], 10⟩ ∧ final.stackPtr 3 = ⟨3, [], 20⟩ := by
  obtain ⟨final, run_eq, cpu_eq, stack_eq⟩ : ∃ final,
      (machine soloRoster).run soloState soloInputs = .ok final ∧
        final.cpu () = ⟨2, [], 10⟩ ∧ final.stackPtr 3 = ⟨3, [], 20⟩ := ⟨_, rfl, rfl, rfl⟩
  refine ⟨final, run_eq, switches_clean soloState_fresh ?_ run_eq, cpu_eq, stack_eq⟩
  refine Machine.permits_cons _ trivial rfl ?_
  refine Machine.permits_cons _ trivial rfl ?_
  refine Machine.permits_cons _ trivial rfl ?_
  refine Machine.permits_cons _ (fun _ _ => by rfl) rfl ?_
  refine Machine.permits_cons _ trivial rfl ?_
  exact Machine.permits_cons _ (fun _ _ => by rfl) rfl trivial

/-- Thread 3 is interrupted in `munmap`, where it holds the lock on its own address space.  When it
is chosen again, the stack pointer of thread 2 ends up in the control block of thread 3. -/
theorem schedule_reentered :
    ∃ (roster : Roster Nat Unit) (state final : State Nat Unit Unit Nat)
      (inputs : List (Input Nat Unit Unit Nat)),
      Fresh roster state ∧ (machine roster).run state inputs = .ok final ∧ ¬ Safe final ∧
        (final.stackPtr 3).owner = 2 := by
  refine ⟨soloRoster, soloState, _, [.spawn 3 () 0 1 100, .other (.takeMail ()), .schedule () 10,
    .read () (), .lock 1 .writeLock, .schedule () 20, .read () (), .schedule () 30, .read () (),
    .schedule () 40, .read () ()], soloState_fresh, rfl, fun safe => ?_, rfl⟩
  cases safe.not_reentered

end Runs

end ContextSwitch
end Vespertine
