import Vespertine.Library.IntrusiveQueue
import Vespertine.Library.Transition

/-!
# Threads and their queues

Ready queues, mailboxes, wait queues and the graveyard all link their threads through the one `next`
field of the thread control block.  A core runs one thread at a time; what the cores do is cut into
events at the places where another core, or an interrupt, may act in between.  The ready queues of a
core are not locked: a wake-up that runs with interrupts enabled, as the poll thread of the block
device does, can be interrupted in the middle of `SchedulerState::push`.

The lengths of the queues only choose the core of a new thread, so the choice is left open.  So is
the order in which callouts expire.
-/

namespace Vespertine
namespace Scheduler

open IntrusiveQueue

inductive ThreadState where
  | ready
  | running
  | blocked
  | terminated
  deriving DecidableEq, Repr

/-- What a thread is there for; idle threads and timer daemons belong to a core for ever. -/
inductive Role (κ : Type) where
  | idle (core : κ)
  | daemon (core : κ)
  | worker
  deriving DecidableEq

/-- The idle thread and the timer daemon of every core. -/
structure Roster (θ κ : Type) where
  role : θ → Role κ
  idle : κ → θ
  daemon : κ → θ
  role_idle : ∀ thread core, role thread = .idle core ↔ thread = idle core
  role_daemon : ∀ thread core, role thread = .daemon core ↔ thread = daemon core

/-- The queues that link threads; `ω` are the wait queues of the locks. -/
inductive QueueId (κ ω : Type) where
  | ready (core : κ) (priority : Nat)
  | mailbox (core : κ)
  | wait (queue : ω)
  | graveyard
  deriving DecidableEq

/-- Where a thread can be kept. -/
inductive Place (κ ω : Type) where
  | queue (queue : QueueId κ ω)
  /-- A local variable of a waker that is about to call `wake_thread`. -/
  | hand
  /-- The argument of a `push` to a ready queue of the core that has not finished. -/
  | inserting (core : κ)
  deriving DecidableEq

/-- What the current thread of a core is doing. -/
inductive Phase (ω : Type) where
  | running
  /-- It has marked itself blocked and is about to push itself into a wait queue. -/
  | waiting (queue : ω)
  /-- It is about to call `schedule`, with interrupts disabled. -/
  | leaving
  deriving DecidableEq

/-- Why an event does not happen: it is impossible here, or the kernel panics. -/
inductive Fault where
  | disabled
  | outOfBounds
  deriving DecidableEq, Repr

structure System (θ κ ω : Type) where
  state : θ → ThreadState
  homeCore : θ → κ
  priority : θ → Nat
  next : θ → Option θ
  ends : QueueId κ ω → Ends θ
  activePriorities : κ → Nat → Bool
  currentThread : κ → θ
  phase : κ → Phase ω
  /-- The sleeping threads a core has promised to wake. -/
  callouts : κ → List θ
  /-- The thread control block is allocated. -/
  alive : θ → Bool
  /-- The last thread of the ready queue as an unfinished push of this thread has read it. -/
  tailSeen : θ → Option θ
  /-- The threads that were pushed to a queue and not popped, and those in other hands. -/
  members : Place κ ω → List θ

variable {θ κ ω : Type} [DecidableEq θ] [DecidableEq κ] [DecidableEq ω]

namespace System

def setState (sys : System θ κ ω) (thread : θ) (state : ThreadState) : System θ κ ω :=
  { sys with state := Function.update sys.state thread state }

def setPhase (sys : System θ κ ω) (core : κ) (phase : Phase ω) : System θ κ ω :=
  { sys with phase := Function.update sys.phase core phase }

/-- `push` of `TCBQueue` and `WaitQueue`. -/
def pushQueue (sys : System θ κ ω) (queue : QueueId κ ω) (thread : θ) : System θ κ ω :=
  let pushed := IntrusiveQueue.push sys.next (sys.ends queue) thread
  { sys with
    next := pushed.1
    ends := Function.update sys.ends queue pushed.2
    members := join sys.members (.queue queue) thread }

/-- `pop` of `TCBQueue` and `WaitQueue`. -/
def popQueue (sys : System θ κ ω) (queue : QueueId κ ω) : Option θ × System θ κ ω :=
  match IntrusiveQueue.pop sys.next (sys.ends queue) with
  | (none, _) => (none, sys)
  | (some thread, next, ends) =>
      (some thread,
        { sys with
          next
          ends := Function.update sys.ends queue ends
          members := leave sys.members (.queue queue) thread })

def setActive (sys : System θ κ ω) (core : κ) (priority : Nat) (active : Bool) : System θ κ ω :=
  { sys with
    activePriorities := Function.update sys.activePriorities core
      (Function.update (sys.activePriorities core) priority active) }

/-- `SchedulerState::push`; the queues of the 32 priorities are arrays with checked indices. -/
def push (sys : System θ κ ω) (core : κ) (thread : θ) : Except Fault (System θ κ ω) :=
  if sys.priority thread < 32 then
    .ok ((sys.pushQueue (.ready core (sys.priority thread)) thread).setActive core
      (sys.priority thread) true)
  else
    .error .outOfBounds

/-- `trailing_zeros` of the active priorities. -/
def highestPriority (sys : System θ κ ω) (core : κ) : Option Nat :=
  (List.range 32).find? (sys.activePriorities core)

/-- `SchedulerState::pop`. -/
def pop (sys : System θ κ ω) (core : κ) : Option θ × System θ κ ω :=
  match sys.highestPriority core with
  | none => (none, sys)
  | some priority =>
      match sys.popQueue (.ready core priority) with
      | (none, _) => (none, sys)
      | (some thread, popped) =>
          (some thread,
            if (popped.ends (.ready core priority)).head = none then
              popped.setActive core priority false
            else
              popped)

/-- Bring a thread out of one of the places that are not queues. -/
def takeFrom (sys : System θ κ ω) (place : Place κ ω) (thread : θ) : System θ κ ω :=
  { sys with members := leave sys.members place thread }

def putInto (sys : System θ κ ω) (place : Place κ ω) (thread : θ) : System θ κ ω :=
  { sys with members := join sys.members place thread }

end System

/-- Choose the next thread of a core, once the mailbox is found empty. -/
def nextThread (roster : Roster θ κ) (sys : System θ κ ω) (core : κ) (popped : Option θ) : θ :=
  match popped with
  | some thread => thread
  | none =>
      if sys.state (sys.currentThread core) = .running then
        sys.currentThread core
      else
        roster.idle core

/-- Put the previous thread back if it could go on running. -/
def requeue (roster : Roster θ κ) (sys : System θ κ ω) (core : κ) (prev next : θ) :
    Except Fault (System θ κ ω) :=
  if sys.state prev = .running then
    let sys := sys.setState prev .ready
    if prev ≠ roster.idle core ∧ prev ≠ next then sys.push core prev else .ok sys
  else
    .ok sys

/-- Make a thread the running thread of a core. -/
def dispatch (sys : System θ κ ω) (core : κ) (thread : θ) : System θ κ ω :=
  ({ sys with currentThread := Function.update sys.currentThread core thread }.setState thread
    .running).setPhase core .running

/-- `SchedulerState::schedule` after its mailbox loop. -/
def schedule (roster : Roster θ κ) (sys : System θ κ ω) (core : κ) :
    Except Fault (System θ κ ω) := do
  let (popped, sys) := sys.pop core
  let prev := sys.currentThread core
  let next := nextThread roster sys core popped
  let sys ← requeue roster sys core prev next
  return dispatch sys core next

section Inversion

variable {roster : Roster θ κ} {sys next : System θ κ ω} {core : κ} {thread : θ}

theorem pop_none {popped : System θ κ ω} (pop_eq : sys.pop core = (none, popped)) :
    popped = sys := by
  rw [System.pop] at pop_eq
  split at pop_eq
  · exact (Prod.mk.inj pop_eq).2.symm
  · split at pop_eq
    · exact (Prod.mk.inj pop_eq).2.symm
    · cases (Prod.mk.inj pop_eq).1

theorem pop_some {popped : System θ κ ω} (pop_eq : sys.pop core = (some thread, popped)) :
    ∃ priority after active, sys.popQueue (.ready core priority) = (some thread, after) ∧
      popped = { after with activePriorities := active } := by
  rw [System.pop] at pop_eq
  split at pop_eq
  case h_1 => cases pop_eq
  next priority _ =>
    split at pop_eq
    case h_1 => cases pop_eq
    next first after popQueue_eq =>
      obtain ⟨thread_eq, popped_eq⟩ := Prod.mk.inj pop_eq
      cases thread_eq
      refine ⟨priority, after, popped.activePriorities, popQueue_eq, ?_⟩
      rw [← popped_eq]
      split <;> rfl

/-- Split `schedule` at its decisions. -/
theorem schedule_eq_ok {popped : System θ κ ω} {found : Option θ}
    (pop_eq : sys.pop core = (found, popped))
    (schedule_eq : schedule roster sys core = .ok next) :
    ∃ requeued, requeue roster popped core (popped.currentThread core)
        (nextThread roster popped core found) = .ok requeued ∧
      next = dispatch requeued core (nextThread roster popped core found) := by
  rw [schedule, pop_eq] at schedule_eq
  obtain ⟨requeued, requeue_eq, next_eq⟩ := bind_eq_ok.mp schedule_eq
  exact ⟨requeued, requeue_eq, (Except.ok.inj next_eq).symm⟩

/-- Filing a thread or taking it out of a queue changes neither its state nor what the cores do. -/
structure Untouched (sys next : System θ κ ω) : Prop where
  state_eq : next.state = sys.state
  current_eq : next.currentThread = sys.currentThread
  phase_eq : next.phase = sys.phase

theorem push_untouched (push_eq : sys.push core thread = .ok next) : Untouched sys next := by
  obtain ⟨_, ⟨⟩⟩ := guard_eq_ok.mp push_eq
  exact ⟨rfl, rfl, rfl⟩

theorem popQueue_untouched {queue : QueueId κ ω} {found : Option θ} {popped : System θ κ ω}
    (pop_eq : sys.popQueue queue = (found, popped)) : Untouched sys popped := by
  rw [System.popQueue] at pop_eq
  split at pop_eq
  · cases pop_eq
    exact ⟨rfl, rfl, rfl⟩
  · cases pop_eq
    exact ⟨rfl, rfl, rfl⟩

theorem pop_untouched {found : Option θ} {popped : System θ κ ω}
    (pop_eq : sys.pop core = (found, popped)) : Untouched sys popped := by
  cases found with
  | none =>
      obtain rfl := pop_none pop_eq
      exact ⟨rfl, rfl, rfl⟩
  | some thread =>
      obtain ⟨priority, after, active, popQueue_eq, rfl⟩ := pop_some pop_eq
      obtain ⟨state_eq, current_eq, phase_eq⟩ := popQueue_untouched popQueue_eq
      exact ⟨state_eq, current_eq, phase_eq⟩

end Inversion

/-- Everything that moves threads. -/
inductive Event (θ κ ω : Type) where
  /-- `spawn_kernel_thread` and `spawn_user_thread`. -/
  | spawn (thread : θ) (core : κ) (priority : Nat)
  | initTimerDaemon (core : κ)
  /-- `Mutex::lock`, `Semaphore::wait`, `RwLock::read` and `write`, `CondVar::wait` up to their
  `push`. -/
  | beginWait (core : κ) (queue : ω)
  | enterWait (core : κ)
  | sleep (core : κ)
  /-- `block_on`, `handle_sys_invoke`, the executor and the timer daemon. -/
  | block (core : κ)
  /-- `ThreadWaker::wake` and `push_task` have seen a blocked thread. -/
  | wake (thread : θ)
  /-- `unlock`, `signal`, `notify_one`, `notify_all` and the guards of `RwLock` pop a thread. -/
  | popWait (queue : ω)
  | wakeThread (core : κ) (thread : θ)
  /-- `wake_thread` with interrupts enabled, up to its test of the tail. -/
  | beginWakeThread (core : κ) (thread : θ)
  | finishWakeThread (core : κ) (thread : θ)
  /-- `timer_interrupt_handler` and `update_hardware_timer`. -/
  | wakeDaemon (core : κ)
  /-- `timer_daemon` wakes a sleeping thread. -/
  | expire (core : κ) (thread : θ)
  /-- One turn of the mailbox loop of `schedule`. -/
  | takeMail (core : κ)
  | schedule (core : κ)
  /-- `schedule` blocks the thread it has just made current, on the lock of its address space. -/
  | reenter (core : κ) (queue : ω)
  | terminate (core : κ)
  /-- `ThreadOp::Kill`; the call of `schedule` that follows is an event of its own. -/
  | kill (thread : θ)
  | reap

/-- The core whose current thread takes part in an event of its own accord. -/
def actor : Event θ κ ω → Option κ
  | .beginWait core _ | .enterWait core | .sleep core | .block core | .terminate core => some core
  | _ => none

/-- The core on which an event runs `schedule`, or a part of it. -/
def scheduling : Event θ κ ω → Option κ
  | .takeMail core | .schedule core => some core
  | _ => none

/-- `ThreadControlBlock::init` of a new control block. -/
def initThread (sys : System θ κ ω) (thread : θ) (core : κ) (priority : Nat) : System θ κ ω :=
  { sys with
    state := Function.update sys.state thread .ready
    homeCore := Function.update sys.homeCore thread core
    priority := Function.update sys.priority thread priority
    next := Function.update sys.next thread none
    alive := Function.update sys.alive thread true }

/-- The first half of `push`: clear the link and look at the tail. -/
def beginPush (sys : System θ κ ω) (core : κ) (thread : θ) : Except Fault (System θ κ ω) :=
  if sys.priority thread < 32 then
    .ok ({ sys with
      next := Function.update sys.next thread none
      tailSeen := Function.update sys.tailSeen thread
        (sys.ends (.ready core (sys.priority thread))).tail }.putInto (.inserting core) thread)
  else
    .error .outOfBounds

/-- The second half of `push`, behind the tail that was seen. -/
def finishPush (sys : System θ κ ω) (core : κ) (thread : θ) : System θ κ ω :=
  let queue : QueueId κ ω := .ready core (sys.priority thread)
  let attached := attach sys.next (sys.ends queue) (sys.tailSeen thread) thread
  { sys with
    next := attached.1
    ends := Function.update sys.ends queue attached.2
    members := join sys.members (.queue queue) thread }.setActive core (sys.priority thread) true

/-- The timer daemon runs at this priority. -/
def priorityHigh : Nat := 4

def step (roster : Roster θ κ) (sys : System θ κ ω) :
    Event θ κ ω → Except Fault (System θ κ ω)
  | .spawn thread core priority =>
      if roster.role thread = .worker ∧ sys.alive thread = false then
        .ok ((initThread sys thread core priority).pushQueue (.mailbox core) thread)
      else
        .error .disabled
  | .initTimerDaemon core =>
      let daemon := roster.daemon core
      if sys.alive daemon = false then
        -- `create_tcb` leaves the home core at 0; nothing reads it for a daemon.
        (initThread sys daemon (sys.homeCore daemon) priorityHigh).push core daemon
      else
        .error .disabled
  | .beginWait core queue =>
      if sys.phase core = .running ∧ roster.role (sys.currentThread core) = .worker then
        .ok ((sys.setState (sys.currentThread core) .blocked).setPhase core (.waiting queue))
      else
        .error .disabled
  | .enterWait core =>
      match sys.phase core with
      | .waiting queue =>
          .ok ((sys.pushQueue (.wait queue) (sys.currentThread core)).setPhase core .leaving)
      | _ => .error .disabled
  | .sleep core =>
      let thread := sys.currentThread core
      if sys.phase core = .running ∧ roster.role thread = .worker then
        .ok ({ sys.setState thread .blocked with
          callouts := Function.update sys.callouts core
            (thread :: sys.callouts core) }.setPhase core .leaving)
      else
        .error .disabled
  | .block core =>
      if sys.phase core = .running ∧ sys.currentThread core ≠ roster.idle core then
        .ok ((sys.setState (sys.currentThread core) .blocked).setPhase core .leaving)
      else
        .error .disabled
  | .wake thread =>
      if roster.role thread = .worker ∧ sys.state thread = .blocked then
        .ok (sys.putInto .hand thread)
      else
        .error .disabled
  | .popWait queue =>
      match sys.popQueue (.wait queue) with
      | (none, _) => .ok sys
      | (some thread, popped) => .ok (popped.putInto .hand thread)
  | .wakeThread core thread =>
      if thread ∈ sys.members .hand then
        let sys := (sys.takeFrom .hand thread).setState thread .ready
        if sys.homeCore thread = core then
          sys.push core thread
        else
          .ok (sys.pushQueue (.mailbox (sys.homeCore thread)) thread)
      else
        .error .disabled
  | .beginWakeThread core thread =>
      if thread ∈ sys.members .hand ∧ sys.homeCore thread = core then
        beginPush ((sys.takeFrom .hand thread).setState thread .ready) core thread
      else
        .error .disabled
  | .finishWakeThread core thread =>
      if thread ∈ sys.members (.inserting core) then
        .ok (finishPush (sys.takeFrom (.inserting core) thread) core thread)
      else
        .error .disabled
  | .wakeDaemon core =>
      let daemon := roster.daemon core
      if sys.alive daemon = true ∧ sys.state daemon = .blocked then
        (sys.setState daemon .ready).push core daemon
      else
        .error .disabled
  | .expire core thread =>
      if thread ∈ sys.callouts core then
        { sys.setState thread .ready with
          callouts := Function.update sys.callouts core
            ((sys.callouts core).erase thread) }.push core thread
      else
        .error .disabled
  | .takeMail core =>
      match sys.phase core with
      | .waiting _ => .error .disabled
      | _ =>
          match sys.popQueue (.mailbox core) with
          | (none, _) => .ok sys
          | (some thread, popped) => (popped.setState thread .ready).push core thread
  | .schedule core =>
      match sys.phase core with
      | .waiting _ => .error .disabled
      | _ => schedule roster sys core
  | .reenter core queue =>
      if sys.phase core = .running then
        .ok (((sys.setState (sys.currentThread core) .blocked).pushQueue (.wait queue)
          (sys.currentThread core)).setPhase core .leaving)
      else
        .error .disabled
  | .terminate core =>
      if sys.phase core = .running ∧ roster.role (sys.currentThread core) = .worker then
        .ok (((sys.setState (sys.currentThread core) .terminated).pushQueue .graveyard
          (sys.currentThread core)).setPhase core .leaving)
      else
        .error .disabled
  | .kill thread =>
      if roster.role thread = .worker then
        .ok ((sys.setState thread .terminated).pushQueue .graveyard thread)
      else
        .error .disabled
  | .reap =>
      match sys.popQueue .graveyard with
      | (none, _) => .ok sys
      | (some thread, popped) =>
          .ok { popped with alive := Function.update popped.alive thread false }

section Steps

variable {roster : Roster θ κ} {sys next : System θ κ ω} {core : κ}

/-- Split a step that takes a thread out of a queue, if there is one. -/
theorem popQueue_eq_ok {queue : QueueId κ ω}
    {rest : θ → System θ κ ω → Except Fault (System θ κ ω)}
    (step_eq : (match sys.popQueue queue with
      | (none, _) => Except.ok sys
      | (some thread, popped) => rest thread popped) = .ok next) :
    next = sys ∨ ∃ thread popped, sys.popQueue queue = (some thread, popped) ∧
      rest thread popped = .ok next := by
  split at step_eq
  next => exact .inl (Except.ok.inj step_eq).symm
  next thread popped pop_eq => exact .inr ⟨thread, popped, pop_eq, step_eq⟩

theorem enterWait_eq_ok (step_eq : step roster sys (.enterWait core) = .ok next) :
    ∃ queue, sys.phase core = .waiting queue ∧
      next = (sys.pushQueue (.wait queue) (sys.currentThread core)).setPhase core .leaving := by
  rw [step] at step_eq
  split at step_eq
  next queue phase => exact ⟨queue, phase, (Except.ok.inj step_eq).symm⟩
  next => cases step_eq

theorem takeMail_eq_ok (step_eq : step roster sys (.takeMail core) = .ok next) :
    next = sys ∨ ∃ thread popped, sys.popQueue (.mailbox core) = (some thread, popped) ∧
      (popped.setState thread .ready).push core thread = .ok next := by
  rw [step] at step_eq
  split at step_eq
  next => cases step_eq
  next => exact popQueue_eq_ok step_eq

theorem step_schedule_eq_ok (step_eq : step roster sys (.schedule core) = .ok next) :
    schedule roster sys core = .ok next := by
  rw [step] at step_eq
  split at step_eq
  next => cases step_eq
  next => exact step_eq

end Steps

/-- A system after `init_threads` on every core: the first threads run, and no queue was used. -/
structure Boot (roster : Roster θ κ) (sys : System θ κ ω) : Prop where
  ends_eq : ∀ queue, sys.ends queue = Ends.empty
  members_eq : ∀ place, sys.members place = []
  callouts_eq : ∀ core, sys.callouts core = []
  phase_eq : ∀ core, sys.phase core = .running
  current_running : ∀ core, sys.state (sys.currentThread core) = .running
  current_worker : ∀ core, roster.role (sys.currentThread core) = .worker
  current_home : ∀ core, sys.homeCore (sys.currentThread core) = core
  current_alive : ∀ core, sys.alive (sys.currentThread core) = true
  idle_alive : ∀ core, sys.alive (roster.idle core) = true
  daemon_fresh : ∀ core, sys.alive (roster.daemon core) = false

/-- One core; threads 0 and 1 are its idle thread and its timer daemon. -/
def soloRoster : Roster Nat Unit where
  role thread := if thread = 0 then .idle () else if thread = 1 then .daemon () else .worker
  idle _ := 0
  daemon _ := 1
  role_idle thread core := by split <;> [simp_all; split <;> simp_all]
  role_daemon thread core := by split <;> [simp_all; split <;> simp_all]

/-- The core right after `init_threads`; thread 2 runs. -/
def soloBoot : System Nat Unit Unit where
  state thread := if thread = 2 then .running else .ready
  homeCore _ := ()
  priority _ := 0
  next _ := none
  ends _ := Ends.empty
  activePriorities _ _ := false
  currentThread _ := 2
  phase _ := .running
  callouts _ := []
  alive thread := thread = 0 ∨ thread = 2
  tailSeen _ := none
  members _ := []

theorem soloBoot_boot : Boot soloRoster soloBoot := by
  constructor <;> intro _ <;> rfl

/-- Two cores; threads 0 and 1 are their idle threads, 2 and 3 their timer daemons. -/
def pairRoster : Roster Nat Bool where
  role
    | 0 => .idle false
    | 1 => .idle true
    | 2 => .daemon false
    | 3 => .daemon true
    | _ => .worker
  idle core := if core then 1 else 0
  daemon core := if core then 3 else 2
  role_idle thread core := by
    match thread, core with
    | 0, false | 0, true | 1, false | 1, true | 2, false | 2, true | 3, false | 3, true => simp
    | _ + 4, false | _ + 4, true => simp
  role_daemon thread core := by
    match thread, core with
    | 0, false | 0, true | 1, false | 1, true | 2, false | 2, true | 3, false | 3, true => simp
    | _ + 4, false | _ + 4, true => simp

/-- The cores run their first threads, 4 and 5. -/
def pairBoot : System Nat Bool Unit where
  state thread := if thread = 4 ∨ thread = 5 then .running else .ready
  homeCore thread := thread = 5
  priority _ := 0
  next _ := none
  ends _ := Ends.empty
  activePriorities _ _ := false
  currentThread core := if core then 5 else 4
  phase _ := .running
  callouts _ := []
  alive thread := thread = 0 ∨ thread = 1 ∨ thread = 4 ∨ thread = 5
  tailSeen _ := none
  members _ := []

theorem pairBoot_boot : Boot pairRoster pairBoot := by
  constructor
  case ends_eq | members_eq => exact fun _ => rfl
  all_goals
    intro core
    cases core <;> rfl

end Scheduler
end Vespertine
