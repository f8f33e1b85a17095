import Vespertine.Thread.ContextSwitch
import Vespertine.Thread.SingleQueue

/-!
# The reaper

`terminate` and `ThreadOp::Kill` push a thread to the graveyard, and `reaper_daemon` frees what it
pops from there.  A thread that exits is pushed while it still runs, and `schedule` still executes
on its stack when another thread is current already; a thread that is killed may be anywhere.

`schedule` is cut in two here: the choice of the next thread, which becomes current, and the context
switch, before which another core may act.
-/

namespace Vespertine
namespace Reaper

open Scheduler IntrusiveQueue
open ContextSwitch (Call Context switchThreads)

structure State (θ κ ω π : Type) where
  base : ContextSwitch.State θ κ ω π
  /-- The thread that `reaper_daemon` has popped and passed to `reap_thread`. -/
  zombie : Option θ
  /-- The thread whose `terminate` has pushed it to the graveyard and has not switched away. -/
  exits : κ → Option θ

inductive Input (θ κ ω π : Type) where
  /-- What is none of the following. -/
  | context (input : ContextSwitch.Input θ κ ω π)
  /-- `terminate` up to its call of `schedule`. -/
  | terminate (core : κ)
  /-- `schedule` up to the moment at which the next thread is current. -/
  | choose (core : κ) (stackPtr : Nat)
  /-- The rest of `schedule`, or one turn of its wait for the address space. -/
  | switch (core : κ) (queue : ω)
  /-- `graveyard.pop()`. -/
  | popZombie (core : κ)
  /-- `reap_thread` returns. -/
  | reap (core : κ)

variable {θ κ ω π : Type} [DecidableEq θ] [DecidableEq κ] [DecidableEq ω] [DecidableEq π]

/-- The inputs that are cut in pieces here. -/
def divided : ContextSwitch.Input θ κ ω π → Bool
  | .other (.terminate _) | .other .reap | .schedule .. | .read .. => true
  | _ => false

namespace State

def sys (state : State θ κ ω π) : System θ κ ω := state.base.sys

/-- A core runs a thread, or executes on its stack. -/
def Uses (state : State θ κ ω π) (core : κ) (thread : θ) : Prop :=
  state.sys.currentThread core = thread ∨ (state.base.cpu core).owner = thread

/-- The reaper executes on a core. -/
def Runs (state : State θ κ ω π) (reaper : θ) (core : κ) : Prop :=
  state.sys.currentThread core = reaper ∧ state.sys.phase core = .running ∧
    (state.base.cpu core).calls.isEmpty = true

instance (state : State θ κ ω π) (reaper : θ) (core : κ) : Decidable (state.Runs reaper core) :=
  inferInstanceAs (Decidable (_ ∧ _ ∧ _))

/-- The thread that was chosen is current, and its predecessor's stack is still in use. -/
def choose (base : ContextSwitch.State θ κ ω π) (core : κ) (prev next : θ) :
    ContextSwitch.State θ κ ω π :=
  if prev = next then
    base
  else
    { base with
      cpu := Function.update base.cpu core
        { base.cpu core with calls := ⟨prev, next, 0⟩ :: (base.cpu core).calls } }

/-- The rest of `schedule` after a choice. -/
def switch (roster : Roster θ κ) (state : State θ κ ω π) (core : κ) (queue : ω) (call : Call θ)
    (rest : List (Call θ)) : Except Fault (State θ κ ω π) :=
  let lock := state.base.vmm (state.base.process call.next)
  if state.sys.phase core = .leaving then
    .error .disabled
  else if state.base.process call.prev = state.base.process call.next ∨
      lock.writer = false ∧ lock.writersWaiting = 0 then
    .ok { state with
      base := switchThreads state.base core call rest
      exits := Function.update state.exits core none }
  else if lock.writer = true then
    (Scheduler.step roster state.sys (.reenter core queue)).map fun sys =>
      { state with base := { state.base with sys } }
  else
    .ok state

end State

/-- `reaper` is the thread that executes `reaper_daemon`. -/
def step (roster : Roster θ κ) (reaper : θ) (state : State θ κ ω π) :
    Input θ κ ω π → Except Fault (State θ κ ω π)
  | .context input =>
      if divided input = false then
        (ContextSwitch.step roster state.base input).map fun base => { state with base }
      else
        .error .disabled
  | .terminate core =>
      (ContextSwitch.step roster state.base (.other (.terminate core))).map fun base =>
        { state with
          base
          exits := Function.update state.exits core (some (state.sys.currentThread core)) }
  | .choose core position =>
      if (state.base.cpu core).calls = [] ∨ state.sys.phase core = .leaving then
        (Scheduler.step roster state.sys (.schedule core)).map fun sys =>
          { state with
            base := State.choose ({ state.base with sys }.enter core position) core
              (state.sys.currentThread core) (sys.currentThread core) }
      else
        .error .disabled
  | .switch core queue =>
      match (state.base.cpu core).calls with
      | [] => .error .disabled
      | call :: rest => state.switch roster core queue call rest
  | .popZombie core =>
      if state.Runs reaper core ∧ state.zombie = none then
        match state.sys.popQueue .graveyard with
        | (none, _) => .ok state
        | (some thread, popped) =>
            .ok { state with base := { state.base with sys := popped }, zombie := some thread }
      else
        .error .disabled
  | .reap core =>
      match state.zombie with
      | none => .error .disabled
      | some thread =>
          if state.Runs reaper core then
            let sys := { state.sys with alive := Function.update state.sys.alive thread false }
            .ok { state with base := { state.base with sys }, zombie := none }
          else
            .error .disabled

/-- Nobody uses a thread or has it in a queue, and its control block is still there. -/
structure Unused (state : State θ κ ω π) (thread : θ) : Prop where
  not_current : ∀ core, state.sys.currentThread core ≠ thread
  off_stack : ∀ core, (state.base.cpu core).owner ≠ thread
  unlinked : ∀ queue, thread ∉ state.sys.members (.queue queue)
  alive : state.sys.alive thread = true

/-- What `reap_thread` works on is not in use, and the queues hold what was pushed to them. -/
structure Safe (state : State θ κ ω π) : Prop where
  queues : SingleQueue state.sys
  unused : ∀ thread ∈ state.zombie, Unused state thread

/-- What nothing in the code checks. -/
def Careful (state : State θ κ ω π) : Input θ κ ω π → Prop
  -- The thread that is killed is not in use, in no queue, and was not killed before.
  | .context (.other (.kill thread)) =>
      Unclaimed state.sys thread ∧ state.sys.state thread ≠ .terminated ∧
        ∀ core, ¬ state.Uses core thread
  | .context (.other (.expire core thread)) =>
      Orderly state.sys (.expire core thread) ∧ state.sys.state thread ≠ .terminated
  | .context (.other event) => Orderly state.sys event
  | .context (.initTimerDaemon core _) => Quiet state.sys core
  | .terminate core => Orderly state.sys (.terminate core)
  | .choose core _ => Orderly state.sys (.schedule core)
  -- No writer holds the address space that `schedule` needs.
  | .switch core _ => ∀ call ∈ (state.base.cpu core).calls.head?,
      state.base.process call.prev ≠ state.base.process call.next →
        (state.base.vmm (state.base.process call.next)).writer = false
  -- The thread that is popped is not inside `terminate`.
  | .popZombie _ => ∀ thread ∈ (state.sys.ends .graveyard).head, ∀ core,
      state.exits core ≠ some thread
  | _ => True

def machine (roster : Roster θ κ) (reaper : θ) :
    Machine (State θ κ ω π) (Input θ κ ω π) Fault where
  step := step roster reaper
  permitted := Careful

structure Fresh (roster : Roster θ κ) (state : State θ κ ω π) : Prop where
  base : ContextSwitch.Fresh roster state.base
  zombie_eq : state.zombie = none
  exits_eq : ∀ core, state.exits core = none

/-!
### What an event leaves alone
-/

section Frame

variable {roster : Roster θ κ} {sys next : System θ κ ω} {core : κ} {thread other : θ}

/-- The thread that an event moves or marks. -/
def subject (roster : Roster θ κ) (sys : System θ κ ω) : Event θ κ ω → Option θ
  | .spawn thread _ _ | .wake thread | .wakeThread _ thread | .beginWakeThread _ thread
  | .finishWakeThread _ thread | .expire _ thread | .kill thread => some thread
  | .initTimerDaemon core | .wakeDaemon core => some (roster.daemon core)
  | .beginWait core _ | .enterWait core | .sleep core | .block core | .schedule core
  | .reenter core _ | .terminate core => some (sys.currentThread core)
  | .popWait queue => (sys.ends (.wait queue)).head
  | .takeMail core => (sys.ends (.mailbox core)).head
  | .reap => (sys.ends .graveyard).head

/-- An event other than `schedule` does nothing to any other thread. -/
theorem step_agree {event : Event θ κ ω} (not_schedule : ∀ core, event ≠ .schedule core)
    (apart : thread ∉ subject roster sys event)
    (step_eq : Scheduler.step roster sys event = .ok next) : Agree sys next thread := by
  have ne {other : θ} (is_other : subject roster sys event = some other) : thread ≠ other :=
    fun same => apart (same ▸ is_other)
  cases event with
  | spawn other home priority =>
      obtain ⟨_, ⟨⟩⟩ := guard_eq_ok.mp step_eq
      exact (agree_initThread sys (ne rfl) home priority).trans (agree_pushQueue _ (ne rfl) _)
  | initTimerDaemon core =>
      obtain ⟨_, push_eq⟩ := guard_eq_ok.mp step_eq
      exact (agree_initThread sys (ne rfl) _ _).trans (agree_push (ne rfl) push_eq)
  | beginWait core queue =>
      obtain ⟨_, ⟨⟩⟩ := guard_eq_ok.mp step_eq
      exact (agree_setState sys (ne rfl) _).trans (agree_setPhase (by exact ne rfl) _)
  | enterWait core =>
      obtain ⟨queue, _, rfl⟩ := enterWait_eq_ok step_eq
      exact (agree_pushQueue sys (ne rfl) _).trans (agree_setPhase (by exact ne rfl) _)
  | sleep core =>
      obtain ⟨_, ⟨⟩⟩ := guard_eq_ok.mp step_eq
      have marked := agree_setState sys (ne rfl) .blocked
      have promised : Agree (sys.setState (sys.currentThread core) .blocked)
          { sys.setState (sys.currentThread core) .blocked with
            callouts := Function.update sys.callouts core
              (sys.currentThread core :: sys.callouts core) } thread :=
        ⟨rfl, rfl, rfl, fun _ => Iff.rfl, fun _ current => ⟨current, rfl⟩⟩
      exact (marked.trans promised).trans (agree_setPhase (by exact ne rfl) _)
  | block core =>
      obtain ⟨_, ⟨⟩⟩ := guard_eq_ok.mp step_eq
      exact (agree_setState sys (ne rfl) _).trans (agree_setPhase (by exact ne rfl) _)
  | wake other =>
      obtain ⟨_, ⟨⟩⟩ := guard_eq_ok.mp step_eq
      exact agree_putInto sys (ne rfl) .hand
  | popWait queue =>
      obtain rfl | ⟨other, popped, pop_eq, ⟨⟩⟩ := popQueue_eq_ok step_eq
      · exact Agree.refl _ thread
      · have apart := ne (popQueue_head pop_eq)
        exact (agree_popQueue apart pop_eq).trans (agree_putInto popped apart .hand)
  | wakeThread core other =>
      obtain ⟨_, woken_eq⟩ := guard_eq_ok.mp step_eq
      have readied := (agree_takeFrom sys (ne rfl) .hand).trans (agree_setState _ (ne rfl) .ready)
      split at woken_eq
      next => exact readied.trans (agree_push (ne rfl) woken_eq)
      next =>
        cases woken_eq
        exact readied.trans (agree_pushQueue _ (ne rfl) _)
  | beginWakeThread core other =>
      obtain ⟨_, begin_eq⟩ := guard_eq_ok.mp step_eq
      have readied := (agree_takeFrom sys (ne rfl) .hand).trans (agree_setState _ (ne rfl) .ready)
      exact readied.trans (agree_beginPush (ne rfl) begin_eq)
  | finishWakeThread core other =>
      obtain ⟨_, ⟨⟩⟩ := guard_eq_ok.mp step_eq
      exact (agree_takeFrom sys (ne rfl) _).trans (agree_finishPush _ (ne rfl) core)
  | wakeDaemon core =>
      obtain ⟨_, push_eq⟩ := guard_eq_ok.mp step_eq
      exact (agree_setState sys (ne rfl) .ready).trans (agree_push (ne rfl) push_eq)
  | expire core other =>
      obtain ⟨_, push_eq⟩ := guard_eq_ok.mp step_eq
      have readied := agree_setState sys (ne rfl) .ready
      have forgotten : Agree (sys.setState other .ready)
          { sys.setState other .ready with
            callouts := Function.update sys.callouts core ((sys.callouts core).erase other) }
          thread :=
        ⟨rfl, rfl, rfl, fun _ => Iff.rfl, fun _ current => ⟨current, rfl⟩⟩
      exact (readied.trans forgotten).trans (agree_push (ne rfl) push_eq)
  | takeMail core =>
      obtain rfl | ⟨other, popped, pop_eq, push_eq⟩ := takeMail_eq_ok step_eq
      · exact Agree.refl _ thread
      · have apart := ne (popQueue_head pop_eq)
        have readied := (agree_popQueue apart pop_eq).trans (agree_setState popped apart .ready)
        exact readied.trans (agree_push apart push_eq)
  | schedule core => exact absurd rfl (not_schedule core)
  | reenter core queue =>
      obtain ⟨_, ⟨⟩⟩ := guard_eq_ok.mp step_eq
      have marked := agree_setState sys (ne rfl) .blocked
      have pushed := marked.trans (agree_pushQueue _ (ne rfl) (.wait queue))
      exact pushed.trans (agree_setPhase (by exact ne rfl) _)
  | terminate core =>
      obtain ⟨_, ⟨⟩⟩ := guard_eq_ok.mp step_eq
      have marked := agree_setState sys (ne rfl) .terminated
      have pushed := marked.trans (agree_pushQueue _ (ne rfl) .graveyard)
      exact pushed.trans (agree_setPhase (by exact ne rfl) _)
  | kill other =>
      obtain ⟨_, ⟨⟩⟩ := guard_eq_ok.mp step_eq
      exact (agree_setState sys (ne rfl) .terminated).trans (agree_pushQueue _ (ne rfl) _)
  | reap =>
      obtain rfl | ⟨other, popped, pop_eq, ⟨⟩⟩ := popQueue_eq_ok step_eq
      · exact Agree.refl _ thread
      · have apart := ne (popQueue_head pop_eq)
        refine (agree_popQueue apart pop_eq).trans ?_
        exact ⟨rfl, rfl, Function.update_of_ne apart .., fun _ => Iff.rfl,
          fun _ current => ⟨current, rfl⟩⟩

theorem agree_requeue {prev : θ} (ne : thread ≠ prev)
    (requeue_eq : requeue roster sys core prev other = .ok next) : Agree sys next thread := by
  unfold requeue at requeue_eq
  split at requeue_eq
  · dsimp only at requeue_eq
    split at requeue_eq
    · exact (agree_setState sys ne .ready).trans (agree_push ne requeue_eq)
    · cases requeue_eq
      exact agree_setState sys ne .ready
  · cases requeue_eq
    exact Agree.refl sys thread

omit [DecidableEq ω] in
theorem agree_dispatch (sys : System θ κ ω) (ne : thread ≠ other) (core : κ) :
    Agree sys (dispatch sys core other) thread := by
  refine ⟨Function.update_of_ne ne .., rfl, rfl, fun _ => Iff.rfl, fun at_core current => ?_⟩
  have elsewhere : at_core ≠ core := by
    rintro rfl
    exact ne (by simpa [dispatch, System.setPhase, System.setState] using current.symm)
  simpa [dispatch, System.setPhase, System.setState, elsewhere] using current

/-- Nothing is buried, and what is allocated stays and keeps its home. -/
structure Keeps (sys next : System θ κ ω) : Prop where
  graveyard : ∀ thread ∈ next.members (.queue .graveyard),
    thread ∈ sys.members (.queue .graveyard)
  alive : ∀ thread, sys.alive thread = true →
    next.alive thread = true ∧ next.homeCore thread = sys.homeCore thread

omit [DecidableEq θ] [DecidableEq κ] [DecidableEq ω] in
theorem Keeps.trans {last : System θ κ ω} (first : Keeps sys next) (second : Keeps next last) :
    Keeps sys last where
  graveyard thread mem := first.graveyard thread (second.graveyard thread mem)
  alive thread is_alive := by
    obtain ⟨next_alive, next_home⟩ := first.alive thread is_alive
    obtain ⟨last_alive, last_home⟩ := second.alive thread next_alive
    exact ⟨last_alive, last_home.trans next_home⟩

omit [DecidableEq θ] [DecidableEq κ] [DecidableEq ω] in
/-- Neither the control blocks nor the graveyard change. -/
theorem Keeps.of_eq (alive_eq : next.alive = sys.alive) (home_eq : next.homeCore = sys.homeCore)
    (members_eq : next.members (.queue .graveyard) = sys.members (.queue .graveyard)) :
    Keeps sys next where
  graveyard _ mem := members_eq ▸ mem
  alive thread is_alive := ⟨alive_eq ▸ is_alive, congrFun home_eq thread⟩

theorem keeps_pushQueue (sys : System θ κ ω) (queue : QueueId κ ω) (ne : queue ≠ .graveyard)
    (thread : θ) : Keeps sys (sys.pushQueue queue thread) := by
  refine Keeps.of_eq rfl rfl (Function.update_of_ne ?_ ..)
  exact fun same => ne (Place.queue.inj same).symm

theorem keeps_push (push_eq : sys.push core thread = .ok next) : Keeps sys next := by
  obtain ⟨_, ⟨⟩⟩ := guard_eq_ok.mp push_eq
  exact (keeps_pushQueue sys (.ready core (sys.priority thread)) nofun thread).trans
    (.of_eq rfl rfl rfl)

theorem keeps_takeFrom (sys : System θ κ ω) (place : Place κ ω) (thread : θ) :
    Keeps sys (sys.takeFrom place thread) := by
  refine ⟨fun other mem => ?_, fun other is_alive => ⟨is_alive, rfl⟩⟩
  rcases eq_or_ne (Place.queue .graveyard) place with rfl | apart
  · exact List.mem_of_mem_erase (by simpa [System.takeFrom, leave] using mem)
  · simpa [System.takeFrom, leave, apart] using mem

omit [DecidableEq θ] in
theorem keeps_putInto (sys : System θ κ ω) (place : Place κ ω) (ne : .queue .graveyard ≠ place)
    (thread : θ) : Keeps sys (sys.putInto place thread) :=
  .of_eq rfl rfl (Function.update_of_ne ne ..)

theorem keeps_popQueue {queue : QueueId κ ω} {popped : System θ κ ω}
    (pop_eq : sys.popQueue queue = (some thread, popped)) : Keeps sys popped := by
  have taken := keeps_takeFrom sys (.queue queue) thread
  rw [System.popQueue] at pop_eq
  split at pop_eq
  next => cases pop_eq
  next =>
    cases pop_eq
    exact taken.trans (.of_eq rfl rfl rfl)

omit [DecidableEq κ] [DecidableEq ω] in
theorem keeps_initThread (sys : System θ κ ω) (dead : sys.alive thread = false) (home : κ)
    (priority : Nat) : Keeps sys (initThread sys thread home priority) := by
  refine ⟨fun other mem => mem, fun other is_alive => ?_⟩
  have apart : other ≠ thread := by
    rintro rfl
    rw [dead] at is_alive
    cases is_alive
  exact ⟨(Function.update_of_ne apart ..).trans is_alive, Function.update_of_ne apart ..⟩

theorem keeps_requeue {prev : θ} (requeue_eq : requeue roster sys core prev other = .ok next) :
    Keeps sys next := by
  unfold requeue at requeue_eq
  split at requeue_eq
  · dsimp only at requeue_eq
    split at requeue_eq
    · have readied : Keeps sys (sys.setState prev .ready) := .of_eq rfl rfl rfl
      exact readied.trans (keeps_push requeue_eq)
    · cases requeue_eq
      exact .of_eq rfl rfl rfl
  · cases requeue_eq
    exact .of_eq rfl rfl rfl

theorem keeps_schedule (schedule_eq : Scheduler.schedule roster sys core = .ok next) :
    Keeps sys next := by
  rcases pop_eq : sys.pop core with ⟨found, popped⟩
  obtain ⟨requeued, requeue_eq, rfl⟩ := schedule_eq_ok pop_eq schedule_eq
  have taken : Keeps sys popped := by
    cases found with
    | none =>
        obtain rfl := pop_none pop_eq
        exact .of_eq rfl rfl rfl
    | some thread =>
        obtain ⟨priority, after, active, popQueue_eq, rfl⟩ := pop_some pop_eq
        exact (keeps_popQueue popQueue_eq).trans (.of_eq rfl rfl rfl)
  exact (taken.trans (keeps_requeue requeue_eq)).trans (.of_eq rfl rfl rfl)

/-- The events that bury a thread or free it. -/
def disposes : Event θ κ ω → Bool
  | .terminate _ | .kill _ | .reap => true
  | _ => false

theorem step_keeps {event : Event θ κ ω} (plain : disposes event = false)
    (step_eq : Scheduler.step roster sys event = .ok next) : Keeps sys next := by
  cases event with
  | spawn thread home priority =>
      obtain ⟨⟨_, dead⟩, ⟨⟩⟩ := guard_eq_ok.mp step_eq
      exact (keeps_initThread sys dead home priority).trans
        (keeps_pushQueue _ (.mailbox home) nofun thread)
  | initTimerDaemon core =>
      obtain ⟨dead, push_eq⟩ := guard_eq_ok.mp step_eq
      exact (keeps_initThread sys dead _ _).trans (keeps_push push_eq)
  | beginWait core queue =>
      obtain ⟨_, ⟨⟩⟩ := guard_eq_ok.mp step_eq
      exact .of_eq rfl rfl rfl
  | enterWait core =>
      obtain ⟨queue, _, rfl⟩ := enterWait_eq_ok step_eq
      have pushed := keeps_pushQueue sys (.wait queue) nofun (sys.currentThread core)
      exact pushed.trans (.of_eq rfl rfl rfl)
  | sleep core =>
      obtain ⟨_, ⟨⟩⟩ := guard_eq_ok.mp step_eq
      exact .of_eq rfl rfl rfl
  | block core =>
      obtain ⟨_, ⟨⟩⟩ := guard_eq_ok.mp step_eq
      exact .of_eq rfl rfl rfl
  | wake thread =>
      obtain ⟨_, ⟨⟩⟩ := guard_eq_ok.mp step_eq
      exact keeps_putInto sys .hand nofun thread
  | popWait queue =>
      obtain rfl | ⟨thread, popped, pop_eq, ⟨⟩⟩ := popQueue_eq_ok step_eq
      · exact .of_eq rfl rfl rfl
      · exact (keeps_popQueue pop_eq).trans (keeps_putInto popped .hand nofun thread)
  | wakeThread core thread =>
      obtain ⟨_, woken_eq⟩ := guard_eq_ok.mp step_eq
      have readied : Keeps sys ((sys.takeFrom .hand thread).setState thread .ready) :=
        (keeps_takeFrom sys .hand thread).trans (.of_eq rfl rfl rfl)
      split at woken_eq
      next => exact readied.trans (keeps_push woken_eq)
      next =>
        cases woken_eq
        exact readied.trans (keeps_pushQueue _ (.mailbox _) nofun thread)
  | beginWakeThread core thread =>
      obtain ⟨_, begin_eq⟩ := guard_eq_ok.mp step_eq
      obtain ⟨_, ⟨⟩⟩ := guard_eq_ok.mp begin_eq
      have taken := keeps_takeFrom sys .hand thread
      have put := keeps_putInto (sys.takeFrom .hand thread) (.inserting core) nofun thread
      exact (taken.trans put).trans (.of_eq rfl rfl rfl)
  | finishWakeThread core thread =>
      obtain ⟨_, ⟨⟩⟩ := guard_eq_ok.mp step_eq
      have taken := keeps_takeFrom sys (.inserting core) thread
      have pushed := keeps_pushQueue (sys.takeFrom (.inserting core) thread)
        (.ready core (sys.priority thread)) nofun thread
      exact (taken.trans pushed).trans (.of_eq rfl rfl rfl)
  | wakeDaemon core =>
      obtain ⟨_, push_eq⟩ := guard_eq_ok.mp step_eq
      have readied : Keeps sys (sys.setState (roster.daemon core) .ready) := .of_eq rfl rfl rfl
      exact readied.trans (keeps_push push_eq)
  | expire core thread =>
      obtain ⟨_, push_eq⟩ := guard_eq_ok.mp step_eq
      have pushed := keeps_push push_eq
      exact ⟨pushed.graveyard, pushed.alive⟩
  | takeMail core =>
      obtain rfl | ⟨thread, popped, pop_eq, push_eq⟩ := takeMail_eq_ok step_eq
      · exact .of_eq rfl rfl rfl
      · have readied : Keeps popped (popped.setState thread .ready) := .of_eq rfl rfl rfl
        exact ((keeps_popQueue pop_eq).trans readied).trans (keeps_push push_eq)
  | schedule core => exact keeps_schedule (step_schedule_eq_ok step_eq)
  | reenter core queue =>
      obtain ⟨_, ⟨⟩⟩ := guard_eq_ok.mp step_eq
      have pushed := keeps_pushQueue sys (.wait queue) nofun (sys.currentThread core)
      exact pushed.trans (.of_eq rfl rfl rfl)
  | terminate core => cases plain
  | kill thread => cases plain
  | reap => cases plain

end Frame

/-!
### Threads in the graveyard
-/

section Dead

variable {roster : Roster θ κ} {sys next : System θ κ ω} {core : κ} {thread : θ}

/-- A thread that will not run again. -/
structure Dead (roster : Roster θ κ) (sys : System θ κ ω) (thread : θ) : Prop where
  alive : sys.alive thread = true
  role : roster.role thread = .worker
  terminated : sys.state thread = .terminated
  places : ∀ place, thread ∈ sys.members place → place = .queue .graveyard
  leaving : ∀ core, sys.currentThread core = thread → sys.phase core = .leaving

omit [DecidableEq θ] [DecidableEq κ] [DecidableEq ω] in
theorem Dead.agree (dead : Dead roster sys thread) (agree : Agree sys next thread) :
    Dead roster next thread where
  alive := agree.alive.trans dead.alive
  role := dead.role
  terminated := agree.state.trans dead.terminated
  places place mem := dead.places place ((agree.members place).mp mem)
  leaving core current := by
    obtain ⟨was, phase_eq⟩ := agree.current core current
    exact phase_eq.trans (dead.leaving core was)

/-- What an event may not name. -/
def Spares (sys : System θ κ ω) (thread : θ) : Event θ κ ω → Prop
  | .kill other | .expire _ other => thread ≠ other
  | .reap => False
  | event => Orderly sys event

omit [DecidableEq θ] [DecidableEq κ] [DecidableEq ω] in
theorem head_mem (sound : Scheduler.Sound roster sys) {queue : QueueId κ ω}
    (head_eq : (sys.ends queue).head = some thread) : thread ∈ sys.members (.queue queue) := by
  have members_head := (sound.filed.queue queue).head_eq
  rw [head_eq] at members_head
  exact List.mem_of_head? members_head.symm

/-- No event but `schedule` acts on a dead thread. -/
theorem Dead.not_subject {event : Event θ κ ω} (dead : Dead roster sys thread)
    (sound : Scheduler.Sound roster sys) (spares : Spares sys thread event)
    (not_schedule : ∀ core, event ≠ .schedule core)
    (step_eq : Scheduler.step roster sys event = .ok next) :
    thread ∉ subject roster sys event := by
  intro is_subject
  have not_running : sys.state thread ≠ .running := by rw [dead.terminated]; nofun
  have not_daemon : ∀ core, thread ≠ roster.daemon core := by
    intro core same
    cases dead.role.symm.trans ((roster.role_daemon thread core).mpr same)
  have not_current {core : κ} (running : sys.phase core = .running) :
      sys.currentThread core ≠ thread :=
    fun current => by cases running.symm.trans (dead.leaving core current)
  cases event with
  | spawn other home priority =>
      obtain ⟨⟨_, unused⟩, _⟩ := guard_eq_ok.mp step_eq
      obtain rfl := Option.some.inj is_subject
      cases unused.symm.trans dead.alive
  | initTimerDaemon core => exact not_daemon core (Option.some.inj is_subject).symm
  | beginWait core queue =>
      obtain ⟨⟨running, _⟩, _⟩ := guard_eq_ok.mp step_eq
      exact not_current running (Option.some.inj is_subject)
  | enterWait core =>
      obtain ⟨queue, waiting, _⟩ := enterWait_eq_ok step_eq
      cases waiting.symm.trans (dead.leaving core (Option.some.inj is_subject))
  | sleep core =>
      obtain ⟨⟨running, _⟩, _⟩ := guard_eq_ok.mp step_eq
      exact not_current running (Option.some.inj is_subject)
  | block core =>
      obtain ⟨⟨running, _⟩, _⟩ := guard_eq_ok.mp step_eq
      exact not_current running (Option.some.inj is_subject)
  | wake other =>
      obtain ⟨⟨_, blocked⟩, _⟩ := guard_eq_ok.mp step_eq
      obtain rfl := Option.some.inj is_subject
      cases blocked.symm.trans dead.terminated
  | popWait queue => cases dead.places _ (head_mem sound is_subject)
  | wakeThread core other =>
      obtain ⟨mem, _⟩ := guard_eq_ok.mp step_eq
      obtain rfl := Option.some.inj is_subject
      cases dead.places _ mem
  | beginWakeThread core other =>
      obtain ⟨⟨mem, _⟩, _⟩ := guard_eq_ok.mp step_eq
      obtain rfl := Option.some.inj is_subject
      cases dead.places _ mem
  | finishWakeThread core other =>
      obtain ⟨mem, _⟩ := guard_eq_ok.mp step_eq
      obtain rfl := Option.some.inj is_subject
      cases dead.places _ mem
  | wakeDaemon core => exact not_daemon core (Option.some.inj is_subject).symm
  | expire core other => exact spares (Option.some.inj is_subject).symm
  | takeMail core => cases dead.places _ (head_mem sound is_subject)
  | schedule core => exact absurd rfl (not_schedule core)
  | reenter core queue => exact spares.elim
  | terminate core =>
      have running : sys.state (sys.currentThread core) = .running := spares
      rw [Option.some.inj is_subject] at running
      exact not_running running
  | kill other => exact spares (Option.some.inj is_subject).symm
  | reap => exact spares.elim

/-- `schedule` does nothing to a dead thread, but it may leave it. -/
theorem Dead.schedule (dead : Dead roster sys thread) (sound : Scheduler.Sound roster sys)
    (schedule_eq : Scheduler.schedule roster sys core = .ok next) : Agree sys next thread := by
  have not_running : sys.state thread ≠ .running := by rw [dead.terminated]; nofun
  have not_idle : thread ≠ roster.idle core := by
    intro same
    cases dead.role.symm.trans ((roster.role_idle thread core).mpr same)
  rcases pop_eq : sys.pop core with ⟨found, popped⟩
  obtain ⟨requeued, requeue_eq, rfl⟩ := schedule_eq_ok pop_eq schedule_eq
  -- Neither what was popped nor what runs next is the dead thread.
  have ⟨taken, not_next⟩ : Agree sys popped thread ∧
      thread ≠ nextThread roster popped core found := by
    cases found with
    | none =>
        obtain rfl := pop_none pop_eq
        refine ⟨Agree.refl _ thread, ?_⟩
        rw [nextThread]
        split
        next running =>
          rintro rfl
          exact not_running running
        next => exact not_idle
    | some other =>
        obtain ⟨priority, after, active, popQueue_eq, rfl⟩ := pop_some pop_eq
        have apart : thread ≠ other := by
          rintro rfl
          cases dead.places _ (head_mem sound (popQueue_head popQueue_eq))
        refine ⟨(agree_popQueue apart popQueue_eq).trans ?_, apart⟩
        exact ⟨rfl, rfl, rfl, fun _ => Iff.rfl, fun _ current => ⟨current, rfl⟩⟩
  have put_back : Agree popped requeued thread := by
    rcases eq_or_ne thread (popped.currentThread core) with rfl | apart
    · rw [requeue_stopped (by rw [taken.state]; exact not_running)] at requeue_eq
      cases requeue_eq
      exact Agree.refl _ _
    · exact agree_requeue apart requeue_eq
  exact (taken.trans put_back).trans (agree_dispatch requeued not_next core)

end Dead

/-!
### Runs
-/

section Runs

variable {roster : Roster θ κ} {reaper : θ} {state next : State θ κ ω π} {core : κ} {thread : θ}

structure Sound (roster : Roster θ κ) (state : State θ κ ω π) : Prop where
  threads : Scheduler.Sound roster state.sys
  switching : ContextSwitch.Sound state.base
  /-- A core executes on the stack of a thread that belongs to it. -/
  owners : ∀ core, state.sys.alive (state.base.cpu core).owner = true ∧
    runsOn roster state.sys (state.base.cpu core).owner = core
  buried : ∀ thread ∈ state.sys.members (.queue .graveyard),
    Dead roster state.sys thread ∧ ∀ core, state.Uses core thread → state.exits core = some thread
  zombie : ∀ thread ∈ state.zombie,
    Dead roster state.sys thread ∧ Loose state.sys.members thread ∧
      ∀ core, ¬ state.Uses core thread

namespace Sound

section Facts

omit [DecidableEq θ] [DecidableEq κ] [DecidableEq ω] [DecidableEq π]

theorem safe (sound : Sound roster state) : Safe state where
  queues := sound.threads.filed.singleQueue
  unused thread is_zombie := by
    obtain ⟨dead, loose, unused⟩ := sound.zombie thread is_zombie
    exact {
      not_current := fun core current => unused core (.inl current)
      off_stack := fun core owner => unused core (.inr owner)
      unlinked := fun queue => loose (.queue queue)
      alive := dead.alive }

theorem fresh (fresh : Fresh roster state) : Sound roster state where
  threads := .boot fresh.base.boot
  switching := .fresh fresh.base
  owners core := by
    rw [fresh.base.cpu_owner core]
    exact ((Scheduler.Sound.boot fresh.base.boot).threads _).current core rfl
  buried thread mem := by
    rw [show state.sys.members = state.base.sys.members from rfl,
      fresh.base.boot.members_eq] at mem
    cases mem
  zombie thread is_zombie := by
    rw [fresh.zombie_eq] at is_zombie
    cases is_zombie

/-- Two cores do not use one thread. -/
theorem uses_inj (sound : Sound roster state) {other : κ} (one : state.Uses core thread)
    (also : state.Uses other thread) : other = core := by
  have home {at_core : κ} (uses : state.Uses at_core thread) :
      runsOn roster state.sys thread = at_core := by
    rcases uses with rfl | rfl
    · exact ((sound.threads.threads _).current at_core rfl).2
    · exact (sound.owners at_core).2
  exact (home also).symm.trans (home one)

/-- The dead threads do not notice an event, except those that it buries. -/
theorem carry (sound : Sound roster state) (threads : Scheduler.Sound roster next.sys)
    (switching : ContextSwitch.Sound next.base)
    (alive : ∀ thread, state.sys.alive thread = true → next.sys.alive thread = true ∧
      next.sys.homeCore thread = state.sys.homeCore thread)
    (owner_eq : ∀ core, (next.base.cpu core).owner = (state.base.cpu core).owner)
    (zombie_eq : next.zombie = state.zombie)
    (agree : ∀ thread, Dead roster state.sys thread → Agree state.sys next.sys thread)
    (graveyard : ∀ thread ∈ next.sys.members (.queue .graveyard),
      thread ∈ state.sys.members (.queue .graveyard) ∨ Dead roster next.sys thread ∧
        ∀ core, next.Uses core thread → next.exits core = some thread)
    (exits : ∀ thread ∈ state.sys.members (.queue .graveyard), ∀ core, state.Uses core thread →
      next.exits core = state.exits core) : Sound roster next := by
  have uses {thread : θ} (agree : Agree state.sys next.sys thread) (core : κ)
      (uses : next.Uses core thread) : state.Uses core thread := by
    rcases uses with current | owner
    · exact .inl (agree.current core current).1
    · exact .inr ((owner_eq core).symm.trans owner)
  refine ⟨threads, switching, fun core => ?_, fun thread mem => ?_, fun thread is_zombie => ?_⟩
  · obtain ⟨was_alive, home⟩ := sound.owners core
    obtain ⟨still_alive, home_eq⟩ := alive _ was_alive
    have runs_eq : runsOn roster next.sys (state.base.cpu core).owner =
        runsOn roster state.sys (state.base.cpu core).owner := by
      simp only [runsOn, home_eq]
    rw [owner_eq]
    exact ⟨still_alive, runs_eq.trans home⟩
  · rcases graveyard thread mem with was | new
    · obtain ⟨dead, leaves⟩ := sound.buried thread was
      have same := agree thread dead
      refine ⟨dead.agree same, fun core in_use => ?_⟩
      have was_in_use := uses same core in_use
      exact (exits thread was core was_in_use).trans (leaves core was_in_use)
    · exact new
  · rw [zombie_eq] at is_zombie
    obtain ⟨dead, loose, unused⟩ := sound.zombie thread is_zombie
    have same := agree thread dead
    exact ⟨dead.agree same, same.loose loose,
      fun core in_use => unused core (uses same core in_use)⟩

end Facts

section Carry

omit [DecidableEq π]

/-- An event that neither buries a thread nor chooses one. -/
theorem event {event : Event θ κ ω} {base : ContextSwitch.State θ κ ω π}
    (sound : Sound roster state)
    (sys_eq : Scheduler.step roster state.sys event = .ok base.sys) (plain : disposes event = false)
    (not_schedule : ∀ core, event ≠ .schedule core) (orderly : Orderly state.sys event)
    (spares : ∀ thread, Dead roster state.sys thread → Spares state.sys thread event)
    (switching : ContextSwitch.Sound base) (cpu_eq : base.cpu = state.base.cpu) :
    Sound roster { state with base } := by
  have keeps := step_keeps plain sys_eq
  refine sound.carry (sound.threads.step orderly sys_eq) switching keeps.alive
    (fun core => by rw [cpu_eq]) rfl (fun thread dead => ?_)
    (fun thread mem => .inl (keeps.graveyard thread mem)) fun _ _ _ _ => rfl
  refine step_agree not_schedule ?_ sys_eq
  exact dead.not_subject sound.threads (spares thread dead) not_schedule sys_eq

/-- A thread that is in no queue and not in use is killed. -/
theorem kill (sound : Sound roster state) (unclaimed : Unclaimed state.sys thread)
    (not_terminated : state.sys.state thread ≠ .terminated)
    (unused : ∀ core, ¬ state.Uses core thread) {sys : System θ κ ω}
    (switching : ContextSwitch.Sound { state.base with sys })
    (sys_eq : Scheduler.step roster state.sys (.kill thread) = .ok sys) :
    Sound roster { state with base := { state.base with sys } } := by
  have orderly : Orderly state.sys (.kill thread) := unclaimed
  have threads : Scheduler.Sound roster sys := sound.threads.step orderly sys_eq
  have agree {other : θ} (apart : other ≠ thread) : Agree state.sys sys other := by
    refine step_agree (by nofun) (fun is_thread => ?_) sys_eq
    exact apart (Option.some.inj is_thread).symm
  obtain ⟨role, ⟨⟩⟩ := guard_eq_ok.mp sys_eq
  refine sound.carry threads switching (fun _ is_alive => ⟨is_alive, rfl⟩) (fun _ => rfl) rfl ?_ ?_
    fun _ _ _ _ => rfl
  · intro other dead
    apply agree
    rintro rfl
    exact not_terminated dead.terminated
  · intro other mem
    have joined : other ∈ join state.sys.members (.queue .graveyard) thread (.queue .graveyard) :=
      mem
    rcases mem_join.mp joined with was | ⟨_, rfl⟩
    · exact .inl was
    · refine .inr ⟨?_, fun core in_use => absurd in_use (unused core)⟩
      exact {
        alive := unclaimed.alive
        role := role
        terminated := Function.update_self ..
        places := fun place mem => place_of_mem_join unclaimed.loose mem
        leaving := fun core current => absurd (.inl current) (unused core) }

/-- A thread that runs exits. -/
theorem terminate (sound : Sound roster state)
    (running : state.sys.state (state.sys.currentThread core) = .running)
    (calls_eq : (state.base.cpu core).calls = []) {sys : System θ κ ω}
    (switching : ContextSwitch.Sound { state.base with sys })
    (sys_eq : Scheduler.step roster state.sys (.terminate core) = .ok sys) :
    Sound roster { state with
      base := { state.base with sys }
      exits := Function.update state.exits core (some (state.sys.currentThread core)) } := by
  have orderly : Orderly state.sys (.terminate core) := running
  have threads : Scheduler.Sound roster sys := sound.threads.step orderly sys_eq
  have agree {other : θ} (apart : other ≠ state.sys.currentThread core) :
      Agree state.sys sys other := by
    refine step_agree (by nofun) (fun is_current => ?_) sys_eq
    exact apart (Option.some.inj is_current).symm
  have not_dead {other : θ} (dead : Dead roster state.sys other) :
      other ≠ state.sys.currentThread core := by
    rintro rfl
    cases running.symm.trans dead.terminated
  obtain ⟨⟨_, role⟩, ⟨⟩⟩ := guard_eq_ok.mp sys_eq
  have own := sound.threads.threads (state.sys.currentThread core)
  have owner_eq := (sound.switching.settled (.inl calls_eq)).2
  refine sound.carry threads switching (fun _ is_alive => ⟨is_alive, rfl⟩) (fun _ => rfl) rfl
    (fun other dead => agree (not_dead dead)) ?_ ?_
  · intro other mem
    have joined : other ∈ join state.sys.members (.queue .graveyard)
        (state.sys.currentThread core) (.queue .graveyard) := mem
    rcases mem_join.mp joined with was | ⟨_, rfl⟩
    · exact .inl was
    · refine .inr ⟨?_, fun at_core in_use => ?_⟩
      · exact {
          alive := (own.current core rfl).1
          role := role
          terminated := Function.update_self ..
          places := fun place mem => place_of_mem_join (own.running running) mem
          leaving := fun at_core current => by
            obtain rfl := sound.threads.current_inj current
            exact Function.update_self .. }
      · obtain rfl : at_core = core := sound.uses_inj (.inl rfl) in_use
        exact Function.update_self ..
  · intro other mem at_core in_use
    refine Function.update_of_ne ?_ ..
    rintro rfl
    refine not_dead (sound.buried other mem).1 ?_
    rcases in_use with current | owner
    · exact current.symm
    · exact owner.symm.trans owner_eq

end Carry

omit [DecidableEq π] in
/-- The next thread is chosen, and the stack is not left yet. -/
theorem choose (sound : Sound roster state) (quiet : Quiet state.sys core) {sys : System θ κ ω}
    (position : Nat)
    (free : (state.base.cpu core).calls = [] ∨ state.sys.phase core = .leaving)
    (sys_eq : Scheduler.step roster state.sys (.schedule core) = .ok sys) :
    Sound roster { state with
      base := State.choose ({ state.base with sys }.enter core position) core
        (state.sys.currentThread core) (sys.currentThread core) } := by
  have orderly : Orderly state.sys (.schedule core) := quiet
  have threads : Scheduler.Sound roster sys := sound.threads.step orderly sys_eq
  have not_disposes : disposes (.schedule core : Event θ κ ω) = false := rfl
  have keeps := step_keeps not_disposes sys_eq
  obtain ⟨calls_eq, owner_eq⟩ := sound.switching.settled free
  obtain ⟨safe, phase_eq, others⟩ := sound.switching.entered position calls_eq sys_eq
  have entered_calls : (({ state.base with sys }.enter core position).cpu core).calls = [] := by
    simpa [ContextSwitch.State.enter] using calls_eq
  have entered_owner : (({ state.base with sys }.enter core position).cpu core).owner =
      state.sys.currentThread core := by
    simp only [ContextSwitch.State.enter, Function.update_self]
    exact owner_eq
  have agree (thread : θ) (dead : Dead roster state.sys thread) : Agree state.sys sys thread :=
    dead.schedule sound.threads (step_schedule_eq_ok sys_eq)
  rw [State.choose]
  split
  next same =>
    have switching : ContextSwitch.Sound ({ state.base with sys }.enter core position) :=
      .stay safe sound.switching.owner sound.switching.calls sound.switching.last
        others entered_calls (entered_owner.trans same)
    refine sound.carry threads switching keeps.alive (fun at_core => ?_) rfl agree
      (fun thread mem => .inl (keeps.graveyard thread mem)) fun _ _ _ _ => rfl
    rcases eq_or_ne at_core core with rfl | elsewhere
    · simp [ContextSwitch.State.enter]
    · simp [ContextSwitch.State.enter, elsewhere]
  next apart =>
    have switching := ContextSwitch.Sound.pend safe sound.switching.owner sound.switching.calls
      sound.switching.last others entered_calls entered_owner phase_eq apart
    refine sound.carry threads switching keeps.alive (fun at_core => ?_) rfl agree
      (fun thread mem => .inl (keeps.graveyard thread mem)) fun _ _ _ _ => rfl
    rcases eq_or_ne at_core core with rfl | elsewhere
    · simp [ContextSwitch.State.enter]
    · simp [ContextSwitch.State.enter, elsewhere]

omit [DecidableEq ω] [DecidableEq π] in
/-- The stack of the previous thread is left. -/
theorem switchThreads (sound : Sound roster state) {call : Call θ}
    (owner_eq : (state.base.cpu core).owner = call.prev) (first : call.switches = 0)
    (ne : call.prev ≠ call.next) (next_eq : call.next = state.sys.currentThread core)
    (phase_eq : state.sys.phase core = .running) :
    Sound roster { state with
      base := ContextSwitch.switchThreads state.base core call []
      exits := Function.update state.exits core none } := by
  have switching := ContextSwitch.Sound.switchThreads sound.switching.safe sound.switching.owner
    sound.switching.calls sound.switching.last
    (fun other _ => sound.switching.cores other) first ne owner_eq next_eq
  have cpu_core : ((ContextSwitch.switchThreads state.base core call []).cpu core).owner =
      state.sys.currentThread core := by
    simpa [ContextSwitch.switchThreads, next_eq] using sound.switching.owner call.next
  have cpu_other {other : κ} (elsewhere : other ≠ core) :
      (ContextSwitch.switchThreads state.base core call []).cpu other = state.base.cpu other :=
    Function.update_of_ne elsewhere ..
  have own := sound.threads.threads (state.sys.currentThread core)
  -- On this core only a thread that runs is in use now.
  have uses {thread : θ} (dead : Dead roster state.sys thread) (at_core : κ)
      (in_use : State.Uses { state with
        base := ContextSwitch.switchThreads state.base core call []
        exits := Function.update state.exits core none } at_core thread) :
      at_core ≠ core ∧ state.Uses at_core thread := by
    have not_current : state.sys.currentThread core ≠ thread := fun current => by
      cases phase_eq.symm.trans (dead.leaving core current)
    rcases eq_or_ne at_core core with rfl | elsewhere
    · rcases in_use with current | owner
      · exact absurd current not_current
      · exact absurd (cpu_core.symm.trans owner) not_current
    · refine ⟨elsewhere, ?_⟩
      rcases in_use with current | owner
      · exact .inl current
      · exact .inr ((congrArg Context.owner (cpu_other elsewhere)).symm.trans owner)
  refine ⟨sound.threads, switching, fun at_core => ?_, fun thread mem => ?_,
    fun thread is_zombie => ?_⟩
  · rcases eq_or_ne at_core core with rfl | elsewhere
    · dsimp only
      rw [cpu_core]
      exact own.current at_core rfl
    · dsimp only
      rw [cpu_other elsewhere]
      exact sound.owners at_core
  · obtain ⟨dead, exits⟩ := sound.buried thread mem
    refine ⟨dead, fun at_core in_use => ?_⟩
    obtain ⟨elsewhere, was⟩ := uses dead at_core in_use
    exact (Function.update_of_ne elsewhere ..).trans (exits at_core was)
  · obtain ⟨dead, loose, unused⟩ := sound.zombie thread is_zombie
    exact ⟨dead, loose, fun at_core in_use => unused at_core (uses dead at_core in_use).2⟩

/-- `schedule` goes on after its choice, and no writer holds the lock that it needs. -/
theorem switch (sound : Sound roster state) {queue : ω}
    (unlocked : Careful state (.switch core queue))
    (step_eq : step roster reaper state (.switch core queue) = .ok next) : Sound roster next := by
  rw [Reaper.step] at step_eq
  cases sound.switching.cores core with
  | own calls_eq owner_eq =>
      rw [calls_eq] at step_eq
      cases step_eq
  | leaving call calls_eq owner_eq first ne next_eq phase_eq =>
      rw [calls_eq] at step_eq
      dsimp only [State.switch] at step_eq
      rw [if_neg (by rw [State.sys, phase_eq]; nofun)] at step_eq
      split at step_eq
      next =>
        cases step_eq
        exact sound.switchThreads owner_eq first ne next_eq phase_eq
      next locked =>
        have apart : state.base.process call.prev ≠ state.base.process call.next :=
          fun same => locked (.inl same)
        have free := unlocked call (by rw [calls_eq]; rfl) apart
        rw [if_neg (by rw [free]; nofun)] at step_eq
        cases step_eq
        exact sound

omit [DecidableEq π] in
/-- The reaper takes a thread that is not inside `terminate`. -/
theorem popZombie (sound : Sound roster state) {popped : System θ κ ω}
    (left : ∀ core, state.exits core ≠ some thread)
    (pop_eq : state.sys.popQueue .graveyard = (some thread, popped)) :
    Sound roster
      { state with base := { state.base with sys := popped }, zombie := some thread } := by
  obtain ⟨threads, loose⟩ := sound.threads.popGraveyard pop_eq
  have mem := head_mem sound.threads (popQueue_head pop_eq)
  obtain ⟨dead, exits⟩ := sound.buried thread mem
  have keeps := keeps_popQueue pop_eq
  obtain ⟨_, _, next, ends, rfl⟩ := sound.threads.popQueue (by trivial) pop_eq
  have agree {other : θ} (apart : other ≠ thread) :
      Agree state.sys _ other := agree_popQueue apart pop_eq
  have switching : ContextSwitch.Sound { state.base with sys := { state.sys with
      next, ends, members := leave state.sys.members (.queue .graveyard) thread } } :=
    ⟨⟨sound.switching.safe.clean, sound.switching.safe.not_reentered⟩, sound.switching.owner,
      sound.switching.calls, sound.switching.last,
      fun core => (sound.switching.cores core).congr rfl rfl fun _ => rfl⟩
  refine ⟨threads, switching, sound.owners, fun other still => ?_, fun other is_zombie => ?_⟩
  · obtain ⟨other_dead, other_exits⟩ := sound.buried other (keeps.graveyard other still)
    have apart : other ≠ thread := by
      rintro rfl
      exact loose _ still
    exact ⟨other_dead.agree (agree apart), other_exits⟩
  · obtain rfl := Option.some.inj is_zombie
    refine ⟨?_, loose, fun core in_use => left core (exits core in_use)⟩
    exact {
      alive := dead.alive
      role := dead.role
      terminated := dead.terminated
      places := fun place mem => absurd mem (loose place)
      leaving := dead.leaving }

omit [DecidableEq κ] [DecidableEq ω] [DecidableEq π] in
/-- A control block that nobody uses is freed. -/
theorem reap (sound : Sound roster state) (zombie_eq : state.zombie = some thread) :
    Sound roster { state with
      base := { state.base with
        sys := { state.sys with alive := Function.update state.sys.alive thread false } }
      zombie := none } := by
  obtain ⟨dead, loose, unused⟩ := sound.zombie thread zombie_eq
  have threads := sound.threads.free dead.role loose fun core current => unused core (.inl current)
  have switching : ContextSwitch.Sound { state.base with
      sys := { state.sys with alive := Function.update state.sys.alive thread false } } :=
    ⟨⟨sound.switching.safe.clean, sound.switching.safe.not_reentered⟩, sound.switching.owner,
      sound.switching.calls, sound.switching.last,
      fun core => (sound.switching.cores core).congr rfl rfl fun _ => rfl⟩
  refine ⟨threads, switching, fun core => ?_, fun other mem => ?_, nofun⟩
  · obtain ⟨alive, home⟩ := sound.owners core
    have apart : (state.base.cpu core).owner ≠ thread := fun owner => unused core (.inr owner)
    exact ⟨(Function.update_of_ne apart ..).trans alive, home⟩
  · obtain ⟨other_dead, exits⟩ := sound.buried other mem
    have apart : other ≠ thread := by
      rintro rfl
      exact loose _ mem
    refine ⟨other_dead.agree ?_, exits⟩
    exact ⟨rfl, rfl, Function.update_of_ne apart .., fun _ => Iff.rfl,
      fun _ current => ⟨current, rfl⟩⟩

theorem context {input : ContextSwitch.Input θ κ ω π} (sound : Sound roster state)
    (careful : Careful state (.context input)) (whole : divided input = false)
    {base : ContextSwitch.State θ κ ω π}
    (base_eq : ContextSwitch.step roster state.base input = .ok base) :
    Sound roster { state with base } := by
  have unlocked : ContextSwitch.Unlocked state.base input := by
    cases input <;> trivial
  have switching := sound.switching.step unlocked base_eq
  cases input with
  | other event =>
      obtain ⟨⟨plain, _⟩, moved_eq⟩ := guard_eq_ok.mp base_eq
      obtain ⟨sys, sys_eq, rfl⟩ := map_eq_ok.mp moved_eq
      cases event with
      | kill thread =>
          obtain ⟨unclaimed, not_terminated, unused⟩ := careful
          exact sound.kill unclaimed not_terminated unused switching sys_eq
      | expire core thread =>
          obtain ⟨orderly, not_terminated⟩ := careful
          refine sound.event sys_eq rfl nofun orderly (fun other dead same => ?_) switching rfl
          exact not_terminated (same ▸ dead.terminated)
      | terminate core => cases whole
      | reap => cases whole
      | spawn | initTimerDaemon | schedule | reenter => cases plain
      | _ => exact sound.event sys_eq rfl nofun careful (fun _ _ => careful) switching rfl
  | spawn thread home priority process position =>
      obtain ⟨sys, sys_eq, rfl⟩ := map_eq_ok.mp base_eq
      exact sound.event sys_eq rfl nofun trivial (fun _ _ => trivial) switching rfl
  | initTimerDaemon core position =>
      obtain ⟨sys, sys_eq, rfl⟩ := map_eq_ok.mp base_eq
      exact sound.event sys_eq rfl nofun careful (fun _ _ => careful) switching rfl
  | lock process op =>
      obtain ⟨lock, _, rfl⟩ := map_eq_ok.mp base_eq
      exact sound.carry sound.threads switching (fun _ is_alive => ⟨is_alive, rfl⟩)
        (fun _ => rfl) rfl (fun thread _ => Agree.refl state.sys thread) (fun _ mem => .inl mem)
        fun _ _ _ _ => rfl
  | schedule => cases whole
  | read => cases whole

theorem step {input : Input θ κ ω π} (sound : Sound roster state) (careful : Careful state input)
    (step_eq : step roster reaper state input = .ok next) : Sound roster next := by
  cases input with
  | context input =>
      obtain ⟨whole, moved_eq⟩ := guard_eq_ok.mp step_eq
      obtain ⟨base, base_eq, rfl⟩ := map_eq_ok.mp moved_eq
      exact sound.context careful whole base_eq
  | terminate core =>
      obtain ⟨base, base_eq, rfl⟩ := map_eq_ok.mp step_eq
      have unlocked : ContextSwitch.Unlocked state.base (.other (.terminate core)) := trivial
      have switching := sound.switching.step unlocked base_eq
      obtain ⟨⟨_, idle⟩, moved_eq⟩ := guard_eq_ok.mp base_eq
      obtain ⟨sys, sys_eq, rfl⟩ := map_eq_ok.mp moved_eq
      exact sound.terminate careful (idle core rfl) switching sys_eq
  | choose core position =>
      obtain ⟨free, moved_eq⟩ := guard_eq_ok.mp step_eq
      obtain ⟨sys, sys_eq, rfl⟩ := map_eq_ok.mp moved_eq
      exact sound.choose careful position free sys_eq
  | switch core queue => exact sound.switch careful step_eq
  | popZombie core =>
      obtain ⟨_, popped_eq⟩ := guard_eq_ok.mp step_eq
      split at popped_eq
      next =>
        cases popped_eq
        exact sound
      next thread popped pop_eq =>
        cases popped_eq
        exact sound.popZombie (careful thread (popQueue_head pop_eq)) pop_eq
  | reap core =>
      rw [Reaper.step] at step_eq
      split at step_eq
      next => cases step_eq
      next thread zombie_eq =>
        obtain ⟨_, ⟨⟩⟩ := guard_eq_ok.mp step_eq
        exact sound.reap zombie_eq

end Sound

/-- In every careful run the reaper frees no thread that is in use, and none twice. -/
theorem reaped_threads_unused {final : State θ κ ω π} {inputs : List (Input θ κ ω π)}
    (fresh : Fresh roster state) (permits : (machine roster reaper).Permits state inputs)
    (run_eq : (machine roster reaper).run state inputs = .ok final) : Safe final := by
  have keeps : ∀ (state : State θ κ ω π) input next, Sound roster state → Careful state input →
      Reaper.step roster reaper state input = .ok next → Sound roster next :=
    fun _ _ _ sound careful step_eq => sound.step careful step_eq
  exact ((machine roster reaper).run_keeps keeps (Sound.fresh fresh) permits run_eq).safe

def pairState : State Nat Bool Unit Unit where
  base :=
    { sys := pairBoot
      process _ := ()
      vmm _ := ⟨false, 0, 0⟩
      stackPtr thread := ⟨thread, [], 0⟩
      cpu core := ⟨pairBoot.currentThread core, [], 0⟩
      lastOut thread := ⟨thread, [], 0⟩
      switches := []
      reentered := false }
  zombie := none
  exits _ := none

theorem pairState_fresh : Fresh pairRoster pairState :=
  ⟨⟨pairBoot_boot, fun _ => rfl, fun _ => rfl, fun _ => rfl, fun _ => rfl, fun _ => rfl, rfl, rfl⟩,
    rfl, fun _ => rfl⟩

/-- The reaper, thread 6, and thread 7 are started on the two cores, and thread 7 exits. -/
def pairInputs : List (Input Nat Bool Unit Unit) :=
  [.context (.spawn 6 false 0 () 100), .context (.other (.takeMail false)), .choose false 10,
    .switch false (), .context (.spawn 7 true 0 () 200), .context (.other (.takeMail true)),
    .choose true 20, .switch true (), .terminate true]

theorem pairInputs_permitted {rest : List (Input Nat Bool Unit Unit)}
    (permits : ∀ next, (machine pairRoster 6).run pairState pairInputs = .ok next →
      (machine pairRoster 6).Permits next rest) :
    (machine pairRoster 6).Permits pairState (pairInputs ++ rest) := by
  refine Machine.permits_cons _ trivial rfl ?_
  refine Machine.permits_cons _ (by rfl) rfl ?_
  refine Machine.permits_cons _ (by rfl) rfl ?_
  refine Machine.permits_cons _ (fun _ _ _ => rfl) rfl ?_
  refine Machine.permits_cons _ trivial rfl ?_
  refine Machine.permits_cons _ (by rfl) rfl ?_
  refine Machine.permits_cons _ (by rfl) rfl ?_
  refine Machine.permits_cons _ (fun _ _ _ => rfl) rfl ?_
  exact Machine.permits_cons _ (by rfl) rfl (permits _ rfl)

/-- The core of thread 7 switches away, and then the reaper finds it. -/
theorem reaped_threads_unused_pair :
    ∃ final, (machine pairRoster 6).run pairState
        (pairInputs ++ [.choose true 30, .switch true (), .popZombie false]) = .ok final ∧
      Safe final ∧ final.zombie = some 7 := by
  obtain ⟨final, run_eq, zombie_eq⟩ : ∃ final, (machine pairRoster 6).run pairState
      (pairInputs ++ [.choose true 30, .switch true (), .popZombie false]) = .ok final ∧
        final.zombie = some 7 := ⟨_, rfl, rfl⟩
  refine ⟨final, run_eq, reaped_threads_unused pairState_fresh ?_ run_eq, zombie_eq⟩
  refine pairInputs_permitted fun next next_eq => ?_
  cases next_eq
  refine Machine.permits_cons _ (by rfl) rfl ?_
  refine Machine.permits_cons _ (fun _ _ _ => rfl) rfl ?_
  refine Machine.permits_cons _ ?_ rfl trivial
  intro thread _ core
  cases core <;> nofun

/-- The reaper frees thread 7 while the other core still runs it. -/
theorem reaped_while_running :
    ∃ (roster : Roster Nat Bool) (state final : State Nat Bool Unit Unit)
      (inputs : List (Input Nat Bool Unit Unit)),
      Fresh roster state ∧ (machine roster 6).run state inputs = .ok final ∧ ¬ Safe final ∧
        final.zombie = some 7 ∧ final.sys.currentThread true = 7 := by
  refine ⟨pairRoster, pairState, _, pairInputs ++ [.popZombie false], pairState_fresh, rfl,
    fun safe => ?_, rfl, rfl⟩
  exact (safe.unused 7 rfl).not_current true rfl

end Runs

end Reaper
end Vespertine
