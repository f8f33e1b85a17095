import Vespertine.Memory.Vmo
import Vespertine.Thread.Scheduler

/-!
# Concurrent faults on one file

`FileVmo::request_page` keeps the ticket lock on the pages of the object, with interrupts disabled,
while it waits for the disk in `block_on`.  A core that calls it in the meantime spins until the
lock is free, and runs no other thread.

The disk may answer at any time; a future may also wait for locks of its own while it is polled.
-/

namespace Vespertine
namespace FileFaults

open Scheduler (System Roster Event Fault actor scheduling)

/-- The future that `block_on` polls. -/
inductive Stage where
  /-- `resolve_file_block`. -/
  | resolve
  /-- `read_block`. -/
  | read
  deriving DecidableEq

/-- Where a thread is in `request_page`. -/
inductive Call (κ : Type) where
  | outside
  /-- In `RawTicketLock::lock` on a core. -/
  | spinning (core : κ) (offset ticket : Nat)
  | holding (offset : Nat)
  /-- It fills a frame, block by block. -/
  | loading (offset page block : Nat) (stage : Stage)
  | returned (result : Except Unit Nat)

namespace Call

variable {κ : Type}

/-- The guard of the lock is alive. -/
def holds : Call κ → Bool
  | .holding _ | .loading .. => true
  | _ => false

/-- The lock has been called and not released, so that interrupts are disabled. -/
def inLine : Call κ → Bool
  | .spinning .. => true
  | call => call.holds

/-- The thread may do other things, or wait for something inside a poll. -/
def allows {θ ω : Type} (event : Event θ κ ω) : Call κ → Bool
  | .outside | .returned _ => true
  | .spinning .. | .holding _ => false
  | .loading .. =>
      match event with
      | .terminate _ => false
      | _ => true

end Call

structure State (θ κ ω : Type) where
  sys : System θ κ ω
  file : FileVmo
  /-- The words of the ticket lock. -/
  ticket : Nat
  serving : Nat
  calls : θ → Call κ

/-- What a poll returns. -/
inductive Answer where
  | pending
  | ready (result : Except Unit Unit)

inductive Input (θ κ ω : Type) where
  /-- An event of the scheduler that is none of the following. -/
  | other (event : Event θ κ ω)
  /-- `request_page` draws a ticket. -/
  | lock (core : κ) (offset : Nat)
  | acquire (core : κ)
  /-- The look into the pages; the allocator would return this frame. -/
  | check (core : κ) (page : Nat)
  | poll (core : κ) (answer : Answer)

variable {θ κ ω : Type} [DecidableEq θ] [DecidableEq κ] [DecidableEq ω]

namespace State

def setCall (state : State θ κ ω) (thread : θ) (call : Call κ) : State θ κ ω :=
  { state with calls := Function.update state.calls thread call }

/-- `request_page` returns, and its guard unlocks. -/
def finish (state : State θ κ ω) (thread : θ) (result : Except Unit Nat) : State θ κ ω :=
  { state with serving := state.serving + 1 }.setCall thread (.returned result)

/-- One turn of the loop over the blocks, or what comes after it. -/
def load (state : State θ κ ω) (thread : θ) (offset page block : Nat) : State θ κ ω :=
  if block < NORMAL_PAGE_SIZE / state.file.blockSize then
    state.setCall thread (.loading offset page block .resolve)
  else
    let pages := state.file.anonymousVmo.pages.insert offset page
    let anonymousVmo := { state.file.anonymousVmo with pages }
    { state with file := { state.file with anonymousVmo } }.finish thread (.ok page)

/-- `request_page` from its lock to the loop. -/
def check (state : State θ κ ω) (thread : θ) (offset page : Nat) : State θ κ ω :=
  if offset ≥ state.file.anonymousVmo.size then
    state.finish thread (.error ())
  else
    match state.file.anonymousVmo.frameAt offset with
    | some pfn => state.finish thread (.ok pfn)
    | none =>
        if page = 0 then state.finish thread (.error ()) else state.load thread offset page 0

/-- `block_on` after a poll of the current thread of a core. -/
def poll (roster : Roster θ κ) (state : State θ κ ω) (core : κ) (offset page block : Nat)
    (stage : Stage) : Answer → Except Fault (State θ κ ω)
  | .pending =>
      (Scheduler.step roster state.sys (.block core)).map fun sys => { state with sys }
  | .ready (.error _) => .ok (state.finish (state.sys.currentThread core) (.error ()))
  | .ready (.ok _) =>
      match stage with
      | .resolve =>
          .ok (state.setCall (state.sys.currentThread core) (.loading offset page block .read))
      | .read => .ok (state.load (state.sys.currentThread core) offset page (block + 1))

/-- Interrupts are disabled on a core, and its thread is not about to call `schedule`. -/
def Masked (state : State θ κ ω) (core : κ) : Prop :=
  state.sys.phase core = .running ∧ (state.calls (state.sys.currentThread core)).inLine = true

instance (state : State θ κ ω) (core : κ) : Decidable (state.Masked core) :=
  inferInstanceAs (Decidable (_ ∧ _))

/-- A new control block is a new thread, which is in no call. -/
def restart (state : State θ κ ω) : Event θ κ ω → State θ κ ω
  | .spawn thread _ _ => state.setCall thread .outside
  | _ => state

end State

def step (roster : Roster θ κ) (state : State θ κ ω) :
    Input θ κ ω → Except Fault (State θ κ ω)
  | .other event =>
      if (∀ core ∈ actor event,
            (state.calls (state.sys.currentThread core)).allows event = true) ∧
          ∀ core ∈ scheduling event, ¬ state.Masked core then
        (Scheduler.step roster state.sys event).map fun sys =>
          { state with sys }.restart event
      else
        .error .disabled
  | .lock core offset =>
      let thread := state.sys.currentThread core
      if state.sys.phase core = .running ∧ (state.calls thread).inLine = false then
        .ok ({ state with ticket := state.ticket + 1 }.setCall thread
          (.spinning core offset state.ticket))
      else
        .error .disabled
  | .acquire core =>
      let thread := state.sys.currentThread core
      match state.calls thread with
      | .spinning spinCore offset ticket =>
          if spinCore = core ∧ state.serving = ticket then
            .ok (state.setCall thread (.holding offset))
          else
            .error .disabled
      | _ => .error .disabled
  | .check core page =>
      let thread := state.sys.currentThread core
      match state.calls thread with
      | .holding offset => .ok (state.check thread offset page)
      | _ => .error .disabled
  | .poll core answer =>
      match state.calls (state.sys.currentThread core) with
      | .loading offset page block stage =>
          if state.sys.phase core = .running then
            state.poll roster core offset page block stage answer
          else
            .error .disabled
      | _ => .error .disabled

/-- A core spins for a lock whose owner can run on no other core. -/
def Wedged (state : State θ κ ω) (core : κ) : Prop :=
  ∃ spinner holder offset ticket, state.calls spinner = .spinning core offset ticket ∧
    (state.calls holder).holds = true ∧
    (state.sys.state holder = .blocked ∨ state.sys.state holder = .ready) ∧
    state.sys.homeCore holder = core

/-- When a core calls `lock`, no thread of this core holds the lock or waits for it. -/
def Apart (state : State θ κ ω) : Input θ κ ω → Prop
  | .lock core _ => ∀ thread, (state.calls thread).inLine = true →
      state.sys.homeCore thread ≠ core
  | _ => True

def machine (roster : Roster θ κ) : Machine (State θ κ ω) (Input θ κ ω) Fault where
  step := step roster
  permitted := Apart

/-- Nobody has called `request_page` yet. -/
structure Fresh (state : State θ κ ω) : Prop where
  calls_eq : ∀ thread, state.calls thread = .outside
  lock_eq : state.serving = state.ticket

/-!
### The line
-/

section Line

variable {roster : Roster θ κ} {state next : State θ κ ω} {core : κ} {thread : θ}

/-- A thread spins on a core with a ticket. -/
def Waits (state : State θ κ ω) (thread : θ) (core : κ) (ticket : Nat) : Prop :=
  ∃ offset, state.calls thread = .spinning core offset ticket

def Holds (state : State θ κ ω) (thread : θ) : Prop := (state.calls thread).holds = true

/-- Tickets are served in order, and nobody in front of a spinning thread belongs to its core. -/
structure Sound (state : State θ κ ω) : Prop where
  serving_le : state.serving ≤ state.ticket
  ticket_le : ∀ thread core ticket, Waits state thread core ticket →
    state.serving ≤ ticket ∧ ticket < state.ticket
  ticket_inj : ∀ one other core core' ticket, Waits state one core ticket →
    Waits state other core' ticket → one = other
  held : ∀ holder, Holds state holder → state.serving < state.ticket ∧
    ∀ thread core ticket, Waits state thread core ticket → state.serving < ticket
  holder_inj : ∀ one other, Holds state one → Holds state other → one = other
  ahead : ∀ thread other core core' ticket earlier, Waits state thread core ticket →
    Waits state other core' earlier → earlier < ticket → state.sys.homeCore other ≠ core
  holder_apart : ∀ thread core ticket holder, Waits state thread core ticket →
    Holds state holder → state.sys.homeCore holder ≠ core

omit [DecidableEq θ] [DecidableEq κ] [DecidableEq ω] in
theorem Sound.fresh (fresh : Fresh state) : Sound state := by
  have nobody {thread : θ} {core : κ} {ticket : Nat} : ¬ Waits state thread core ticket := by
    rintro ⟨offset, spinning⟩
    cases (fresh.calls_eq thread).symm.trans spinning
  have free {thread : θ} : ¬ Holds state thread := by
    rw [Holds, fresh.calls_eq]
    nofun
  exact {
    serving_le := Nat.le_of_eq fresh.lock_eq
    ticket_le := fun _ _ _ waits => absurd waits nobody
    ticket_inj := fun _ _ _ _ _ waits => absurd waits nobody
    held := fun _ holds => absurd holds free
    holder_inj := fun _ _ holds => absurd holds free
    ahead := fun _ _ _ _ _ _ waits => absurd waits nobody
    holder_apart := fun _ _ _ _ waits => absurd waits nobody }

omit [DecidableEq θ] [DecidableEq κ] [DecidableEq ω] in
/-- Nobody joins the line or moves forward in it. -/
theorem Sound.thin (sound : Sound state) (serving_eq : next.serving = state.serving)
    (ticket_eq : next.ticket = state.ticket)
    (waits : ∀ thread core ticket, Waits next thread core ticket → Waits state thread core ticket)
    (holds : ∀ thread, Holds next thread → Holds state thread)
    (home : ∀ thread, (next.calls thread).inLine = true →
      next.sys.homeCore thread = state.sys.homeCore thread) : Sound next where
  serving_le := by
    rw [serving_eq, ticket_eq]
    exact sound.serving_le
  ticket_le thread core ticket waiting := by
    rw [serving_eq, ticket_eq]
    exact sound.ticket_le thread core ticket (waits _ _ _ waiting)
  ticket_inj one other core core' ticket waiting also :=
    sound.ticket_inj one other core core' ticket (waits _ _ _ waiting) (waits _ _ _ also)
  held holder holding := by
    obtain ⟨below, behind⟩ := sound.held holder (holds holder holding)
    rw [serving_eq, ticket_eq]
    exact ⟨below, fun thread core ticket waiting => behind thread core ticket (waits _ _ _ waiting)⟩
  holder_inj one other holding also := sound.holder_inj one other (holds _ holding) (holds _ also)
  ahead thread other core core' ticket earlier waiting in_front before := by
    have in_line : (next.calls other).inLine = true := by
      obtain ⟨offset, spinning⟩ := in_front
      rw [spinning]
      rfl
    rw [home other in_line]
    exact sound.ahead _ _ _ _ _ _ (waits _ _ _ waiting) (waits _ _ _ in_front) before
  holder_apart thread core ticket holder waiting holding := by
    have in_line : (next.calls holder).inLine = true := by
      rw [Holds] at holding
      cases call_eq : next.calls holder <;> rw [call_eq] at holding <;> first | rfl | cases holding
    rw [home holder in_line]
    exact sound.holder_apart _ _ _ _ (waits _ _ _ waiting) (holds _ holding)

omit [DecidableEq κ] [DecidableEq ω] in
/-- The place of one thread in the line changes. -/
theorem waits_setCall {call : Call κ} {other : θ} {ticket : Nat}
    (waits : Waits (state.setCall thread call) other core ticket) :
    other = thread ∧ (∃ offset, call = .spinning core offset ticket) ∨
      other ≠ thread ∧ Waits state other core ticket := by
  obtain ⟨offset, spinning⟩ := waits
  rcases eq_or_ne other thread with rfl | apart
  · exact .inl ⟨rfl, offset, by simpa [State.setCall] using spinning⟩
  · exact .inr ⟨apart, offset, by simpa [State.setCall, apart] using spinning⟩

omit [DecidableEq κ] [DecidableEq ω] in
theorem holds_setCall {call : Call κ} {other : θ}
    (holds : Holds (state.setCall thread call) other) :
    other = thread ∧ call.holds = true ∨ other ≠ thread ∧ Holds state other := by
  rcases eq_or_ne other thread with rfl | apart
  · exact .inl ⟨rfl, by simpa [Holds, State.setCall] using holds⟩
  · exact .inr ⟨apart, by simpa [Holds, State.setCall, apart] using holds⟩

section Calls

omit [DecidableEq κ] [DecidableEq ω]

/-- A thread that does not spin afterwards holds the lock only if it did before. -/
theorem Sound.setCall (sound : Sound state) {call : Call κ}
    (idle : ∀ core offset ticket, call ≠ .spinning core offset ticket)
    (keeps : call.holds = true → Holds state thread) : Sound (state.setCall thread call) := by
  refine sound.thin rfl rfl (fun other at_core ticket waits => ?_) (fun other holds => ?_)
    fun _ _ => rfl
  · rcases waits_setCall waits with ⟨rfl, offset, spinning⟩ | ⟨_, was⟩
    · exact absurd spinning (idle at_core offset ticket)
    · exact was
  · rcases holds_setCall holds with ⟨rfl, holding⟩ | ⟨_, was⟩
    · exact keeps holding
    · exact was

/-- The owner of the lock returns. -/
theorem Sound.finish (sound : Sound state) (holds : Holds state thread) (result : Except Unit Nat) :
    Sound (state.finish thread result) := by
  have waits {other : θ} {at_core : κ} {ticket : Nat}
      (waits : Waits (state.finish thread result) other at_core ticket) :
      Waits state other at_core ticket := by
    rcases waits_setCall waits with ⟨_, _, ⟨⟩⟩ | ⟨_, was⟩
    exact was
  have free {other : θ} : ¬ Holds (state.finish thread result) other := by
    intro holding
    rcases holds_setCall holding with ⟨_, ⟨⟩⟩ | ⟨apart, also⟩
    exact apart (sound.holder_inj other thread also holds)
  obtain ⟨below, behind⟩ := sound.held thread holds
  exact {
    serving_le := below
    ticket_le := fun other at_core ticket waiting =>
      ⟨behind other at_core ticket (waits waiting),
        (sound.ticket_le other at_core ticket (waits waiting)).2⟩
    ticket_inj := fun one other core core' ticket waiting also =>
      sound.ticket_inj one other core core' ticket (waits waiting) (waits also)
    held := fun _ holding => absurd holding free
    holder_inj := fun _ _ holding => absurd holding free
    ahead := fun _ _ _ _ _ _ waiting in_front before =>
      sound.ahead _ _ _ _ _ _ (waits waiting) (waits in_front) before
    holder_apart := fun _ _ _ _ _ holding => absurd holding free }

/-- A thread draws a ticket on a core whose threads are not in line. -/
theorem Sound.lock (sound : Sound state) (offset : Nat)
    (apart : ∀ other, (state.calls other).inLine = true → state.sys.homeCore other ≠ core) :
    Sound ({ state with ticket := state.ticket + 1 }.setCall thread
      (.spinning core offset state.ticket)) := by
  have waits {other : θ} {at_core : κ} {ticket : Nat}
      (waits : Waits ({ state with ticket := state.ticket + 1 }.setCall thread
        (.spinning core offset state.ticket)) other at_core ticket) :
      other = thread ∧ at_core = core ∧ ticket = state.ticket ∨
        Waits state other at_core ticket := by
    rcases waits_setCall waits with ⟨rfl, _, ⟨⟩⟩ | ⟨_, was⟩
    · exact .inl ⟨rfl, rfl, rfl⟩
    · exact .inr was
  have holds {other : θ} (holds : Holds ({ state with ticket := state.ticket + 1 }.setCall thread
        (.spinning core offset state.ticket)) other) : Holds state other := by
    rcases holds_setCall holds with ⟨_, ⟨⟩⟩ | ⟨_, was⟩
    exact was
  exact {
    serving_le := Nat.le_succ_of_le sound.serving_le
    ticket_le := fun other at_core ticket waiting => by
      rcases waits waiting with ⟨_, _, rfl⟩ | was
      · exact ⟨sound.serving_le, Nat.lt_succ_self _⟩
      · obtain ⟨served, below⟩ := sound.ticket_le other at_core ticket was
        exact ⟨served, Nat.lt_succ_of_lt below⟩
    ticket_inj := fun one other at_core other_core ticket waiting also => by
      rcases waits waiting with ⟨rfl, _, rfl⟩ | was
      · rcases waits also with ⟨rfl, _, _⟩ | also_was
        · rfl
        · exact absurd (sound.ticket_le _ _ _ also_was).2 (Nat.lt_irrefl _)
      · rcases waits also with ⟨rfl, _, rfl⟩ | also_was
        · exact absurd (sound.ticket_le _ _ _ was).2 (Nat.lt_irrefl _)
        · exact sound.ticket_inj _ _ _ _ _ was also_was
    held := fun holder holding => by
      obtain ⟨below, behind⟩ := sound.held holder (holds holding)
      refine ⟨Nat.lt_succ_of_lt below, fun other at_core ticket waiting => ?_⟩
      rcases waits waiting with ⟨_, _, rfl⟩ | was
      · exact below
      · exact behind other at_core ticket was
    holder_inj := fun _ _ holding also => sound.holder_inj _ _ (holds holding) (holds also)
    ahead := fun other in_front at_core other_core ticket earlier waiting front before => by
      rcases waits front with ⟨_, _, rfl⟩ | was_front
      · rcases waits waiting with ⟨_, _, rfl⟩ | was
        · exact absurd before (Nat.lt_irrefl _)
        · exact absurd before (Nat.lt_asymm (sound.ticket_le _ _ _ was).2)
      · rcases waits waiting with ⟨_, rfl, _⟩ | was
        · obtain ⟨_, spinning⟩ := was_front
          exact apart in_front (by rw [spinning]; rfl)
        · exact sound.ahead _ _ _ _ _ _ was was_front before
    holder_apart := fun other at_core ticket holder waiting holding => by
      have was_holding := holds holding
      rcases waits waiting with ⟨_, rfl, _⟩ | was
      · refine apart holder ?_
        rw [Holds] at was_holding
        cases call_eq : state.calls holder <;> rw [call_eq] at was_holding <;>
          first | rfl | cases was_holding
      · exact sound.holder_apart _ _ _ _ was was_holding }

/-- The thread whose ticket is served goes on. -/
theorem Sound.acquire (sound : Sound state) (offset : Nat)
    (waiting : Waits state thread core state.serving) :
    Sound (state.setCall thread (.holding offset)) := by
  have waits {other : θ} {at_core : κ} {ticket : Nat}
      (waits : Waits (state.setCall thread (.holding offset)) other at_core ticket) :
      other ≠ thread ∧ Waits state other at_core ticket := by
    rcases waits_setCall waits with ⟨_, _, ⟨⟩⟩ | was
    exact was
  -- Everybody else who spins has a later ticket, and so nobody else holds the lock.
  have later {other : θ} {at_core : κ} {ticket : Nat} (apart : other ≠ thread)
      (was : Waits state other at_core ticket) : state.serving < ticket := by
    refine Nat.lt_of_le_of_ne (sound.ticket_le _ _ _ was).1 ?_
    rintro rfl
    exact apart (sound.ticket_inj _ _ _ _ _ was waiting)
  have holds {other : θ} (holds : Holds (state.setCall thread (.holding offset)) other) :
      other = thread := by
    rcases holds_setCall holds with ⟨rfl, _⟩ | ⟨_, was⟩
    · rfl
    · exact absurd ((sound.held other was).2 _ _ _ waiting) (Nat.lt_irrefl _)
  exact {
    serving_le := sound.serving_le
    ticket_le := fun _ _ _ still => sound.ticket_le _ _ _ (waits still).2
    ticket_inj := fun _ _ _ _ _ one also => sound.ticket_inj _ _ _ _ _ (waits one).2 (waits also).2
    held := fun _ _ => ⟨(sound.ticket_le _ _ _ waiting).2, fun _ _ _ still =>
      later (waits still).1 (waits still).2⟩
    holder_inj := fun _ _ one also => (holds one).trans (holds also).symm
    ahead := fun _ _ _ _ _ _ still front before =>
      sound.ahead _ _ _ _ _ _ (waits still).2 (waits front).2 before
    holder_apart := fun other at_core ticket holder still holding => by
      obtain ⟨apart, was⟩ := waits still
      obtain rfl := holds holding
      exact sound.ahead _ _ _ _ _ _ was waiting (later apart was) }

end Calls

omit [DecidableEq θ] [DecidableEq κ] [DecidableEq ω] in
theorem Sound.not_wedged (sound : Sound state) (core : κ) : ¬ Wedged state core := by
  rintro ⟨spinner, holder, offset, ticket, spinning, holding, _, home⟩
  exact sound.holder_apart spinner core ticket holder ⟨offset, spinning⟩ holding home

end Line

/-!
### Runs
-/

section Runs

variable {roster : Roster θ κ} {state next : State θ κ ω} {core : κ} {thread : θ}

open Scheduler in
theorem push_home {sys pushed : System θ κ ω} (push_eq : sys.push core thread = .ok pushed) :
    pushed.homeCore = sys.homeCore := by
  obtain ⟨_, ⟨⟩⟩ := guard_eq_ok.mp push_eq
  rfl

open Scheduler in
theorem popQueue_home {sys popped : System θ κ ω} {queue : QueueId κ ω} {found : Option θ}
    (pop_eq : sys.popQueue queue = (found, popped)) : popped.homeCore = sys.homeCore := by
  rw [System.popQueue] at pop_eq
  split at pop_eq <;> cases pop_eq <;> rfl

open Scheduler in
theorem schedule_home {sys chosen : System θ κ ω}
    (schedule_eq : schedule roster sys core = .ok chosen) : chosen.homeCore = sys.homeCore := by
  rcases pop_eq : sys.pop core with ⟨found, popped⟩
  obtain ⟨requeued, requeue_eq, rfl⟩ := schedule_eq_ok pop_eq schedule_eq
  have taken : popped.homeCore = sys.homeCore := by
    cases found with
    | none => rw [pop_none pop_eq]
    | some thread =>
        obtain ⟨priority, after, active, popQueue_eq, rfl⟩ := pop_some pop_eq
        have after_eq := popQueue_home popQueue_eq
        exact after_eq
  have put_back : requeued.homeCore = popped.homeCore := by
    unfold requeue at requeue_eq
    split at requeue_eq
    · dsimp only at requeue_eq
      split at requeue_eq
      · have pushed_eq := push_home requeue_eq
        exact pushed_eq
      · cases requeue_eq
        rfl
    · cases requeue_eq
      rfl
  exact put_back.trans taken

/-- Only a new thread is given a home. -/
theorem home_of_step {sys moved : System θ κ ω} {event : Event θ κ ω}
    (step_eq : Scheduler.step roster sys event = .ok moved)
    (not_spawn : ∀ home priority, event ≠ .spawn thread home priority) :
    moved.homeCore thread = sys.homeCore thread := by
  cases event with
  | spawn other home priority =>
      obtain ⟨_, ⟨⟩⟩ := guard_eq_ok.mp step_eq
      refine Function.update_of_ne ?_ ..
      rintro rfl
      exact not_spawn home priority rfl
  | initTimerDaemon core =>
      obtain ⟨_, push_eq⟩ := guard_eq_ok.mp step_eq
      rw [push_home push_eq]
      exact congrFun (Function.update_eq_self ..) thread
  | enterWait core =>
      obtain ⟨queue, _, rfl⟩ := Scheduler.enterWait_eq_ok step_eq
      rfl
  | popWait queue =>
      obtain rfl | ⟨other, popped, pop_eq, ⟨⟩⟩ := Scheduler.popQueue_eq_ok step_eq
      · rfl
      · exact congrFun (popQueue_home pop_eq) thread
  | wakeThread core other =>
      obtain ⟨_, woken_eq⟩ := guard_eq_ok.mp step_eq
      split at woken_eq
      next => rw [push_home woken_eq]; rfl
      next =>
        cases woken_eq
        rfl
  | beginWakeThread core other =>
      obtain ⟨_, begin_eq⟩ := guard_eq_ok.mp step_eq
      obtain ⟨_, ⟨⟩⟩ := guard_eq_ok.mp begin_eq
      rfl
  | wakeDaemon core =>
      obtain ⟨_, push_eq⟩ := guard_eq_ok.mp step_eq
      rw [push_home push_eq]
      rfl
  | expire core other =>
      obtain ⟨_, push_eq⟩ := guard_eq_ok.mp step_eq
      rw [push_home push_eq]
      rfl
  | takeMail core =>
      obtain rfl | ⟨other, popped, pop_eq, push_eq⟩ := Scheduler.takeMail_eq_ok step_eq
      · rfl
      · rw [push_home push_eq]
        exact congrFun (popQueue_home pop_eq) thread
  | schedule core =>
      exact congrFun (schedule_home (Scheduler.step_schedule_eq_ok step_eq)) thread
  | reap =>
      obtain rfl | ⟨other, popped, pop_eq, ⟨⟩⟩ := Scheduler.popQueue_eq_ok step_eq
      · rfl
      · exact congrFun (popQueue_home pop_eq) thread
  | beginWait | sleep | block | wake | finishWakeThread | reenter | terminate | kill =>
      obtain ⟨_, ⟨⟩⟩ := guard_eq_ok.mp step_eq
      rfl

omit [DecidableEq θ] [DecidableEq κ] [DecidableEq ω] in
/-- The scheduler moves without starting a thread. -/
theorem Sound.move (sound : Sound state) {sys : System θ κ ω}
    (home : ∀ thread, sys.homeCore thread = state.sys.homeCore thread) :
    Sound { state with sys } :=
  sound.thin rfl rfl (fun _ _ _ waits => waits) (fun _ holds => holds) fun thread _ => home thread

theorem Sound.other (sound : Sound state) {event : Event θ κ ω} {sys : System θ κ ω}
    (sys_eq : Scheduler.step roster state.sys event = .ok sys) :
    Sound ({ state with sys }.restart event) := by
  cases event with
  | spawn other home priority =>
      -- The new thread is not in line, whatever its control block was used for before.
      refine sound.thin rfl rfl (fun thread core ticket waits => ?_) (fun thread holds => ?_)
        fun thread in_line => ?_
      · rcases waits_setCall waits with ⟨_, _, ⟨⟩⟩ | ⟨_, was⟩
        exact was
      · rcases holds_setCall holds with ⟨_, ⟨⟩⟩ | ⟨_, was⟩
        exact was
      · have apart : thread ≠ other := by
          rintro rfl
          simp [State.restart, State.setCall, Call.inLine, Call.holds] at in_line
        refine home_of_step sys_eq fun _ _ same => ?_
        cases same
        exact apart rfl
  | _ => exact sound.move fun thread => home_of_step sys_eq nofun

omit [DecidableEq κ] [DecidableEq ω] in
theorem Sound.load (sound : Sound state) (holds : Holds state thread) (offset page block : Nat) :
    Sound (state.load thread offset page block) := by
  unfold State.load
  split
  next => exact sound.setCall nofun fun _ => holds
  next =>
    have stored : Sound { state with
        file := { state.file with anonymousVmo := { state.file.anonymousVmo with
          pages := state.file.anonymousVmo.pages.insert offset page } } } :=
      sound.thin rfl rfl (fun _ _ _ waits => waits) (fun _ holds => holds) fun _ _ => rfl
    exact stored.finish holds (.ok page)

omit [DecidableEq κ] [DecidableEq ω] in
theorem Sound.check (sound : Sound state) (holds : Holds state thread) (offset page : Nat) :
    Sound (state.check thread offset page) := by
  unfold State.check
  split
  next => exact sound.finish holds (.error ())
  next =>
    split
    next pfn _ => exact sound.finish holds (.ok pfn)
    next =>
      split
      next => exact sound.finish holds (.error ())
      next => exact sound.load holds offset page 0

theorem Sound.poll (sound : Sound state) {offset page block : Nat} {stage : Stage}
    (call_eq : state.calls (state.sys.currentThread core) = .loading offset page block stage)
    {answer : Answer}
    (poll_eq : state.poll roster core offset page block stage answer = .ok next) : Sound next := by
  have holds : Holds state (state.sys.currentThread core) := by
    rw [Holds, call_eq]
    rfl
  cases answer with
  | pending =>
      obtain ⟨sys, sys_eq, rfl⟩ := map_eq_ok.mp poll_eq
      exact sound.move fun thread => home_of_step sys_eq nofun
  | ready result =>
      cases result with
      | error _ =>
          cases poll_eq
          exact sound.finish holds (.error ())
      | ok _ =>
          cases stage with
          | resolve =>
              cases poll_eq
              exact sound.setCall nofun fun _ => holds
          | read =>
              cases poll_eq
              exact sound.load holds offset page (block + 1)

theorem Sound.step {input : Input θ κ ω} (sound : Sound state) (apart : Apart state input)
    (step_eq : step roster state input = .ok next) : Sound next := by
  cases input with
  | other event =>
      obtain ⟨_, moved_eq⟩ := guard_eq_ok.mp step_eq
      obtain ⟨sys, sys_eq, rfl⟩ := map_eq_ok.mp moved_eq
      exact sound.other sys_eq
  | lock core offset =>
      obtain ⟨_, ⟨⟩⟩ := guard_eq_ok.mp step_eq
      exact sound.lock offset apart
  | acquire core =>
      simp only [FileFaults.step] at step_eq
      split at step_eq
      next spinCore offset ticket spinning =>
        obtain ⟨⟨_, rfl⟩, ⟨⟩⟩ := guard_eq_ok.mp step_eq
        exact sound.acquire offset ⟨offset, spinning⟩
      next => cases step_eq
  | check core page =>
      simp only [FileFaults.step] at step_eq
      split at step_eq
      next offset holding =>
        cases step_eq
        exact sound.check (by rw [Holds, holding]; rfl) offset page
      next => cases step_eq
  | poll core answer =>
      simp only [FileFaults.step] at step_eq
      split at step_eq
      next offset page block stage loading =>
        obtain ⟨_, poll_eq⟩ := guard_eq_ok.mp step_eq
        exact sound.poll loading poll_eq
      next => cases step_eq

/-- In every run in which a core calls `lock` only while none of its threads is in line for it, no
core ever spins for a thread that only this core could run. -/
theorem no_core_wedged {final : State θ κ ω} {inputs : List (Input θ κ ω)} (fresh : Fresh state)
    (permits : (machine roster).Permits state inputs)
    (run_eq : (machine roster).run state inputs = .ok final) (core : κ) : ¬ Wedged final core := by
  have keeps : ∀ (state : State θ κ ω) input next, Sound state → Apart state input →
      FileFaults.step roster state input = .ok next → Sound next :=
    fun _ _ _ sound apart step_eq => sound.step apart step_eq
  exact ((machine roster).run_keeps keeps (Sound.fresh fresh) permits run_eq).not_wedged core

/-- A file of one page, none of which is loaded. -/
def onePage : FileVmo := ⟨⟨0x1000, ∅, false⟩, 0x1000⟩

def pairState : State Nat Bool Unit := ⟨Scheduler.pairBoot, onePage, 0, 0, fun _ => .outside⟩

theorem pairState_fresh : Fresh pairState := ⟨fun _ => rfl, rfl⟩

/-- Thread 4 waits for the disk while thread 5 spins on the other core; then the page is there. -/
def pairInputs : List (Input Nat Bool Unit) :=
  [.lock false 0, .acquire false, .check false 0x2000, .poll false .pending, .lock true 0,
    .other (.schedule false), .other (.wake 4), .other (.wakeThread false 4),
    .other (.schedule false), .poll false (.ready (.ok ())), .poll false (.ready (.ok ())),
    .acquire true, .check true 0x3000]

theorem no_core_wedged_pair :
    ∃ final, (machine Scheduler.pairRoster).run pairState pairInputs = .ok final ∧
      ¬ Wedged final true ∧ final.calls 4 = .returned (.ok 0x2000) ∧
        final.calls 5 = .returned (.ok 0x2000) := by
  obtain ⟨final, run_eq, one_eq, other_eq⟩ : ∃ final,
      (machine Scheduler.pairRoster).run pairState pairInputs = .ok final ∧
        final.calls 4 = .returned (.ok 0x2000) ∧ final.calls 5 = .returned (.ok 0x2000) :=
    ⟨_, rfl, rfl, rfl⟩
  refine ⟨final, run_eq, no_core_wedged pairState_fresh ?_ run_eq true, one_eq, other_eq⟩
  refine Machine.permits_cons _ (fun thread in_line => by cases in_line) rfl ?_
  refine Machine.permits_cons _ trivial rfl ?_
  refine Machine.permits_cons _ trivial rfl ?_
  refine Machine.permits_cons _ trivial rfl ?_
  refine Machine.permits_cons _ (fun thread in_line => ?_) rfl ?_
  · -- Only thread 5 is at home on this core.
    rcases eq_or_ne thread 5 with rfl | apart
    · cases in_line
    · change decide (thread = 5) ≠ true
      simpa using apart
  refine Machine.permits_cons _ trivial rfl ?_
  refine Machine.permits_cons _ trivial rfl ?_
  refine Machine.permits_cons _ trivial rfl ?_
  refine Machine.permits_cons _ trivial rfl ?_
  refine Machine.permits_cons _ trivial rfl ?_
  refine Machine.permits_cons _ trivial rfl ?_
  refine Machine.permits_cons _ trivial rfl ?_
  exact Machine.permits_cons _ trivial rfl trivial

/-- Thread 2 waits for the disk, and thread 3 of the same core asks for a page of the file. -/
theorem core_wedged :
    ∃ (roster : Roster Nat Unit) (state final : State Nat Unit Unit)
      (inputs : List (Input Nat Unit Unit)),
      Fresh state ∧ (machine roster).run state inputs = .ok final ∧ Wedged final () ∧
        final.sys.currentThread () = 3 := by
  refine ⟨Scheduler.soloRoster, ⟨Scheduler.soloBoot, onePage, 0, 0, fun _ => .outside⟩, _,
    [.other (.spawn 3 () 0), .lock () 0, .acquire (), .check () 0x2000, .poll () .pending,
      .other (.takeMail ()), .other (.schedule ()), .lock () 0], ⟨fun _ => rfl, rfl⟩, rfl, ?_, rfl⟩
  exact ⟨3, 2, 0, 1, rfl, rfl, .inl rfl, rfl⟩

end Runs

end FileFaults
end Vespertine
