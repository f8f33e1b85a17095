import Vespertine.Thread.Scheduler

/-!
# Waking a thread that waits for a future

`block_on` and `handle_sys_invoke` poll a future; when it is pending they mark the thread blocked
and call `schedule`.  The waker that the future keeps is `ThreadWaker::wake`, which wakes the thread
if it finds it blocked and does nothing otherwise.  A poll may itself take locks, sleep, or call
`block_on` for another future, so a thread has a stack of polls.
-/

namespace Vespertine
namespace Wakeup

open Scheduler

/-- Where a call of `block_on` is. -/
inductive PollPhase where
  | polling
  /-- `poll` has returned `Pending`. -/
  | pending
  /-- The thread has been marked blocked. -/
  | parked
  deriving DecidableEq, Repr

/-- A call of `block_on` or `handle_sys_invoke` and its last poll. -/
structure Poll where
  call : Nat
  phase : PollPhase
  /-- The waker of this call was invoked since the last poll began. -/
  woken : Bool
  deriving DecidableEq, Repr

structure State (θ κ ω : Type) where
  sys : System θ κ ω
  /-- The unfinished calls of each thread, innermost first. -/
  polls : θ → List Poll
  /-- The wakers that have seen their thread blocked and are about to call `wake_thread`. -/
  inFlight : List (θ × Nat)

inductive Input (θ κ ω : Type) where
  /-- An event of the scheduler that is none of the following. -/
  | other (event : Event θ κ ω)
  /-- A call of `block_on` begins its first poll. -/
  | beginCall (core : κ) (call : Nat)
  | returnPending (core : κ)
  | returnReady (core : κ)
  | block (core : κ)
  /-- The thread is back and polls again. -/
  | beginPoll (core : κ)
  /-- `ThreadWaker::wake` finds that the thread is not blocked. -/
  | wakeIgnored (thread : θ) (call : Nat)
  /-- `ThreadWaker::wake` finds that the thread is blocked. -/
  | wakeSeen (thread : θ) (call : Nat)
  | wakeThread (core : κ) (thread : θ) (call : Nat)
  | beginWakeThread (core : κ) (thread : θ) (call : Nat)

variable {θ κ ω : Type} [DecidableEq θ] [DecidableEq κ] [DecidableEq ω]

/-- What a thread may do of its own accord besides polling. -/
def mayAct (event : Event θ κ ω) : List Poll → Bool
  | [] => true
  | top :: _ =>
      match event with
      | .block _ => false
      | _ => top.phase = .polling

/-- Change the innermost call of a thread that is in a certain phase. -/
def State.advance (state : State θ κ ω) (core : κ) (phase : PollPhase)
    (change : Poll → List Poll → List Poll) : Except Fault (State θ κ ω) :=
  let thread := state.sys.currentThread core
  match state.polls thread with
  | [] => .error .disabled
  | top :: rest =>
      if top.phase = phase ∧ state.sys.phase core = .running then
        .ok { state with polls := Function.update state.polls thread (change top rest) }
      else
        .error .disabled

/-- The waker of a call was invoked. -/
def State.wake (state : State θ κ ω) (thread : θ) (call : Nat) : State θ κ ω :=
  { state with
    polls := Function.update state.polls thread ((state.polls thread).map fun poll =>
      if poll.call = call then { poll with woken := true } else poll) }

def step (roster : Roster θ κ) (state : State θ κ ω) : Input θ κ ω → Except Fault (State θ κ ω)
  | .other event =>
      if ∀ core ∈ actor event, mayAct event (state.polls (state.sys.currentThread core)) = true then
        (Scheduler.step roster state.sys event).map fun sys => { state with sys }
      else
        .error .disabled
  | .beginCall core call =>
      let thread := state.sys.currentThread core
      let polls := state.polls thread
      if state.sys.phase core = .running ∧ ∀ top ∈ polls.head?, top.phase = .polling then
        .ok { state with
          polls := Function.update state.polls thread (⟨call, .polling, false⟩ :: polls) }
      else
        .error .disabled
  | .returnPending core =>
      state.advance core .polling fun top rest => { top with phase := .pending } :: rest
  | .returnReady core => state.advance core .polling fun _ rest => rest
  | .block core => do
      let state ← state.advance core .pending fun top rest => { top with phase := .parked } :: rest
      (Scheduler.step roster state.sys (.block core)).map fun sys => { state with sys }
  | .beginPoll core =>
      state.advance core .parked fun top rest => ⟨top.call, .polling, false⟩ :: rest
  | .wakeIgnored thread call =>
      if state.sys.state thread ≠ .blocked then .ok (state.wake thread call) else .error .disabled
  | .wakeSeen thread call =>
      (Scheduler.step roster state.sys (.wake thread)).map fun sys =>
        { state with sys, inFlight := (thread, call) :: state.inFlight }
  | .wakeThread core thread call =>
      if (thread, call) ∈ state.inFlight then
        (Scheduler.step roster state.sys (.wakeThread core thread)).map fun sys =>
          { state with sys, inFlight := state.inFlight.erase (thread, call) }.wake thread call
      else
        .error .disabled
  | .beginWakeThread core thread call =>
      if (thread, call) ∈ state.inFlight then
        (Scheduler.step roster state.sys (.beginWakeThread core thread)).map fun sys =>
          { state with sys, inFlight := state.inFlight.erase (thread, call) }.wake thread call
      else
        .error .disabled

structure Fresh (roster : Roster θ κ) (state : State θ κ ω) : Prop where
  boot : Boot roster state.sys
  polls_eq : ∀ thread, state.polls thread = []
  inFlight_eq : state.inFlight = []

/-- A thread is in a ready queue or a mailbox. -/
def Queued (sys : System θ κ ω) (thread : θ) : Prop :=
  ∃ core, (∃ priority, thread ∈ sys.members (.queue (.ready core priority))) ∨
    thread ∈ sys.members (.queue (.mailbox core))

/-- No thread whose waker was invoked since the last poll began is left behind. -/
def NoLostWake (state : State θ κ ω) : Prop :=
  ∀ thread, ∀ poll ∈ state.polls thread, poll.woken = true →
    state.sys.state thread = .blocked → Queued state.sys thread

/-- The core whose current thread an event marks as blocked. -/
def blocker : Event θ κ ω → Option κ
  | .beginWait core _ | .sleep core | .block core | .reenter core _ => some core
  | _ => none

/-- When a thread is marked as blocked, no waker of it was invoked since its poll began. -/
def Unheard (state : State θ κ ω) : Input θ κ ω → Prop
  | .other event => ∀ core ∈ blocker event,
      ∀ poll ∈ state.polls (state.sys.currentThread core), poll.woken = false
  | .block core => ∀ poll ∈ state.polls (state.sys.currentThread core), poll.woken = false
  | _ => True

def machine (roster : Roster θ κ) : Machine (State θ κ ω) (Input θ κ ω) Fault where
  step := step roster
  permitted := Unheard

/-!
### Who marks a thread as blocked
-/

section Blocking

variable {roster : Roster θ κ} {sys next : System θ κ ω} {core : κ} {thread : θ}

theorem blocked_of_update {states : θ → ThreadState} {other : θ} {state : ThreadState}
    (blocked : Function.update states other state thread = .blocked) (ne : state ≠ .blocked) :
    states thread = .blocked := by
  rcases eq_or_ne thread other with rfl | apart
  · rw [Function.update_self] at blocked
    exact absurd blocked ne
  · rwa [Function.update_of_ne apart] at blocked

omit [DecidableEq κ] [DecidableEq ω] in
/-- The current thread of a core is marked as blocked. -/
theorem blocked_of_mark (blocked : Function.update sys.state (sys.currentThread core) .blocked
      thread = .blocked) :
    sys.state thread = .blocked ∨ ∃ marked ∈ some core, sys.currentThread marked = thread := by
  rcases eq_or_ne thread (sys.currentThread core) with same | apart
  · exact .inr ⟨core, rfl, same.symm⟩
  · rw [Function.update_of_ne apart] at blocked
    exact .inl blocked

theorem blocked_of_requeue {prev other : θ}
    (requeue_eq : requeue roster sys core prev other = .ok next)
    (blocked : next.state thread = .blocked) : sys.state thread = .blocked := by
  unfold requeue at requeue_eq
  split at requeue_eq
  · dsimp only at requeue_eq
    split at requeue_eq
    · rw [(push_untouched requeue_eq).state_eq] at blocked
      exact blocked_of_update blocked nofun
    · cases requeue_eq
      exact blocked_of_update blocked nofun
  · cases requeue_eq
    exact blocked

theorem blocked_of_schedule (schedule_eq : schedule roster sys core = .ok next)
    (blocked : next.state thread = .blocked) : sys.state thread = .blocked := by
  rcases pop_eq : sys.pop core with ⟨found, popped⟩
  obtain ⟨requeued, requeue_eq, rfl⟩ := schedule_eq_ok pop_eq schedule_eq
  rw [← (pop_untouched pop_eq).state_eq]
  exact blocked_of_requeue requeue_eq (blocked_of_update blocked nofun)

/-- Only a thread that runs is marked as blocked. -/
theorem blocked_of_step {event : Event θ κ ω} (step_eq : Scheduler.step roster sys event = .ok next)
    (blocked : next.state thread = .blocked) :
    sys.state thread = .blocked ∨ ∃ core ∈ blocker event, sys.currentThread core = thread := by
  cases event with
  | spawn other home priority =>
      obtain ⟨_, ⟨⟩⟩ := guard_eq_ok.mp step_eq
      exact .inl (blocked_of_update blocked nofun)
  | initTimerDaemon core =>
      obtain ⟨_, push_eq⟩ := guard_eq_ok.mp step_eq
      rw [(push_untouched push_eq).state_eq] at blocked
      exact .inl (blocked_of_update blocked nofun)
  | beginWait core queue =>
      obtain ⟨_, ⟨⟩⟩ := guard_eq_ok.mp step_eq
      exact blocked_of_mark blocked
  | enterWait core =>
      obtain ⟨queue, _, rfl⟩ := enterWait_eq_ok step_eq
      exact .inl blocked
  | sleep core =>
      obtain ⟨_, ⟨⟩⟩ := guard_eq_ok.mp step_eq
      exact blocked_of_mark blocked
  | block core =>
      obtain ⟨_, ⟨⟩⟩ := guard_eq_ok.mp step_eq
      exact blocked_of_mark blocked
  | wake other =>
      obtain ⟨_, ⟨⟩⟩ := guard_eq_ok.mp step_eq
      exact .inl blocked
  | popWait queue =>
      obtain rfl | ⟨other, popped, pop_eq, ⟨⟩⟩ := popQueue_eq_ok step_eq
      · exact .inl blocked
      · rw [← (popQueue_untouched pop_eq).state_eq]
        exact .inl blocked
  | wakeThread core other =>
      obtain ⟨_, woken_eq⟩ := guard_eq_ok.mp step_eq
      split at woken_eq
      next =>
        rw [(push_untouched woken_eq).state_eq] at blocked
        exact .inl (blocked_of_update blocked nofun)
      next =>
        cases woken_eq
        exact .inl (blocked_of_update blocked nofun)
  | beginWakeThread core other =>
      obtain ⟨_, begin_eq⟩ := guard_eq_ok.mp step_eq
      obtain ⟨_, ⟨⟩⟩ := guard_eq_ok.mp begin_eq
      exact .inl (blocked_of_update blocked nofun)
  | finishWakeThread core other =>
      obtain ⟨_, ⟨⟩⟩ := guard_eq_ok.mp step_eq
      exact .inl blocked
  | wakeDaemon core =>
      obtain ⟨_, push_eq⟩ := guard_eq_ok.mp step_eq
      rw [(push_untouched push_eq).state_eq] at blocked
      exact .inl (blocked_of_update blocked nofun)
  | expire core other =>
      obtain ⟨_, push_eq⟩ := guard_eq_ok.mp step_eq
      rw [(push_untouched push_eq).state_eq] at blocked
      exact .inl (blocked_of_update blocked nofun)
  | takeMail core =>
      obtain rfl | ⟨other, popped, pop_eq, push_eq⟩ := takeMail_eq_ok step_eq
      · exact .inl blocked
      · rw [(push_untouched push_eq).state_eq] at blocked
        rw [← (popQueue_untouched pop_eq).state_eq]
        exact .inl (blocked_of_update blocked nofun)
  | schedule core =>
      exact .inl (blocked_of_schedule (step_schedule_eq_ok step_eq) blocked)
  | reenter core queue =>
      obtain ⟨_, ⟨⟩⟩ := guard_eq_ok.mp step_eq
      exact blocked_of_mark blocked
  | terminate core =>
      obtain ⟨_, ⟨⟩⟩ := guard_eq_ok.mp step_eq
      exact .inl (blocked_of_update blocked nofun)
  | kill other =>
      obtain ⟨_, ⟨⟩⟩ := guard_eq_ok.mp step_eq
      exact .inl (blocked_of_update blocked nofun)
  | reap =>
      obtain rfl | ⟨other, popped, pop_eq, ⟨⟩⟩ := popQueue_eq_ok step_eq
      · exact .inl blocked
      · rw [← (popQueue_untouched pop_eq).state_eq]
        exact .inl blocked

/-- `wake_thread` makes its thread ready. -/
theorem wakeThread_ready
    (step_eq : Scheduler.step roster sys (.wakeThread core thread) = .ok next) :
    next.state thread = .ready := by
  obtain ⟨_, woken_eq⟩ := guard_eq_ok.mp step_eq
  split at woken_eq
  next =>
    rw [(push_untouched woken_eq).state_eq]
    exact Function.update_self ..
  next =>
    cases woken_eq
    exact Function.update_self ..

theorem beginWakeThread_ready
    (step_eq : Scheduler.step roster sys (.beginWakeThread core thread) = .ok next) :
    next.state thread = .ready := by
  obtain ⟨_, begin_eq⟩ := guard_eq_ok.mp step_eq
  obtain ⟨_, ⟨⟩⟩ := guard_eq_ok.mp begin_eq
  exact Function.update_self ..

end Blocking

/-!
### Runs
-/

section Runs

variable {roster : Roster θ κ} {state next : State θ κ ω} {core : κ} {thread : θ}

/-- A thread whose waker was invoked since its poll began is not blocked. -/
def Heard (state : State θ κ ω) : Prop :=
  ∀ thread, ∀ poll ∈ state.polls thread, poll.woken = true → state.sys.state thread ≠ .blocked

omit [DecidableEq θ] [DecidableEq κ] [DecidableEq ω] in
theorem Heard.noLostWake (heard : Heard state) : NoLostWake state :=
  fun thread poll mem woken blocked => absurd blocked (heard thread poll mem woken)

/-- The scheduler moves, and the threads that it marks as blocked were not woken. -/
theorem Heard.move (heard : Heard state) {sys : System θ κ ω} {event : Event θ κ ω}
    (step_eq : Scheduler.step roster state.sys event = .ok sys)
    (unheard : ∀ core ∈ blocker event,
      ∀ poll ∈ state.polls (state.sys.currentThread core), poll.woken = false) :
    Heard { state with sys } := by
  intro thread poll mem woken blocked
  rcases blocked_of_step step_eq blocked with was | ⟨core, marked, rfl⟩
  · exact heard thread poll mem woken was
  · rw [unheard core marked poll mem] at woken
    cases woken

omit [DecidableEq κ] in
/-- Split a change of the innermost call. -/
theorem advance_eq_ok {phase : PollPhase} {change : Poll → List Poll → List Poll}
    (advance_eq : state.advance core phase change = .ok next) :
    ∃ top rest, state.polls (state.sys.currentThread core) = top :: rest ∧
      next = { state with
        polls := Function.update state.polls (state.sys.currentThread core)
          (change top rest) } := by
  rw [State.advance] at advance_eq
  cases polls_eq : state.polls (state.sys.currentThread core) with
  | nil =>
      rw [polls_eq] at advance_eq
      cases advance_eq
  | cons top rest =>
      rw [polls_eq] at advance_eq
      obtain ⟨_, ⟨⟩⟩ := guard_eq_ok.mp advance_eq
      exact ⟨top, rest, rfl, rfl⟩

omit [DecidableEq κ] [DecidableEq ω] in
/-- A change after which no poll is woken that was not. -/
theorem Heard.polls (heard : Heard state) {polls : List Poll}
    (woken : ∀ poll ∈ polls, poll.woken = true → ∃ was ∈ state.polls thread, was.woken = true) :
    Heard { state with polls := Function.update state.polls thread polls } := by
  intro other poll mem is_woken
  rcases eq_or_ne other thread with rfl | apart
  · obtain ⟨was, was_mem, was_woken⟩ := woken poll (by simpa using mem) is_woken
    exact heard other was was_mem was_woken
  · exact heard other poll (by simpa [apart] using mem) is_woken

omit [DecidableEq κ] in
theorem Heard.advance (heard : Heard state) {phase : PollPhase}
    {change : Poll → List Poll → List Poll}
    (advance_eq : state.advance core phase change = .ok next)
    (quiet : ∀ top rest, ∀ poll ∈ change top rest, poll.woken = true →
      ∃ was ∈ top :: rest, was.woken = true) : Heard next := by
  obtain ⟨top, rest, polls_eq, rfl⟩ := advance_eq_ok advance_eq
  apply heard.polls
  rw [polls_eq]
  exact quiet top rest

omit [DecidableEq κ] [DecidableEq ω] in
/-- The waker of a thread that is not blocked was invoked. -/
theorem Heard.wake (heard : Heard state) (call : Nat)
    (not_blocked : state.sys.state thread ≠ .blocked) : Heard (state.wake thread call) := by
  intro other poll mem woken
  rcases eq_or_ne other thread with rfl | apart
  · exact not_blocked
  · exact heard other poll (by simpa [State.wake, apart] using mem) woken

theorem Heard.step {input : Input θ κ ω} (heard : Heard state) (unheard : Unheard state input)
    (step_eq : step roster state input = .ok next) : Heard next := by
  cases input with
  | other event =>
      obtain ⟨_, moved_eq⟩ := guard_eq_ok.mp step_eq
      obtain ⟨sys, sys_eq, rfl⟩ := map_eq_ok.mp moved_eq
      exact heard.move sys_eq unheard
  | beginCall core call =>
      obtain ⟨_, ⟨⟩⟩ := guard_eq_ok.mp step_eq
      apply heard.polls
      intro poll mem woken
      rcases List.mem_cons.mp mem with rfl | was
      · cases woken
      · exact ⟨poll, was, woken⟩
  | returnPending core =>
      refine heard.advance step_eq fun top rest poll mem woken => ?_
      rcases List.mem_cons.mp mem with rfl | was
      · exact ⟨top, List.mem_cons_self, woken⟩
      · exact ⟨poll, List.mem_cons_of_mem _ was, woken⟩
  | returnReady core =>
      exact heard.advance step_eq fun top rest poll mem woken =>
        ⟨poll, List.mem_cons_of_mem _ mem, woken⟩
  | block core =>
      obtain ⟨parked, advance_eq, moved_eq⟩ := bind_eq_ok.mp step_eq
      obtain ⟨sys, sys_eq, rfl⟩ := map_eq_ok.mp moved_eq
      have parked_heard : Heard parked := by
        refine heard.advance advance_eq fun top rest poll mem woken => ?_
        rcases List.mem_cons.mp mem with rfl | was
        · exact ⟨top, List.mem_cons_self, woken⟩
        · exact ⟨poll, List.mem_cons_of_mem _ was, woken⟩
      obtain ⟨top, rest, polls_eq, rfl⟩ := advance_eq_ok advance_eq
      refine parked_heard.move sys_eq fun marked is_core poll mem => ?_
      obtain rfl : core = marked := Option.some.inj is_core
      have quiet : ∀ poll ∈ top :: rest, poll.woken = false := polls_eq ▸ unheard
      rcases List.mem_cons.mp (by simpa using mem) with rfl | was
      · exact quiet top List.mem_cons_self
      · exact quiet poll (List.mem_cons_of_mem _ was)
  | beginPoll core =>
      refine heard.advance step_eq fun top rest poll mem woken => ?_
      rcases List.mem_cons.mp mem with rfl | was
      · cases woken
      · exact ⟨poll, List.mem_cons_of_mem _ was, woken⟩
  | wakeIgnored thread call =>
      obtain ⟨not_blocked, ⟨⟩⟩ := guard_eq_ok.mp step_eq
      exact heard.wake call not_blocked
  | wakeSeen thread call =>
      obtain ⟨sys, sys_eq, rfl⟩ := map_eq_ok.mp step_eq
      exact heard.move sys_eq nofun
  | wakeThread core thread call =>
      obtain ⟨_, moved_eq⟩ := guard_eq_ok.mp step_eq
      obtain ⟨sys, sys_eq, rfl⟩ := map_eq_ok.mp moved_eq
      have moved : Heard { state with sys } := heard.move sys_eq nofun
      exact moved.wake call (by rw [wakeThread_ready sys_eq]; nofun)
  | beginWakeThread core thread call =>
      obtain ⟨_, moved_eq⟩ := guard_eq_ok.mp step_eq
      obtain ⟨sys, sys_eq, rfl⟩ := map_eq_ok.mp moved_eq
      have moved : Heard { state with sys } := heard.move sys_eq nofun
      exact moved.wake call (by rw [beginWakeThread_ready sys_eq]; nofun)

/-- In every run in which no waker is invoked between the beginning of a poll and the moment at
which the thread is marked as blocked, no wake-up is lost. -/
theorem no_lost_wake {final : State θ κ ω} {inputs : List (Input θ κ ω)}
    (fresh : Fresh roster state) (permits : (machine roster).Permits state inputs)
    (run_eq : (machine roster).run state inputs = .ok final) : NoLostWake final := by
  have start : Heard state := by
    intro thread poll mem
    rw [fresh.polls_eq] at mem
    cases mem
  have keeps : ∀ (state : State θ κ ω) input next, Heard state → Unheard state input →
      step roster state input = .ok next → Heard next :=
    fun _ _ _ heard unheard step_eq => heard.step unheard step_eq
  exact ((machine roster).run_keeps keeps start permits run_eq).noLostWake

def soloState : State Nat Unit Unit := ⟨soloBoot, fun _ => [], []⟩

theorem soloState_fresh : Fresh soloRoster soloState := ⟨soloBoot_boot, fun _ => rfl, rfl⟩

/-- The thread blocks, another thread invokes the waker, and the future is polled again. -/
def soloInputs : List (Input Nat Unit Unit) :=
  [.beginCall () 7, .returnPending (), .block (), .other (.schedule ()), .wakeSeen 2 7,
    .wakeThread () 2 7, .other (.schedule ()), .beginPoll (), .returnReady ()]

theorem no_lost_wake_solo :
    ∃ final, (machine soloRoster).run soloState soloInputs = .ok final ∧ NoLostWake final ∧
      final.sys.currentThread () = 2 ∧ final.polls 2 = [] := by
  obtain ⟨final, run_eq, current_eq, polls_eq⟩ : ∃ final,
      (machine soloRoster).run soloState soloInputs = .ok final ∧
        final.sys.currentThread () = 2 ∧ final.polls 2 = [] := ⟨_, rfl, rfl, rfl⟩
  refine ⟨final, run_eq, no_lost_wake soloState_fresh ?_ run_eq, current_eq, polls_eq⟩
  refine Machine.permits_cons _ trivial rfl ?_
  refine Machine.permits_cons _ trivial rfl ?_
  refine Machine.permits_cons _ (by intro poll mem; cases List.mem_singleton.mp mem; rfl) rfl ?_
  refine Machine.permits_cons _ nofun rfl ?_
  refine Machine.permits_cons _ trivial rfl ?_
  refine Machine.permits_cons _ trivial rfl ?_
  refine Machine.permits_cons _ nofun rfl ?_
  refine Machine.permits_cons _ trivial rfl ?_
  exact Machine.permits_cons _ trivial rfl trivial

/-- `YieldNow` invokes the waker while it is polled, and returns `Pending`. -/
theorem yield_now_lost :
    ∃ (roster : Roster Nat Unit) (state final : State Nat Unit Unit)
      (inputs : List (Input Nat Unit Unit)),
      Fresh roster state ∧ (machine roster).run state inputs = .ok final ∧ ¬ NoLostWake final := by
  refine ⟨soloRoster, soloState, _, [.beginCall () 7, .wakeIgnored 2 7, .returnPending (),
    .block ()], soloState_fresh, rfl, fun none_lost => ?_⟩
  obtain ⟨core, ⟨priority, mem⟩ | mem⟩ := none_lost 2 ⟨7, .parked, true⟩ List.mem_cons_self rfl rfl
  · cases mem
  · cases mem

end Runs

end Wakeup
end Vespertine
