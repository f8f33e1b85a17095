import Vespertine.Thread.Scheduler

/-!
# A thread is in one queue at a time

A thread is linked into at most one queue as long as nobody pushes a thread that is linked already.
The locks, the mailboxes and `schedule` keep to this by themselves: they push only threads that they
have popped or that run.  The callers of `wake`, the callouts and `ThreadOp::Kill` name a thread
that may be anywhere; `Orderly` says what they would have to know about it.
-/

namespace Vespertine
namespace Scheduler

open IntrusiveQueue

variable {θ κ ω : Type}

/-- The threads pushed to a queue and not popped are linked in it, and in no other queue. -/
structure SingleQueue (sys : System θ κ ω) : Prop where
  queue : ∀ queue, IsQueue sys.next (sys.ends queue) (sys.members (.queue queue))
  apart : ∀ thread left right, thread ∈ sys.members (.queue left) →
    thread ∈ sys.members (.queue right) → left = right

/-- A thread that is in no queue, nobody's argument, and not about to push itself. -/
structure Unclaimed (sys : System θ κ ω) (thread : θ) : Prop where
  alive : sys.alive thread = true
  loose : Loose sys.members thread
  not_waiting : ∀ core queue, sys.phase core = .waiting queue → sys.currentThread core ≠ thread

/-- No push to a ready queue of this core has been interrupted. -/
def Quiet (sys : System θ κ ω) (core : κ) : Prop := sys.members (.inserting core) = []

/-- What nothing in the code checks. -/
def Orderly (sys : System θ κ ω) : Event θ κ ω → Prop
  -- A thread that was killed while it ran reaches `schedule` before it blocks or exits.
  | .beginWait core _ | .terminate core => sys.state (sys.currentThread core) = .running
  -- A waker or a callout outlives the wait that it was stored for.
  | .wake thread | .kill thread => Unclaimed sys thread
  | .expire core thread => Unclaimed sys thread ∧ sys.homeCore thread = core ∧ Quiet sys core
  -- The ready queues of a core are touched while a push to one of them is under way.
  | .initTimerDaemon core | .wakeDaemon core | .takeMail core | .schedule core
  | .beginWakeThread core _ => Quiet sys core
  | .wakeThread core thread => sys.homeCore thread = core → Quiet sys core
  | .reenter _ _ => False
  -- The stack of a thread that is still on a core is freed.
  | .reap => ∀ core, (sys.ends .graveyard).head ≠ some (sys.currentThread core)
  | _ => True

def machine [DecidableEq θ] [DecidableEq κ] [DecidableEq ω] (roster : Roster θ κ) :
    Machine (System θ κ ω) (Event θ κ ω) Fault where
  step := step roster
  permitted := Orderly

/-!
### The queues
-/

/-- The places are exclusive, the queues hold what was pushed, and unfinished pushes are current. -/
structure Filed (sys : System θ κ ω) : Prop where
  exclusive : Exclusive sys.members
  queue : ∀ queue, IsQueue sys.next (sys.ends queue) (sys.members (.queue queue))
  pending : ∀ core, ∀ thread ∈ sys.members (.inserting core),
    sys.next thread = none ∧
      sys.tailSeen thread = (sys.ends (.ready core (sys.priority thread))).tail
  alone : ∀ core, ∀ one ∈ sys.members (.inserting core), ∀ other ∈ sys.members (.inserting core),
    one = other

/-- A push to this queue disturbs no unfinished push. -/
def Undisturbed (sys : System θ κ ω) : QueueId κ ω → Prop
  | .ready core _ => Quiet sys core
  | _ => True

variable {sys : System θ κ ω} {thread : θ} {queue : QueueId κ ω}

theorem Filed.singleQueue (filed : Filed sys) : SingleQueue sys := by
  refine ⟨filed.queue, fun thread left right in_left in_right => ?_⟩
  exact Place.queue.inj (filed.exclusive.apart thread _ _ in_left in_right)

theorem Undisturbed.ne_ready (undisturbed : Undisturbed sys queue) {core : κ} {other : θ}
    (mem : other ∈ sys.members (.inserting core)) (priority : Nat) :
    .ready core priority ≠ queue := by
  rintro rfl
  rw [show sys.members (.inserting core) = [] from undisturbed] at mem
  cases mem

/-!
### The threads
-/

section Threads

variable (roster : Roster θ κ)

/-- The core on which a thread runs. -/
def runsOn (sys : System θ κ ω) (thread : θ) : κ :=
  match roster.role thread with
  | .idle core | .daemon core => core
  | .worker => sys.homeCore thread

/-- The threads that may be found in a place. -/
def Fits (sys : System θ κ ω) (thread : θ) : Place κ ω → Prop
  | .queue (.ready core _) =>
      runsOn roster sys thread = core ∧ ∀ core, roster.role thread ≠ .idle core
  | .queue (.mailbox core) | .inserting core =>
      roster.role thread = .worker ∧ sys.homeCore thread = core
  | .queue (.wait _) | .queue .graveyard | .hand => roster.role thread = .worker

/-- What holds of each thread between two events. -/
structure ThreadOk (sys : System θ κ ω) (thread : θ) : Prop where
  running : sys.state thread = .running → Loose sys.members thread
  waiting : ∀ core queue, sys.currentThread core = thread → sys.phase core = .waiting queue →
    Loose sys.members thread ∧ roster.role thread = .worker
  stopped : ∀ core, sys.currentThread core = thread → sys.phase core ≠ .running →
    sys.state thread ≠ .running
  fits : ∀ place, thread ∈ sys.members place →
    sys.alive thread = true ∧ Fits roster sys thread place
  current : ∀ core, sys.currentThread core = thread →
    sys.alive thread = true ∧ runsOn roster sys thread = core
  idle : ∀ core, roster.role thread = .idle core → sys.alive thread = true
  daemon : ∀ core, roster.role thread = .daemon core → sys.state thread = .blocked →
    Loose sys.members thread
  system : ∀ core, sys.currentThread core = thread → sys.phase core = .running →
    roster.role thread ≠ .worker → sys.state thread = .running

structure Sound (sys : System θ κ ω) : Prop where
  filed : Filed sys
  threads : ∀ thread, ThreadOk roster sys thread
  sleepers : ∀ core, ∀ thread ∈ sys.callouts core, roster.role thread = .worker

/-- An event did nothing to this thread, except perhaps that it no longer runs. -/
structure Agree (before after : System θ κ ω) (thread : θ) : Prop where
  state : after.state thread = before.state thread
  homeCore : after.homeCore thread = before.homeCore thread
  alive : after.alive thread = before.alive thread
  members : ∀ place, thread ∈ after.members place ↔ thread ∈ before.members place
  current : ∀ core, after.currentThread core = thread →
    before.currentThread core = thread ∧ after.phase core = before.phase core

end Threads

variable {roster : Roster θ κ} {next : System θ κ ω} {core : κ}

theorem Agree.loose (agree : Agree sys next thread) (loose : Loose sys.members thread) :
    Loose next.members thread :=
  fun place mem => loose place ((agree.members place).mp mem)

theorem Agree.runsOn (agree : Agree sys next thread) :
    runsOn roster next thread = runsOn roster sys thread := by
  simp only [Scheduler.runsOn, agree.homeCore]

theorem Agree.fits (agree : Agree sys next thread) {place : Place κ ω}
    (fits : Fits roster sys thread place) : Fits roster next thread place := by
  unfold Fits at *
  split at * <;> simp_all [agree.runsOn, agree.homeCore]

theorem ThreadOk.agree (ok : ThreadOk roster sys thread) (agree : Agree sys next thread) :
    ThreadOk roster next thread where
  running is_running := agree.loose (ok.running (agree.state.symm.trans is_running))
  waiting core queue current phase := by
    obtain ⟨was, same⟩ := agree.current core current
    obtain ⟨loose, worker⟩ := ok.waiting core queue was (same.symm.trans phase)
    exact ⟨agree.loose loose, worker⟩
  stopped core current phase := by
    obtain ⟨was, same⟩ := agree.current core current
    rw [agree.state]
    exact ok.stopped core was (same ▸ phase)
  fits place mem := by
    obtain ⟨alive, fits⟩ := ok.fits place ((agree.members place).mp mem)
    exact ⟨agree.alive.trans alive, agree.fits fits⟩
  current core current := by
    obtain ⟨alive, home⟩ := ok.current core (agree.current core current).1
    exact ⟨agree.alive.trans alive, agree.runsOn.trans home⟩
  idle core role := agree.alive.trans (ok.idle core role)
  daemon core role blocked := agree.loose (ok.daemon core role (agree.state.symm.trans blocked))
  system core current phase role := by
    obtain ⟨was, same⟩ := agree.current core current
    exact agree.state.trans (ok.system core was (same.symm.trans phase) role)

theorem Sound.boot (boot : Boot roster sys) : Sound roster sys := by
  have empty : ∀ thread, Loose sys.members thread := by simp [Loose, boot.members_eq]
  constructor
  · constructor
    · constructor <;> simp [boot.members_eq]
    · intro queue
      rw [boot.ends_eq, boot.members_eq]
      exact isQueue_empty sys.next
    · simp [boot.members_eq]
    · simp [boot.members_eq]
  · intro thread
    constructor
    · exact fun _ => empty thread
    · intro core queue _ phase
      cases (boot.phase_eq core).symm.trans phase
    · intro core _ phase
      exact absurd (boot.phase_eq core) phase
    · intro place mem
      exact absurd mem (empty thread place)
    · rintro core rfl
      refine ⟨boot.current_alive core, ?_⟩
      rw [runsOn, boot.current_worker core]
      exact boot.current_home core
    · intro core role
      rw [(roster.role_idle thread core).mp role]
      exact boot.idle_alive core
    · exact fun _ _ _ => empty thread
    · rintro core rfl _ role
      exact absurd (boot.current_worker core) role
  · simp [boot.callouts_eq]

/-!
### Moving one thread

An event takes a thread out of its place, changes it, and files it elsewhere or lets it run.
-/

/-- Everything is in order, except that one thread is in no place and may be in any state. -/
structure Limbo (roster : Roster θ κ) (sys : System θ κ ω) (thread : θ) : Prop where
  filed : Filed sys
  others : ∀ other, other ≠ thread → ThreadOk roster sys other
  loose : Loose sys.members thread
  sleepers : ∀ core, ∀ sleeper ∈ sys.callouts core, roster.role sleeper = .worker

/-- A thread may be filed in this place. -/
structure Settles (roster : Roster θ κ) (sys : System θ κ ω) (thread : θ) (place : Place κ ω) :
    Prop where
  alive : sys.alive thread = true
  fits : Fits roster sys thread place
  not_running : sys.state thread ≠ .running
  daemon : ∀ core, roster.role thread = .daemon core → sys.state thread ≠ .blocked
  current : ∀ core, sys.currentThread core = thread → runsOn roster sys thread = core ∧
    (∀ queue, sys.phase core ≠ .waiting queue) ∧
      (sys.phase core = .running → roster.role thread = .worker)

theorem Sound.limbo (sound : Sound roster sys) (loose : Loose sys.members thread) :
    Limbo roster sys thread :=
  ⟨sound.filed, fun other _ => sound.threads other, loose, sound.sleepers⟩

/-- A thread changes that is in no place. -/
theorem Limbo.change (limbo : Limbo roster sys thread) (filed : Filed next)
    (members : next.members = sys.members) (callouts : next.callouts = sys.callouts)
    (others : ∀ other, other ≠ thread → Agree sys next other) : Limbo roster next thread where
  filed := filed
  others other ne := (limbo.others other ne).agree (others other ne)
  loose := by rw [members]; exact limbo.loose
  sleepers := by rw [callouts]; exact limbo.sleepers

/-- Leave a thread in no place. -/
theorem Limbo.release (limbo : Limbo roster sys thread) (own : ThreadOk roster sys thread) :
    Sound roster sys := by
  refine ⟨limbo.filed, fun other => ?_, limbo.sleepers⟩
  rcases eq_or_ne other thread with rfl | ne
  · exact own
  · exact limbo.others other ne

theorem Settles.threadOk {place : Place κ ω} (settles : Settles roster sys thread place)
    (same_state : next.state = sys.state) (same_home : next.homeCore = sys.homeCore)
    (same_alive : next.alive = sys.alive) (same_current : next.currentThread = sys.currentThread)
    (same_phase : next.phase = sys.phase)
    (only : ∀ elsewhere, thread ∈ next.members elsewhere → elsewhere = place) :
    ThreadOk roster next thread := by
  have same_runs : runsOn roster next thread = runsOn roster sys thread := by
    simp only [runsOn, same_home]
  constructor
  · intro running
    exact absurd (same_state ▸ running) settles.not_running
  · intro core queue current phase
    rw [same_current] at current
    rw [same_phase] at phase
    exact absurd phase ((settles.current core current).2.1 queue)
  · intro core _ _
    rw [same_state]
    exact settles.not_running
  · intro elsewhere mem
    obtain rfl := only elsewhere mem
    refine ⟨same_alive ▸ settles.alive, ?_⟩
    have fits := settles.fits
    unfold Fits at *
    split at * <;> simp_all
  · intro core current
    rw [same_alive, same_runs]
    exact ⟨settles.alive, (settles.current core (same_current ▸ current)).1⟩
  · intro core _
    rw [same_alive]
    exact settles.alive
  · intro core role blocked
    exact absurd (same_state ▸ blocked) (settles.daemon core role)
  · intro core current phase role
    rw [same_current] at current
    rw [same_phase] at phase
    exact absurd ((settles.current core current).2.2 phase) role

theorem runsOn_worker (role : roster.role thread = .worker) :
    runsOn roster sys thread = sys.homeCore thread := by
  rw [runsOn, role]

theorem runsOn_daemon (roster : Roster θ κ) (sys : System θ κ ω) (core : κ) :
    runsOn roster sys (roster.daemon core) = core := by
  rw [runsOn, (roster.role_daemon _ core).mpr rfl]

theorem runsOn_idle (roster : Roster θ κ) (sys : System θ κ ω) (core : κ) :
    runsOn roster sys (roster.idle core) = core := by
  rw [runsOn, (roster.role_idle _ core).mpr rfl]

/-- A control block that is not allocated is in no place and on no core. -/
theorem Sound.dead (sound : Sound roster sys) (dead : sys.alive thread = false) :
    Loose sys.members thread ∧ ∀ core, sys.currentThread core ≠ thread := by
  constructor
  · intro place mem
    simpa [dead] using ((sound.threads thread).fits place mem).1
  · intro core current
    simpa [dead] using ((sound.threads thread).current core current).1

theorem Sound.current_inj (sound : Sound roster sys) {other : κ}
    (same : sys.currentThread other = sys.currentThread core) : other = core :=
  ((sound.threads _).current other same).2.symm.trans ((sound.threads _).current core rfl).2

/-- A thread in some place is not about to push itself. -/
theorem ThreadOk.not_waiting (own : ThreadOk roster sys thread) {place : Place κ ω}
    (mem : thread ∈ sys.members place) (core : κ) (queue : ω)
    (phase : sys.phase core = .waiting queue) : sys.currentThread core ≠ thread :=
  fun current => (own.waiting core queue current phase).1 place mem

/-- A worker that is not about to push itself may be filed wherever workers are kept. -/
theorem ThreadOk.settles (own : ThreadOk roster sys thread) {place : Place κ ω}
    (role : roster.role thread = .worker) (alive : next.alive thread = true)
    (fits : Fits roster next thread place) (not_running : next.state thread ≠ .running)
    (same_home : next.homeCore thread = sys.homeCore thread)
    (same_current : next.currentThread = sys.currentThread)
    (not_waiting : ∀ core queue, next.phase core = .waiting queue →
      sys.currentThread core ≠ thread) : Settles roster next thread place where
  alive := alive
  fits := fits
  not_running := not_running
  daemon core daemon := by cases role.symm.trans daemon
  current core current := by
    rw [same_current] at current
    have home := (own.current core current).2
    rw [runsOn_worker role] at home ⊢
    exact ⟨same_home.trans home, fun queue phase => not_waiting core queue phase current,
      fun _ => role⟩

/-!
### The queues under `push` and `pop`
-/

variable [DecidableEq θ] [DecidableEq κ] [DecidableEq ω]

section Agreement

variable {other : θ}

omit [DecidableEq θ] [DecidableEq κ] [DecidableEq ω] in
theorem Agree.refl (sys : System θ κ ω) (thread : θ) : Agree sys sys thread :=
  ⟨rfl, rfl, rfl, fun _ => Iff.rfl, fun _ current => ⟨current, rfl⟩⟩

omit [DecidableEq θ] [DecidableEq κ] [DecidableEq ω] in
theorem Agree.trans {last : System θ κ ω} (first : Agree sys next thread)
    (second : Agree next last thread) : Agree sys last thread where
  state := second.state.trans first.state
  homeCore := second.homeCore.trans first.homeCore
  alive := second.alive.trans first.alive
  members place := (second.members place).trans (first.members place)
  current core current := by
    obtain ⟨between, last_phase⟩ := second.current core current
    obtain ⟨was, first_phase⟩ := first.current core between
    exact ⟨was, last_phase.trans first_phase⟩

omit [DecidableEq κ] [DecidableEq ω] in
theorem agree_setState (sys : System θ κ ω) (ne : thread ≠ other) (state : ThreadState) :
    Agree sys (sys.setState other state) thread :=
  ⟨Function.update_of_ne ne .., rfl, rfl, fun _ => Iff.rfl, fun _ current => ⟨current, rfl⟩⟩

omit [DecidableEq θ] [DecidableEq ω] in
theorem agree_setPhase (ne : thread ≠ sys.currentThread core) (phase : Phase ω) :
    Agree sys (sys.setPhase core phase) thread := by
  refine ⟨rfl, rfl, rfl, fun _ => Iff.rfl, fun at_core current => ⟨current, ?_⟩⟩
  have elsewhere : at_core ≠ core := by
    rintro rfl
    exact ne current.symm
  exact Function.update_of_ne elsewhere ..

theorem agree_pushQueue (sys : System θ κ ω) (ne : thread ≠ other) (queue : QueueId κ ω) :
    Agree sys (sys.pushQueue queue other) thread := by
  refine ⟨rfl, rfl, rfl, fun place => ?_, fun _ current => ⟨current, rfl⟩⟩
  simp [System.pushQueue, mem_join, ne]

theorem agree_push (ne : thread ≠ other) (push_eq : sys.push core other = .ok next) :
    Agree sys next thread := by
  obtain ⟨_, ⟨⟩⟩ := guard_eq_ok.mp push_eq
  exact (agree_pushQueue sys ne _).trans
    ⟨rfl, rfl, rfl, fun _ => Iff.rfl, fun _ current => ⟨current, rfl⟩⟩

theorem mem_leave_of_ne {members : Place κ ω → List θ} {place elsewhere : Place κ ω}
    (ne : thread ≠ other) : thread ∈ leave members place other elsewhere ↔
      thread ∈ members elsewhere := by
  rcases eq_or_ne elsewhere place with rfl | apart
  · simp [leave, List.mem_erase_of_ne ne]
  · simp [leave, apart]

theorem agree_takeFrom (sys : System θ κ ω) (ne : thread ≠ other) (place : Place κ ω) :
    Agree sys (sys.takeFrom place other) thread :=
  ⟨rfl, rfl, rfl, fun _ => mem_leave_of_ne ne, fun _ current => ⟨current, rfl⟩⟩

omit [DecidableEq θ] in
theorem agree_putInto (sys : System θ κ ω) (ne : thread ≠ other) (place : Place κ ω) :
    Agree sys (sys.putInto place other) thread := by
  refine ⟨rfl, rfl, rfl, fun elsewhere => ?_, fun _ current => ⟨current, rfl⟩⟩
  simp [System.putInto, mem_join, ne]

theorem agree_popQueue {popped : System θ κ ω} (ne : thread ≠ other)
    (pop_eq : sys.popQueue queue = (some other, popped)) : Agree sys popped thread := by
  rw [System.popQueue] at pop_eq
  split at pop_eq
  next => cases pop_eq
  next =>
    cases pop_eq
    exact ⟨rfl, rfl, rfl, fun _ => mem_leave_of_ne ne, fun _ current => ⟨current, rfl⟩⟩

omit [DecidableEq κ] [DecidableEq ω] in
theorem agree_initThread (sys : System θ κ ω) (ne : thread ≠ other) (home : κ) (priority : Nat) :
    Agree sys (Scheduler.initThread sys other home priority) thread :=
  ⟨Function.update_of_ne ne .., Function.update_of_ne ne .., Function.update_of_ne ne ..,
    fun _ => Iff.rfl, fun _ current => ⟨current, rfl⟩⟩

theorem agree_beginPush (ne : thread ≠ other)
    (begin_eq : Scheduler.beginPush sys core other = .ok next) : Agree sys next thread := by
  obtain ⟨_, ⟨⟩⟩ := guard_eq_ok.mp begin_eq
  exact ⟨rfl, rfl, rfl, (agree_putInto sys ne (.inserting core)).members,
    fun _ current => ⟨current, rfl⟩⟩

theorem agree_finishPush (sys : System θ κ ω) (ne : thread ≠ other) (core : κ) :
    Agree sys (Scheduler.finishPush sys core other) thread :=
  ⟨rfl, rfl, rfl, (agree_pushQueue sys ne (.ready core (sys.priority other))).members,
    fun _ current => ⟨current, rfl⟩⟩

end Agreement

omit [DecidableEq θ] in
/-- The lists of the queues alone. -/
theorem update_queue (members : Place κ ω → List θ) (queue other : QueueId κ ω)
    (threads : List θ) :
    Function.update members (.queue queue) threads (.queue other) =
      Function.update (fun other => members (.queue other)) queue threads other :=
  congrFun (Function.update_comp_eq_of_injective' members
    (fun _ _ same => Place.queue.inj same) queue threads) other

theorem Filed.pushQueue (filed : Filed sys) (loose : Loose sys.members thread)
    (undisturbed : Undisturbed sys queue) : Filed (sys.pushQueue queue thread) := by
  have own := filed.queue queue
  constructor
  · exact filed.exclusive.join loose
  · intro other
    dsimp only [System.pushQueue, join]
    rw [update_queue]
    exact IsQueue.push_family filed.queue filed.singleQueue.apart
      (fun other => loose (.queue other)) queue other
  · intro core other mem
    have was : other ∈ sys.members (.inserting core) := by
      simpa [System.pushQueue, mem_join] using mem
    obtain ⟨next_eq, seen_eq⟩ := filed.pending core other was
    constructor
    · refine (own.push_other ?_ fun also => ?_).trans next_eq
      · exact fun same => loose (.inserting core) (same ▸ was)
      · cases filed.exclusive.apart other _ _ was also
    · simpa [System.pushQueue, Function.update_of_ne (undisturbed.ne_ready was _)] using seen_eq
  · intro core one one_mem other other_mem
    refine filed.alone core one ?_ other ?_
    · simpa [System.pushQueue, mem_join] using one_mem
    · simpa [System.pushQueue, mem_join] using other_mem

/-- What a successful pop did. -/
theorem Filed.popQueue (filed : Filed sys) (undisturbed : Undisturbed sys queue)
    {popped : System θ κ ω} (pop_eq : sys.popQueue queue = (some thread, popped)) :
    thread ∈ sys.members (.queue queue) ∧ Filed popped ∧
      ∃ next ends, popped = { sys with
        next, ends, members := leave sys.members (.queue queue) thread } := by
  have own := filed.queue queue
  cases members_eq : sys.members (.queue queue) with
  | nil =>
      rw [members_eq] at own
      rw [System.popQueue, own.pop_nil] at pop_eq
      cases pop_eq
  | cons first rest =>
      obtain ⟨ends, popped_eq, queues⟩ :=
        IsQueue.pop_family filed.queue filed.singleQueue.apart members_eq
      rw [System.popQueue, popped_eq] at pop_eq
      cases pop_eq
      have stays {core : κ} {other : θ}
          (mem : other ∈ leave sys.members (.queue queue) thread (.inserting core)) :
          other ∈ sys.members (.inserting core) := (filed.exclusive.mem_leave.mp mem).1
      refine ⟨List.mem_cons_self, ⟨filed.exclusive.leave, ?_, ?_, ?_⟩, _, _, rfl⟩
      · intro other
        dsimp only [leave]
        rw [members_eq, List.erase_cons_head, update_queue]
        exact queues other
      · intro core other mem
        have was := stays mem
        obtain ⟨next_eq, seen_eq⟩ := filed.pending core other was
        constructor
        · refine (Function.update_of_ne ?_ ..).trans next_eq
          rintro rfl
          cases filed.exclusive.apart other _ _ was (show other ∈ sys.members (.queue queue) by
            simp [members_eq])
        · simpa [Function.update_of_ne (undisturbed.ne_ready was _)] using seen_eq
      · intro core one one_mem other other_mem
        exact filed.alone core one (stays one_mem) other (stays other_mem)

theorem Filed.takeFrom {place : Place κ ω} (filed : Filed sys)
    (not_queue : ∀ queue, place ≠ .queue queue) : Filed (sys.takeFrom place thread) := by
  have stays {core : κ} {other : θ}
      (mem : other ∈ leave sys.members place thread (.inserting core)) :
      other ∈ sys.members (.inserting core) := (filed.exclusive.mem_leave.mp mem).1
  refine ⟨filed.exclusive.leave, fun queue => ?_, fun core other mem => ?_, ?_⟩
  · simpa [System.takeFrom, leave, Function.update_of_ne (not_queue queue).symm] using
      filed.queue queue
  · exact filed.pending core other (stays mem)
  · intro core one one_mem other other_mem
    exact filed.alone core one (stays one_mem) other (stays other_mem)

omit [DecidableEq θ] in
theorem Filed.putHand (filed : Filed sys) (loose : Loose sys.members thread) :
    Filed (sys.putInto .hand thread) := by
  refine ⟨filed.exclusive.join loose, fun queue => ?_, fun core other mem => ?_, ?_⟩
  · simpa [System.putInto, join] using filed.queue queue
  · exact filed.pending core other (by simpa [System.putInto, mem_join] using mem)
  · intro core one one_mem other other_mem
    refine filed.alone core one ?_ other ?_
    · simpa [System.putInto, mem_join] using one_mem
    · simpa [System.putInto, mem_join] using other_mem

/-- The first half of a push of a thread that is in no place. -/
theorem Filed.beginPush (filed : Filed sys) (loose : Loose sys.members thread) {core : κ}
    (quiet : Quiet sys core) {next : System θ κ ω}
    (begin_eq : Scheduler.beginPush sys core thread = .ok next) : Filed next := by
  rw [Scheduler.beginPush] at begin_eq
  split at begin_eq
  case isFalse => cases begin_eq
  cases begin_eq
  refine ⟨filed.exclusive.join loose, fun queue => ?_, fun other_core other mem => ?_, ?_⟩
  · have same : (join sys.members (.inserting core) thread) (.queue queue) =
        sys.members (.queue queue) := by simp [join]
    simp only [System.putInto, same]
    refine (filed.queue queue).congr fun node mem => Function.update_of_ne ?_ ..
    exact fun same => loose (.queue queue) (same ▸ mem)
  · rcases mem_join.mp mem with was | ⟨at_core, rfl⟩
    · have ne : other ≠ thread := fun same => loose (.inserting other_core) (same ▸ was)
      simpa [System.putInto, ne] using filed.pending other_core other was
    · cases at_core
      simp [System.putInto]
  · intro other_core one one_mem other other_mem
    rcases mem_join.mp one_mem with one_was | ⟨one_core, rfl⟩
    · rcases mem_join.mp other_mem with other_was | ⟨other_core, rfl⟩
      · exact filed.alone _ one one_was other other_was
      · cases other_core
        rw [Quiet] at quiet
        simp [quiet] at one_was
    · rcases mem_join.mp other_mem with other_was | ⟨_, rfl⟩
      · cases one_core
        rw [Quiet] at quiet
        simp [quiet] at other_was
      · rfl

/-- The second half of a push that nothing has disturbed. -/
theorem Filed.finishPush (filed : Filed sys) {core : κ}
    (mem : thread ∈ sys.members (.inserting core)) :
    Filed (Scheduler.finishPush (sys.takeFrom (.inserting core) thread) core thread) := by
  obtain ⟨next_eq, seen_eq⟩ := filed.pending core thread mem
  have taken : Filed (sys.takeFrom (.inserting core) thread) := filed.takeFrom nofun
  have loose : Loose (sys.takeFrom (.inserting core) thread).members thread :=
    filed.exclusive.loose_leave mem
  have quiet : Quiet (sys.takeFrom (.inserting core) thread) core := by
    rw [Quiet, List.eq_nil_iff_forall_not_mem]
    intro other still
    obtain ⟨was, gone⟩ := filed.exclusive.mem_leave.mp still
    exact gone ⟨rfl, filed.alone core other was thread mem⟩
  have cleared : Function.update sys.next thread none = sys.next :=
    Function.update_eq_self_iff.mpr next_eq.symm
  have pushed : Filed ((sys.takeFrom (.inserting core) thread).pushQueue
      (.ready core (sys.priority thread)) thread) := taken.pushQueue loose quiet
  simp only [System.pushQueue, System.takeFrom, IntrusiveQueue.push, cleared, ← seen_eq] at pushed
  exact ⟨pushed.exclusive, pushed.queue, pushed.pending, pushed.alone⟩

omit [DecidableEq κ] [DecidableEq ω] in
theorem Limbo.setState (limbo : Limbo roster sys thread) (state : ThreadState) :
    Limbo roster (sys.setState thread state) thread := by
  refine limbo.change ?_ rfl rfl fun other ne => ?_
  · exact ⟨limbo.filed.exclusive, limbo.filed.queue, limbo.filed.pending, limbo.filed.alone⟩
  · exact agree_setState sys ne state

omit [DecidableEq θ] [DecidableEq ω] in
theorem Limbo.setPhase (limbo : Limbo roster sys thread) (phase : Phase ω)
    (current_eq : sys.currentThread core = thread) :
    Limbo roster (sys.setPhase core phase) thread := by
  refine limbo.change ?_ rfl rfl fun other ne => ?_
  · exact ⟨limbo.filed.exclusive, limbo.filed.queue, limbo.filed.pending, limbo.filed.alone⟩
  · exact agree_setPhase (by rwa [current_eq]) phase

/-- File a thread in a queue. -/
theorem Limbo.pushQueue (limbo : Limbo roster sys thread) (undisturbed : Undisturbed sys queue)
    (settles : Settles roster sys thread (.queue queue)) :
    Sound roster (sys.pushQueue queue thread) := by
  refine ⟨limbo.filed.pushQueue limbo.loose undisturbed, fun other => ?_, limbo.sleepers⟩
  rcases eq_or_ne other thread with rfl | ne
  · exact settles.threadOk rfl rfl rfl rfl rfl fun _ mem => place_of_mem_join limbo.loose mem
  · exact (limbo.others other ne).agree (agree_pushQueue sys ne queue)

/-- File a thread in a ready queue of a core. -/
theorem Limbo.push (limbo : Limbo roster sys thread) (quiet : Quiet sys core)
    (settles : Settles roster sys thread (.queue (.ready core (sys.priority thread))))
    (push_eq : sys.push core thread = .ok next) : Sound roster next := by
  rw [System.push] at push_eq
  split at push_eq
  case isFalse => cases push_eq
  cases push_eq
  have undisturbed : Undisturbed sys (.ready core (sys.priority thread)) := quiet
  have pushed := limbo.pushQueue undisturbed settles
  refine ⟨⟨pushed.filed.exclusive, pushed.filed.queue, pushed.filed.pending, pushed.filed.alone⟩,
    fun other => (pushed.threads other).agree ?_, pushed.sleepers⟩
  exact ⟨rfl, rfl, rfl, fun _ => Iff.rfl, fun _ was => ⟨was, rfl⟩⟩

omit [DecidableEq θ] in
/-- Pass a thread to somebody who will wake it. -/
theorem Limbo.putHand (limbo : Limbo roster sys thread)
    (settles : Settles roster sys thread .hand) : Sound roster (sys.putInto .hand thread) := by
  refine ⟨limbo.filed.putHand limbo.loose, fun other => ?_, limbo.sleepers⟩
  rcases eq_or_ne other thread with rfl | ne
  · exact settles.threadOk rfl rfl rfl rfl rfl fun _ mem => place_of_mem_join limbo.loose mem
  · exact (limbo.others other ne).agree (agree_putInto sys ne .hand)

theorem Limbo.beginPush (limbo : Limbo roster sys thread) (quiet : Quiet sys core)
    (settles : Settles roster sys thread (.inserting core))
    (begin_eq : Scheduler.beginPush sys core thread = .ok next) : Sound roster next := by
  have filed := limbo.filed.beginPush limbo.loose quiet begin_eq
  have others (other : θ) (ne : other ≠ thread) : ThreadOk roster next other :=
    (limbo.others other ne).agree (agree_beginPush ne begin_eq)
  rw [Scheduler.beginPush] at begin_eq
  split at begin_eq
  case isFalse => cases begin_eq
  cases begin_eq
  refine ⟨filed, fun other => ?_, limbo.sleepers⟩
  rcases eq_or_ne other thread with rfl | ne
  · exact settles.threadOk rfl rfl rfl rfl rfl fun _ mem => place_of_mem_join limbo.loose mem
  · exact others other ne

/-- Take a thread out of a place that is not a queue. -/
theorem Sound.takeFrom {place : Place κ ω} (sound : Sound roster sys)
    (mem : thread ∈ sys.members place) (not_queue : ∀ queue, place ≠ .queue queue) :
    Limbo roster (sys.takeFrom place thread) thread where
  filed := sound.filed.takeFrom not_queue
  others other ne := (sound.threads other).agree (agree_takeFrom sys ne place)
  loose := sound.filed.exclusive.loose_leave mem
  sleepers := sound.sleepers

/-- Take a thread out of a queue. -/
theorem Sound.popQueue {popped : System θ κ ω} (sound : Sound roster sys)
    (undisturbed : Undisturbed sys queue) (pop_eq : sys.popQueue queue = (some thread, popped)) :
    thread ∈ sys.members (.queue queue) ∧ Limbo roster popped thread ∧
      ∃ next ends, popped = { sys with
        next, ends, members := leave sys.members (.queue queue) thread } := by
  have others (other : θ) (ne : other ≠ thread) : ThreadOk roster popped other :=
    (sound.threads other).agree (agree_popQueue ne pop_eq)
  obtain ⟨mem, filed, next, ends, rfl⟩ := sound.filed.popQueue undisturbed pop_eq
  exact ⟨mem, ⟨filed, others, sound.filed.exclusive.loose_leave mem, sound.sleepers⟩, next, ends,
    rfl⟩

omit [DecidableEq κ] [DecidableEq ω] in
theorem Limbo.initThread (limbo : Limbo roster sys thread) (home : κ) (priority : Nat) :
    Limbo roster (Scheduler.initThread sys thread home priority) thread := by
  have absent {place : Place κ ω} {other : θ} (mem : other ∈ sys.members place) : other ≠ thread :=
    fun same => limbo.loose place (same ▸ mem)
  refine limbo.change ⟨limbo.filed.exclusive, fun queue => ?_, fun core other mem => ?_,
    limbo.filed.alone⟩ rfl rfl fun other ne => ?_
  · exact (limbo.filed.queue queue).congr fun node mem => Function.update_of_ne (absent mem) ..
  · simpa [Scheduler.initThread, Function.update_of_ne (absent mem)] using
      limbo.filed.pending core other mem
  · exact agree_initThread sys ne home priority

omit [DecidableEq ω] in
/-- Let a thread run. -/
theorem Limbo.dispatch (limbo : Limbo roster sys thread) (alive : sys.alive thread = true)
    (runs : runsOn roster sys thread = core)
    (only : ∀ other, sys.currentThread other = thread → other = core) :
    Sound roster (dispatch sys core thread) := by
  have on_core {other : κ}
      (current : (Scheduler.dispatch sys core thread).currentThread other = thread) :
      other = core := by
    rcases eq_or_ne other core with same | ne
    · exact same
    · apply only other
      simpa [Scheduler.dispatch, System.setPhase, System.setState, ne] using current
  have phase : (Scheduler.dispatch sys core thread).phase core = .running := by
    simp [Scheduler.dispatch, System.setPhase]
  have running : (Scheduler.dispatch sys core thread).state thread = .running := by
    simp [Scheduler.dispatch, System.setPhase, System.setState]
  refine ⟨⟨limbo.filed.exclusive, limbo.filed.queue, limbo.filed.pending, limbo.filed.alone⟩,
    fun other => ?_, limbo.sleepers⟩
  rcases eq_or_ne other thread with rfl | ne
  · constructor
    · exact fun _ => limbo.loose
    · intro at_core queue current waiting
      rw [on_core current, phase] at waiting
      cases waiting
    · intro at_core current stopped
      rw [on_core current] at stopped
      exact absurd phase stopped
    · exact fun place mem => absurd mem (limbo.loose place)
    · exact fun at_core current => ⟨alive, runs.trans (on_core current).symm⟩
    · exact fun _ _ => alive
    · exact fun _ _ _ => limbo.loose
    · exact fun _ _ _ _ => running
  · refine (limbo.others other ne).agree ⟨?_, rfl, rfl, fun _ => Iff.rfl, fun at_core current => ?_⟩
    · simp [Scheduler.dispatch, System.setPhase, System.setState, ne]
    · have elsewhere : at_core ≠ core := by
        rintro rfl
        apply ne
        simpa [Scheduler.dispatch, System.setPhase, System.setState] using current.symm
      simpa [Scheduler.dispatch, System.setPhase, System.setState, elsewhere] using current

/-- What `SchedulerState::pop` does if it finds a thread. -/
theorem Sound.pop {popped : System θ κ ω} (sound : Sound roster sys) (quiet : Quiet sys core)
    (pop_eq : sys.pop core = (some thread, popped)) :
    ∃ priority, thread ∈ sys.members (.queue (.ready core priority)) ∧ Limbo roster popped thread ∧
      ∃ next ends active, popped = { sys with
        next, ends, activePriorities := active
        members := leave sys.members (.queue (.ready core priority)) thread } := by
  obtain ⟨priority, after, active, popQueue_eq, rfl⟩ := pop_some pop_eq
  have undisturbed : Undisturbed sys (.ready core priority) := quiet
  obtain ⟨mem, limbo, next, ends, rfl⟩ := sound.popQueue undisturbed popQueue_eq
  refine ⟨priority, mem, ?_, next, ends, active, rfl⟩
  refine limbo.change ?_ rfl rfl fun _ _ => ?_
  · exact ⟨limbo.filed.exclusive, limbo.filed.queue, limbo.filed.pending, limbo.filed.alone⟩
  · exact ⟨rfl, rfl, rfl, fun _ => Iff.rfl, fun _ current => ⟨current, rfl⟩⟩

omit [DecidableEq ω] in
theorem setState_dispatch {prev : θ} (ne : prev ≠ thread) (state : ThreadState) :
    (dispatch sys core thread).setState prev state =
      dispatch (sys.setState prev state) core thread := by
  simp only [dispatch, System.setState, System.setPhase, Function.update_comm ne]

theorem push_dispatch {prev : θ} {pushed : System θ κ ω}
    (push_eq : sys.push core prev = .ok pushed) :
    (dispatch sys core thread).push core prev = .ok (dispatch pushed core thread) := by
  rw [System.push] at push_eq ⊢
  split at push_eq
  next small =>
    cases push_eq
    exact if_pos small
  next => cases push_eq

theorem requeue_stopped {prev : θ} (stopped : sys.state prev ≠ .running) :
    requeue roster sys core prev thread = .ok sys := if_neg stopped

theorem requeue_self {prev : θ} (running : sys.state prev = .running) :
    requeue roster sys core prev prev = .ok (sys.setState prev .ready) := by
  rw [requeue, if_pos running]
  exact if_neg fun busy => busy.2 rfl

/-- The previous thread may as well be put back after the next one was chosen. -/
theorem requeue_dispatch {prev : θ} {requeued : System θ κ ω} (ne : prev ≠ thread)
    (requeue_eq : requeue roster sys core prev thread = .ok requeued) :
    requeue roster (dispatch sys core thread) core prev thread =
      .ok (dispatch requeued core thread) := by
  have same : (dispatch sys core thread).state prev = sys.state prev := by
    simp [dispatch, System.setState, System.setPhase, ne]
  unfold requeue at requeue_eq ⊢
  rw [same]
  split at requeue_eq
  next running =>
    rw [if_pos running]
    dsimp only at requeue_eq ⊢
    rw [setState_dispatch ne]
    split at requeue_eq
    next busy => rw [if_pos busy, push_dispatch requeue_eq]
    next idle =>
      cases requeue_eq
      rw [if_neg idle]
  next stopped =>
    cases requeue_eq
    rw [if_neg stopped]

/-- Put back a thread that no longer runs on any core. -/
theorem Sound.requeue {prev : θ} {requeued : System θ κ ω} (sound : Sound roster sys)
    (quiet : Quiet sys core) (alive : sys.alive prev = true) (runs : runsOn roster sys prev = core)
    (absent : ∀ other, sys.currentThread other ≠ prev)
    (requeue_eq : requeue roster sys core prev thread = .ok requeued) : Sound roster requeued := by
  unfold Scheduler.requeue at requeue_eq
  split at requeue_eq
  next running =>
    have own := sound.threads prev
    have limbo := (sound.limbo (own.running running)).setState .ready
    dsimp only at requeue_eq
    split at requeue_eq
    next busy =>
      refine limbo.push quiet ⟨alive, ⟨runs, fun other role => busy.1 ?_⟩, ?_, ?_, ?_⟩ requeue_eq
      · rw [runsOn, role] at runs
        subst runs
        exact (roster.role_idle prev other).mp role
      · simp [System.setState]
      · simp [System.setState]
      · exact fun other current => absurd current (absent other)
    next =>
      cases requeue_eq
      apply limbo.release
      constructor
      · exact fun _ => limbo.loose
      · exact fun other _ current => absurd current (absent other)
      · exact fun other current => absurd current (absent other)
      · exact fun place mem => absurd mem (limbo.loose place)
      · exact fun other current => absurd current (absent other)
      · exact fun _ _ => alive
      · exact fun _ _ _ => limbo.loose
      · exact fun other current => absurd current (absent other)
  next =>
    cases requeue_eq
    exact sound

/-!
### The events
-/

section Events

variable (sound : Sound roster sys)

include sound

theorem Sound.spawn {home : κ} {priority : Nat} (role : roster.role thread = .worker)
    (dead : sys.alive thread = false) :
    Sound roster ((initThread sys thread home priority).pushQueue (.mailbox home) thread) := by
  obtain ⟨loose, absent⟩ := sound.dead dead
  refine ((sound.limbo loose).initThread home priority).pushQueue (by trivial) ?_
  constructor
  · simp [initThread]
  · exact ⟨role, by simp [initThread]⟩
  · simp [initThread]
  · intro core daemon
    cases role.symm.trans daemon
  · exact fun core current => absurd current (absent core)

theorem Sound.initTimerDaemon (quiet : Quiet sys core)
    (dead : sys.alive (roster.daemon core) = false) {home : κ} {priority : Nat}
    (push_eq : (initThread sys (roster.daemon core) home priority).push core (roster.daemon core) =
      .ok next) : Sound roster next := by
  obtain ⟨loose, absent⟩ := sound.dead dead
  have role : roster.role (roster.daemon core) = .daemon core := (roster.role_daemon _ core).mpr rfl
  refine ((sound.limbo loose).initThread home priority).push quiet ?_ push_eq
  constructor
  · simp [initThread]
  · exact ⟨runsOn_daemon roster _ core, by simp [role]⟩
  · simp [initThread]
  · simp [initThread]
  · exact fun core current => absurd current (absent core)

omit [DecidableEq ω] in
/-- A running thread marks itself blocked. -/
theorem Sound.beginWait {queue : ω} (role : roster.role (sys.currentThread core) = .worker)
    (running : sys.state (sys.currentThread core) = .running) :
    Sound roster ((sys.setState (sys.currentThread core) .blocked).setPhase core
      (.waiting queue)) := by
  have own := sound.threads (sys.currentThread core)
  have loose := own.running running
  apply (((sound.limbo loose).setState .blocked).setPhase (.waiting queue) rfl).release
  constructor
  · simp [System.setPhase, System.setState]
  · exact fun _ _ _ _ => ⟨loose, role⟩
  · simp [System.setPhase, System.setState]
  · exact fun place mem => absurd mem (loose place)
  · exact own.current
  · exact own.idle
  · exact fun _ _ _ => loose
  · intro _ _ _ other
    exact absurd role other

theorem Sound.enterWait {queue : ω} (phase : sys.phase core = .waiting queue) :
    Sound roster ((sys.pushQueue (.wait queue) (sys.currentThread core)).setPhase core
      .leaving) := by
  have own := sound.threads (sys.currentThread core)
  obtain ⟨loose, role⟩ := own.waiting core queue rfl phase
  refine ((sound.limbo loose).setPhase .leaving rfl).pushQueue (by trivial) ?_
  have alive := (own.current core rfl).1
  refine own.settles role alive role ?_ rfl rfl fun other queue waiting same => ?_
  · exact own.stopped core rfl (by simp [phase])
  · obtain rfl := sound.current_inj same
    simp [System.setPhase] at waiting

omit [DecidableEq ω] in
/-- The current thread blocks itself without entering a queue. -/
theorem Sound.block (phase : sys.phase core = .running)
    (busy : sys.currentThread core ≠ roster.idle core) :
    Sound roster ((sys.setState (sys.currentThread core) .blocked).setPhase core .leaving) := by
  have own := sound.threads (sys.currentThread core)
  refine ⟨⟨sound.filed.exclusive, sound.filed.queue, sound.filed.pending, sound.filed.alone⟩,
    fun other => ?_, sound.sleepers⟩
  rcases eq_or_ne other (sys.currentThread core) with rfl | ne
  · constructor
    · simp [System.setPhase, System.setState]
    · intro other queue same waiting
      obtain rfl := sound.current_inj same
      simp [System.setPhase] at waiting
    · simp [System.setPhase, System.setState]
    · exact own.fits
    · exact own.current
    · exact own.idle
    · intro at_core daemon _
      exact own.running (own.system core rfl phase (by simp [daemon]))
    · intro other same running
      obtain rfl := sound.current_inj same
      simp [System.setPhase] at running
  · refine (sound.threads other).agree
      ⟨?_, rfl, rfl, fun _ => Iff.rfl, fun at_core was => ⟨was, ?_⟩⟩
    · simp [System.setPhase, System.setState, ne]
    · have elsewhere : at_core ≠ core := by
        rintro rfl
        exact ne was.symm
      simp [System.setPhase, System.setState, elsewhere]

omit [DecidableEq θ] in
/-- A blocked thread is passed to a waker. -/
theorem Sound.wake (role : roster.role thread = .worker) (blocked : sys.state thread = .blocked)
    (unclaimed : Unclaimed sys thread) : Sound roster (sys.putInto .hand thread) := by
  apply (sound.limbo unclaimed.loose).putHand
  exact (sound.threads thread).settles role unclaimed.alive role (by simp [blocked]) rfl rfl
    unclaimed.not_waiting

theorem Sound.popWait {queue : ω} {popped : System θ κ ω}
    (pop_eq : sys.popQueue (.wait queue) = (some thread, popped)) :
    Sound roster (popped.putInto .hand thread) := by
  have own := sound.threads thread
  obtain ⟨mem, limbo, _, _, rfl⟩ := sound.popQueue (by trivial) pop_eq
  obtain ⟨alive, role⟩ := own.fits _ mem
  refine limbo.putHand (own.settles role alive role ?_ rfl rfl (own.not_waiting mem))
  exact fun running => own.running running _ mem

omit [DecidableEq ω] in
theorem Sound.sleep (phase : sys.phase core = .running)
    (role : roster.role (sys.currentThread core) = .worker) :
    Sound roster ({ sys.setState (sys.currentThread core) .blocked with
      callouts := Function.update sys.callouts core
        (sys.currentThread core :: sys.callouts core) }.setPhase core .leaving) := by
  have busy : sys.currentThread core ≠ roster.idle core := by
    intro same
    cases role.symm.trans ((roster.role_idle _ core).mpr same)
  have blocked := sound.block phase busy
  refine ⟨⟨blocked.filed.exclusive, blocked.filed.queue, blocked.filed.pending,
    blocked.filed.alone⟩, fun other => ?_, fun at_core sleeper mem => ?_⟩
  · refine (blocked.threads other).agree ?_
    exact ⟨rfl, rfl, rfl, fun _ => Iff.rfl, fun _ current => ⟨current, rfl⟩⟩
  · rcases eq_or_ne at_core core with rfl | ne
    · rcases List.mem_cons.mp (by simpa [System.setPhase] using mem) with rfl | was
      · exact role
      · exact sound.sleepers at_core sleeper was
    · exact sound.sleepers at_core sleeper (by simpa [System.setPhase, ne] using mem)

/-- `wake_thread` makes a thread ready before it files it. -/
theorem Sound.readied (mem : thread ∈ sys.members .hand) :
    roster.role thread = .worker ∧
      Limbo roster ((sys.takeFrom .hand thread).setState thread .ready) thread ∧
      ∀ place, Fits roster ((sys.takeFrom .hand thread).setState thread .ready) thread place →
        Settles roster ((sys.takeFrom .hand thread).setState thread .ready) thread place := by
  have own := sound.threads thread
  obtain ⟨alive, role⟩ := own.fits _ mem
  refine ⟨role, (sound.takeFrom mem nofun).setState .ready, fun place fits => ?_⟩
  exact own.settles role alive fits (by simp [System.setState]) rfl rfl (own.not_waiting mem)

theorem Sound.wakeThread (mem : thread ∈ sys.members .hand)
    (quiet : sys.homeCore thread = core → Quiet sys core)
    (step_eq : step roster sys (.wakeThread core thread) = .ok next) : Sound roster next := by
  obtain ⟨role, limbo, settles⟩ := sound.readied mem
  rw [step, if_pos mem] at step_eq
  dsimp only at step_eq
  split at step_eq
  next home =>
    refine limbo.push ?_ (settles _ ⟨(runsOn_worker role).trans home, by simp [role]⟩) step_eq
    simpa [Quiet, System.setState, System.takeFrom, leave] using quiet home
  next away =>
    cases step_eq
    exact limbo.pushQueue (by trivial) (settles _ ⟨role, rfl⟩)

theorem Sound.beginWakeThread (mem : thread ∈ sys.members .hand) (home : sys.homeCore thread = core)
    (quiet : Quiet sys core)
    (begin_eq : beginPush ((sys.takeFrom .hand thread).setState thread .ready) core thread =
      .ok next) : Sound roster next := by
  obtain ⟨role, limbo, settles⟩ := sound.readied mem
  refine limbo.beginPush ?_ (settles _ ⟨role, home⟩) begin_eq
  simpa [Quiet, System.setState, System.takeFrom, leave] using quiet

theorem Sound.finishWakeThread (mem : thread ∈ sys.members (.inserting core)) :
    Sound roster (finishPush (sys.takeFrom (.inserting core) thread) core thread) := by
  have own := sound.threads thread
  obtain ⟨alive, role, home⟩ := own.fits _ mem
  have limbo := sound.takeFrom mem nofun
  have settles : Settles roster (sys.takeFrom (.inserting core) thread) thread
      (.queue (.ready core (sys.priority thread))) := by
    refine own.settles role alive ⟨(runsOn_worker role).trans home, by simp [role]⟩ ?_ rfl rfl
      (own.not_waiting mem)
    exact fun running => own.running running _ mem
  refine ⟨sound.filed.finishPush mem, fun other => ?_, sound.sleepers⟩
  rcases eq_or_ne other thread with rfl | ne
  · exact settles.threadOk rfl rfl rfl rfl rfl fun _ mem => place_of_mem_join limbo.loose mem
  · exact (limbo.others other ne).agree (agree_finishPush _ ne core)

theorem Sound.wakeDaemon (quiet : Quiet sys core) (alive : sys.alive (roster.daemon core) = true)
    (blocked : sys.state (roster.daemon core) = .blocked)
    (push_eq : (sys.setState (roster.daemon core) .ready).push core (roster.daemon core) =
      .ok next) : Sound roster next := by
  have own := sound.threads (roster.daemon core)
  have role : roster.role (roster.daemon core) = .daemon core := (roster.role_daemon _ core).mpr rfl
  have loose := own.daemon core role blocked
  refine ((sound.limbo loose).setState .ready).push quiet ?_ push_eq
  constructor
  · exact alive
  · exact ⟨runsOn_daemon roster _ core, by simp [role]⟩
  · simp [System.setState]
  · simp [System.setState]
  · intro other current
    refine ⟨(own.current other current).2, fun queue waiting => ?_, fun running => ?_⟩
    · cases role.symm.trans (own.waiting other queue current waiting).2
    · cases blocked.symm.trans (own.system other current running (by simp [role]))

theorem Sound.expire (mem : thread ∈ sys.callouts core) (unclaimed : Unclaimed sys thread)
    (home : sys.homeCore thread = core) (quiet : Quiet sys core)
    (push_eq : { sys.setState thread .ready with
      callouts := Function.update sys.callouts core ((sys.callouts core).erase thread) }.push core
        thread = .ok next) : Sound roster next := by
  have own := sound.threads thread
  have role := sound.sleepers core thread mem
  have readied := (sound.limbo unclaimed.loose).setState .ready
  have limbo : Limbo roster { sys.setState thread .ready with
      callouts := Function.update sys.callouts core
        ((sys.callouts core).erase thread) } thread := by
    refine ⟨⟨readied.filed.exclusive, readied.filed.queue, readied.filed.pending,
      readied.filed.alone⟩, fun other ne => ?_, readied.loose, fun at_core sleeper sleeps => ?_⟩
    · refine (readied.others other ne).agree ?_
      exact ⟨rfl, rfl, rfl, fun _ => Iff.rfl, fun _ current => ⟨current, rfl⟩⟩
    · rcases eq_or_ne at_core core with rfl | ne
      · exact sound.sleepers at_core sleeper (List.mem_of_mem_erase (by simpa using sleeps))
      · exact sound.sleepers at_core sleeper (by simpa [ne] using sleeps)
  refine limbo.push quiet ?_ push_eq
  exact own.settles role unclaimed.alive ⟨(runsOn_worker role).trans home, by simp [role]⟩
    (by simp [System.setState]) rfl rfl unclaimed.not_waiting

theorem Sound.takeMail {popped : System θ κ ω} (quiet : Quiet sys core)
    (pop_eq : sys.popQueue (.mailbox core) = (some thread, popped))
    (push_eq : (popped.setState thread .ready).push core thread = .ok next) :
    Sound roster next := by
  have own := sound.threads thread
  obtain ⟨mem, limbo, _, _, rfl⟩ := sound.popQueue (by trivial) pop_eq
  obtain ⟨alive, role, home⟩ := own.fits _ mem
  refine (limbo.setState .ready).push ?_ ?_ push_eq
  · simpa [Quiet, System.setState, leave] using quiet
  · exact own.settles role alive ⟨(runsOn_worker role).trans home, by simp [role]⟩
      (by simp [System.setState]) rfl rfl (own.not_waiting mem)

theorem Sound.terminate (role : roster.role (sys.currentThread core) = .worker)
    (running : sys.state (sys.currentThread core) = .running) :
    Sound roster (((sys.setState (sys.currentThread core) .terminated).pushQueue .graveyard
      (sys.currentThread core)).setPhase core .leaving) := by
  have own := sound.threads (sys.currentThread core)
  have limbo := ((sound.limbo (own.running running)).setState .terminated).setPhase .leaving rfl
  refine limbo.pushQueue (by trivial) ?_
  have alive := (own.current core rfl).1
  refine own.settles role alive role ?_ rfl rfl fun other queue waiting same => ?_
  · simp [System.setPhase, System.setState]
  · obtain rfl := sound.current_inj same
    simp [System.setPhase] at waiting

theorem Sound.kill (role : roster.role thread = .worker) (unclaimed : Unclaimed sys thread) :
    Sound roster ((sys.setState thread .terminated).pushQueue .graveyard thread) := by
  refine ((sound.limbo unclaimed.loose).setState .terminated).pushQueue (by trivial) ?_
  exact (sound.threads thread).settles role unclaimed.alive role (by simp [System.setState]) rfl rfl
    unclaimed.not_waiting

/-- The reaper takes a thread out of the graveyard. -/
theorem Sound.popGraveyard {popped : System θ κ ω}
    (pop_eq : sys.popQueue .graveyard = (some thread, popped)) :
    Sound roster popped ∧ Loose popped.members thread := by
  have own := sound.threads thread
  obtain ⟨mem, limbo, _, _, rfl⟩ := sound.popQueue (by trivial) pop_eq
  refine ⟨limbo.release ?_, limbo.loose⟩
  constructor
  · exact fun _ => limbo.loose
  · exact fun core queue current waiting =>
      ⟨limbo.loose, (own.waiting core queue current waiting).2⟩
  · exact own.stopped
  · exact fun place mem => absurd mem (limbo.loose place)
  · exact own.current
  · exact own.idle
  · exact fun _ _ _ => limbo.loose
  · exact own.system

omit [DecidableEq κ] [DecidableEq ω] in
/-- A control block that is in no place and on no core is given back. -/
theorem Sound.free (role : roster.role thread = .worker) (loose : Loose sys.members thread)
    (absent : ∀ core, sys.currentThread core ≠ thread) :
    Sound roster { sys with alive := Function.update sys.alive thread false } := by
  refine ⟨⟨sound.filed.exclusive, sound.filed.queue, sound.filed.pending, sound.filed.alone⟩,
    fun other => ?_, sound.sleepers⟩
  rcases eq_or_ne other thread with rfl | ne
  · constructor
    · exact fun _ => loose
    · exact fun core _ current => absurd current (absent core)
    · exact fun core current => absurd current (absent core)
    · exact fun place mem => absurd mem (loose place)
    · exact fun core current => absurd current (absent core)
    · intro core idle
      cases role.symm.trans idle
    · exact fun _ _ _ => loose
    · exact fun core current => absurd current (absent core)
  · refine (sound.threads other).agree ?_
    exact ⟨rfl, rfl, Function.update_of_ne ne .., fun _ => Iff.rfl, fun _ current => ⟨current, rfl⟩⟩

theorem Sound.reap {popped : System θ κ ω} (absent : ∀ core, sys.currentThread core ≠ thread)
    (pop_eq : sys.popQueue .graveyard = (some thread, popped)) :
    Sound roster { popped with alive := Function.update popped.alive thread false } := by
  obtain ⟨mem, _⟩ := sound.popQueue (by trivial) pop_eq
  obtain ⟨popped_sound, loose⟩ := sound.popGraveyard pop_eq
  refine popped_sound.free ((sound.threads thread).fits _ mem).2 loose fun core => ?_
  rw [(popQueue_untouched pop_eq).current_eq]
  exact absent core

omit [DecidableEq θ] [DecidableEq κ] [DecidableEq ω] in
/-- The idle thread is in no place. -/
theorem Sound.idle_loose : Loose sys.members (roster.idle core) := by
  intro place mem
  have role : roster.role (roster.idle core) = .idle core := (roster.role_idle _ core).mpr rfl
  have fits := ((sound.threads _).fits place mem).2
  unfold Fits at fits
  split at fits <;> simp_all

/-- Nothing else is ready: the current thread goes on, or the idle thread runs. -/
theorem Sound.schedule_none {popped : System θ κ ω} (pop_eq : sys.pop core = (none, popped))
    (schedule_eq : schedule roster sys core = .ok next) : Sound roster next := by
  have own := sound.threads (sys.currentThread core)
  obtain rfl := pop_none pop_eq
  obtain ⟨requeued, requeue_eq, rfl⟩ := schedule_eq_ok pop_eq schedule_eq
  by_cases running : popped.state (popped.currentThread core) = .running
  · have next_eq : nextThread roster popped core none = popped.currentThread core := if_pos running
    rw [next_eq, requeue_self running] at requeue_eq
    cases requeue_eq
    rw [next_eq]
    exact ((sound.limbo (own.running running)).setState .ready).dispatch (own.current core rfl).1
      (own.current core rfl).2 fun other same => sound.current_inj same
  · have next_eq : nextThread roster popped core none = roster.idle core := if_neg running
    rw [next_eq, requeue_stopped running] at requeue_eq
    cases requeue_eq
    rw [next_eq]
    have idle := sound.threads (roster.idle core)
    have role : roster.role (roster.idle core) = .idle core := (roster.role_idle _ core).mpr rfl
    refine (sound.limbo sound.idle_loose).dispatch (idle.idle core role)
      (runsOn_idle roster _ core) fun other same => ?_
    rw [← (idle.current other same).2, runsOn_idle]

/-- A thread from a ready queue runs next. -/
theorem Sound.schedule_some {popped : System θ κ ω} (quiet : Quiet sys core)
    (pop_eq : sys.pop core = (some thread, popped))
    (schedule_eq : schedule roster sys core = .ok next) : Sound roster next := by
  have own := sound.threads thread
  have prev_ok := sound.threads (sys.currentThread core)
  obtain ⟨priority, mem, limbo, _, _, _, rfl⟩ := sound.pop quiet pop_eq
  obtain ⟨alive, runs, _⟩ := own.fits _ mem
  obtain ⟨requeued, requeue_eq, rfl⟩ := schedule_eq_ok pop_eq schedule_eq
  have dispatched := limbo.dispatch alive runs fun other same =>
    (own.current other same).2.symm.trans runs
  rcases eq_or_ne (sys.currentThread core) thread with same | ne
  · -- The thread had been woken before it was off the core.
    have stopped : sys.state thread ≠ .running := fun running => own.running running _ mem
    rw [requeue_stopped (by rw [same]; exact stopped)] at requeue_eq
    cases requeue_eq
    exact dispatched
  · refine dispatched.requeue ?_ ?_ ?_ ?_ (requeue_dispatch ne requeue_eq)
    · simpa [Quiet, dispatch, System.setPhase, System.setState, leave] using quiet
    · exact (prev_ok.current core rfl).1
    · exact (prev_ok.current core rfl).2
    · intro other current
      rcases eq_or_ne other core with rfl | elsewhere
      · exact ne (by simpa [dispatch, System.setPhase, System.setState] using current.symm)
      · have was : sys.currentThread other = sys.currentThread core := by
          simpa [dispatch, System.setPhase, System.setState, elsewhere] using current
        exact elsewhere (sound.current_inj was)

end Events

/-- What a queue gives up is its first thread. -/
theorem popQueue_head {popped : System θ κ ω}
    (pop_eq : sys.popQueue queue = (some thread, popped)) :
    (sys.ends queue).head = some thread := by
  cases head_eq : (sys.ends queue).head with
  | none =>
      rw [System.popQueue, IntrusiveQueue.pop, head_eq] at pop_eq
      cases pop_eq
  | some first =>
      rw [System.popQueue, IntrusiveQueue.pop, head_eq] at pop_eq
      exact (Prod.mk.inj pop_eq).1

/-- Every orderly event keeps the threads in order. -/
theorem Sound.step {event : Event θ κ ω} (sound : Sound roster sys) (orderly : Orderly sys event)
    (step_eq : step roster sys event = .ok next) : Sound roster next := by
  cases event with
  | spawn thread home priority =>
      obtain ⟨⟨role, dead⟩, ⟨⟩⟩ := guard_eq_ok.mp step_eq
      exact sound.spawn role dead
  | initTimerDaemon core =>
      obtain ⟨dead, push_eq⟩ := guard_eq_ok.mp step_eq
      exact sound.initTimerDaemon orderly dead push_eq
  | beginWait core queue =>
      obtain ⟨⟨_, role⟩, ⟨⟩⟩ := guard_eq_ok.mp step_eq
      exact sound.beginWait role orderly
  | enterWait core =>
      obtain ⟨queue, phase, rfl⟩ := enterWait_eq_ok step_eq
      exact sound.enterWait phase
  | sleep core =>
      obtain ⟨⟨phase, role⟩, ⟨⟩⟩ := guard_eq_ok.mp step_eq
      exact sound.sleep phase role
  | block core =>
      obtain ⟨⟨phase, busy⟩, ⟨⟩⟩ := guard_eq_ok.mp step_eq
      exact sound.block phase busy
  | wake thread =>
      obtain ⟨⟨role, blocked⟩, ⟨⟩⟩ := guard_eq_ok.mp step_eq
      exact sound.wake role blocked orderly
  | popWait queue =>
      obtain rfl | ⟨thread, popped, pop_eq, ⟨⟩⟩ := popQueue_eq_ok step_eq
      · exact sound
      · exact sound.popWait pop_eq
  | wakeThread core thread =>
      obtain ⟨mem, _⟩ := guard_eq_ok.mp step_eq
      exact sound.wakeThread mem orderly step_eq
  | beginWakeThread core thread =>
      obtain ⟨⟨mem, home⟩, begin_eq⟩ := guard_eq_ok.mp step_eq
      exact sound.beginWakeThread mem home orderly begin_eq
  | finishWakeThread core thread =>
      obtain ⟨mem, ⟨⟩⟩ := guard_eq_ok.mp step_eq
      exact sound.finishWakeThread mem
  | wakeDaemon core =>
      obtain ⟨⟨alive, blocked⟩, push_eq⟩ := guard_eq_ok.mp step_eq
      exact sound.wakeDaemon orderly alive blocked push_eq
  | expire core thread =>
      obtain ⟨mem, push_eq⟩ := guard_eq_ok.mp step_eq
      obtain ⟨unclaimed, home, quiet⟩ := orderly
      exact sound.expire mem unclaimed home quiet push_eq
  | takeMail core =>
      obtain rfl | ⟨thread, popped, pop_eq, push_eq⟩ := takeMail_eq_ok step_eq
      · exact sound
      · exact sound.takeMail orderly pop_eq push_eq
  | schedule core =>
      have schedule_eq := step_schedule_eq_ok step_eq
      rcases pop_eq : sys.pop core with ⟨_ | thread, popped⟩
      · exact sound.schedule_none pop_eq schedule_eq
      · exact sound.schedule_some orderly pop_eq schedule_eq
  | reenter core queue => exact orderly.elim
  | terminate core =>
      obtain ⟨⟨_, role⟩, ⟨⟩⟩ := guard_eq_ok.mp step_eq
      exact sound.terminate role orderly
  | kill thread =>
      obtain ⟨role, ⟨⟩⟩ := guard_eq_ok.mp step_eq
      exact sound.kill role orderly
  | reap =>
      obtain rfl | ⟨thread, popped, pop_eq, ⟨⟩⟩ := popQueue_eq_ok step_eq
      · exact sound
      · refine sound.reap (fun core same => ?_) pop_eq
        exact orderly core (same ▸ popQueue_head pop_eq)

/-- In every orderly run each thread is linked into one queue at most, and stays there until it is
popped. -/
theorem threads_in_one_queue {final : System θ κ ω} {events : List (Event θ κ ω)}
    (boot : Boot roster sys) (permits : (machine roster).Permits sys events)
    (run_eq : (machine roster).run sys events = .ok final) : SingleQueue final := by
  have keeps : ∀ (sys : System θ κ ω) event next, Sound roster sys → Orderly sys event →
      step roster sys event = .ok next → Sound roster next :=
    fun _ _ _ sound orderly step_eq => sound.step orderly step_eq
  exact ((machine roster).run_keeps keeps (Sound.boot boot) permits run_eq).filed.singleQueue

/-- A thread blocks on a lock, is woken by its owner, and exits. -/
def soloEvents : List (Event Nat Unit Unit) :=
  [.spawn 3 () 8, .takeMail (), .schedule (), .beginWait () (), .enterWait (), .schedule (),
    .popWait (), .wakeThread () 3, .block (), .schedule (), .terminate ()]

theorem soloEvents_permitted : (machine soloRoster).Permits soloBoot soloEvents := by
  refine Machine.permits_cons _ trivial rfl ?_
  refine Machine.permits_cons _ (by rfl) rfl ?_
  refine Machine.permits_cons _ (by rfl) rfl ?_
  refine Machine.permits_cons _ (by rfl) rfl ?_
  refine Machine.permits_cons _ trivial rfl ?_
  refine Machine.permits_cons _ (by rfl) rfl ?_
  refine Machine.permits_cons _ trivial rfl ?_
  refine Machine.permits_cons _ (fun _ => by rfl) rfl ?_
  refine Machine.permits_cons _ trivial rfl ?_
  refine Machine.permits_cons _ (by rfl) rfl ?_
  exact Machine.permits_cons _ (by rfl) rfl trivial

theorem threads_in_one_queue_solo :
    ∃ final, (machine soloRoster).run soloBoot soloEvents = .ok final ∧ SingleQueue final ∧
      final.members (.queue .graveyard) = [3] := by
  obtain ⟨final, run_eq, members_eq⟩ : ∃ final, (machine soloRoster).run soloBoot soloEvents =
      .ok final ∧ final.members (.queue .graveyard) = [3] := ⟨_, rfl, rfl⟩
  exact ⟨final, run_eq, threads_in_one_queue soloBoot_boot soloEvents_permitted run_eq, members_eq⟩

/-- A thread in a ready queue is killed: the threads behind it are lost. -/
theorem killed_thread_in_two_queues :
    ∃ (roster : Roster Nat Unit) (sys final : System Nat Unit Unit)
      (events : List (Event Nat Unit Unit)),
      Boot roster sys ∧ (machine roster).run sys events = .ok final ∧ ¬ SingleQueue final := by
  refine ⟨soloRoster, soloBoot, _, [.spawn 3 () 8, .spawn 4 () 8, .takeMail (), .takeMail (),
    .kill 3], soloBoot_boot, rfl, fun single => ?_⟩
  have linked : Linked _ [3, 4] := (single.queue (.ready () 8)).linked
  cases linked.1

end Scheduler
end Vespertine
