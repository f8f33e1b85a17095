import Vespertine.Thread.Schedule

/-!
# Urgency

`schedule` brings the threads of the mailbox to the ready queues, takes the first thread of the most
urgent queue, and looks at the previous thread only if all queues are empty.
-/

namespace Vespertine
namespace Schedule

open IntrusiveQueue (Loose join leave)
open ThreadQueues (Ptr Place Holds System thread)

variable {heaps : CalloutHeap} {core : Core heaps} {lists : Place Unit Unit → List Ptr}

/-- The queues of a core, among which the mailbox is the only one that is not a ready queue. -/
def Core.system (core : Core heaps) : System Unit Unit :=
  ⟨core.priority, core.next, fun _ => core.mailbox, fun _ => core.ready⟩

/-- The queues hold these threads, each ready thread in the queue of its priority. -/
structure Queued (core : Core heaps) (lists : Place Unit Unit → List Ptr) : Prop where
  holds : Holds core.system lists
  ready : ∀ priority, ∀ thread ∈ lists (.ready () priority), core.priority thread = priority

/-- Filing threads changes nothing but the queues and the states of threads. -/
structure Filed (before after : Core heaps) : Prop where
  priority_eq : after.priority = before.priority
  idle_eq : after.idleThread = before.idleThread
  current_eq : after.currentThread = before.currentThread
  daemon_eq : after.timerDaemonTcb = before.timerDaemonTcb
  expiry_eq : after.quantumExpiry = before.quantumExpiry
  callouts_eq : after.calloutQueue = before.calloutQueue
  timer_eq : after.timer = before.timer

theorem Filed.trans {first second third : Core heaps} (left : Filed first second)
    (right : Filed second third) : Filed first third :=
  ⟨right.priority_eq.trans left.priority_eq, right.idle_eq.trans left.idle_eq,
    right.current_eq.trans left.current_eq, right.daemon_eq.trans left.daemon_eq,
    right.expiry_eq.trans left.expiry_eq, right.callouts_eq.trans left.callouts_eq,
    right.timer_eq.trans left.timer_eq⟩

theorem filed_queues (state : Ptr → Scheduler.ThreadState) (next : ThreadQueues.Links)
    (ready : ThreadQueues.ReadyQueues) (mailbox : ThreadQueues.TCBQueue) :
    Filed core { core with state, next, ready, mailbox } :=
  ⟨rfl, rfl, rfl, rfl, rfl, rfl, rfl⟩

theorem update_unit {α : Type} (old new : α) :
    Function.update (fun _ : Unit => old) () new = fun _ => new := by
  funext place
  exact Function.update_self ..

/-! ## Queue operations of a core -/

section Operations

/-- A push of the core is a push of the system of its queues. -/
theorem push_of_step {item : Ptr} {ret : Option Ptr} {sys : System Unit Unit}
    (step_eq : core.system.step (.push () (some item)) = .ok (ret, sys)) :
    ∃ after, core.push item = .ok after ∧ after.system = sys ∧ Filed core after ∧
      after.state = core.state := by
  obtain ⟨⟨next, ready⟩, push_eq, sys_eq⟩ := bind_eq_ok.mp step_eq
  cases sys_eq
  refine ⟨{ core with next, ready }, ?_, ?_, filed_queues .., rfl⟩
  · rw [Core.push, show core.ready.push core.next core.priority (some item) = .ok (next, ready)
      from push_eq]
    rfl
  · simp only [Core.system, update_unit]

/-- A push that returns has found the queue of the thread. -/
theorem push_filed {item : Ptr} {after : Core heaps} (ok : core.push item = .ok after) :
    core.priority item < 32 ∧ Filed core after ∧ after.state = core.state := by
  obtain ⟨⟨next, ready⟩, push_eq, pure_eq⟩ := bind_eq_ok.mp ok
  cases pure_eq
  refine ⟨?_, filed_queues .., rfl⟩
  by_contra outside
  rw [ThreadQueues.ReadyQueues.push, dif_neg outside] at push_eq
  cases push_eq

/-- A push returns, whatever the queues hold. -/
theorem push_returns (core : Core heaps) {item : Ptr} (inside : core.priority item < 32) :
    ∃ after, core.push item = .ok after ∧ Filed core after ∧ after.state = core.state := by
  have index_eq : core.system.priority item = (⟨core.priority item, inside⟩ : Fin 32) := rfl
  obtain ⟨after, push_eq, -, filed, state_eq⟩ := push_of_step (System.step_push index_eq ())
  exact ⟨after, push_eq, filed, state_eq⟩

theorem Queued.push (queued : Queued core lists) {item : Ptr} (loose : Loose lists item)
    {index : Fin 32} (index_eq : core.priority item = index) :
    ∃ after, core.push item = .ok after ∧ Filed core after ∧ after.state = core.state ∧
      Queued after (join lists (.ready () index) item) := by
  obtain ⟨sys, step_eq, holds⟩ := queued.holds.push loose index_eq ()
  obtain ⟨after, push_eq, rfl, filed, state_eq⟩ := push_of_step step_eq
  refine ⟨after, push_eq, filed, state_eq, holds, fun priority thread mem => ?_⟩
  rw [filed.priority_eq]
  rcases IntrusiveQueue.mem_join.mp mem with old | ⟨place_eq, rfl⟩
  · exact queued.ready priority thread old
  · cases place_eq
    exact index_eq

/-- A thread is taken out of the mailbox. -/
theorem Queued.popMail (queued : Queued core lists) {item : Ptr} {rest : List Ptr}
    (lists_eq : lists (.queue ()) = item :: rest) :
    ∃ next mailbox, core.mailbox.pop core.next = (some item, next, mailbox) ∧
      Queued { core with next, mailbox } (Function.update lists (.queue ()) rest) := by
  obtain ⟨sys, step_eq, holds⟩ := queued.holds.popQueue ()
  rw [ThreadQueues.takeFirst, lists_eq] at holds
  obtain ⟨⟨ret, next, mailbox⟩, pop_eq⟩ : ∃ popped, core.mailbox.pop core.next = popped := ⟨_, rfl⟩
  rw [System.step, show (core.system.queues ()).pop core.system.next = (ret, next, mailbox)
    from pop_eq, lists_eq] at step_eq
  cases step_eq
  refine ⟨next, mailbox, pop_eq, ?_, fun priority thread mem => ?_⟩
  · simpa only [Core.system, update_unit, List.tail_cons] using holds
  · have ne : (Place.ready () priority : Place Unit Unit) ≠ .queue () := by rintro ⟨⟩
    rw [Function.update_of_ne ne] at mem
    exact queued.ready priority thread mem

theorem Queued.popMail_nil (queued : Queued core lists) (lists_eq : lists (.queue ()) = []) :
    (core.mailbox.pop core.next).1 = none := by
  have own := queued.holds.queue (.queue ())
  rw [lists_eq] at own
  exact congrArg Prod.fst (ThreadQueues.TCBQueue.pop_none own.pop_nil)

/-- The thread that is popped is the first of the lowest list. -/
theorem Queued.pop_eq (queued : Queued core lists) :
    ∃ after, core.pop = ((ThreadQueues.listStep core.priority lists (.pop ())).1, after) ∧
      Filed core after ∧ after.state = core.state := by
  obtain ⟨sys, step_eq, -⟩ := queued.holds.pop ()
  obtain ⟨⟨ret, next, ready⟩, pop_eq⟩ : ∃ popped, core.ready.pop core.next = popped := ⟨_, rfl⟩
  rw [System.step, show (core.system.ready ()).pop core.system.next = (ret, next, ready)
    from pop_eq] at step_eq
  refine ⟨{ core with next, ready }, ?_, filed_queues .., rfl⟩
  rw [Core.pop, pop_eq]
  exact congrArg (·, _) (Prod.mk.inj (Except.ok.inj step_eq)).1

/-- What is popped is as urgent as anything that waits. -/
theorem Queued.pop_urgent (queued : Queued core lists) (empty : lists (.queue ()) = []) :
    match (ThreadQueues.listStep core.priority lists (.pop ())).1 with
    | none => ∀ place, lists place = []
    | some thread => (∃ place, thread ∈ lists place) ∧
        ∀ other place, other ∈ lists place → core.priority thread ≤ core.priority other := by
  rw [ThreadQueues.listStep]
  cases lowest_eq : ThreadQueues.lowest lists () with
  | none =>
      rintro (_ | ⟨_, priority⟩)
      · exact empty
      · exact ThreadQueues.lowest_eq_none.mp lowest_eq priority
  | some first =>
      obtain ⟨has, below⟩ := ThreadQueues.lowest_eq_some lowest_eq
      obtain ⟨thread, rest, lists_eq⟩ := List.exists_cons_of_ne_nil has
      have thread_mem : thread ∈ lists (.ready () first) := by simp [lists_eq]
      simp only [ThreadQueues.takeFirst, lists_eq, List.head?_cons]
      refine ⟨⟨_, thread_mem⟩, ?_⟩
      rintro other (_ | ⟨_, priority⟩) mem
      · rw [empty] at mem
        cases mem
      · rw [queued.ready first thread thread_mem, queued.ready priority other mem]
        by_contra lt
        rw [below priority (by omega)] at mem
        cases mem

end Operations

/-! ## The mailbox -/

section Mail

/-- The thread waits in one of the queues. -/
def Waits (lists : Place Unit Unit → List Ptr) (thread : Ptr) : Prop :=
  ∃ place, thread ∈ lists place

theorem Queued.setState (queued : Queued core lists) (thread : Ptr)
    (state : Scheduler.ThreadState) : Queued (core.setState thread state) lists :=
  ⟨queued.holds, queued.ready⟩

/-- A thread that moves from one queue to another goes on waiting. -/
theorem waits_move (exclusive : IntrusiveQueue.Exclusive lists) {from_place place : Place Unit Unit}
    {item : Ptr} (mem : item ∈ lists from_place) (thread : Ptr) :
    Waits (join (leave lists from_place item) place item) thread ↔ Waits lists thread := by
  constructor
  · rintro ⟨elsewhere, found⟩
    rcases IntrusiveQueue.mem_join.mp found with old | ⟨-, rfl⟩
    · exact ⟨elsewhere, (exclusive.mem_leave.mp old).1⟩
    · exact ⟨from_place, mem⟩
  · rintro ⟨elsewhere, found⟩
    by_cases same : thread = item
    · exact ⟨place, IntrusiveQueue.mem_join.mpr (.inr ⟨rfl, same⟩)⟩
    · refine ⟨elsewhere, IntrusiveQueue.mem_join.mpr (.inl ?_)⟩
      exact exclusive.mem_leave.mpr ⟨found, fun both => same both.2⟩

/-- One round moves the first thread of the mailbox to its ready queue. -/
theorem mailLoop_succ (queued : Queued core lists) {item : Ptr} {rest : List Ptr}
    (mail_eq : lists (.queue ()) = item :: rest) (inside : core.priority item < 32) :
    ∃ pushed moved, (∀ fuel, core.mailLoop (fuel + 1) = pushed.mailLoop fuel) ∧
      Filed core pushed ∧ Queued pushed moved ∧ moved (.queue ()) = rest ∧
      (∀ thread, Waits moved thread ↔ Waits lists thread) ∧
      pushed.state = Function.update core.state item .ready := by
  have mem : item ∈ lists (.queue ()) := by simp [mail_eq]
  obtain ⟨next, mailbox, pop_eq, popped⟩ := queued.popMail mail_eq
  have left_eq : Function.update lists (.queue ()) rest = leave lists (.queue ()) item := by
    rw [leave, mail_eq, List.erase_cons_head]
  rw [left_eq] at popped
  have loose := queued.holds.exclusive.loose_leave mem
  obtain ⟨pushed, push_eq, filed, state_eq, queued'⟩ :=
    (popped.setState item .ready).push loose
      (show _ = ((⟨core.priority item, inside⟩ : Fin 32) : Nat) from rfl)
  refine ⟨pushed, _, fun fuel => ?_, ?_, queued', ?_,
    waits_move queued.holds.exclusive mem, state_eq⟩
  · rw [Core.mailLoop, pop_eq]
    simp only [push_eq, bind, Except.bind]
  · have taken : Filed core ({ core with next, mailbox }.setState item .ready) :=
      filed_queues ..
    exact taken.trans filed
  · have ne : (Place.queue () : Place Unit Unit) ≠ .ready () ⟨core.priority item, inside⟩ := by
      rintro ⟨⟩
    rw [join, Function.update_of_ne ne, ← left_eq, Function.update_self]

/-- The mailbox is emptied, and its threads become ready. -/
theorem mailLoop_spec (queued : Queued core lists) {fuel : Nat}
    (enough : (lists (.queue ())).length < fuel)
    (mail : ∀ thread ∈ lists (.queue ()), core.priority thread < 32) :
    ∃ merged after, core.mailLoop fuel = .ok merged ∧ Filed core merged ∧ Queued merged after ∧
      after (.queue ()) = [] ∧ (∀ thread, Waits after thread ↔ Waits lists thread) ∧
      (∀ thread ∈ lists (.queue ()), merged.state thread = .ready) ∧
      ∀ thread ∉ lists (.queue ()), merged.state thread = core.state thread := by
  induction mail_eq : lists (.queue ()) generalizing core lists fuel with
  | nil =>
      rw [mail_eq] at enough
      obtain ⟨fuel, rfl⟩ := Nat.exists_eq_add_of_lt enough
      refine ⟨core, lists, ?_, filed_queues .., queued, mail_eq, fun _ => Iff.rfl, nofun,
        fun _ _ => rfl⟩
      have nothing := queued.popMail_nil mail_eq
      rw [List.length_nil, Nat.zero_add, Core.mailLoop]
      split
      next => rfl
      next pop_eq =>
        rw [pop_eq] at nothing
        cases nothing
  | cons item rest ih =>
      rw [mail_eq, List.length_cons] at enough
      obtain ⟨fuel, rfl⟩ : ∃ less, fuel = less + 1 :=
        Nat.exists_eq_succ_of_ne_zero (Nat.ne_of_gt ((Nat.zero_le _).trans_lt enough))
      have not_mem : item ∉ rest := by
        have once := queued.holds.exclusive.nodup (.queue ())
        rw [mail_eq] at once
        exact (List.nodup_cons.mp once).1
      obtain ⟨pushed, moved, round_eq, filed, queued', rest_eq, moved_iff, state_eq⟩ :=
        mailLoop_succ queued mail_eq (mail item (by simp [mail_eq]))
      have mail' : ∀ thread ∈ moved (.queue ()), pushed.priority thread < 32 := by
        intro thread found
        rw [rest_eq] at found
        rw [filed.priority_eq]
        exact mail thread (mail_eq ▸ List.mem_cons_of_mem item found)
      obtain ⟨merged, after, loop_eq, filed', after_queued, empty, waits_iff, mail_ready, same⟩ :=
        ih queued' (rest_eq.symm ▸ Nat.lt_of_succ_lt_succ enough) mail' rest_eq
      refine ⟨merged, after, (round_eq fuel).trans loop_eq, filed.trans filed', after_queued, empty,
        fun thread => (waits_iff thread).trans (moved_iff thread), ?_, ?_⟩
      · rintro thread found
        rcases List.mem_cons.mp found with rfl | later
        · rw [same thread not_mem, state_eq]
          exact Function.update_self ..
        · exact mail_ready thread later
      · rintro thread absent
        have ne : thread ≠ item := fun eq => absent (eq.symm ▸ List.mem_cons_self)
        rw [same thread fun later => absent (List.mem_cons_of_mem item later), state_eq]
        exact Function.update_of_ne ne ..

/-- The mailbox cannot be emptied if a thread in it has no ready queue. -/
theorem mail_of_ok (queued : Queued core lists) {fuel : Nat} {merged : Core heaps}
    (ok : core.mailLoop fuel = .ok merged) :
    ∀ thread ∈ lists (.queue ()), core.priority thread < 32 := by
  induction mail_eq : lists (.queue ()) generalizing core lists fuel with
  | nil => nofun
  | cons item rest ih =>
      cases fuel with
      | zero => cases ok
      | succ fuel =>
          have inside : core.priority item < 32 := by
            obtain ⟨next, mailbox, pop_eq, -⟩ := queued.popMail mail_eq
            have pushes := ok
            rw [Core.mailLoop, pop_eq] at pushes
            obtain ⟨pushed, push_eq, -⟩ := bind_eq_ok.mp pushes
            exact (push_filed push_eq).1
          obtain ⟨pushed, moved, round_eq, filed, queued', rest_eq, -, -⟩ :=
            mailLoop_succ queued mail_eq inside
          have later := ih queued' ((round_eq fuel).symm.trans ok) rest_eq
          rw [filed.priority_eq] at later
          exact List.forall_mem_cons.mpr ⟨inside, later⟩

/-- The part of `schedule` that chooses between the waiting threads. -/
theorem select_spec (queued : Queued core lists)
    (mail : ∀ thread ∈ lists (.queue ()), core.priority thread < 32) :
    ∃ merged popped rest, core.mailLoop (core.mailbox.queueLength + 1) = .ok merged ∧
      merged.pop = (popped, rest) ∧ Filed core rest ∧
      match popped with
      | none => (∀ thread, ¬Waits lists thread) ∧ rest.state = core.state
      | some thread => Waits lists thread ∧
          ∀ other, Waits lists other → core.priority thread ≤ core.priority other := by
  have length_eq : core.mailbox.queueLength = (lists (.queue ())).length :=
    queued.holds.queue_length ()
  obtain ⟨merged, after, loop_eq, filed, queued', empty, waits_iff, -, same⟩ :=
    mailLoop_spec queued (Nat.lt_succ_of_le length_eq.ge) mail
  obtain ⟨rest, pop_eq, filed', state_eq⟩ := queued'.pop_eq
  have urgent := queued'.pop_urgent empty
  refine ⟨merged, _, rest, loop_eq, pop_eq, filed.trans filed', ?_⟩
  cases popped_eq : (ThreadQueues.listStep merged.priority after (.pop ())).1 with
  | none =>
      rw [popped_eq] at urgent
      have none_waits : ∀ thread, ¬Waits lists thread := by
        intro thread waits
        obtain ⟨place, mem⟩ := (waits_iff thread).mpr waits
        rw [urgent place] at mem
        cases mem
      refine ⟨none_waits, ?_⟩
      rw [state_eq]
      funext thread
      exact same thread fun mem => none_waits thread ⟨_, mem⟩
  | some thread =>
      rw [popped_eq, filed.priority_eq] at urgent
      refine ⟨(waits_iff thread).mp urgent.1, fun other waits => ?_⟩
      obtain ⟨place, mem⟩ := (waits_iff other).mpr waits
      exact urgent.2 other place mem

end Mail

/-! ## The end of `schedule` -/

section Switch

variable {hw : Hardware} {readings : Readings} {final : Core heaps}

theorem wakeDaemon_filed {after : Core heaps} (ok : core.wakeDaemon = .ok after) :
    Filed core after := by
  rw [Core.wakeDaemon] at ok
  cases daemon_eq : core.timerDaemonTcb with
  | none =>
      rw [daemon_eq] at ok
      cases ok
      exact filed_queues ..
  | some daemon =>
      rw [daemon_eq] at ok
      by_cases blocked : core.state daemon = .blocked
      · simp only [if_pos blocked] at ok
        exact (filed_queues ..).trans (push_filed ok).2.1
      · simp only [if_neg blocked] at ok
        cases ok
        exact filed_queues ..

theorem wakeDaemon_returns
    (daemon : ∀ thread, core.timerDaemonTcb = some thread → core.priority thread < 32) :
    ∃ after, core.wakeDaemon = .ok after := by
  rw [Core.wakeDaemon]
  cases daemon_eq : core.timerDaemonTcb with
  | none => exact ⟨core, rfl⟩
  | some thread =>
      by_cases blocked : core.state thread = .blocked
      · obtain ⟨after, push_eq, -⟩ :=
          push_returns (core.setState thread .ready) (daemon thread daemon_eq)
        exact ⟨after, by simpa only [if_pos blocked] using push_eq⟩
      · exact ⟨core, by simp only [if_neg blocked]⟩

theorem requeue_filed {after : Core heaps} {thread : Ptr} (ok : core.requeue thread = .ok after) :
    Filed core after := by
  rw [Core.requeue] at ok
  cases prev_eq : core.stillRunning with
  | none =>
      rw [prev_eq] at ok
      cases ok
      exact filed_queues ..
  | some prev =>
      rw [prev_eq] at ok
      by_cases other : some prev ≠ core.idleThread ∧ prev ≠ thread
      · have push_eq : (core.setState prev .ready).push prev = .ok after :=
          (if_pos other).symm.trans ok
        exact (filed_queues ..).trans (push_filed push_eq).2.1
      · cases (if_neg other).symm.trans ok
        exact filed_queues ..

theorem requeue_returns (core : Core heaps) (thread : Ptr)
    (current : ∀ prev, core.stillRunning = some prev → core.priority prev < 32) :
    ∃ after, core.requeue thread = .ok after := by
  rw [Core.requeue]
  cases prev_eq : core.stillRunning with
  | none => exact ⟨core, rfl⟩
  | some prev =>
      by_cases other : some prev ≠ core.idleThread ∧ prev ≠ thread
      · obtain ⟨after, push_eq, -⟩ :=
          push_returns (core.setState prev .ready) (current prev prev_eq)
        exact ⟨after, (if_pos other).trans push_eq⟩
      · exact ⟨core.setState prev .ready, if_neg other⟩

/-- A callout that is due leaves the timer as it is. -/
theorem updateHardwareTimer_due {earliest : Callout} {now arm : Nat}
    (peek_eq : heaps.peek core.calloutQueue = some earliest) (due : earliest.wakeTime ≤ now) :
    core.updateHardwareTimer hw now arm = core.wakeDaemon := by
  simp [Core.updateHardwareTimer, peek_eq, due]

/-- The timer is armed for the first callout or the end of the quantum. -/
theorem updateHardwareTimer_later (hw : Hardware) {now : Nat} (arm : Nat) (later : ∀ earliest,
      heaps.peek core.calloutQueue = some earliest → now < earliest.wakeTime) :
    ∃ event ≤ core.quantumEnd, core.updateHardwareTimer hw now arm = .ok { core with
      timer :=
        if event ≠ usizeMax then
          hw.armSleepTicks arm (min (max (event - now) 1) (2 ^ 32 - 1))
        else
          hw.stopTimer core.timer } := by
  have clamp (diff : Nat) :
      (if diff > 2 ^ 32 - 1 then 2 ^ 32 - 1 else diff) = min diff (2 ^ 32 - 1) := by
    split <;> omega
  cases peek_eq : heaps.peek core.calloutQueue with
  | none =>
      refine ⟨core.quantumEnd, le_rfl, ?_⟩
      simp only [Core.updateHardwareTimer, peek_eq, clamp]
      by_cases armed : core.quantumEnd ≠ usizeMax <;> simp [armed] <;> rfl
  | some earliest =>
      have not_due : ¬earliest.wakeTime ≤ now := Nat.not_le_of_lt (later earliest peek_eq)
      refine ⟨if earliest.wakeTime < core.quantumEnd then earliest.wakeTime else core.quantumEnd,
        by split <;> omega, ?_⟩
      simp only [Core.updateHardwareTimer, peek_eq, clamp, not_due]
      generalize (if earliest.wakeTime < core.quantumEnd then earliest.wakeTime
        else core.quantumEnd) = event
      by_cases armed : event ≠ usizeMax <;> simp [armed] <;> rfl

/-- Updating the timer changes no more than filing threads does. -/
theorem updateHardwareTimer_filed {now arm : Nat}
    (ok : core.updateHardwareTimer hw now arm = .ok final) :
    ∃ timer, Filed { core with timer } final := by
  by_cases later : ∀ earliest,
      heaps.peek core.calloutQueue = some earliest → now < earliest.wakeTime
  · obtain ⟨event, -, update_eq⟩ := updateHardwareTimer_later hw arm later
    rw [update_eq] at ok
    cases ok
    exact ⟨_, ⟨rfl, rfl, rfl, rfl, rfl, rfl, rfl⟩⟩
  · push Not at later
    obtain ⟨earliest, peek_eq, due⟩ := later
    rw [updateHardwareTimer_due peek_eq due] at ok
    exact ⟨core.timer, wakeDaemon_filed ok⟩

theorem updateHardwareTimer_returns {now arm : Nat}
    (daemon : ∀ thread, core.timerDaemonTcb = some thread → core.priority thread < 32) :
    ∃ final, core.updateHardwareTimer hw now arm = .ok final := by
  by_cases later : ∀ earliest,
      heaps.peek core.calloutQueue = some earliest → now < earliest.wakeTime
  · obtain ⟨event, -, update_eq⟩ := updateHardwareTimer_later hw arm later
    exact ⟨_, update_eq⟩
  · push Not at later
    obtain ⟨earliest, peek_eq, due⟩ := later
    rw [updateHardwareTimer_due peek_eq due]
    exact wakeDaemon_returns daemon

theorem switchTo_current {thread : Ptr} (ok : core.switchTo hw readings (some thread) = .ok final) :
    final.currentThread = some thread := by
  obtain ⟨requeued, -, update_eq⟩ := bind_eq_ok.mp ok
  obtain ⟨timer, filed⟩ := updateHardwareTimer_filed update_eq
  exact filed.current_eq

theorem switchTo_returns {thread : Ptr}
    (current : ∀ prev, core.stillRunning = some prev → core.priority prev < 32)
    (daemon : ∀ thread, core.timerDaemonTcb = some thread → core.priority thread < 32) :
    ∃ final, core.switchTo hw readings (some thread) = .ok final := by
  obtain ⟨requeued, requeue_eq⟩ :=
    requeue_returns (core.setQuantum hw thread readings.quantum) thread current
  have filed := requeue_filed requeue_eq
  rw [Core.switchTo, requeue_eq]
  refine updateHardwareTimer_returns fun woken woken_eq => ?_
  have priority_eq := congrFun filed.priority_eq woken
  exact priority_eq.trans_lt (daemon woken (filed.daemon_eq.symm.trans woken_eq))

end Switch

/-! ## The selection -/

section Selection

variable {hw : Hardware} {readings : Readings}

/-- Nothing keeps `schedule` from returning: there is an idle thread, and each thread that might be
pushed has a ready queue. -/
structure Startable (core : Core heaps) (lists : Place Unit Unit → List Ptr) : Prop where
  idle : core.idleThread ≠ none
  mail : ∀ thread ∈ lists (.queue ()), core.priority thread < 32
  current : ∀ prev, core.currentThread = some prev → core.priority prev < 32
  daemon : ∀ thread, core.timerDaemonTcb = some thread → core.priority thread < 32

/-- No thread that waits, and not the thread that was running, is more urgent. -/
structure Urgent (core : Core heaps) (lists : Place Unit Unit → List Ptr) (thread : Ptr) :
    Prop where
  waiting : ∀ other, Waits lists other → core.priority thread ≤ core.priority other
  running : ∀ prev, core.stillRunning = some prev → core.idleThread ≠ some prev →
    core.priority thread ≤ core.priority prev

theorem schedule_returns (hw : Hardware) (readings : Readings) (queued : Queued core lists)
    (startable : Startable core lists) :
    ∃ final, core.schedule hw readings = .ok final := by
  obtain ⟨merged, popped, rest, loop_eq, pop_eq, filed, selected⟩ :=
    select_spec queued startable.mail
  obtain ⟨thread, thread_eq⟩ : ∃ thread, rest.nextThread popped = some thread := by
    cases popped with
    | some thread => exact ⟨thread, rfl⟩
    | none =>
        cases running_eq : rest.stillRunning with
        | some prev => exact ⟨prev, by simp only [Core.nextThread, running_eq]⟩
        | none =>
            obtain ⟨idle, idle_eq⟩ := Option.ne_none_iff_exists'.mp startable.idle
            refine ⟨idle, ?_⟩
            simp only [Core.nextThread, running_eq]
            exact filed.idle_eq.trans idle_eq
  rw [Core.schedule, loop_eq]
  simp only [bind, Except.bind, pop_eq, thread_eq]
  refine switchTo_returns ?_ ?_
  · intro prev running
    rw [filed.priority_eq]
    refine startable.current prev (filed.current_eq.symm.trans ?_)
    exact Option.eq_some_of_filter_eq_some running
  · intro daemon daemon_eq
    rw [filed.priority_eq]
    exact startable.daemon daemon (filed.daemon_eq.symm.trans daemon_eq)

theorem urgent_iff_of_waits {thread : Ptr} (waits : Waits lists thread)
    (least : ∀ other, Waits lists other → core.priority thread ≤ core.priority other) :
    Urgent core lists thread ↔
      ∀ prev, core.stillRunning = some prev → core.idleThread ≠ some prev →
        (∃ waiting, Waits lists waiting) →
          ∃ waiting, Waits lists waiting ∧ core.priority waiting ≤ core.priority prev := by
  constructor
  · intro urgent prev running not_idle _
    exact ⟨thread, waits, urgent.running prev running not_idle⟩
  · intro outdone
    refine ⟨least, fun prev running not_idle => ?_⟩
    obtain ⟨waiting, waiting_waits, le⟩ := outdone prev running not_idle ⟨thread, waits⟩
    exact (least waiting waiting_waits).trans le

/-- `schedule` selects a most urgent one of the threads that wait, or goes on if none waits. -/
theorem schedule_selects (queued : Queued core lists) {final : Core heaps}
    (ok : core.schedule hw readings = .ok final) :
    ∃ thread, final.currentThread = some thread ∧
      ((Waits lists thread ∧
          ∀ other, Waits lists other → core.priority thread ≤ core.priority other) ∨
        (∀ other, ¬Waits lists other) ∧ core.nextThread none = some thread) := by
  obtain ⟨merged, loop_eq, rest_ok⟩ := bind_eq_ok.mp ok
  obtain ⟨merged', popped, rest, loop_eq', pop_eq, filed, selected⟩ :=
    select_spec queued (mail_of_ok queued loop_eq)
  cases loop_eq.symm.trans loop_eq'
  simp only [pop_eq] at rest_ok
  cases next_eq : rest.nextThread popped with
  | none =>
      rw [next_eq] at rest_ok
      cases rest_ok
  | some thread =>
      rw [next_eq] at rest_ok
      refine ⟨thread, switchTo_current rest_ok, ?_⟩
      cases popped with
      | some first =>
          cases next_eq
          exact .inl selected
      | none =>
          refine .inr ⟨selected.1, ?_⟩
          rw [← next_eq]
          simp only [Core.nextThread, Core.stillRunning, filed.current_eq, filed.idle_eq,
            selected.2]

/-- The thread that `schedule` selects is as urgent as any other exactly if, whenever a thread waits
and the previous thread could go on, one that waits is as urgent as the previous one. -/
theorem schedule_urgent_iff (hw : Hardware) (readings : Readings) (queued : Queued core lists) :
    (Startable core lists → ∃ final, core.schedule hw readings = .ok final) ∧
    ∀ final, core.schedule hw readings = .ok final →
      ∃ thread, final.currentThread = some thread ∧
        (Urgent core lists thread ↔
          ∀ prev, core.stillRunning = some prev → core.idleThread ≠ some prev →
            (∃ waiting, Waits lists waiting) →
              ∃ waiting, Waits lists waiting ∧ core.priority waiting ≤ core.priority prev) := by
  refine ⟨schedule_returns hw readings queued, fun final ok => ?_⟩
  obtain ⟨thread, current_eq, ⟨waits, least⟩ | ⟨none_waits, next_eq⟩⟩ := schedule_selects queued ok
  · exact ⟨thread, current_eq, urgent_iff_of_waits waits least⟩
  · refine ⟨thread, current_eq, iff_of_true ⟨fun other waits => ?_, fun prev running _ => ?_⟩ ?_⟩
    · exact absurd waits (none_waits other)
    · -- With no thread waiting, the previous thread goes on.
      simp only [Core.nextThread, running, Option.some.injEq] at next_eq
      rw [next_eq]
    · rintro prev - - ⟨waiting, waits⟩
      exact absurd waits (none_waits waiting)

/-- A clock of one tick a nanosecond. -/
def nanoseconds : Hardware where
  useTscDeadline := true
  timeSrcFq := 1000000000
  lapicFq := 100000000
  timeSrcFq_ge := by decide
  timeSrcFq_lt := by decide
  lapicFq_lt := by decide
  ratio := by decide

private local instance eightThreads : NeZero 8 := ⟨by decide⟩

/-- A thread of priority `MAXIMUM` runs and no thread waits. -/
def alone : Core listHeap where
  state := fun tcb => if tcb = thread 0 then .running else .ready
  priority := fun tcb => if tcb = thread 0 then 0 else if tcb = thread 1 then 12 else 31
  quantumExpiry := fun _ => 0
  next := fun _ => none
  ready := .new
  mailbox := .new
  idleThread := some (thread 2)
  currentThread := some (thread 0)
  calloutQueue := []
  timerDaemonTcb := none
  timer := .stopped

theorem queued_alone : Queued alone fun _ => [] := ⟨ThreadQueues.holds_new .., nofun⟩

theorem startable_alone : Startable alone fun _ => [] := by
  refine ⟨by rintro ⟨⟩, fun _ mem => absurd mem List.not_mem_nil, fun prev prev_eq => ?_,
    by rintro _ ⟨⟩⟩
  cases prev_eq
  decide

/-- A thread is put into the mailbox. -/
theorem Queued.pushMail (queued : Queued core lists) {item : Ptr} (loose : Loose lists item) :
    ∃ next mailbox, core.mailbox.push core.next (some item) = (next, mailbox) ∧
      Queued { core with next, mailbox } (join lists (.queue ()) item) := by
  obtain ⟨sys, step_eq, holds⟩ := queued.holds.pushQueue loose ()
  obtain ⟨next, mailbox, push_eq⟩ : ∃ next mailbox,
      core.mailbox.push core.next (some item) = (next, mailbox) := ⟨_, _, rfl⟩
  rw [System.step, show (core.system.queues ()).push core.system.next (some item) = (next, mailbox)
    from push_eq] at step_eq
  cases step_eq
  refine ⟨next, mailbox, push_eq, ?_, fun priority thread mem => ?_⟩
  · simpa only [Core.system, update_unit] using holds
  · rcases IntrusiveQueue.mem_join.mp mem with old | ⟨place_eq, -⟩
    · exact queued.ready priority thread old
    · cases place_eq

/-- A thread of priority `LOW` runs. -/
def lowRuns : Core listHeap :=
  { alone with priority := fun tcb =>
      if tcb = thread 0 then 12 else if tcb = thread 1 then 8
      else if tcb = thread 3 then 5 else 31 }

/-- Beside it a thread is ready, and a more urgent one is in the mailbox. -/
def crowd : Kernel (Core listHeap) := do
  let core ← lowRuns.push (thread 1)
  let (next, mailbox) := core.mailbox.push core.next (some (thread 3))
  return { core with next, mailbox }

def crowdLists : Place Unit Unit → List Ptr :=
  join (join (fun _ => []) (.ready () ⟨8, by decide⟩) (thread 1)) (.queue ()) (thread 3)

theorem queued_crowd : ∃ core, crowd = .ok core ∧ Queued core crowdLists ∧
    Startable core crowdLists ∧ core.stillRunning = some (thread 0) ∧
    core.priority = lowRuns.priority := by
  have queued : Queued lowRuns fun _ => [] := ⟨ThreadQueues.holds_new .., nofun⟩
  have middle : lowRuns.priority (thread 1) = (⟨8, by decide⟩ : Fin 32) := by decide
  obtain ⟨core, push_eq, filed, state_eq, queued⟩ := queued.push (fun _ => List.not_mem_nil) middle
  have loose : ∀ place : Place Unit Unit,
      thread 3 ∉ join (fun _ => []) (.ready () ⟨8, by decide⟩) (thread 1) place := by
    intro place mem
    rcases IntrusiveQueue.mem_join.mp mem with old | ⟨-, same⟩
    · exact List.not_mem_nil old
    · exact absurd same (by decide)
  obtain ⟨next, mailbox, mail_eq, queued⟩ := queued.pushMail loose
  refine ⟨{ core with next, mailbox }, ?_, queued, ⟨?_, ?_, ?_, ?_⟩, ?_,
    filed.priority_eq⟩
  · rw [crowd, push_eq]
    exact congrArg (fun pushed : ThreadQueues.Links × ThreadQueues.TCBQueue =>
      Except.ok { core with next := pushed.1, mailbox := pushed.2 }) mail_eq
  · exact filed.idle_eq.trans_ne (Option.some_ne_none _)
  · intro other mem
    rcases IntrusiveQueue.mem_join.mp mem with old | ⟨-, rfl⟩
    · rcases IntrusiveQueue.mem_join.mp old with none_mem | ⟨place_eq, -⟩
      · exact absurd none_mem List.not_mem_nil
      · cases place_eq
    · exact (congrFun filed.priority_eq _).trans_lt (by decide)
  · intro prev prev_eq
    cases filed.current_eq.symm.trans prev_eq
    exact (congrFun filed.priority_eq _).trans_lt (by decide)
  · intro daemon daemon_eq
    cases filed.daemon_eq.symm.trans daemon_eq
  · rw [Core.stillRunning]
    change (core.currentThread.filter fun thread => core.state thread = .running) = _
    rw [filed.current_eq, state_eq]
    rfl

theorem waits_crowd {waiting : Ptr} :
    Waits crowdLists waiting ↔ waiting = thread 1 ∨ waiting = thread 3 := by
  constructor
  · rintro ⟨place, mem⟩
    rcases IntrusiveQueue.mem_join.mp mem with old | ⟨-, same⟩
    · rcases IntrusiveQueue.mem_join.mp old with none_mem | ⟨-, same⟩
      · exact absurd none_mem List.not_mem_nil
      · exact .inl same
    · exact .inr same
  · rintro (rfl | rfl)
    · exact ⟨.ready () 8, IntrusiveQueue.mem_join.mpr
        (.inl (IntrusiveQueue.mem_join.mpr (.inr ⟨rfl, rfl⟩)))⟩
    · exact ⟨.queue (), IntrusiveQueue.mem_join.mpr (.inr ⟨rfl, rfl⟩)⟩

/-- The thread in the mailbox is chosen. -/
theorem schedule_urgent_iff_crowd : ∃ core final, crowd = .ok core ∧
    core.schedule nanoseconds ⟨10, 11, 12⟩ = .ok final ∧
    final.currentThread = some (thread 3) ∧ Urgent core crowdLists (thread 3) := by
  obtain ⟨core, crowd_eq, queued, startable, running, priority_eq⟩ := queued_crowd
  obtain ⟨returns, selects⟩ := schedule_urgent_iff nanoseconds ⟨10, 11, 12⟩ queued
  obtain ⟨final, ok⟩ := returns startable
  obtain ⟨selected, current_eq, urgent_iff⟩ := selects final ok
  have mail_waits : Waits crowdLists (thread 3) := waits_crowd.mpr (.inr rfl)
  have urgent : Urgent core crowdLists selected := by
    refine urgent_iff.mpr fun prev prev_eq _ _ => ⟨thread 3, mail_waits, ?_⟩
    cases running.symm.trans prev_eq
    rw [priority_eq]
    decide
  obtain ⟨same, same_eq, ⟨waits, -⟩ | ⟨none_waits, -⟩⟩ := schedule_selects queued ok
  · cases current_eq.symm.trans same_eq
    rcases waits_crowd.mp waits with rfl | rfl
    · have le := urgent.waiting _ mail_waits
      rw [priority_eq] at le
      exact absurd le (by decide)
    · exact ⟨core, final, crowd_eq, ok, current_eq, urgent⟩
  · exact absurd mail_waits (none_waits _)

/-- A thread of priority `LOW` is chosen instead of one of priority `MAXIMUM`. -/
theorem low_instead_of_maximum : ∃ core final lists, alone.push (thread 1) = .ok core ∧
    Queued core lists ∧ Startable core lists ∧ core.schedule nanoseconds ⟨10, 11, 12⟩ = .ok final ∧
    final.currentThread = some (thread 1) ∧ ¬Urgent core lists (thread 1) := by
  have low : alone.priority (thread 1) = (12 : Fin 32) := by decide
  obtain ⟨core, push_eq, filed, state_eq, queued⟩ :=
    queued_alone.push (fun _ => List.not_mem_nil) low
  have startable : Startable core (join (fun _ => []) (.ready () 12) (thread 1)) := by
    refine ⟨?_, fun other mem => absurd mem List.not_mem_nil, fun prev prev_eq => ?_,
      fun daemon daemon_eq => ?_⟩
    · rw [filed.idle_eq]
      exact Option.some_ne_none _
    · rw [filed.current_eq] at prev_eq
      cases prev_eq
      rw [filed.priority_eq]
      decide
    · rw [filed.daemon_eq] at daemon_eq
      cases daemon_eq
  obtain ⟨final, ok⟩ :=
    schedule_returns nanoseconds ⟨10, 11, 12⟩ queued startable
  have low_waits : Waits (join (fun _ => []) (.ready () 12) (thread 1)) (thread 1) :=
    ⟨_, IntrusiveQueue.mem_join.mpr (.inr ⟨rfl, rfl⟩)⟩
  obtain ⟨selected, current_eq, ⟨⟨place, mem⟩, -⟩ | ⟨none_waits, -⟩⟩ := schedule_selects queued ok
  · rcases IntrusiveQueue.mem_join.mp mem with old | ⟨-, rfl⟩
    · cases old
    · refine ⟨core, final, _, push_eq, queued, startable, ok, current_eq, fun urgent => ?_⟩
      have running : core.stillRunning = some (thread 0) := by
        rw [Core.stillRunning, filed.current_eq, state_eq]
        rfl
      have le := urgent.running (thread 0) running (by rw [filed.idle_eq]; decide)
      rw [filed.priority_eq] at le
      exact absurd le (by decide)
  · exact absurd low_waits (none_waits _)

end Selection

end Schedule
end Vespertine
