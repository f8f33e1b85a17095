import Mathlib.Data.Nat.ModEq
import Vespertine.Thread.Urgency

/-!
# Preemption

The timer of a core is the only thing that takes the core from a thread that does not give it up.
It fires once; after that it is armed again by the next call of `schedule`, unless a callout is due
by then.
-/

namespace Vespertine
namespace Schedule

open ThreadQueues (Ptr thread)

variable {heaps : CalloutHeap} {core final : Core heaps} {hw : Hardware} {readings : Readings}

/-! ## When a timer fires -/

/-- The time at which the timer fires; a deadline of 0 and a count of 0 disarm it. -/
def Timer.firesAt (hw : Hardware) : Timer → Option Nat
  | .stopped => none
  | .deadline time => if time = 0 then none else some time
  | .count start ticks =>
      if ticks = 0 then
        none
      else
        some (start + (ticks * hw.timeSrcFq + hw.lapicFq - 1) / hw.lapicFq)

/-- The timer does not fire later than `2 ^ 32 - 1` ticks from now. -/
def Timer.Bounded (hw : Hardware) (now : Nat) (timer : Timer) : Prop :=
  ∀ time, timer.firesAt hw = some time → time ≤ now + (2 ^ 32 - 1)

section Timers

theorem Hardware.lapicFq_pos (hw : Hardware) : 0 < hw.lapicFq := by
  have ratio := hw.ratio
  have clock := hw.timeSrcFq_ge
  by_contra zero
  rw [Nat.eq_zero_of_not_pos zero] at ratio
  omega

theorem Timer.Bounded.mono {now later : Nat} {timer : Timer} (bounded : timer.Bounded hw now)
    (le : now ≤ later) : timer.Bounded hw later :=
  fun time fires => (bounded time fires).trans (Nat.add_le_add_right le _)

theorem bounded_stopped (now : Nat) : Timer.stopped.Bounded hw now := nofun

/-- The time that a count takes is rounded up. -/
theorem count_bounded {start ticks : Nat}
    (inside : ticks * hw.timeSrcFq ≤ (2 ^ 32 - 1) * hw.lapicFq) :
    (Timer.count start ticks).Bounded hw start := by
  intro time fires
  rw [Timer.firesAt] at fires
  split at fires
  next => cases fires
  next =>
    cases fires
    refine Nat.add_le_add_left (Nat.lt_succ_iff.mp ?_) start
    rw [Nat.div_lt_iff_lt_mul hw.lapicFq_pos]
    have pos := hw.lapicFq_pos
    rw [Nat.succ_mul]
    omega

theorem armSleepTicks_bounded {arm ticks : Nat} (inside : ticks ≤ 2 ^ 32 - 1) :
    (hw.armSleepTicks arm ticks).Bounded hw arm := by
  rw [Hardware.armSleepTicks]
  split
  next =>
    intro time fires
    rw [Timer.firesAt] at fires
    split at fires
    next => cases fires
    next =>
      cases fires
      exact (Nat.mod_le _ _).trans (Nat.add_le_add_left inside arm)
  next =>
    refine count_bounded ?_
    have cut : max (ticks * hw.lapicFq / hw.timeSrcFq) 1 % 2 ^ 32 ≤
        max (ticks * hw.lapicFq / hw.timeSrcFq) 1 := Nat.mod_le _ _
    refine (Nat.mul_le_mul_right _ cut).trans ?_
    rcases max_choice (ticks * hw.lapicFq / hw.timeSrcFq) 1 with counted | one
    · rw [counted]
      exact (Nat.div_mul_le_self _ _).trans (Nat.mul_le_mul_right _ inside)
    · rw [one, one_mul]
      exact (Nat.le_mul_of_pos_left _ (by decide)).trans hw.ratio

/-- A timer that is armed for at most a quantum is armed. -/
theorem armSleepTicks_fires {arm ticks : Nat} (pos : 0 < ticks)
    (quantum : ticks ≤ hw.timeSrcFq / 100) (early : arm + ticks < wordSize) :
    (hw.armSleepTicks arm ticks).firesAt hw ≠ none := by
  rw [Hardware.armSleepTicks]
  split
  next =>
    have ne : wrappingAdd arm ticks ≠ 0 := by
      rw [wrappingAdd, Nat.mod_eq_of_lt early]
      omega
    simp only [Timer.firesAt, if_neg ne]
    nofun
  next =>
    have counted : ticks * hw.lapicFq / hw.timeSrcFq < 2 ^ 32 := by
      have clock := hw.timeSrcFq_ge
      rw [Nat.div_lt_iff_lt_mul (by omega)]
      calc ticks * hw.lapicFq ≤ hw.timeSrcFq / 100 * hw.lapicFq := Nat.mul_le_mul_right _ quantum
        _ < hw.timeSrcFq / 100 * (100 * 2 ^ 32) :=
          Nat.mul_lt_mul_of_pos_left hw.lapicFq_lt (Nat.div_pos clock (by decide))
        _ = hw.timeSrcFq / 100 * 100 * 2 ^ 32 := (Nat.mul_assoc _ _ _).symm
        _ ≤ hw.timeSrcFq * 2 ^ 32 := Nat.mul_le_mul_right _ (Nat.div_mul_le_self _ _)
        _ = 2 ^ 32 * hw.timeSrcFq := Nat.mul_comm _ _
    have ne : max (ticks * hw.lapicFq / hw.timeSrcFq) 1 % 2 ^ 32 ≠ 0 := by
      rw [Nat.mod_eq_of_lt (max_lt counted (by decide))]
      exact Nat.ne_of_gt (lt_max_of_lt_right Nat.one_pos)
    simp only [Timer.firesAt, if_neg ne]
    nofun

end Timers

/-! ## One call of `schedule` -/

/-- A callout whose time has come is in the heap. -/
def Core.CalloutDue (core : Core heaps) (now : Nat) : Prop :=
  ∃ callout ∈ heaps.items core.calloutQueue, callout.wakeTime ≤ now

section Calls

theorem calloutDue_of_peek {earliest : Callout} {now : Nat}
    (peek_eq : heaps.peek core.calloutQueue = some earliest) :
    core.CalloutDue now ↔ earliest.wakeTime ≤ now := by
  constructor
  · rintro ⟨callout, mem, due⟩
    exact (wakeTime_le_of_cmp (heaps.peek_greatest _ _ peek_eq callout mem)).trans due
  · exact fun due => ⟨earliest, heaps.peek_mem _ _ peek_eq, due⟩

theorem not_calloutDue_of_peek {now : Nat} (peek_eq : heaps.peek core.calloutQueue = none) :
    ¬core.CalloutDue now := by
  rintro ⟨callout, mem, -⟩
  rw [heaps.peek_eq_none _ peek_eq] at mem
  exact Multiset.notMem_zero callout mem

theorem mailLoop_filed {fuel : Nat} (ok : core.mailLoop fuel = .ok final) : Filed core final := by
  induction fuel generalizing core with
  | zero => cases ok
  | succ fuel ih =>
      rw [Core.mailLoop] at ok
      obtain ⟨⟨popped, next, mailbox⟩, pop_eq⟩ :
        ∃ result, core.mailbox.pop core.next = result := ⟨_, rfl⟩
      rw [pop_eq] at ok
      cases popped with
      | none =>
          cases ok
          exact filed_queues ..
      | some item =>
          obtain ⟨pushed, push_eq, loop_eq⟩ := bind_eq_ok.mp ok
          have taken : Filed core ({ core with next, mailbox }.setState item .ready) :=
            filed_queues ..
          exact (taken.trans (push_filed push_eq).2.1).trans (ih loop_eq)

/-- Up to the update of the timer, `schedule` changes only queues and the chosen thread. -/
theorem schedule_until_update (ok : core.schedule hw readings = .ok final) :
    ∃ filed thread, Filed core filed ∧ ∃ requeued,
      Filed (filed.setQuantum hw thread readings.quantum) requeued ∧
      ({ requeued with currentThread := some thread }.setState thread .running).updateHardwareTimer
        hw readings.update readings.arm = .ok final := by
  obtain ⟨merged, loop_eq, rest_ok⟩ := bind_eq_ok.mp ok
  have popped : Filed merged merged.pop.2 := filed_queues ..
  cases next_eq : merged.pop.2.nextThread merged.pop.1 with
  | none =>
      simp only [next_eq] at rest_ok
      cases rest_ok
  | some thread =>
      simp only [next_eq] at rest_ok
      obtain ⟨requeued, requeue_eq, update_eq⟩ := bind_eq_ok.mp rest_ok
      exact ⟨_, thread, (mailLoop_filed loop_eq).trans popped, requeued,
        requeue_filed requeue_eq, update_eq⟩

theorem Filed.quantumEnd_eq {thread : Ptr}
    (filed : Filed (core.setQuantum hw thread readings.quantum) final) :
    ({ final with currentThread := some thread }.setState thread .running).quantumEnd =
      if core.priority thread ≠ IDLE then
        wrappingAdd readings.quantum (hw.nsToTicks DEFAULT_QUANTUM)
      else
        usizeMax := by
  have priority_eq : final.priority = core.priority := filed.priority_eq
  have expiry_eq : final.quantumExpiry thread = if core.priority thread ≠ IDLE then
      wrappingAdd readings.quantum (hw.nsToTicks DEFAULT_QUANTUM) else usizeMax := by
    rw [filed.expiry_eq]
    exact Function.update_self ..
  simp only [Core.quantumEnd, Core.setState, priority_eq, expiry_eq]
  split <;> rfl

/-- What a call of `schedule` does to the timer. -/
structure Scheduled (hw : Hardware) (readings : Readings) (core final : Core heaps)
    (thread : Ptr) : Prop where
  current_eq : final.currentThread = some thread
  priority_eq : final.priority = core.priority
  idle_eq : final.idleThread = core.idleThread
  daemon_eq : final.timerDaemonTcb = core.timerDaemonTcb
  /-- If a callout is due, the timer is not armed. -/
  kept : core.CalloutDue readings.update → final.timer = core.timer
  /-- Otherwise it is armed for the end of the quantum or an earlier time. -/
  armed : ¬core.CalloutDue readings.update → ∃ event,
    event ≤ (if core.priority thread ≠ IDLE then
      wrappingAdd readings.quantum (hw.nsToTicks DEFAULT_QUANTUM) else usizeMax) ∧
    final.timer = if event ≠ usizeMax then
        hw.armSleepTicks readings.arm (min (max (event - readings.update) 1) (2 ^ 32 - 1))
      else
        hw.stopTimer core.timer

theorem schedule_scheduled (ok : core.schedule hw readings = .ok final) :
    ∃ thread, Scheduled hw readings core final thread := by
  obtain ⟨filed, thread, first, requeued, second, update_eq⟩ := schedule_until_update ok
  have callouts_eq : requeued.calloutQueue = core.calloutQueue :=
    second.callouts_eq.trans first.callouts_eq
  have timer_eq : requeued.timer = core.timer := second.timer_eq.trans first.timer_eq
  obtain ⟨timer, third⟩ := updateHardwareTimer_filed update_eq
  have priority_eq : final.priority = core.priority :=
    third.priority_eq.trans (second.priority_eq.trans first.priority_eq)
  refine ⟨thread, third.current_eq, priority_eq,
    third.idle_eq.trans (second.idle_eq.trans first.idle_eq),
    third.daemon_eq.trans (second.daemon_eq.trans first.daemon_eq), ?_, ?_⟩
  · intro due
    cases peek_eq : heaps.peek core.calloutQueue with
    | none => exact absurd due (not_calloutDue_of_peek peek_eq)
    | some earliest =>
        rw [updateHardwareTimer_due (callouts_eq ▸ peek_eq) ((calloutDue_of_peek peek_eq).mp due)]
          at update_eq
        exact (wakeDaemon_filed update_eq).timer_eq.trans timer_eq
  · intro not_due
    have later : ∀ earliest,
        heaps.peek ({ requeued with currentThread := some thread }.setState thread
          .running).calloutQueue = some earliest → readings.update < earliest.wakeTime := by
      intro earliest peek_eq
      by_contra due
      exact not_due ((calloutDue_of_peek (callouts_eq ▸ peek_eq)).mpr (Nat.not_lt.mp due))
    obtain ⟨event, event_le, armed_eq⟩ := updateHardwareTimer_later hw readings.arm later
    cases armed_eq.symm.trans update_eq
    refine ⟨event, event_le.trans (le_of_eq ?_), by rw [← timer_eq]; rfl⟩
    exact second.quantumEnd_eq.trans (by rw [first.priority_eq])

variable {selected : Ptr}

theorem quantum_ticks (hw : Hardware) : hw.nsToTicks DEFAULT_QUANTUM = hw.timeSrcFq / 100 := by
  have inside := hw.timeSrcFq_lt
  have scale : 10000000 * hw.timeSrcFq / (10000000 * 100) = hw.timeSrcFq / 100 :=
    Nat.mul_div_mul_left _ _ (by decide)
  rw [Hardware.nsToTicks, DEFAULT_QUANTUM, show 1000000000 = 10000000 * 100 from rfl, scale]
  exact Nat.mod_eq_of_lt ((Nat.div_le_self _ _).trans_lt inside)

/-- Whatever `schedule` does with the timer, it does not fire too late. -/
theorem Scheduled.bounded (scheduled : Scheduled hw readings core final selected) {now : Nat}
    (before : core.timer.Bounded hw now) (le : now ≤ readings.arm) :
    final.timer.Bounded hw readings.arm := by
  by_cases due : core.CalloutDue readings.update
  · rw [scheduled.kept due]
    exact before.mono le
  · obtain ⟨event, -, timer_eq⟩ := scheduled.armed due
    rw [timer_eq]
    split
    next => exact armSleepTicks_bounded (Nat.min_le_right _ _)
    next =>
      rw [Hardware.stopTimer]
      split
      next => exact before.mono le
      next => exact bounded_stopped readings.arm

/-- The timer is armed if no callout is due. -/
theorem Scheduled.fires (scheduled : Scheduled hw readings core final selected)
    (busy : core.priority selected ≠ IDLE) (forward : readings.quantum ≤ readings.update)
    (forward' : readings.update ≤ readings.arm)
    (clock : readings.arm + hw.timeSrcFq / 100 < usizeMax)
    (not_due : ¬core.CalloutDue readings.update) : final.timer.firesAt hw ≠ none := by
  have word : usizeMax < wordSize := by decide
  have quantum_pos : 0 < hw.timeSrcFq / 100 := Nat.div_pos hw.timeSrcFq_ge (by decide)
  obtain ⟨event, event_le, timer_eq⟩ := scheduled.armed not_due
  rw [if_pos busy, quantum_ticks, wrappingAdd, Nat.mod_eq_of_lt (by omega)] at event_le
  rw [timer_eq, if_pos (by omega)]
  exact armSleepTicks_fires (by omega) (by omega) (by omega)

end Calls

/-! ## Runs -/

/-- A core and the last reading of its clock. -/
structure Moment (heaps : CalloutHeap) where
  now : Nat
  core : Core heaps

inductive Event (heaps : CalloutHeap) where
  | schedule (readings : Readings)
  /-- The timer fires, and its handler wakes the daemon. -/
  | fire
  /-- Anything else that happens; it does not touch the timer. -/
  | other (now : Nat) (core : Core heaps)

/-- The timer has fired. -/
def Core.fire (core : Core heaps) : Kernel (Core heaps) :=
  { core with timer := .stopped }.wakeDaemon

/-- The events on a core; its clock never goes back. -/
def preemption (heaps : CalloutHeap) (hw : Hardware) :
    Machine (Moment heaps) (Event heaps) Panic where
  step
    | moment, .schedule readings => do
        let core ← moment.core.schedule hw readings
        return ⟨readings.arm, core⟩
    | moment, .fire => do
        let core ← moment.core.fire
        return ⟨moment.now, core⟩
    | _, .other now core => .ok ⟨now, core⟩
  permitted
    | moment, .schedule readings => moment.now ≤ readings.quantum ∧
        readings.quantum ≤ readings.update ∧ readings.update ≤ readings.arm
    | _, .fire => True
    | moment, .other now core => moment.now ≤ now ∧ core.timer = moment.core.timer

/-- A thread other than the idle thread and the timer daemon runs. -/
def Core.RunsOrdinary (core : Core heaps) : Prop :=
  ∃ thread, core.currentThread = some thread ∧ core.idleThread ≠ some thread ∧
    core.timerDaemonTcb ≠ some thread

/-- A thread that runs, other than the idle thread and the timer daemon, will be interrupted at the
end of its quantum, or `2 ^ 32 - 1` ticks from now. -/
def Moment.Preempts (hw : Hardware) (moment : Moment heaps) : Prop :=
  ∀ thread, moment.core.currentThread = some thread → moment.core.idleThread ≠ some thread →
    moment.core.timerDaemonTcb ≠ some thread →
      ∃ time, moment.core.timer.firesAt hw = some time ∧
        (time ≤ moment.core.quantumExpiry thread ∨ time ≤ moment.now + (2 ^ 32 - 1))

section Runs

variable {start before after : Moment heaps} {event : Event heaps} {events : List (Event heaps)}

/-- No step makes the timer fire too late. -/
theorem bounded_step (bounded : before.core.timer.Bounded hw before.now)
    (permitted : (preemption heaps hw).permitted before event)
    (step_eq : (preemption heaps hw).step before event = .ok after) :
    after.core.timer.Bounded hw after.now := by
  cases event with
  | schedule readings =>
      obtain ⟨core, ok, pure_eq⟩ := bind_eq_ok.mp step_eq
      cases pure_eq
      obtain ⟨selected, scheduled⟩ := schedule_scheduled ok
      exact scheduled.bounded bounded (permitted.1.trans (permitted.2.1.trans permitted.2.2))
  | fire =>
      obtain ⟨core, ok, pure_eq⟩ := bind_eq_ok.mp step_eq
      cases pure_eq
      rw [(wakeDaemon_filed ok).timer_eq]
      exact bounded_stopped before.now
  | other now core =>
      cases step_eq
      rw [permitted.2]
      exact bounded.mono permitted.1

/-- In every run, `schedule` leaves an ordinary thread preempted in time exactly if the timer was
still armed or no callout was due when the timer was updated. -/
theorem schedule_preempts_iff (bounded : start.core.timer.Bounded hw start.now)
    (permits : (preemption heaps hw).Permits start (events ++ [.schedule readings]))
    (run_eq : (preemption heaps hw).run start events = .ok before)
    (step_eq : (preemption heaps hw).step before (.schedule readings) = .ok after)
    (busy : ∀ thread, after.core.currentThread = some thread →
      before.core.idleThread ≠ some thread → before.core.priority thread ≠ IDLE)
    (clock : readings.arm + hw.timeSrcFq / 100 < usizeMax) :
    after.Preempts hw ↔ (after.core.RunsOrdinary → before.core.CalloutDue readings.update →
      before.core.timer.firesAt hw ≠ none) := by
  have keeps : ∀ (moment : Moment heaps) (event : Event heaps) (next : Moment heaps),
      moment.core.timer.Bounded hw moment.now → (preemption heaps hw).permitted moment event →
        (preemption heaps hw).step moment event = .ok next → next.core.timer.Bounded hw next.now :=
    fun _ _ _ holds allowed ok => bounded_step holds allowed ok
  have before_bounded : before.core.timer.Bounded hw before.now :=
    (preemption heaps hw).run_keeps keeps bounded
      ((preemption heaps hw).permits_first permits) run_eq
  obtain ⟨forward, -⟩ := (preemption heaps hw).permits_rest permits run_eq
  have after_bounded := bounded_step before_bounded forward step_eq
  obtain ⟨core, ok, pure_eq⟩ := bind_eq_ok.mp step_eq
  cases pure_eq
  obtain ⟨selected, scheduled⟩ := schedule_scheduled ok
  constructor
  · rintro preempts ⟨thread, current_eq, not_idle, not_daemon⟩ due
    obtain ⟨time, fires, -⟩ := preempts thread current_eq not_idle not_daemon
    rw [← scheduled.kept due, fires]
    nofun
  · intro armed thread current_eq not_idle not_daemon
    cases scheduled.current_eq.symm.trans current_eq
    have fires : core.timer.firesAt hw ≠ none := by
      by_cases due : before.core.CalloutDue readings.update
      · rw [scheduled.kept due]
        exact armed ⟨selected, current_eq, not_idle, not_daemon⟩ due
      · have not_idle' : before.core.idleThread ≠ some selected := scheduled.idle_eq ▸ not_idle
        exact scheduled.fires (busy selected current_eq not_idle') forward.2.1 forward.2.2 clock due
    obtain ⟨time, time_eq⟩ := Option.ne_none_iff_exists'.mp fires
    exact ⟨time, time_eq, .inr (after_bounded time time_eq)⟩

theorem step_schedule {now : Nat} (ok : core.schedule hw readings = .ok final) :
    (preemption heaps hw).step ⟨now, core⟩ (.schedule readings) = .ok ⟨readings.arm, final⟩ :=
  bind_eq_ok.mpr ⟨final, ok, rfl⟩

/-- A thread that runs alone is preempted in time. -/
theorem schedule_preempts_iff_alone : ∃ after,
    (preemption listHeap nanoseconds).step ⟨0, alone⟩ (.schedule ⟨10, 11, 12⟩) = .ok after ∧
    after.core.currentThread = some (thread 0) ∧ after.Preempts nanoseconds := by
  obtain ⟨final, ok⟩ := schedule_returns nanoseconds ⟨10, 11, 12⟩ queued_alone startable_alone
  have step_eq : (preemption listHeap nanoseconds).step ⟨0, alone⟩ (.schedule ⟨10, 11, 12⟩) =
    .ok ⟨12, final⟩ := step_schedule ok
  have permits : (preemption listHeap nanoseconds).Permits ⟨0, alone⟩
    ([] ++ [.schedule ⟨10, 11, 12⟩]) := ⟨⟨by decide, by decide, by decide⟩, fun _ _ => trivial⟩
  obtain ⟨selected, current_eq, ⟨⟨_, mem⟩, -⟩ | ⟨-, next_eq⟩⟩ := schedule_selects queued_alone ok
  · cases mem
  · have selected_eq : some selected = some (thread 0) := by
      rw [← next_eq]
      rfl
    cases selected_eq
    refine ⟨_, step_eq, current_eq, ?_⟩
    refine (schedule_preempts_iff (bounded_stopped 0) permits rfl step_eq ?_ (by decide)).mpr ?_
    · intro other other_eq _
      cases current_eq.symm.trans other_eq
      decide
    · rintro - ⟨callout, mem, -⟩
      exact absurd mem (Multiset.notMem_zero callout)

/-- The handler of the timer interrupt is two steps of a run. -/
theorem timerInterruptHandler_run {now : Nat} (started : core.idleThread ≠ none)
    (ok : core.timerInterruptHandler hw readings = .ok final) :
    (preemption heaps hw).run ⟨now, core⟩ [.fire, .schedule readings] =
      .ok ⟨readings.arm, final⟩ := by
  obtain ⟨idle, idle_eq⟩ := Option.ne_none_iff_exists'.mp started
  simp only [Core.timerInterruptHandler, idle_eq] at ok
  obtain ⟨woken, woken_eq, schedule_eq⟩ := bind_eq_ok.mp ok
  have fire_eq : core.fire = .ok woken := by
    rw [Core.fire, idle_eq]
    exact woken_eq
  have fire_step : (preemption heaps hw).step ⟨now, core⟩ .fire = .ok ⟨now, woken⟩ :=
    bind_eq_ok.mpr ⟨woken, fire_eq, rfl⟩
  rw [Machine.run_cons_ok _ _ fire_step, Machine.run_cons_ok _ _ (step_schedule schedule_eq)]
  rfl

/-- Blocking changes what is not the timer, and calls `schedule`. -/
theorem block_run (moment : Moment heaps) (ok : core.block hw readings = .ok final) :
    ∃ blocked, blocked.timer = core.timer ∧
      (preemption heaps hw).run moment [.other moment.now blocked, .schedule readings] =
        .ok ⟨readings.arm, final⟩ := by
  rw [Core.block] at ok
  cases current_eq : core.currentThread with
  | none =>
      rw [current_eq] at ok
      cases ok
  | some thread =>
      simp only [current_eq] at ok
      refine ⟨core.setState thread .blocked, rfl, ?_⟩
      have other : (preemption heaps hw).step moment
        (.other moment.now (core.setState thread .blocked)) =
          .ok ⟨moment.now, core.setState thread .blocked⟩ := rfl
      rw [Machine.run_cons_ok _ _ other, Machine.run_cons_ok _ _ (step_schedule ok)]
      rfl

theorem drain_timer {clock : Nat → Nat} {fuel turn : Nat}
    (ok : core.drain clock fuel turn = .ok final) : final.timer = core.timer := by
  induction fuel generalizing core turn with
  | zero => cases ok
  | succ fuel ih =>
      rw [Core.drain] at ok
      split at ok
      next => cases ok; rfl
      next earliest peek_eq =>
        split at ok
        next =>
          split at ok
          next => cases ok
          next wakeTime tcb calloutQueue pop_eq =>
            obtain ⟨pushed, push_eq, rest_eq⟩ := bind_eq_ok.mp ok
            exact (ih rest_eq).trans (push_filed push_eq).2.1.timer_eq
        next => cases ok; rfl

/-- A turn of the timer daemon changes what is not the timer, and calls `schedule`. -/
theorem timerDaemon_run {clock : Nat → Nat} {moment : Moment heaps}
    (ok : moment.core.timerDaemon hw clock readings = .ok final) :
    ∃ blocked, blocked.timer = moment.core.timer ∧
      (preemption heaps hw).run moment [.other moment.now blocked, .schedule readings] =
        .ok ⟨readings.arm, final⟩ := by
  obtain ⟨drained, drain_eq, block_eq⟩ := bind_eq_ok.mp ok
  obtain ⟨blocked, timer_eq, run_eq⟩ := block_run moment block_eq
  exact ⟨blocked, timer_eq.trans (drain_timer drain_eq), run_eq⟩

/-- Going to sleep changes what is not the timer, and calls `schedule`. -/
theorem sleep_run {ns now : Nat} {moment : Moment heaps}
    (ok : moment.core.sleep hw ns now readings = .ok final) :
    ∃ blocked, blocked.timer = moment.core.timer ∧
      (preemption heaps hw).run moment [.other moment.now blocked, .schedule readings] =
        .ok ⟨readings.arm, final⟩ := by
  rw [Core.sleep] at ok
  cases current_eq : moment.core.currentThread with
  | none =>
      simp only [current_eq] at ok
      cases ok
  | some thread =>
      simp only [current_eq] at ok
      obtain ⟨blocked, timer_eq, run_eq⟩ := block_run moment ok
      exact ⟨blocked, timer_eq, run_eq⟩

end Runs

/-! ## A lost preemption -/

section Lost

private local instance eightSleepers : NeZero 8 := ⟨by decide⟩

/-- A thread of priority `MEDIUM` runs until a sleeper is due, the timer daemon is blocked, and a
thread of priority `MAXIMUM` has come to the mailbox. -/
def sleeping : Core listHeap where
  state := fun tcb => if tcb = thread 1 then .running else .blocked
  priority := fun tcb => if tcb = thread 0 then 0 else if tcb = thread 1 then 8 else
    if tcb = thread 2 then 31 else 4
  quantumExpiry := fun _ => 200
  next := fun _ => none
  ready := .new
  mailbox := ⟨1, some (thread 0), some (thread 0)⟩
  idleThread := some (thread 2)
  currentThread := some (thread 1)
  calloutQueue := [⟨100, .WakeThread (thread 4)⟩]
  timerDaemonTcb := some (thread 3)
  timer := .deadline 100

/-- The timer fires, the thread of the mailbox is chosen before the timer daemon, and runs with a
timer that is not armed. -/
theorem preemption_lost : ∃ after,
    sleeping.timer.Bounded nanoseconds 90 ∧
    (preemption listHeap nanoseconds).Permits ⟨90, sleeping⟩ [.fire, .schedule ⟨101, 102, 103⟩] ∧
    (preemption listHeap nanoseconds).run ⟨90, sleeping⟩ [.fire, .schedule ⟨101, 102, 103⟩] =
      .ok after ∧
    after.core.currentThread = some (thread 0) ∧ ¬after.Preempts nanoseconds := by
  have outcome : ((preemption listHeap nanoseconds).run ⟨90, sleeping⟩
      [.fire, .schedule ⟨101, 102, 103⟩]).toOption.map (fun after =>
        (after.core.currentThread, after.core.idleThread, after.core.timerDaemonTcb,
          after.core.timer)) =
      some (some (thread 0), some (thread 2), some (thread 3), .stopped) := by decide +kernel
  cases run_eq : (preemption listHeap nanoseconds).run ⟨90, sleeping⟩
      [.fire, .schedule ⟨101, 102, 103⟩] with
  | error problem =>
      rw [run_eq] at outcome
      cases outcome
  | ok after =>
      rw [run_eq] at outcome
      obtain ⟨current_eq, idle_eq, daemon_eq, timer_eq⟩ :
          after.core.currentThread = some (thread 0) ∧ after.core.idleThread = some (thread 2) ∧
            after.core.timerDaemonTcb = some (thread 3) ∧ after.core.timer = .stopped := by
        simpa [Except.toOption] using outcome
      refine ⟨after, ?_, ?_, rfl, current_eq, fun preempts => ?_⟩
      · rintro time fires
        cases fires
        decide
      · refine ⟨trivial, fun next fire_eq => ?_⟩
        obtain ⟨core, -, pure_eq⟩ := bind_eq_ok.mp fire_eq
        cases pure_eq
        exact ⟨⟨show 90 ≤ 101 by decide, by decide, by decide⟩, fun _ _ => trivial⟩
      · obtain ⟨time, fires, -⟩ := preempts (thread 0) current_eq
          (by rw [idle_eq]; decide) (by rw [daemon_eq]; decide)
        rw [timer_eq] at fires
        cases fires

end Lost

end Schedule
end Vespertine
