import Mathlib.Data.List.MinMax
import Vespertine.Library.MaxHeap
import Vespertine.Thread.ReadyQueues
import Vespertine.Thread.Scheduler

/-!
# Scheduling on one core

`schedule` picks a thread, gives it a quantum and arms the timer of the core; the timer interrupt
and the timer daemon call it.  Interrupts are disabled throughout, so that each call is one step.
The clock is an input: a function that reads it several times is given its readings.
-/

namespace Vespertine
namespace Schedule

open ThreadQueues (Ptr TCBQueue ReadyQueues)
open Scheduler (ThreadState)

/-! ## Clock and timer -/

/-- The largest `usize`. -/
def usizeMax : Nat := wordSize - 1

/-- `DEFAULT_QUANTUM`, in nanoseconds. -/
def DEFAULT_QUANTUM : Nat := 10000000

/-- `ThreadPriority::IDLE`. -/
def IDLE : Nat := 31

/-- The time source and the timer of the local APIC, with the frequencies that were measured.  If
the timer has deadlines, the clock is the time stamp counter. -/
structure Hardware where
  useTscDeadline : Bool
  timeSrcFq : Nat
  lapicFq : Nat
  timeSrcFq_ge : 100 ≤ timeSrcFq
  timeSrcFq_lt : timeSrcFq < wordSize
  /-- The timer can count for 10 milliseconds. -/
  lapicFq_lt : lapicFq < 100 * 2 ^ 32
  /-- 100,000 ticks of the timer are less than `2 ^ 32` ticks of the clock. -/
  ratio : 100000 * timeSrcFq ≤ (2 ^ 32 - 1) * lapicFq

/-- The timer of a core: it fires once, at a time, or after a count that began at a time. -/
inductive Timer where
  | stopped
  | deadline (time : Nat)
  | count (start ticks : Nat)
  deriving DecidableEq, Repr

namespace Hardware

variable (hw : Hardware)

/-- `ns_to_ticks`. -/
def nsToTicks (ns : Nat) : Nat := ns * hw.timeSrcFq / 1000000000 % wordSize

/-- `arm_sleep_ticks`, which reads the clock once more. -/
def armSleepTicks (now ticks : Nat) : Timer :=
  if hw.useTscDeadline then
    .deadline (wrappingAdd now ticks)
  else
    .count now (max (ticks * hw.lapicFq / hw.timeSrcFq) 1 % 2 ^ 32)

/-- `arm_oneshot`; the count register has no effect on a timer in deadline mode. -/
def armOneshot (timer : Timer) (now ticks : Nat) : Timer :=
  if hw.useTscDeadline then timer else .count now ticks

/-- `stop_timer`: a count of 0. -/
def stopTimer (timer : Timer) : Timer := if hw.useTscDeadline then timer else .stopped

end Hardware

/-! ## Callouts -/

inductive CalloutPayload where
  | WakeThread (tcb : Ptr)
  deriving DecidableEq

structure Callout where
  wakeTime : Nat
  payload : CalloutPayload
  deriving DecidableEq

/-- `Callout::cmp`: the earliest callout is the greatest. -/
def Callout.cmp (self other : Callout) : Ordering := compare other.wakeTime self.wakeTime

/-- The `BinaryHeap` of callouts. -/
abbrev CalloutHeap := MaxHeap Callout Callout.cmp

theorem wakeTime_le_of_cmp {one other : Callout} (not_greater : one.cmp other ≠ .gt) :
    other.wakeTime ≤ one.wakeTime := by
  rw [Callout.cmp, ne_eq, compare_gt_iff_gt, not_lt] at not_greater
  exact not_greater

/-- A heap that searches a list. -/
def listHeap : CalloutHeap where
  Heap := List Callout
  items := fun callouts => callouts
  push := fun callouts callout => callout :: callouts
  peek := List.argmin Callout.wakeTime
  pop := fun callouts =>
    (callouts.argmin Callout.wakeTime).map fun first => (first, callouts.erase first)
  items_push := fun _ _ => rfl
  peek_eq_none := fun callouts none_eq => by
    rw [List.argmin_eq_none] at none_eq
    rw [none_eq]
    rfl
  peek_mem := fun callouts first first_eq => Multiset.mem_coe.mpr (List.argmin_mem first_eq)
  peek_greatest := fun callouts first first_eq other mem => by
    rw [Callout.cmp, ne_eq, compare_gt_iff_gt, not_lt]
    exact List.le_of_mem_argmin (Multiset.mem_coe.mp mem) first_eq
  pop_eq_none := fun callouts none_eq => by rw [none_eq]; rfl
  pop_eq_some := fun callouts first first_eq => by
    refine ⟨callouts.erase first, by rw [first_eq]; rfl, ?_⟩
    exact Multiset.coe_eq_coe.mpr (List.perm_cons_erase (List.argmin_mem first_eq))

/-! ## The core -/

/-- The threads, the scheduler of a core, and its timer. -/
structure Core (heaps : CalloutHeap) where
  state : Ptr → ThreadState
  priority : Ptr → Nat
  quantumExpiry : Ptr → Nat
  next : ThreadQueues.Links
  ready : ReadyQueues
  mailbox : TCBQueue
  idleThread : Option Ptr
  currentThread : Option Ptr
  calloutQueue : heaps.Heap
  timerDaemonTcb : Option Ptr
  timer : Timer

/-- What the clock shows in a call of `schedule`: for the quantum, in `update_hardware_timer`, and
when the timer is armed. -/
structure Readings where
  quantum : Nat
  update : Nat
  arm : Nat

namespace Core

variable {heaps : CalloutHeap}

def setState (core : Core heaps) (thread : Ptr) (state : ThreadState) : Core heaps :=
  { core with state := Function.update core.state thread state }

/-- `SchedulerState::push`. -/
def push (core : Core heaps) (item : Ptr) : Kernel (Core heaps) := do
  let (next, ready) ← core.ready.push core.next core.priority (some item)
  return { core with next, ready }

/-- `SchedulerState::pop`. -/
def pop (core : Core heaps) : Option Ptr × Core heaps :=
  let (item, next, ready) := core.ready.pop core.next
  (item, { core with next, ready })

/-- The loop of `schedule` over the mailbox. -/
def mailLoop : (fuel : Nat) → Core heaps → Kernel (Core heaps)
  | 0, _ => .error .diverges
  | fuel + 1, core =>
      match core.mailbox.pop core.next with
      | (none, _) => .ok core
      | (some item, next, mailbox) => do
          let core ← ({ core with next, mailbox }.setState item .ready).push item
          mailLoop fuel core

/-- The previous thread, if there is one and it is still running. -/
def stillRunning (core : Core heaps) : Option Ptr :=
  core.currentThread.filter fun thread => core.state thread = .running

/-- The thread that `schedule` goes on with. -/
def nextThread (core : Core heaps) (popped : Option Ptr) : Option Ptr :=
  match popped with
  | some thread => some thread
  | none =>
      match core.stillRunning with
      | some thread => some thread
      | none => core.idleThread

/-- Give a thread its quantum. -/
def setQuantum (core : Core heaps) (hw : Hardware) (thread : Ptr) (now : Nat) : Core heaps :=
  { core with
    quantumExpiry := Function.update core.quantumExpiry thread
      (if core.priority thread ≠ IDLE then wrappingAdd now (hw.nsToTicks DEFAULT_QUANTUM)
      else usizeMax) }

/-- Put the previous thread back if it could go on running. -/
def requeue (core : Core heaps) (thread : Ptr) : Kernel (Core heaps) :=
  match core.stillRunning with
  | none => .ok core
  | some prev =>
      let core := core.setState prev .ready
      if some prev ≠ core.idleThread ∧ prev ≠ thread then core.push prev else .ok core

/-- Wake the timer daemon if it is blocked. -/
def wakeDaemon (core : Core heaps) : Kernel (Core heaps) :=
  match core.timerDaemonTcb with
  | some daemon =>
      if core.state daemon = .blocked then (core.setState daemon .ready).push daemon else .ok core
  | none => .ok core

/-- The end of the current quantum. -/
def quantumEnd (core : Core heaps) : Nat :=
  match core.currentThread with
  | some thread => if core.priority thread ≠ IDLE then core.quantumExpiry thread else usizeMax
  | none => usizeMax

/-- `update_hardware_timer`. -/
def updateHardwareTimer (core : Core heaps) (hw : Hardware) (currentTime armTime : Nat) :
    Kernel (Core heaps) := do
  let (nextEvent, armHardware) := match heaps.peek core.calloutQueue with
    | some earliest =>
        (if earliest.wakeTime < core.quantumEnd then earliest.wakeTime else core.quantumEnd,
          decide ¬earliest.wakeTime ≤ currentTime)
    | none => (core.quantumEnd, true)
  let core ← if armHardware then pure core else core.wakeDaemon
  if armHardware ∧ nextEvent ≠ usizeMax then
    let diff := max (nextEvent - currentTime) 1
    let ticks := if diff > 2 ^ 32 - 1 then 2 ^ 32 - 1 else diff
    return { core with timer := hw.armSleepTicks armTime ticks }
  else if armHardware then
    return { core with timer := hw.stopTimer core.timer }
  else
    return core

/-- `SchedulerState::schedule` behind its choice of a thread. -/
def switchTo (core : Core heaps) (hw : Hardware) (readings : Readings) :
    Option Ptr → Kernel (Core heaps)
  -- A null thread is dereferenced.
  | none => .error .unwrapNone
  | some thread => do
      let core ← (core.setQuantum hw thread readings.quantum).requeue thread
      let core := { core with currentThread := some thread }.setState thread .running
      core.updateHardwareTimer hw readings.update readings.arm

/-- `SchedulerState::schedule`, up to the switch of contexts. -/
def schedule (core : Core heaps) (hw : Hardware) (readings : Readings) : Kernel (Core heaps) := do
  let core ← mailLoop (core.mailbox.queueLength + 1) core
  let (popped, core) := core.pop
  core.switchTo hw readings (core.nextThread popped)

/-- `timer_interrupt_handler`, called when the timer has fired. -/
def timerInterruptHandler (core : Core heaps) (hw : Hardware) (readings : Readings) :
    Kernel (Core heaps) :=
  let core := { core with timer := .stopped }
  match core.idleThread with
  | none => .ok { core with timer := hw.armOneshot core.timer readings.arm 100000 }
  | some _ => do
      let core ← core.wakeDaemon
      core.schedule hw readings

/-- The inner loop of `timer_daemon`; `clock` gives its readings in turn. -/
def drain (clock : Nat → Nat) : (fuel turn : Nat) → Core heaps → Kernel (Core heaps)
  | 0, _, _ => .error .diverges
  | fuel + 1, turn, core =>
      match heaps.peek core.calloutQueue with
      | none => .ok core
      | some earliest =>
          if earliest.wakeTime ≤ clock turn then
            match heaps.pop core.calloutQueue with
            | none => .error .unwrapNone
            | some (⟨_, .WakeThread tcb⟩, calloutQueue) => do
                let core ← ({ core with calloutQueue }.setState tcb .ready).push tcb
                drain clock fuel (turn + 1) core
          else
            .ok core

/-- Block the current thread, and go on with another one. -/
def block (core : Core heaps) (hw : Hardware) (readings : Readings) : Kernel (Core heaps) :=
  match core.currentThread with
  | none => .error .unwrapNone
  | some thread => (core.setState thread .blocked).schedule hw readings

/-- One turn of `timer_daemon`. -/
def timerDaemon (core : Core heaps) (hw : Hardware) (clock : Nat → Nat) (readings : Readings) :
    Kernel (Core heaps) := do
  let core ← core.drain clock (Multiset.card (heaps.items core.calloutQueue) + 1) 0
  core.block hw readings

/-- `sleep`; the first reading of the clock is `now`. -/
def sleep (core : Core heaps) (hw : Hardware) (ns now : Nat) (readings : Readings) :
    Kernel (Core heaps) :=
  let wakeTime := wrappingAdd now (hw.nsToTicks ns)
  match core.currentThread with
  | none => .error .unwrapNone
  | some thread =>
      let calloutQueue := heaps.push core.calloutQueue ⟨wakeTime, .WakeThread thread⟩
      { core with calloutQueue }.block hw readings

end Core

end Schedule
end Vespertine
