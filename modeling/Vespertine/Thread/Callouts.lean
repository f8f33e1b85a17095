import Mathlib.Data.List.Sort
import Vespertine.Thread.Preemption

/-!
# Callouts

A pass of the timer daemon wakes the sleepers that are due.  It reads the clock before each look at
the heap, and stops at the first reading at which nothing is due.
-/

namespace Vespertine
namespace Schedule

open IntrusiveQueue (Loose join)
open ThreadQueues (Ptr Place thread)

variable {heaps : CalloutHeap} {core final : Core heaps} {clock : Nat → Nat} {fuel turn : Nat}

/-- The thread that a callout wakes. -/
def Callout.tcb (callout : Callout) : Ptr :=
  match callout.payload with
  | .WakeThread tcb => tcb

/-- Mark the threads of callouts as ready and push them, one after another. -/
def Core.wakeAll : Core heaps → List Callout → Kernel (Core heaps)
  | core, [] => .ok core
  | core, callout :: rest => do
      let core ← (core.setState callout.tcb .ready).push callout.tcb
      wakeAll core rest

/-- A pass that began with the given turn has popped these callouts. -/
structure Drained (clock : Nat → Nat) (turn : Nat) (core : Core heaps) (popped : List Callout)
    (final : Core heaps) : Prop where
  /-- The callouts come in the order of their times. -/
  sorted : popped.Pairwise fun first second => first.wakeTime ≤ second.wakeTime
  /-- Each of them is due when the clock is read before it is popped. -/
  due : ∀ index (inside : index < popped.length), popped[index].wakeTime ≤ clock (turn + index)
  /-- The other callouts are left in the heap. -/
  kept : heaps.items core.calloutQueue = popped + heaps.items final.calloutQueue
  /-- They are later than the last reading. -/
  later : ∀ callout ∈ heaps.items final.calloutQueue,
    clock (turn + popped.length) < callout.wakeTime
  /-- Each thread becomes ready and is pushed once; apart from that, only the heap has changed. -/
  woken : core.wakeAll popped = .ok { final with calloutQueue := core.calloutQueue }

section Drain

theorem drained_nil
    (later : ∀ callout ∈ heaps.items core.calloutQueue, clock turn < callout.wakeTime) :
    Drained clock turn core [] core :=
  ⟨.nil, nofun, (zero_add _).symm, later, rfl⟩

/-- Waking threads does not touch the heap. -/
theorem wakeAll_heap (popped : List Callout) (queue : heaps.Heap)
    (ok : core.wakeAll popped = .ok final) :
    ({ core with calloutQueue := queue } : Core heaps).wakeAll popped =
      .ok { final with calloutQueue := queue } := by
  induction popped generalizing core with
  | nil =>
      cases ok
      rfl
  | cons callout rest ih =>
      obtain ⟨pushed, push_eq, rest_eq⟩ := bind_eq_ok.mp ok
      obtain ⟨⟨next, ready⟩, step_eq, pure_eq⟩ := bind_eq_ok.mp push_eq
      cases pure_eq
      refine bind_eq_ok.mpr ⟨_, bind_eq_ok.mpr ⟨⟨next, ready⟩, step_eq, rfl⟩, ih rest_eq⟩

theorem Drained.cons {first : Callout} {queue : heaps.Heap} {pushed : Core heaps}
    {popped : List Callout} (peek_eq : heaps.peek core.calloutQueue = some first)
    (items_eq : heaps.items core.calloutQueue = first ::ₘ heaps.items queue)
    (due : first.wakeTime ≤ clock turn)
    (push_eq : ({ core with calloutQueue := queue }.setState first.tcb .ready).push first.tcb =
      .ok pushed)
    (drained : Drained clock (turn + 1) pushed popped final) :
    Drained clock turn core (first :: popped) final := by
  have queue_eq : pushed.calloutQueue = queue := (push_filed push_eq).2.1.callouts_eq
  have kept := drained.kept
  rw [queue_eq] at kept
  refine ⟨List.pairwise_cons.mpr ⟨fun other mem => ?_, drained.sorted⟩, ?_, ?_, ?_, ?_⟩
  · have mem' : other ∈ heaps.items core.calloutQueue := by
      rw [items_eq, kept]
      exact Multiset.mem_cons_of_mem (Multiset.mem_add.mpr (.inl (Multiset.mem_coe.mpr mem)))
    exact wakeTime_le_of_cmp (heaps.peek_greatest _ _ peek_eq other mem')
  · rintro (_ | index) inside
    · exact due
    · have below := drained.due index (Nat.lt_of_succ_lt_succ inside)
      rwa [Nat.add_right_comm] at below
  · rw [items_eq, kept]
    exact (Multiset.cons_add _ _ _).symm
  · intro callout mem
    have below := drained.later callout mem
    rwa [Nat.add_right_comm] at below
  · obtain ⟨⟨next, ready⟩, step_eq, pure_eq⟩ := bind_eq_ok.mp push_eq
    cases pure_eq
    exact bind_eq_ok.mpr ⟨_, bind_eq_ok.mpr ⟨⟨next, ready⟩, step_eq, rfl⟩,
      wakeAll_heap popped core.calloutQueue drained.woken⟩

/-- One turn of the loop: it stops, or wakes the thread of the first callout. -/
theorem drain_succ : core.drain clock (fuel + 1) turn =
    match heaps.peek core.calloutQueue, heaps.pop core.calloutQueue with
    | some first, some (_, queue) =>
        if first.wakeTime ≤ clock turn then do
          let woken := { core with calloutQueue := queue }.setState first.tcb .ready
          let pushed ← woken.push first.tcb
          pushed.drain clock fuel (turn + 1)
        else
          .ok core
    | _, _ => .ok core := by
  rw [Core.drain]
  cases peek_eq : heaps.peek core.calloutQueue with
  | none => rfl
  | some first =>
      obtain ⟨queue, pop_eq, -⟩ := heaps.pop_eq_some _ _ peek_eq
      obtain ⟨wakeTime, ⟨tcb⟩⟩ := first
      simp only [pop_eq]
      rfl

/-- The loop returns only after it has popped all that is due. -/
theorem drained_of_ok (ok : core.drain clock fuel turn = .ok final) :
    ∃ popped, Drained clock turn core popped final := by
  induction fuel generalizing core turn with
  | zero => cases ok
  | succ fuel ih =>
      rw [drain_succ] at ok
      cases peek_eq : heaps.peek core.calloutQueue with
      | none =>
          rw [peek_eq] at ok
          cases ok
          refine ⟨[], drained_nil fun callout mem => ?_⟩
          rw [heaps.peek_eq_none _ peek_eq] at mem
          exact absurd mem (Multiset.notMem_zero callout)
      | some first =>
          obtain ⟨queue, pop_eq, items_eq⟩ := heaps.pop_eq_some _ _ peek_eq
          simp only [peek_eq, pop_eq] at ok
          by_cases due : first.wakeTime ≤ clock turn
          · rw [if_pos due] at ok
            obtain ⟨pushed, push_eq, rest_eq⟩ := bind_eq_ok.mp ok
            obtain ⟨popped, drained⟩ := ih rest_eq
            exact ⟨first :: popped, drained.cons peek_eq items_eq due push_eq⟩
          · rw [if_neg due] at ok
            cases ok
            refine ⟨[], drained_nil fun callout mem => ?_⟩
            have order := wakeTime_le_of_cmp (heaps.peek_greatest _ _ peek_eq callout mem)
            omega

/-- The loop returns if its fuel is more than the size of the heap. -/
theorem drain_returns (enough : Multiset.card (heaps.items core.calloutQueue) < fuel)
    (inside : ∀ callout ∈ heaps.items core.calloutQueue, core.priority callout.tcb < 32) :
    ∃ final, core.drain clock fuel turn = .ok final := by
  induction fuel generalizing core turn with
  | zero => exact absurd enough (Nat.not_lt_zero _)
  | succ fuel ih =>
      rw [drain_succ]
      cases peek_eq : heaps.peek core.calloutQueue with
      | none => exact ⟨core, rfl⟩
      | some first =>
          obtain ⟨queue, pop_eq, items_eq⟩ := heaps.pop_eq_some _ _ peek_eq
          simp only [pop_eq]
          by_cases due : first.wakeTime ≤ clock turn
          · rw [if_pos due]
            have first_mem : first ∈ heaps.items core.calloutQueue :=
              items_eq ▸ Multiset.mem_cons_self first _
            obtain ⟨pushed, push_eq, filed, -⟩ :=
              push_returns ({ core with calloutQueue := queue }.setState first.tcb .ready)
                (inside first first_mem)
            rw [push_eq]
            have queue_eq : pushed.calloutQueue = queue := filed.callouts_eq
            refine ih ?_ fun callout mem => ?_
            · rw [items_eq, Multiset.card_cons] at enough
              rw [queue_eq]
              exact Nat.lt_of_succ_lt_succ enough
            · rw [queue_eq] at mem
              rw [filed.priority_eq]
              exact inside callout (items_eq ▸ Multiset.mem_cons_of_mem mem)
          · exact ⟨core, if_neg due⟩

end Drain

/-! ## The threads that are woken -/

section Woken

variable {popped : List Callout} {lists : Place Unit Unit → List Ptr}

theorem wakeAll_state (ok : core.wakeAll popped = .ok final) (tcb : Ptr) :
    final.state tcb = if tcb ∈ popped.map Callout.tcb then .ready else core.state tcb := by
  induction popped generalizing core with
  | nil =>
      cases ok
      rfl
  | cons callout rest ih =>
      obtain ⟨pushed, push_eq, rest_eq⟩ := bind_eq_ok.mp ok
      obtain ⟨-, -, state_eq⟩ := push_filed push_eq
      rw [ih rest_eq, state_eq, List.map_cons]
      by_cases later : tcb ∈ rest.map Callout.tcb
      · rw [if_pos later, if_pos (List.mem_cons_of_mem _ later)]
      · rw [if_neg later]
        by_cases same : tcb = callout.tcb
        · rw [if_pos (same ▸ List.mem_cons_self), same]
          exact Function.update_self ..
        · rw [if_neg fun mem => (List.mem_cons.mp mem).elim same later]
          exact Function.update_of_ne same ..

/-- Each ready queue with the threads of its priority at its end. -/
def queueAll (priority : Ptr → Nat) (lists : Place Unit Unit → List Ptr) (threads : List Ptr) :
    Place Unit Unit → List Ptr
  | .queue () => lists (.queue ())
  | .ready () index => lists (.ready () index) ++ threads.filter fun tcb => priority tcb = index

theorem queueAll_join {priority : Ptr → Nat} {tcb : Ptr} {index : Fin 32}
    (index_eq : priority tcb = index) (threads : List Ptr) :
    queueAll priority (join lists (.ready () index) tcb) threads =
      queueAll priority lists (tcb :: threads) := by
  funext place
  rcases place with ⟨_⟩ | ⟨_, other⟩
  · have ne : (Place.queue () : Place Unit Unit) ≠ .ready () index := nofun
    simp only [queueAll, join, Function.update_of_ne ne]
  · by_cases same : other = index
    · subst same
      simp [queueAll, join, index_eq]
    · have ne : (Place.ready () other : Place Unit Unit) ≠ .ready () index := fun eq =>
        same (by cases eq; rfl)
      have unlike : priority tcb ≠ other := fun eq => same (Fin.ext (eq.symm.trans index_eq))
      simp [queueAll, join, Function.update_of_ne ne, unlike]

/-- Sleepers that were in no queue are each in the ready queue of its priority. -/
theorem Queued.wakeAll (queued : Queued core lists) (ok : core.wakeAll popped = .ok final)
    (nodup : (popped.map Callout.tcb).Nodup)
    (loose : ∀ tcb ∈ popped.map Callout.tcb, Loose lists tcb) :
    Queued final (queueAll core.priority lists (popped.map Callout.tcb)) := by
  induction popped generalizing core lists with
  | nil =>
      cases ok
      have same : queueAll final.priority lists [] = lists := by
        funext place
        cases place with
        | queue => rfl
        | ready => exact List.append_nil _
      exact same.symm ▸ queued
  | cons callout rest ih =>
      obtain ⟨pushed, push_eq, rest_eq⟩ := bind_eq_ok.mp ok
      obtain ⟨inside, filed, -⟩ := push_filed push_eq
      rw [List.map_cons] at nodup loose
      obtain ⟨not_mem, nodup⟩ := List.nodup_cons.mp nodup
      have index_eq : core.priority callout.tcb =
        ((⟨core.priority callout.tcb, inside⟩ : Fin 32) : Nat) := rfl
      obtain ⟨pushed', push_eq', -, -, queued'⟩ :=
        (queued.setState callout.tcb .ready).push (loose _ List.mem_cons_self) index_eq
      cases push_eq.symm.trans push_eq'
      have still_loose : ∀ tcb ∈ rest.map Callout.tcb, Loose (join lists
          (.ready () ⟨core.priority callout.tcb, inside⟩) callout.tcb) tcb := by
        intro tcb mem place joined
        rcases IntrusiveQueue.mem_join.mp joined with old | ⟨-, rfl⟩
        · exact loose tcb (List.mem_cons_of_mem _ mem) place old
        · exact not_mem mem
      have tail := ih queued' rest_eq nodup still_loose
      rw [filed.priority_eq] at tail
      rw [List.map_cons, ← queueAll_join index_eq]
      exact tail

/-- A pass of the timer daemon over its heap, in which no callout is added. -/
theorem drain_wakes_due (core : Core heaps) (clock : Nat → Nat) :
    ((∀ callout ∈ heaps.items core.calloutQueue, core.priority callout.tcb < 32) →
      ∃ final, core.drain clock (Multiset.card (heaps.items core.calloutQueue) + 1) 0 =
        .ok final) ∧
    ∀ final, core.drain clock (Multiset.card (heaps.items core.calloutQueue) + 1) 0 = .ok final →
      ∃ popped, Drained clock 0 core popped final ∧
        (∀ tcb, final.state tcb =
          if tcb ∈ popped.map Callout.tcb then .ready else core.state tcb) ∧
        ∀ lists, Queued core lists → (popped.map Callout.tcb).Nodup →
          (∀ tcb ∈ popped.map Callout.tcb, Loose lists tcb) →
            Queued final (queueAll core.priority lists (popped.map Callout.tcb)) := by
  refine ⟨drain_returns (Nat.lt_succ_self _), fun final ok => ?_⟩
  obtain ⟨popped, drained⟩ := drained_of_ok ok
  have state_eq := wakeAll_state drained.woken
  refine ⟨popped, drained, state_eq, fun lists queued nodup loose => ?_⟩
  have woken := queued.wakeAll drained.woken nodup loose
  exact ⟨woken.holds, woken.ready⟩

private local instance eightDue : NeZero 8 := ⟨by decide⟩

/-- Three threads sleep until 100, 105 and 200. -/
def threeSleepers : Core listHeap :=
  { sleeping with
    calloutQueue := [⟨200, .WakeThread (thread 4)⟩, ⟨105, .WakeThread (thread 5)⟩,
      ⟨100, .WakeThread (thread 6)⟩] }

/-- A pass that reads the times 101, 105 and 109 leaves the last one asleep. -/
theorem drain_wakes_due_two : ∃ final popped,
    threeSleepers.drain (fun turn => 101 + 4 * turn) 4 0 = .ok final ∧
    Drained (fun turn => 101 + 4 * turn) 0 threeSleepers popped final ∧
    final.calloutQueue = ([⟨200, .WakeThread (thread 4)⟩] : List Callout) := by
  obtain ⟨returns, spec⟩ := drain_wakes_due threeSleepers fun turn => 101 + 4 * turn
  have inside : ∀ callout ∈ listHeap.items threeSleepers.calloutQueue,
      threeSleepers.priority callout.tcb < 32 := by
    intro callout mem
    change callout ∈ ([_, _, _] : List Callout) at mem
    simp only [List.mem_cons, List.not_mem_nil, or_false] at mem
    rcases mem with rfl | rfl | rfl <;> decide
  obtain ⟨final, ok⟩ := returns inside
  obtain ⟨popped, drained, -⟩ := spec final ok
  have outcome : (threeSleepers.drain (fun turn => 101 + 4 * turn) 4 0).toOption.map
    (fun final => (final.calloutQueue : List Callout)) =
      some [⟨200, .WakeThread (thread 4)⟩] := by decide +kernel
  have ok' : threeSleepers.drain (fun turn => 101 + 4 * turn) 4 0 = .ok final := ok
  rw [ok'] at outcome
  exact ⟨final, popped, ok, drained, Option.some.inj outcome⟩

end Woken

end Schedule
end Vespertine
