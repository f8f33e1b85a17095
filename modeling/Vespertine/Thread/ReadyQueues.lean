import Mathlib.Algebra.BigOperators.Fin
import Mathlib.Data.Fintype.BigOperators
import Vespertine.Kernel
import Vespertine.Library.IntrusiveQueue
import Vespertine.Library.Transition

/-!
# Queues of threads

Wait queues, mailboxes and work queues share the methods of `impl_queue_methods`; the ready queues
of a core are 32 such lists with one counter and a word that has a bit for each list.  All of them
link their items through the items' own `next` fields.  As long as only items are pushed that are in
no queue, each list is a first-in-first-out queue, and the counters and bits agree with the lists.
-/

namespace Vespertine
namespace ThreadQueues

open IntrusiveQueue

/-- A pointer that is not null; null pointers are `none`. -/
def Ptr := {addr : Nat // 0 < addr ∧ addr < wordSize}

instance : DecidableEq Ptr := inferInstanceAs (DecidableEq {_addr : Nat // _})

/-- The `next` fields of all items. -/
abbrev Links := Ptr → Option Ptr

/-- `TCBQueue`, `WaitQueue` and `WorkItemQueue`. -/
structure TCBQueue where
  queueLength : Nat
  head : Option Ptr
  tail : Option Ptr

/-- The ready queues of `SchedulerState`. -/
structure ReadyQueues where
  queueLength : Nat
  readyQueueHeads : Fin 32 → Option Ptr
  readyQueueTails : Fin 32 → Option Ptr
  activePriorities : BitVec 32

namespace TCBQueue

def new : TCBQueue := ⟨0, none, none⟩

/-- `push` of `impl_queue_methods`. -/
def push (queue : TCBQueue) (next : Links) : Option Ptr → Links × TCBQueue
  | none => (next, queue)
  | some item =>
      let next := Function.update next item none
      let queueLength := wrappingAdd queue.queueLength 1
      match queue.tail with
      | none => (next, ⟨queueLength, some item, some item⟩)
      | some tail =>
          (Function.update next tail (some item), ⟨queueLength, queue.head, some item⟩)

/-- `pop` of `impl_queue_methods`. -/
def pop (queue : TCBQueue) (next : Links) : Option Ptr × Links × TCBQueue :=
  match queue.head with
  | none => (none, next, queue)
  | some ret =>
      let head := next ret
      let tail := if head = none then none else queue.tail
      (some ret, Function.update next ret none, ⟨wrappingSub queue.queueLength 1, head, tail⟩)

/-- The two ends of a queue. -/
def ends (queue : TCBQueue) : Ends Ptr := ⟨queue.head, queue.tail⟩

end TCBQueue

theorem ctz_lt {bits : BitVec 32} (ne : bits ≠ 0) : bits.ctz.toNat < 32 :=
  BitVec.lt_def.mp (BitVec.ctz_lt_iff_ne_zero.mpr ne)

namespace ReadyQueues

def new : ReadyQueues := ⟨0, fun _ => none, fun _ => none, 0⟩

/-- `SchedulerState::push`; the arrays have checked indices. -/
def push (ready : ReadyQueues) (next : Links) (priority : Ptr → Nat) :
    Option Ptr → Kernel (Links × ReadyQueues)
  | none => .ok (next, ready)
  | some item =>
      if inside : priority item < 32 then
        let index : Fin 32 := ⟨priority item, inside⟩
        let next := Function.update next item none
        let (next, heads) := match ready.readyQueueTails index with
          | none => (next, Function.update ready.readyQueueHeads index (some item))
          | some tail => (Function.update next tail (some item), ready.readyQueueHeads)
        let tails := Function.update ready.readyQueueTails index (some item)
        .ok (next, ⟨wrappingAdd ready.queueLength 1, heads, tails,
          ready.activePriorities ||| 1#32 <<< priority item⟩)
      else
        .error .indexOutOfBounds

/-- `SchedulerState::pop`; `ctz` is `trailing_zeros`. -/
def pop (ready : ReadyQueues) (next : Links) : Option Ptr × Links × ReadyQueues :=
  if none_active : ready.activePriorities = 0 then
    (none, next, ready)
  else
    let highest : Fin 32 := ⟨ready.activePriorities.ctz.toNat, ctz_lt none_active⟩
    match ready.readyQueueHeads highest with
    | none => (none, next, ready)
    | some ret =>
        let heads := Function.update ready.readyQueueHeads highest (next ret)
        let tails := if heads highest = none then
          Function.update ready.readyQueueTails highest none
        else
          ready.readyQueueTails
        let active := if heads highest = none then
          ready.activePriorities &&& ~~~(1#32 <<< highest.val)
        else
          ready.activePriorities
        (some ret, Function.update next ret none,
          ⟨wrappingSub ready.queueLength 1, heads, tails, active⟩)

/-- The two ends of the list of a priority. -/
def ends (ready : ReadyQueues) (priority : Fin 32) : Ends Ptr :=
  ⟨ready.readyQueueHeads priority, ready.readyQueueTails priority⟩

end ReadyQueues

/-- The queues of the kernel: `ι` are those of `impl_queue_methods`, `κ` the cores. -/
structure System (ι κ : Type) where
  priority : Ptr → Nat
  next : Links
  queues : ι → TCBQueue
  ready : κ → ReadyQueues

inductive Op (ι κ : Type) where
  | pushQueue (queue : ι) (item : Option Ptr)
  | popQueue (queue : ι)
  | push (core : κ) (item : Option Ptr)
  | pop (core : κ)

/-- The lists. -/
inductive Place (ι κ : Type) where
  | queue (queue : ι)
  | ready (core : κ) (priority : Fin 32)
  deriving DecidableEq

namespace System

variable {ι κ : Type}

/-- No queue has been used. -/
def new (priority : Ptr → Nat) (next : Links) : System ι κ :=
  ⟨priority, next, fun _ => .new, fun _ => .new⟩

def ends (sys : System ι κ) : Place ι κ → Ends Ptr
  | .queue queue => (sys.queues queue).ends
  | .ready core priority => (sys.ready core).ends priority

variable [DecidableEq ι] [DecidableEq κ]

/-- An operation, and what it returns if it is a `pop`. -/
def step (sys : System ι κ) : Op ι κ → Kernel (Option Ptr × System ι κ)
  | .pushQueue queue item =>
      let (next, pushed) := (sys.queues queue).push sys.next item
      .ok (none, { sys with next, queues := Function.update sys.queues queue pushed })
  | .popQueue queue =>
      let (ret, next, popped) := (sys.queues queue).pop sys.next
      .ok (ret, { sys with next, queues := Function.update sys.queues queue popped })
  | .push core item => do
      let (next, pushed) ← (sys.ready core).push sys.next sys.priority item
      return (none, { sys with next, ready := Function.update sys.ready core pushed })
  | .pop core =>
      let (ret, next, popped) := (sys.ready core).pop sys.next
      .ok (ret, { sys with next, ready := Function.update sys.ready core popped })

def run (sys : System ι κ) : List (Op ι κ) → Kernel (List (Option Ptr) × System ι κ)
  | [] => .ok ([], sys)
  | op :: ops => do
      let (ret, sys) ← sys.step op
      let (rets, sys) ← run sys ops
      return (ret :: rets, sys)

end System

/-! ## The lists -/

section Lists

variable {ι κ : Type}

/-- The list of lowest number that has an item. -/
def lowest (lists : Place ι κ → List Ptr) (core : κ) : Option (Fin 32) :=
  (List.finRange 32).find? fun priority => lists (.ready core priority) ≠ []

theorem lowest_eq_none {lists : Place ι κ → List Ptr} {core : κ} :
    lowest lists core = none ↔ ∀ priority, lists (.ready core priority) = [] := by
  rw [lowest, List.find?_eq_none]
  constructor
  · intro empty priority
    by_contra has
    exact empty priority (List.mem_finRange priority) (decide_eq_true has)
  · intro empty priority _ has
    exact of_decide_eq_true has (empty priority)

/-- No list below the lowest one with an item has an item. -/
theorem lowest_eq_some {lists : Place ι κ → List Ptr} {core : κ} {first : Fin 32}
    (lowest_eq : lowest lists core = some first) :
    lists (.ready core first) ≠ [] ∧ ∀ other < first, lists (.ready core other) = [] := by
  rw [lowest, List.find?_eq_some_iff_getElem] at lowest_eq
  obtain ⟨has, index, inside, found, below⟩ := lowest_eq
  refine ⟨of_decide_eq_true has, fun other lt => ?_⟩
  rw [List.getElem_finRange] at found
  have lt_index : other.val < index := by
    rw [← found] at lt
    exact lt
  have empty := below other.val lt_index
  rw [List.getElem_finRange, Bool.not_eq_true', decide_eq_false_iff_not, not_not] at empty
  exact empty

variable [DecidableEq ι] [DecidableEq κ]

/-- Take the first item of a list. -/
def takeFirst (lists : Place ι κ → List Ptr) (place : Place ι κ) :
    Option Ptr × (Place ι κ → List Ptr) :=
  ((lists place).head?, Function.update lists place (lists place).tail)

/-- What an operation does to the lists. -/
def listStep (priority : Ptr → Nat) (lists : Place ι κ → List Ptr) :
    Op ι κ → Option Ptr × (Place ι κ → List Ptr)
  | .pushQueue _ none | .push _ none => (none, lists)
  | .pushQueue queue (some item) => (none, join lists (.queue queue) item)
  | .popQueue queue => takeFirst lists (.queue queue)
  | .push core (some item) => (none, join lists (.ready core (Fin.ofNat 32 (priority item))) item)
  | .pop core =>
      match lowest lists core with
      | none => (none, lists)
      | some first => takeFirst lists (.ready core first)

def listRun (priority : Ptr → Nat) (lists : Place ι κ → List Ptr) :
    List (Op ι κ) → List (Option Ptr) × (Place ι κ → List Ptr)
  | [] => ([], lists)
  | op :: ops =>
      let (ret, lists) := listStep priority lists op
      let (rets, lists) := listRun priority lists ops
      (ret :: rets, lists)

/-- Only items that are in no list are pushed, to ready queues with a priority below 32. -/
def Allowed (priority : Ptr → Nat) (lists : Place ι κ → List Ptr) : Op ι κ → Prop
  | .pushQueue _ (some item) => Loose lists item
  | .push _ (some item) => Loose lists item ∧ priority item < 32
  | _ => True

def AllAllowed (priority : Ptr → Nat) (lists : Place ι κ → List Ptr) : List (Op ι κ) → Prop
  | [] => True
  | op :: ops => Allowed priority lists op ∧ AllAllowed priority (listStep priority lists op).2 ops

end Lists

/-- The items in the ready queues of a core. -/
def total {ι κ : Type} (lists : Place ι κ → List Ptr) (core : κ) : Nat :=
  ∑ priority, (lists (.ready core priority)).length

/-- The queues hold the lists, and the counters and bits are right. -/
structure Holds {ι κ : Type} (sys : System ι κ) (lists : Place ι κ → List Ptr) : Prop where
  exclusive : Exclusive lists
  queue : ∀ place, IsQueue sys.next (sys.ends place) (lists place)
  queue_length : ∀ queue, (sys.queues queue).queueLength = (lists (.queue queue)).length
  active : ∀ core (priority : Fin 32),
    (sys.ready core).activePriorities.getLsbD priority = true ↔ lists (.ready core priority) ≠ []
  ready_length : ∀ core, (sys.ready core).queueLength = total lists core

/-! ## Operations on the ends -/

section Ends

variable {queue : TCBQueue} {ready : ReadyQueues} {next after : Links} {item : Ptr}

theorem TCBQueue.push_some : queue.push next (some item) =
    ((IntrusiveQueue.push next queue.ends item).1,
      ⟨wrappingAdd queue.queueLength 1, (IntrusiveQueue.push next queue.ends item).2.head,
        (IntrusiveQueue.push next queue.ends item).2.tail⟩) := by
  rw [TCBQueue.push, IntrusiveQueue.push, TCBQueue.ends]
  cases queue.tail <;> rfl

theorem TCBQueue.pop_none (pop_eq : IntrusiveQueue.pop next queue.ends = (none, next, queue.ends)) :
    queue.pop next = (none, next, queue) := by
  rw [IntrusiveQueue.pop, TCBQueue.ends] at pop_eq
  rw [TCBQueue.pop]
  cases head_eq : queue.head with
  | none => rfl
  | some first =>
      rw [head_eq] at pop_eq
      cases pop_eq

theorem TCBQueue.pop_some {rest : Ends Ptr}
    (pop_eq : IntrusiveQueue.pop next queue.ends = (some item, after, rest)) :
    queue.pop next = (some item, after,
      ⟨wrappingSub queue.queueLength 1, rest.head, rest.tail⟩) := by
  rw [IntrusiveQueue.pop, TCBQueue.ends] at pop_eq
  rw [TCBQueue.pop]
  cases head_eq : queue.head with
  | none =>
      rw [head_eq] at pop_eq
      cases pop_eq
  | some first =>
      rw [head_eq] at pop_eq
      cases pop_eq
      rfl

theorem ReadyQueues.push_some {priority : Ptr → Nat} {index : Fin 32}
    (index_eq : priority item = index) : ready.push next priority (some item) =
      .ok ((IntrusiveQueue.push next (ready.ends index) item).1,
        { queueLength := wrappingAdd ready.queueLength 1
          readyQueueHeads := Function.update ready.readyQueueHeads index
            (IntrusiveQueue.push next (ready.ends index) item).2.head
          readyQueueTails := Function.update ready.readyQueueTails index
            (IntrusiveQueue.push next (ready.ends index) item).2.tail
          activePriorities := ready.activePriorities ||| 1#32 <<< index.val }) := by
  have inside : priority item < 32 := index_eq ▸ index.isLt
  obtain rfl : index = ⟨priority item, inside⟩ := Fin.ext index_eq.symm
  rw [ReadyQueues.push, dif_pos inside, IntrusiveQueue.push, ReadyQueues.ends]
  cases tail_eq : ready.readyQueueTails ⟨priority item, inside⟩ with
  | none => simp only [tail_eq, attach]
  | some tail => simp only [tail_eq, attach, Function.update_eq_self]

theorem ReadyQueues.pop_none (idle : ready.activePriorities = 0) :
    ready.pop next = (none, next, ready) := by
  rw [ReadyQueues.pop, dif_pos idle]

theorem ReadyQueues.pop_some {rest : Ends Ptr} {first : Fin 32}
    (busy : ready.activePriorities ≠ 0) (first_eq : first = ⟨_, ctz_lt busy⟩)
    (pop_eq : IntrusiveQueue.pop next (ready.ends first) = (some item, after, rest)) :
    ready.pop next = (some item, after,
      { queueLength := wrappingSub ready.queueLength 1
        readyQueueHeads := Function.update ready.readyQueueHeads first rest.head
        readyQueueTails := Function.update ready.readyQueueTails first rest.tail
        activePriorities := if rest.head = none then
            ready.activePriorities &&& ~~~(1#32 <<< first.val)
          else
            ready.activePriorities }) := by
  subst first_eq
  rw [IntrusiveQueue.pop, ReadyQueues.ends] at pop_eq
  rw [ReadyQueues.pop, dif_neg busy]
  cases head_eq : ready.readyQueueHeads ⟨_, ctz_lt busy⟩ with
  | none =>
      rw [head_eq] at pop_eq
      cases pop_eq
  | some found =>
      rw [head_eq] at pop_eq
      cases pop_eq
      simp only [head_eq, Function.update_self]
      split
      next => rfl
      next => rw [Function.update_eq_self]

end Ends

/-! ## Counters and bits -/

/-- Different pointers are fewer than there are words. -/
theorem length_lt_of_nodup {items : List Ptr} (nodup : items.Nodup) : items.length < wordSize := by
  have addrs : (items.map fun item => item.val).Nodup := nodup.map Subtype.val_injective
  have inside : (items.map fun item => item.val) ⊆ List.range' 1 (wordSize - 1) := by
    intro addr mem
    obtain ⟨item, -, rfl⟩ := List.mem_map.mp mem
    obtain ⟨addr, positive, below⟩ := item
    exact List.mem_range'_1.mpr ⟨positive, by dsimp only; omega⟩
  have le := addrs.length_le_of_subset inside
  rw [List.length_map, List.length_range'] at le
  have positive : 0 < wordSize := by decide
  omega

theorem getLsbD_set (bits : BitVec 32) (bit other : Fin 32) :
    (bits ||| 1#32 <<< bit.val).getLsbD other = true ↔
      bits.getLsbD other = true ∨ other = bit := by
  rw [BitVec.getLsbD_or, Bool.or_eq_true, ← BitVec.twoPow_eq, BitVec.getLsbD_twoPow,
    Bool.and_eq_true, decide_eq_true_eq, decide_eq_true_eq, and_iff_right bit.isLt, Fin.ext_iff,
    eq_comm (a := other.val)]

theorem getLsbD_clear (bits : BitVec 32) (bit other : Fin 32) :
    (bits &&& ~~~(1#32 <<< bit.val)).getLsbD other = true ↔
      bits.getLsbD other = true ∧ other ≠ bit := by
  rw [BitVec.getLsbD_and, Bool.and_eq_true, BitVec.getLsbD_not, ← BitVec.twoPow_eq,
    BitVec.getLsbD_twoPow, decide_eq_true other.isLt, decide_eq_true bit.isLt, Bool.true_and,
    Bool.true_and, Bool.not_eq_true', decide_eq_false_iff_not, Ne, Fin.ext_iff,
    eq_comm (a := other.val)]

section Sums

variable {ι κ : Type} {lists : Place ι κ → List Ptr} {core : κ}

/-- The lists of a core are one list of different items. -/
theorem total_lt (exclusive : Exclusive lists) (core : κ) : total lists core < wordSize := by
  have all_nodup : ((List.finRange 32).flatMap fun priority =>
      lists (.ready core priority)).Nodup := by
    refine List.nodup_flatMap.mpr ⟨fun priority _ => exclusive.nodup _, ?_⟩
    refine (List.nodup_finRange 32).imp fun {left right} ne item in_left in_right => ne ?_
    cases exclusive.apart item _ _ in_left in_right
    rfl
  have lt := length_lt_of_nodup all_nodup
  rwa [List.length_flatMap, ← Fin.sum_univ_def, ← total] at lt

variable [DecidableEq ι] [DecidableEq κ]

/-- The count when one list of the core is replaced. -/
theorem total_update (lists : Place ι κ → List Ptr) (core : κ) (priority : Fin 32)
    (items : List Ptr) :
    total (Function.update lists (.ready core priority) items) core +
        (lists (.ready core priority)).length =
      total lists core + items.length := by
  rw [total, total, ← Finset.add_sum_erase _ _ (Finset.mem_univ priority),
    ← Finset.add_sum_erase Finset.univ (fun other => (lists (.ready core other)).length)
      (Finset.mem_univ priority), Function.update_self]
  have others : ∑ other ∈ Finset.univ.erase priority,
      (Function.update lists (.ready core priority) items (.ready core other)).length =
        ∑ other ∈ Finset.univ.erase priority, (lists (.ready core other)).length := by
    refine Finset.sum_congr rfl fun other mem => ?_
    have ne : (Place.ready core other : Place ι κ) ≠ .ready core priority := fun same =>
      Finset.ne_of_mem_erase mem (Place.ready.inj same).2
    rw [Function.update_of_ne ne]
  rw [others]
  omega

/-- Other cores count what they counted. -/
theorem total_other (lists : Place ι κ → List Ptr) {core other : κ} (ne : other ≠ core)
    (priority : Fin 32) (items : List Ptr) :
    total (Function.update lists (.ready core priority) items) other = total lists other := by
  refine Finset.sum_congr rfl fun other_priority _ => ?_
  have elsewhere : (Place.ready other other_priority : Place ι κ) ≠ .ready core priority :=
    fun same => ne (Place.ready.inj same).1
  rw [Function.update_of_ne elsewhere]

end Sums

/-! ## Steps -/

section Steps

variable {ι κ : Type} [DecidableEq ι] [DecidableEq κ] {sys : System ι κ}
  {lists : Place ι κ → List Ptr}

/-- The ends after a queue has changed. -/
theorem ends_queue (sys : System ι κ) (next : Links) (queue : ι) (queueLength : Nat)
    (ends : Ends Ptr) :
    { sys with
      next
      queues := Function.update sys.queues queue ⟨queueLength, ends.head, ends.tail⟩ }.ends =
        Function.update sys.ends (.queue queue) ends := by
  funext place
  cases place with
  | queue other =>
      rcases eq_or_ne other queue with rfl | ne
      · simp only [System.ends, Function.update_self]
        rfl
      · have elsewhere : (Place.queue other : Place ι κ) ≠ .queue queue :=
          fun same => ne (Place.queue.inj same)
        simp only [System.ends, Function.update_of_ne ne, Function.update_of_ne elsewhere]
  | ready core priority => rfl

/-- The ends after a list of a core has changed. -/
theorem ends_ready (sys : System ι κ) (next : Links) (core : κ) (priority : Fin 32)
    (queueLength : Nat) (activePriorities : BitVec 32) (ends : Ends Ptr) :
    { sys with
      next
      ready := Function.update sys.ready core
        { queueLength
          readyQueueHeads :=
            Function.update (sys.ready core).readyQueueHeads priority ends.head
          readyQueueTails :=
            Function.update (sys.ready core).readyQueueTails priority ends.tail
          activePriorities } }.ends =
      Function.update sys.ends (.ready core priority) ends := by
  funext place
  cases place with
  | queue other => rfl
  | ready other_core other =>
      rcases eq_or_ne other_core core with rfl | ne
      · simp only [System.ends, ReadyQueues.ends, Function.update_self]
        rcases eq_or_ne other priority with rfl | ne
        · rw [Function.update_self, Function.update_self, Function.update_self]
        · have elsewhere : (Place.ready other_core other : Place ι κ) ≠
              .ready other_core priority := fun same => ne (Place.ready.inj same).2
          rw [Function.update_of_ne ne, Function.update_of_ne ne,
            Function.update_of_ne elsewhere]
          rfl
      · have elsewhere : (Place.ready other_core other : Place ι κ) ≠ .ready core priority :=
          fun same => ne (Place.ready.inj same).1
        simp only [System.ends, Function.update_of_ne ne, Function.update_of_ne elsewhere]

/-- No word is counted past its end. -/
theorem Holds.length_succ (holds : Holds sys lists) {item : Ptr} (loose : Loose lists item)
    (place : Place ι κ) : (lists place).length + 1 < wordSize := by
  have joined : Exclusive (join lists place item) := holds.exclusive.join loose
  have lt := length_lt_of_nodup (joined.nodup place)
  rwa [join, Function.update_self, List.length_append] at lt

theorem Holds.pushQueue (holds : Holds sys lists) {item : Ptr} (loose : Loose lists item)
    (queue : ι) : ∃ next, sys.step (.pushQueue queue (some item)) = .ok (none, next) ∧
      Holds next (join lists (.queue queue) item) := by
  refine ⟨_, by rw [System.step, TCBQueue.push_some], holds.exclusive.join loose, ?_, ?_, ?_, ?_⟩
  · rw [ends_queue]
    exact IsQueue.push_family holds.queue holds.exclusive.apart loose (.queue queue)
  · intro other
    dsimp only
    rcases eq_or_ne other queue with rfl | ne
    · rw [join, Function.update_self, Function.update_self, holds.queue_length,
        List.length_append]
      exact wrappingAdd_of_lt (holds.length_succ loose _)
    · have elsewhere : (Place.queue other : Place ι κ) ≠ .queue queue :=
        fun same => ne (Place.queue.inj same)
      rw [join, Function.update_of_ne ne, Function.update_of_ne elsewhere, holds.queue_length]
  · exact holds.active
  · exact holds.ready_length

/-- Taking the first item leaves the lists exclusive. -/
theorem Holds.exclusive_takeFirst (holds : Holds sys lists) {place : Place ι κ} {item : Ptr}
    {rest : List Ptr} (lists_eq : lists place = item :: rest) :
    Exclusive (Function.update lists place rest) := by
  have left : Exclusive (leave lists place item) := holds.exclusive.leave
  rwa [leave, lists_eq, List.erase_cons_head] at left

theorem Holds.popQueue (holds : Holds sys lists) (queue : ι) :
    ∃ next, sys.step (.popQueue queue) = .ok ((lists (.queue queue)).head?, next) ∧
      Holds next (takeFirst lists (.queue queue)).2 := by
  have own := holds.queue (.queue queue)
  rw [takeFirst]
  cases lists_eq : lists (.queue queue) with
  | nil =>
      rw [lists_eq] at own
      refine ⟨sys, ?_, ?_⟩
      · rw [System.step, TCBQueue.pop_none own.pop_nil]
        simp only [Function.update_eq_self]
        rfl
      · rw [List.tail_nil, ← lists_eq, Function.update_eq_self]
        exact holds
  | cons item rest =>
      obtain ⟨ends, pop_eq, queues⟩ :=
        IsQueue.pop_family holds.queue holds.exclusive.apart lists_eq
      have count := holds.queue_length queue
      rw [lists_eq, List.length_cons] at count
      refine ⟨{ sys with
        next := Function.update sys.next item none
        queues := Function.update sys.queues queue
          ⟨wrappingSub (sys.queues queue).queueLength 1, ends.head, ends.tail⟩ }, ?_,
        holds.exclusive_takeFirst lists_eq, ?_, ?_, holds.active, holds.ready_length⟩
      · rw [System.step, TCBQueue.pop_some pop_eq]
        rfl
      · rw [ends_queue]
        exact queues
      · intro other
        dsimp only
        rcases eq_or_ne other queue with rfl | ne
        · have lt := length_lt_of_nodup (holds.exclusive.nodup (.queue other))
          rw [lists_eq, List.length_cons] at lt
          rw [Function.update_self, Function.update_self, count]
          exact wrappingSub_of_le (Nat.le_add_left _ _) lt
        · have elsewhere : (Place.queue other : Place ι κ) ≠ .queue queue :=
            fun same => ne (Place.queue.inj same)
          rw [Function.update_of_ne ne, Function.update_of_ne elsewhere, holds.queue_length]

theorem System.step_push {item : Ptr} {index : Fin 32} (index_eq : sys.priority item = index)
    (core : κ) : sys.step (.push core (some item)) =
      .ok (none, { sys with
        next := (IntrusiveQueue.push sys.next ((sys.ready core).ends index) item).1
        ready := Function.update sys.ready core
          { queueLength := wrappingAdd (sys.ready core).queueLength 1
            readyQueueHeads := Function.update (sys.ready core).readyQueueHeads index
              (IntrusiveQueue.push sys.next ((sys.ready core).ends index) item).2.head
            readyQueueTails := Function.update (sys.ready core).readyQueueTails index
              (IntrusiveQueue.push sys.next ((sys.ready core).ends index) item).2.tail
            activePriorities := (sys.ready core).activePriorities ||| 1#32 <<< index.val } }) := by
  rw [System.step, ReadyQueues.push_some index_eq]
  rfl

theorem Holds.push (holds : Holds sys lists) {item : Ptr} (loose : Loose lists item)
    {index : Fin 32} (index_eq : sys.priority item = index) (core : κ) :
    ∃ next, sys.step (.push core (some item)) = .ok (none, next) ∧
      Holds next (join lists (.ready core index) item) := by
  refine ⟨_, System.step_push index_eq core, holds.exclusive.join loose, ?_, holds.queue_length, ?_,
    ?_⟩
  · rw [ends_ready]
    exact IsQueue.push_family holds.queue holds.exclusive.apart loose (.ready core index)
  · intro other_core other
    dsimp only
    rcases eq_or_ne other_core core with rfl | ne
    · rw [Function.update_self, getLsbD_set, holds.active, join]
      rcases eq_or_ne other index with rfl | ne
      · rw [Function.update_self]
        exact iff_of_true (.inr rfl) (List.append_ne_nil_of_right_ne_nil _ (List.cons_ne_nil _ _))
      · have elsewhere : (Place.ready other_core other : Place ι κ) ≠ .ready other_core index :=
          fun same => ne (Place.ready.inj same).2
        rw [Function.update_of_ne elsewhere, or_iff_left ne]
    · have elsewhere : (Place.ready other_core other : Place ι κ) ≠ .ready core index :=
        fun same => ne (Place.ready.inj same).1
      rw [Function.update_of_ne ne, join, Function.update_of_ne elsewhere, holds.active]
  · intro other
    dsimp only
    rcases eq_or_ne other core with rfl | ne
    · have count := total_update lists other index (lists (.ready other index) ++ [item])
      have joined : Exclusive (join lists (.ready other index) item) :=
        holds.exclusive.join loose
      have lt := total_lt joined other
      rw [join] at lt ⊢
      rw [List.length_append, List.length_singleton] at count
      rw [Function.update_self, holds.ready_length]
      exact (wrappingAdd_of_lt (by omega)).trans (by omega)
    · rw [Function.update_of_ne ne, holds.ready_length, join, total_other lists ne]

omit [DecidableEq ι] [DecidableEq κ] in
/-- The bits are all clear when no list has an item. -/
theorem Holds.idle_iff (holds : Holds sys lists) (core : κ) :
    (sys.ready core).activePriorities = 0 ↔ lowest lists core = none := by
  rw [lowest_eq_none]
  constructor
  · intro idle priority
    by_contra has
    have bit := (holds.active core priority).mpr has
    rw [idle, show (0 : BitVec 32) = 0#32 from rfl, BitVec.getLsbD_zero] at bit
    cases bit
  · intro empty
    refine BitVec.eq_of_getLsbD_eq fun bit inside => ?_
    rw [show (0 : BitVec 32) = 0#32 from rfl, BitVec.getLsbD_zero, Bool.eq_false_iff]
    intro set
    exact (holds.active core ⟨bit, inside⟩).mp set (empty ⟨bit, inside⟩)

omit [DecidableEq ι] [DecidableEq κ] in
/-- The lowest bit is that of the lowest list with an item. -/
theorem Holds.lowest_eq (holds : Holds sys lists) {core : κ}
    (busy : (sys.ready core).activePriorities ≠ 0) :
    lowest lists core = some ⟨_, ctz_lt busy⟩ := by
  rw [lowest, List.find?_eq_some_iff_getElem]
  refine ⟨decide_eq_true ((holds.active core _).mp (BitVec.getLsbD_true_ctz_of_ne_zero busy)),
    (sys.ready core).activePriorities.ctz.toNat, ?_, List.getElem_finRange _, fun below lt => ?_⟩
  · rw [List.length_finRange]
    exact ctz_lt busy
  · have clear := BitVec.getLsbD_false_of_lt_ctz lt
    rw [List.getElem_finRange, Bool.not_eq_true', decide_eq_false_iff_not, ← holds.active,
      Fin.val_cast, clear]
    exact Bool.false_ne_true

theorem System.step_pop {core : κ} {item : Ptr} {after : Links} {ends : Ends Ptr}
    {first : Fin 32} (busy : (sys.ready core).activePriorities ≠ 0)
    (first_eq : first = ⟨_, ctz_lt busy⟩)
    (pop_eq : IntrusiveQueue.pop sys.next ((sys.ready core).ends first) =
      (some item, after, ends)) :
    sys.step (.pop core) = .ok (some item, { sys with
      next := after
      ready := Function.update sys.ready core
        { queueLength := wrappingSub (sys.ready core).queueLength 1
          readyQueueHeads := Function.update (sys.ready core).readyQueueHeads first ends.head
          readyQueueTails := Function.update (sys.ready core).readyQueueTails first ends.tail
          activePriorities := if ends.head = none then
              (sys.ready core).activePriorities &&& ~~~(1#32 <<< first.val)
            else
              (sys.ready core).activePriorities } }) := by
  rw [System.step, ReadyQueues.pop_some busy first_eq pop_eq]

/-- The bit of a list is cleared when its last item is taken. -/
theorem Holds.active_takeFirst (holds : Holds sys lists) {core : κ} {first : Fin 32} {item : Ptr}
    {rest : List Ptr} (lists_eq : lists (.ready core first) = item :: rest) (other : Fin 32) :
    (if rest.head? = none then
        (sys.ready core).activePriorities &&& ~~~(1#32 <<< first.val)
      else
        (sys.ready core).activePriorities).getLsbD other = true ↔
      Function.update lists (.ready core first) rest (.ready core other) ≠ [] := by
  rcases eq_or_ne other first with rfl | ne
  · rw [Function.update_self]
    cases rest with
    | nil =>
        rw [List.head?_nil, if_pos rfl, getLsbD_clear]
        exact iff_of_false (fun both => both.2 rfl) fun has => has rfl
    | cons second rest =>
        rw [if_neg nofun, holds.active, lists_eq]
        exact iff_of_true (List.cons_ne_nil _ _) (List.cons_ne_nil _ _)
  · have elsewhere : (Place.ready core other : Place ι κ) ≠ .ready core first :=
      fun same => ne (Place.ready.inj same).2
    rw [Function.update_of_ne elsewhere, ← holds.active]
    split
    next => rw [getLsbD_clear, and_iff_left ne]
    next => rfl

theorem Holds.pop (holds : Holds sys lists) (core : κ) :
    ∃ next, sys.step (.pop core) = .ok ((listStep sys.priority lists (.pop core)).1, next) ∧
      Holds next (listStep sys.priority lists (.pop core)).2 := by
  by_cases idle : (sys.ready core).activePriorities = 0
  · rw [listStep, (holds.idle_iff core).mp idle]
    refine ⟨sys, ?_, holds⟩
    rw [System.step, ReadyQueues.pop_none idle]
    simp only [Function.update_eq_self]
  · obtain ⟨first, first_eq⟩ : ∃ first : Fin 32, first = ⟨_, ctz_lt idle⟩ := ⟨_, rfl⟩
    have has : lists (.ready core first) ≠ [] := by
      rw [← holds.active, first_eq]
      exact BitVec.getLsbD_true_ctz_of_ne_zero idle
    obtain ⟨item, rest, lists_eq⟩ := List.exists_cons_of_ne_nil has
    obtain ⟨ends, pop_eq, queues⟩ :=
      IsQueue.pop_family holds.queue holds.exclusive.apart lists_eq
    have head_eq := (queues (.ready core first)).head_eq
    rw [Function.update_self, Function.update_self] at head_eq
    rw [listStep, holds.lowest_eq idle, ← first_eq]
    dsimp only [takeFirst]
    rw [lists_eq]
    refine ⟨_, System.step_pop idle first_eq pop_eq, holds.exclusive_takeFirst lists_eq, ?_,
      holds.queue_length, fun other_core other => ?_, fun other => ?_⟩
    · rw [ends_ready]
      exact queues
    · dsimp only
      rcases eq_or_ne other_core core with rfl | ne
      · rw [Function.update_self, head_eq]
        exact holds.active_takeFirst lists_eq other
      · have elsewhere : (Place.ready other_core other : Place ι κ) ≠ .ready core first :=
          fun same => ne (Place.ready.inj same).1
        rw [Function.update_of_ne ne, Function.update_of_ne elsewhere, holds.active]
    · dsimp only
      rcases eq_or_ne other core with rfl | ne
      · have count := total_update lists other first rest
        have lt := total_lt holds.exclusive other
        rw [lists_eq, List.length_cons] at count
        rw [Function.update_self, holds.ready_length, List.tail_cons]
        exact (wrappingSub_of_le (by omega) lt).trans (by omega)
      · rw [Function.update_of_ne ne, holds.ready_length, total_other lists ne]

/-- Every allowed operation does to the queues what it does to the lists. -/
theorem Holds.step (holds : Holds sys lists) {op : Op ι κ}
    (allowed : Allowed sys.priority lists op) :
    ∃ next, sys.step op = .ok ((listStep sys.priority lists op).1, next) ∧
      next.priority = sys.priority ∧ Holds next (listStep sys.priority lists op).2 := by
  have keeps {ret : Option Ptr} {next : System ι κ} (step_eq : sys.step op = .ok (ret, next)) :
      next.priority = sys.priority := by
    cases op with
    | pushQueue queue item => cases step_eq; rfl
    | popQueue queue => cases step_eq; rfl
    | push core item =>
        obtain ⟨pushed, -, next_eq⟩ := bind_eq_ok.mp step_eq
        cases next_eq
        rfl
    | pop core => cases step_eq; rfl
  have found : ∃ next, sys.step op = .ok ((listStep sys.priority lists op).1, next) ∧
      Holds next (listStep sys.priority lists op).2 := by
    cases op with
    | pushQueue queue item =>
        cases item with
        | none =>
            refine ⟨sys, ?_, holds⟩
            rw [System.step, TCBQueue.push]
            simp only [Function.update_eq_self]
            rfl
        | some item => exact holds.pushQueue allowed queue
    | popQueue queue => exact holds.popQueue queue
    | push core item =>
        cases item with
        | none =>
            refine ⟨sys, ?_, holds⟩
            rw [System.step, ReadyQueues.push]
            simp only [bind, Except.bind, Function.update_eq_self]
            rfl
        | some item =>
            obtain ⟨loose, inside⟩ := allowed
            exact holds.push loose (Nat.mod_eq_of_lt inside).symm core
    | pop core => exact holds.pop core
  obtain ⟨next, step_eq, next_holds⟩ := found
  exact ⟨next, step_eq, keeps step_eq, next_holds⟩

omit [DecidableEq ι] [DecidableEq κ] in
/-- A list is empty exactly when its ends are null. -/
theorem Holds.ends_null_iff (holds : Holds sys lists) (place : Place ι κ) :
    ((sys.ends place).head = none ↔ lists place = []) ∧
      ((sys.ends place).tail = none ↔ lists place = []) := by
  rw [(holds.queue place).head_eq, (holds.queue place).tail_eq, List.head?_eq_none_iff,
    List.getLast?_eq_none_iff]
  exact ⟨Iff.rfl, Iff.rfl⟩

omit [DecidableEq ι] [DecidableEq κ] in
theorem holds_new (priority : Ptr → Nat) (next : Links) :
    Holds (System.new priority next : System ι κ) fun _ => [] := by
  refine ⟨⟨fun _ => List.nodup_nil, nofun⟩, fun place => ?_, fun _ => rfl, fun core index => ?_,
    fun core => ?_⟩
  · cases place <;> exact isQueue_empty next
  · refine iff_of_false ?_ fun ne => ne rfl
    simp [System.new, ReadyQueues.new]
  · exact (Finset.sum_const_zero).symm

end Steps

/-! ## Runs -/

section Runs

variable {ι κ : Type} [DecidableEq ι] [DecidableEq κ]

theorem Holds.run {sys : System ι κ} {lists : Place ι κ → List Ptr} (holds : Holds sys lists)
    {priority : Ptr → Nat} (priority_eq : sys.priority = priority) {ops : List (Op ι κ)}
    (allowed : AllAllowed priority lists ops) :
    ∃ final, sys.run ops = .ok ((listRun priority lists ops).1, final) ∧
      Holds final (listRun priority lists ops).2 := by
  induction ops generalizing sys lists with
  | nil => exact ⟨sys, rfl, holds⟩
  | cons op ops ih =>
      subst priority_eq
      obtain ⟨first, rest⟩ := allowed
      obtain ⟨next, step_eq, same, next_holds⟩ := holds.step first
      obtain ⟨final, run_eq, final_holds⟩ := ih next_holds same rest
      refine ⟨final, ?_, final_holds⟩
      rw [System.run, step_eq]
      simp only [bind, Except.bind, run_eq]
      rfl

/-- Whatever is pushed and popped, each queue is a first-in-first-out list, and the ready queues of
a core are 32 of them: the lowest that has an item is popped from. -/
theorem queues_fifo {priority : Ptr → Nat} {next : Links} {ops : List (Op ι κ)}
    (allowed : AllAllowed priority (fun _ => []) ops) :
    ∃ final, (System.new priority next : System ι κ).run ops =
        .ok ((listRun priority (fun _ => []) ops).1, final) ∧
      Holds final (listRun priority (fun _ => []) ops).2 ∧
      ∀ place, ((final.ends place).head = none ↔ (listRun priority (fun _ => []) ops).2 place = [])
        ∧ ((final.ends place).tail = none ↔ (listRun priority (fun _ => []) ops).2 place = []) := by
  obtain ⟨final, run_eq, holds⟩ := (holds_new priority next).run rfl allowed
  exact ⟨final, run_eq, holds, holds.ends_null_iff⟩

/-- Threads at small addresses. -/
def thread (number : Fin 8) : Ptr := by
  refine ⟨0x1000 + number.val, Nat.add_pos_left (by decide) _, ?_⟩
  have small := number.isLt
  simp only [wordSize]
  omega

/-- Two threads, the second of which is more urgent, and a third one in a mailbox. -/
def threeThreads : List (Op Unit Unit) :=
  [.push () (some (thread 0)), .push () (some (thread 1)), .pushQueue () (some (thread 2)),
    .pop (), .popQueue (), .pop (), .pop ()]

def urgency (item : Ptr) : Nat := if item = thread 1 then 4 else 8

theorem queues_fifo_three_threads : ∃ final,
    (System.new urgency fun _ => none : System Unit Unit).run threeThreads =
      .ok ([none, none, none, some (thread 1), some (thread 2), some (thread 0), none], final) := by
  have other {lists : Place Unit Unit → List Ptr} {place : Place Unit Unit} {item new : Ptr}
      (loose : Loose lists new) (ne : new ≠ item) : Loose (join lists place item) new :=
    fun elsewhere mem => (mem_join.mp mem).elim (loose elsewhere) fun both => ne both.2
  have empty (item : Ptr) : Loose (fun _ : Place Unit Unit => []) item := fun _ => List.not_mem_nil
  obtain ⟨final, run_eq, -⟩ := @queues_fifo Unit Unit _ _ urgency (fun _ => none) threeThreads
    ⟨⟨empty _, by decide⟩, ⟨other (empty _) (by decide), by decide⟩,
      other (other (empty _) (by decide)) (by decide), trivial, trivial, trivial, trivial, trivial⟩
  refine ⟨final, run_eq.trans ?_⟩
  rfl

end Runs

end ThreadQueues
end Vespertine
