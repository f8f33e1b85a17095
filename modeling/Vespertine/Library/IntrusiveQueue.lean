import Mathlib.Data.List.Nodup
import Mathlib.Logic.Function.Basic

/-!
# Intrusive queues

Nodes carry one successor pointer each, and any number of queues thread their members through it.  A
queue is a pair of pointers to its first and last node.  Pushing a node that is in no queue and
popping a node touch only pointers of the nodes of one queue, so queues without common nodes do not
disturb each other.
-/

namespace Vespertine
namespace IntrusiveQueue

variable {α : Type*}

/-- The two ends of a queue; `none` is the null pointer. -/
@[ext]
structure Ends (α : Type*) where
  head : Option α
  tail : Option α

/-- A queue without nodes. -/
def Ends.empty : Ends α := ⟨none, none⟩

section Operations

variable [DecidableEq α]

/-- Hang a node behind the last node that was seen. -/
def attach (next : α → Option α) (ends : Ends α) (seen : Option α) (item : α) :
    (α → Option α) × Ends α :=
  match seen with
  | none => (next, ⟨some item, some item⟩)
  | some tail => (Function.update next tail (some item), ⟨ends.head, some item⟩)

/-- Append a node. -/
def push (next : α → Option α) (ends : Ends α) (item : α) : (α → Option α) × Ends α :=
  attach (Function.update next item none) ends ends.tail item

/-- Take the first node, if there is one. -/
def pop (next : α → Option α) (ends : Ends α) : Option α × (α → Option α) × Ends α :=
  match ends.head with
  | none => (none, next, ends)
  | some item =>
      let head := next item
      (some item, Function.update next item none, ⟨head, if head = none then none else ends.tail⟩)

end Operations

/-- Each node points to the one after it, the last to none. -/
def Linked (next : α → Option α) : List α → Prop
  | [] => True
  | node :: rest => next node = rest.head? ∧ Linked next rest

/-- A queue holds these nodes, in this order. -/
structure IsQueue (next : α → Option α) (ends : Ends α) (nodes : List α) : Prop where
  head_eq : ends.head = nodes.head?
  tail_eq : ends.tail = nodes.getLast?
  nodup : nodes.Nodup
  linked : Linked next nodes

theorem isQueue_empty (next : α → Option α) : IsQueue next Ends.empty [] :=
  ⟨rfl, rfl, List.nodup_nil, trivial⟩

variable {next other : α → Option α} {ends : Ends α} {nodes : List α} {item : α}

theorem Linked.congr (linked : Linked next nodes) (agree : ∀ node ∈ nodes, other node = next node) :
    Linked other nodes := by
  induction nodes with
  | nil => trivial
  | cons node rest ih =>
      constructor
      · rw [agree node List.mem_cons_self]
        exact linked.1
      · exact ih linked.2 fun later mem => agree later (List.mem_cons_of_mem _ mem)

/-- A queue survives changes of the pointers of other nodes. -/
theorem IsQueue.congr (queue : IsQueue next ends nodes)
    (agree : ∀ node ∈ nodes, other node = next node) : IsQueue other ends nodes :=
  ⟨queue.head_eq, queue.tail_eq, queue.nodup, queue.linked.congr agree⟩

variable [DecidableEq α]

theorem Linked.snoc {last : α} (linked : Linked next (nodes ++ [last]))
    (nodup : (nodes ++ [last]).Nodup) (fresh : item ∉ nodes ++ [last])
    (item_next : next item = none) :
    Linked (Function.update next last (some item)) (nodes ++ [last] ++ [item]) := by
  induction nodes with
  | nil =>
      have ne : item ≠ last := fun same => fresh (by simp [same])
      simp [Linked, ne, item_next]
  | cons node rest ih =>
      rw [List.cons_append, List.nodup_cons] at nodup
      have node_ne : node ≠ last := fun same => nodup.1 (by simp [same])
      refine ⟨?_, ih linked.2 nodup.2 fun mem => fresh (List.mem_cons_of_mem _ mem)⟩
      rw [Function.update_of_ne node_ne, linked.1]
      cases rest <;> rfl

/-- A node that is not in the queue is appended. -/
theorem IsQueue.push (queue : IsQueue next ends nodes) (fresh : item ∉ nodes) :
    IsQueue (push next ends item).1 (push next ends item).2 (nodes ++ [item]) := by
  have cleared : Linked (Function.update next item none) nodes :=
    queue.linked.congr fun node mem =>
      Function.update_of_ne (fun same : node = item => fresh (same ▸ mem)) ..
  have nodup : (nodes ++ [item]).Nodup := by
    rw [List.nodup_append]
    refine ⟨queue.nodup, List.nodup_singleton item, fun node mem other other_mem => ?_⟩
    rw [List.mem_singleton.mp other_mem]
    exact fun same => fresh (same ▸ mem)
  rcases List.eq_nil_or_concat nodes with rfl | ⟨front, last, rfl⟩
  · rw [IntrusiveQueue.push, queue.tail_eq]
    exact ⟨rfl, rfl, nodup, by simp [attach, Linked]⟩
  · rw [List.concat_eq_append] at *
    rw [IntrusiveQueue.push, queue.tail_eq, List.getLast?_append_of_ne_nil _ (by simp)]
    simp only [List.getLast?_singleton, attach]
    refine ⟨?_, by simp, nodup, ?_⟩
    · rw [queue.head_eq]
      cases front <;> rfl
    · exact cleared.snoc queue.nodup fresh (Function.update_self ..)

/-- A push leaves alone the pointers of nodes that are neither pushed nor in the queue. -/
theorem IsQueue.push_other {node : α} (queue : IsQueue next ends nodes) (ne : node ≠ item)
    (outside : node ∉ nodes) : (IntrusiveQueue.push next ends item).1 node = next node := by
  unfold IntrusiveQueue.push attach
  split
  · exact Function.update_of_ne ne ..
  next tail tail_eq =>
    have member : tail ∈ nodes := by
      rw [queue.tail_eq] at tail_eq
      exact List.mem_of_getLast? tail_eq
    have apart : node ≠ tail := fun same => outside (same ▸ member)
    dsimp only
    rw [Function.update_of_ne apart, Function.update_of_ne ne]

/-- An empty queue has nothing to pop. -/
theorem IsQueue.pop_nil (queue : IsQueue next ends []) :
    IntrusiveQueue.pop next ends = (none, next, ends) := by
  rw [IntrusiveQueue.pop, queue.head_eq]
  rfl

/-- The first node is popped. -/
theorem IsQueue.pop_cons (queue : IsQueue next ends (item :: nodes)) :
    ∃ rest, IntrusiveQueue.pop next ends = (some item, Function.update next item none, rest) ∧
      IsQueue (Function.update next item none) rest nodes := by
  have item_next : next item = nodes.head? := queue.linked.1
  have nodup := List.nodup_cons.mp queue.nodup
  refine ⟨_, by rw [IntrusiveQueue.pop, queue.head_eq]; rfl, item_next, ?_, nodup.2, ?_⟩
  · dsimp only
    rw [item_next, queue.tail_eq]
    cases nodes with
    | nil => rfl
    | cons second rest => simp
  · exact queue.linked.2.congr fun node mem =>
      Function.update_of_ne (fun same : node = item => nodup.1 (same ▸ mem)) ..

/-- Queues without common nodes, when one of them is pushed to. -/
theorem IsQueue.push_family {ρ : Type*} [DecidableEq ρ] {ends : ρ → Ends α}
    {members : ρ → List α} (queues : ∀ queue, IsQueue next (ends queue) (members queue))
    (apart : ∀ node left right, node ∈ members left → node ∈ members right → left = right)
    (fresh : ∀ queue, item ∉ members queue) (place queue : ρ) :
    IsQueue (IntrusiveQueue.push next (ends place) item).1
      (Function.update ends place (IntrusiveQueue.push next (ends place) item).2 queue)
      (Function.update members place (members place ++ [item]) queue) := by
  rcases eq_or_ne queue place with rfl | ne
  · rw [Function.update_self, Function.update_self]
    exact (queues queue).push (fresh queue)
  · rw [Function.update_of_ne ne, Function.update_of_ne ne]
    refine (queues queue).congr fun node mem => (queues place).push_other ?_ fun also => ?_
    · exact fun same => fresh queue (same ▸ mem)
    · exact ne (apart node queue place mem also)

/-- Queues without common nodes, when one of them loses its first node. -/
theorem IsQueue.pop_family {ρ : Type*} [DecidableEq ρ] {ends : ρ → Ends α}
    {members : ρ → List α} (queues : ∀ queue, IsQueue next (ends queue) (members queue))
    (apart : ∀ node left right, node ∈ members left → node ∈ members right → left = right)
    {place : ρ} (members_eq : members place = item :: nodes) :
    ∃ rest, IntrusiveQueue.pop next (ends place) =
        (some item, Function.update next item none, rest) ∧
      ∀ queue, IsQueue (Function.update next item none) (Function.update ends place rest queue)
        (Function.update members place nodes queue) := by
  have own := queues place
  rw [members_eq] at own
  obtain ⟨rest, pop_eq, rest_queue⟩ := own.pop_cons
  refine ⟨rest, pop_eq, fun queue => ?_⟩
  rcases eq_or_ne queue place with rfl | ne
  · rw [Function.update_self, Function.update_self]
    exact rest_queue
  · rw [Function.update_of_ne ne, Function.update_of_ne ne]
    refine (queues queue).congr fun node mem => Function.update_of_ne ?_ ..
    rintro rfl
    exact ne (apart node queue place mem (by rw [members_eq]; exact List.mem_cons_self))

/-!
### Places

Items are kept in several places, some of which are queues.  Each item is in at most one of them.
-/

section Places

variable {π : Type*} {members : π → List α} {place : π}

/-- An item in no place. -/
def Loose (members : π → List α) (item : α) : Prop := ∀ place, item ∉ members place

/-- Every item is in at most one place, once. -/
structure Exclusive (members : π → List α) : Prop where
  nodup : ∀ place, (members place).Nodup
  apart : ∀ item left right, item ∈ members left → item ∈ members right → left = right

variable [DecidableEq π]

/-- Bring an item to a place. -/
def join (members : π → List α) (place : π) (item : α) : π → List α :=
  Function.update members place (members place ++ [item])

/-- Take an item from a place. -/
def leave (members : π → List α) (place : π) (item : α) : π → List α :=
  Function.update members place ((members place).erase item)

omit [DecidableEq α] in
theorem mem_join {other : α} {elsewhere : π} :
    other ∈ join members place item elsewhere ↔
      other ∈ members elsewhere ∨ elsewhere = place ∧ other = item := by
  rcases eq_or_ne elsewhere place with rfl | ne
  · simp [join]
  · simp [join, ne]

omit [DecidableEq α] in
/-- An item that was nowhere is only where it was brought. -/
theorem place_of_mem_join {elsewhere : π} (loose : Loose members item)
    (mem : item ∈ join members place item elsewhere) : elsewhere = place :=
  (mem_join.mp mem).elim (fun was => absurd was (loose elsewhere)) And.left

theorem Exclusive.mem_leave (exclusive : Exclusive members) {other : α} {elsewhere : π} :
    other ∈ leave members place item elsewhere ↔
      other ∈ members elsewhere ∧ ¬ (elsewhere = place ∧ other = item) := by
  rcases eq_or_ne elsewhere place with rfl | ne
  · simp [leave, (exclusive.nodup elsewhere).mem_erase_iff, and_comm]
  · simp [leave, ne]

omit [DecidableEq α] in
theorem Exclusive.join (exclusive : Exclusive members) (loose : Loose members item) :
    Exclusive (join members place item) := by
  constructor
  · intro elsewhere
    rcases eq_or_ne elsewhere place with rfl | ne
    · rw [IntrusiveQueue.join, Function.update_self, List.nodup_append]
      refine ⟨exclusive.nodup elsewhere, List.nodup_singleton item, fun one one_mem other mem => ?_⟩
      rw [List.mem_singleton.mp mem]
      exact fun same => loose elsewhere (same ▸ one_mem)
    · rw [IntrusiveQueue.join, Function.update_of_ne ne]
      exact exclusive.nodup elsewhere
  · intro other left right in_left in_right
    rw [mem_join] at in_left in_right
    rcases in_left with in_left | ⟨rfl, rfl⟩
    · rcases in_right with in_right | ⟨rfl, rfl⟩
      · exact exclusive.apart other left right in_left in_right
      · exact absurd in_left (loose left)
    · rcases in_right with in_right | ⟨rfl, _⟩
      · exact absurd in_right (loose right)
      · rfl

theorem Exclusive.leave (exclusive : Exclusive members) : Exclusive (leave members place item) := by
  constructor
  · intro elsewhere
    rcases eq_or_ne elsewhere place with rfl | ne
    · rw [IntrusiveQueue.leave, Function.update_self]
      exact (exclusive.nodup elsewhere).erase item
    · rw [IntrusiveQueue.leave, Function.update_of_ne ne]
      exact exclusive.nodup elsewhere
  · intro other left right in_left in_right
    exact exclusive.apart other left right (exclusive.mem_leave.mp in_left).1
      (exclusive.mem_leave.mp in_right).1

/-- What has left its place is nowhere. -/
theorem Exclusive.loose_leave (exclusive : Exclusive members) (mem : item ∈ members place) :
    Loose (IntrusiveQueue.leave members place item) item := by
  intro elsewhere in_elsewhere
  obtain ⟨was, still⟩ := exclusive.mem_leave.mp in_elsewhere
  exact still ⟨exclusive.apart item elsewhere place was mem, rfl⟩

end Places

end IntrusiveQueue
end Vespertine
