import Mathlib.Data.List.Basic
import Mathlib.Data.List.Nodup
import Mathlib.Logic.Function.Basic

/-!
# Doubly linked lists in a store of nodes

A store keeps a successor and a predecessor pointer for every node.  `Segment` reads a run of
nodes whose pointers mirror each other between two given neighbours, and `IsList` is a complete
acyclic list.  Linking a fresh node between two neighbours and unlinking a node are the only two
edits; both are local, so lists that do not contain the edited nodes are untouched.
-/

namespace Vespertine

/-- Successor and predecessor pointers of a store of nodes; `none` is the null pointer. -/
@[ext]
structure Links (α : Type*) where
  /-- Successor of a node. -/
  next : α → Option α
  /-- Predecessor of a node. -/
  prev : α → Option α

namespace Links

variable {α : Type*}

/-- A run of nodes whose pointers mirror each other, entered from `before` and left to `after`. -/
def Segment (links : Links α) : Option α → List α → Option α → Prop
  | _, [], _ => True
  | before, node :: rest, after =>
      links.prev node = before ∧ links.next node = rest.head?.or after ∧
        links.Segment (some node) rest after

/-- A complete acyclic doubly linked list with the given first node. -/
structure IsList (links : Links α) (head : Option α) (nodes : List α) : Prop where
  /-- The head pointer addresses the first node. -/
  head_eq : head = nodes.head?
  /-- No node occurs twice. -/
  nodup : nodes.Nodup
  /-- Successors and predecessors mirror each other along the list. -/
  segment : links.Segment none nodes none

theorem segment_append {links : Links α} {before after : Option α} {front back : List α} :
    links.Segment before (front ++ back) after ↔
      links.Segment before front (back.head?.or after) ∧
        links.Segment (front.getLast?.or before) back after := by
  induction front generalizing before with
  | nil => simp [Segment]
  | cons node rest ih =>
      have last_eq : (node :: rest).getLast?.or before = rest.getLast?.or (some node) := by
        cases last : rest.getLast? <;> simp [List.getLast?_cons, last]
      have head_eq : (rest ++ back).head?.or after = rest.head?.or (back.head?.or after) := by
        rw [List.head?_append, Option.or_assoc]
      rw [List.cons_append, Segment, Segment, ih, head_eq, last_eq]
      tauto

/-- A segment reads only the pointers of its own nodes. -/
theorem Segment.congr {links other : Links α} {before after : Option α} {nodes : List α}
    (segment : links.Segment before nodes after)
    (agree : ∀ node ∈ nodes,
      other.next node = links.next node ∧ other.prev node = links.prev node) :
    other.Segment before nodes after := by
  induction nodes generalizing before with
  | nil => trivial
  | cons node rest ih =>
      obtain ⟨prev_eq, next_eq, later⟩ := segment
      have here := agree node (by simp)
      refine ⟨here.2.trans prev_eq, here.1.trans next_eq, ih later ?_⟩
      intro other otherMem
      exact agree other (by simp [otherMem])

/-- Lists that share no node with an edit survive it. -/
theorem IsList.congr {links other : Links α} {head : Option α} {nodes : List α}
    (list : links.IsList head nodes)
    (agree : ∀ node ∈ nodes,
      other.next node = links.next node ∧ other.prev node = links.prev node) :
    other.IsList head nodes :=
  ⟨list.head_eq, list.nodup, list.segment.congr agree⟩

theorem isList_nil {links : Links α} {head : Option α} :
    links.IsList head [] ↔ head = none := by
  constructor
  · intro list
    simpa using list.head_eq
  · rintro rfl
    exact ⟨rfl, List.nodup_nil, trivial⟩

/-- A nonempty list starts at its head node. -/
theorem IsList.head_some {links : Links α} {head : α} {nodes : List α}
    (list : links.IsList (some head) nodes) : ∃ rest, nodes = head :: rest := by
  cases nodes with
  | nil => simpa using list.head_eq
  | cons node rest =>
      have head_eq : head = node := by simpa using list.head_eq
      exact ⟨rest, by rw [head_eq]⟩

/-- The neighbours a listed node points at. -/
theorem IsList.neighbours {links : Links α} {head : Option α} {front back : List α} {node : α}
    (list : links.IsList head (front ++ node :: back)) :
    links.prev node = front.getLast? ∧ links.next node = back.head? := by
  have tail := (segment_append.mp list.segment).2
  simpa using And.intro tail.1 tail.2.1

section Edit

variable [DecidableEq α]

/-- Redirect the successor of a node; the null node has none. -/
def setNext (links : Links α) : Option α → Option α → Links α
  | none, _ => links
  | some node, target => { links with next := Function.update links.next node target }

/-- Redirect the predecessor of a node; the null node has none. -/
def setPrev (links : Links α) : Option α → Option α → Links α
  | none, _ => links
  | some node, target => { links with prev := Function.update links.prev node target }

@[simp] theorem setNext_prev (links : Links α) (node target : Option α) :
    (links.setNext node target).prev = links.prev := by
  cases node <;> rfl

@[simp] theorem setPrev_next (links : Links α) (node target : Option α) :
    (links.setPrev node target).next = links.next := by
  cases node <;> rfl

theorem setNext_next_of_ne {links : Links α} {node target : Option α} {other : α}
    (other_ne : node ≠ some other) : (links.setNext node target).next other = links.next other := by
  cases node with
  | none => rfl
  | some node =>
      have different : other ≠ node := fun equal => other_ne (congrArg some equal.symm)
      simp [setNext, different]

theorem setPrev_prev_of_ne {links : Links α} {node target : Option α} {other : α}
    (other_ne : node ≠ some other) : (links.setPrev node target).prev other = links.prev other := by
  cases node with
  | none => rfl
  | some node =>
      have different : other ≠ node := fun equal => other_ne (congrArg some equal.symm)
      simp [setPrev, different]

/-- Redirecting the successor of the last node changes where a segment leads. -/
theorem Segment.setNext_getLast {links : Links α} {before after : Option α} {nodes : List α}
    (nodup : nodes.Nodup) (segment : links.Segment before nodes after) (target : Option α) :
    (links.setNext nodes.getLast? target).Segment before nodes target := by
  induction nodes generalizing before with
  | nil => trivial
  | cons node rest ih =>
      obtain ⟨prev_eq, next_eq, later⟩ := segment
      cases rest with
      | nil => exact ⟨prev_eq, by simp [setNext], trivial⟩
      | cons next rest =>
          have node_not_mem := (List.nodup_cons.mp nodup).1
          have last_ne : (node :: next :: rest).getLast? ≠ some node := by
            intro last_eq
            exact node_not_mem (List.mem_of_getLast? (by simpa using last_eq))
          refine ⟨?_, ?_, ?_⟩
          · simpa using prev_eq
          · rw [setNext_next_of_ne last_ne]
            simpa using next_eq
          · simpa using ih (List.nodup_cons.mp nodup).2 later

/-- Redirecting the predecessor of the first node changes where a segment is entered from. -/
theorem Segment.setPrev_head {links : Links α} {before after : Option α} {nodes : List α}
    (nodup : nodes.Nodup) (segment : links.Segment before nodes after) (source : Option α) :
    (links.setPrev nodes.head? source).Segment source nodes after := by
  cases nodes with
  | nil => trivial
  | cons node rest =>
      obtain ⟨_, next_eq, later⟩ := segment
      refine ⟨by simp [setPrev], by simpa using next_eq, later.congr ?_⟩
      intro other otherMem
      have other_ne : (node :: rest).head? ≠ some other := by
        rintro ⟨⟩
        exact (List.nodup_cons.mp nodup).1 otherMem
      exact ⟨by simp, setPrev_prev_of_ne other_ne⟩

theorem Segment.setNext_of_not_mem {links : Links α} {before after : Option α} {nodes : List α}
    (segment : links.Segment before nodes after) {node target : Option α}
    (outside : ∀ other ∈ nodes, node ≠ some other) :
    (links.setNext node target).Segment before nodes after :=
  segment.congr fun other otherMem => ⟨setNext_next_of_ne (outside other otherMem), by simp⟩

theorem Segment.setPrev_of_not_mem {links : Links α} {before after : Option α} {nodes : List α}
    (segment : links.Segment before nodes after) {node target : Option α}
    (outside : ∀ other ∈ nodes, node ≠ some other) :
    (links.setPrev node target).Segment before nodes after :=
  segment.congr fun other otherMem => ⟨by simp, setPrev_prev_of_ne (outside other otherMem)⟩

/-- Join two segments: the left one is redirected to the right one and back. -/
theorem Segment.join {links : Links α} {front back : List α} {left right : Option α}
    (nodup : (front ++ back).Nodup) (first : links.Segment none front left)
    (second : links.Segment right back none) :
    ((links.setNext front.getLast? back.head?).setPrev back.head? front.getLast?).Segment
      none (front ++ back) none := by
  obtain ⟨frontNodup, backNodup, disjoint⟩ := List.nodup_append.mp nodup
  rw [segment_append]
  simp only [Option.or_none]
  refine ⟨?_, ?_⟩
  · apply (first.setNext_getLast frontNodup back.head?).setPrev_of_not_mem
    intro other otherMem head_eq
    exact disjoint other otherMem other (List.mem_of_head? head_eq) rfl
  · apply Segment.setPrev_head backNodup
    apply second.setNext_of_not_mem
    intro other otherMem last_eq
    exact disjoint other (List.mem_of_getLast? last_eq) other otherMem rfl

/-- Bypass a node: its neighbours are pointed at each other. -/
def unlink (links : Links α) (node : α) : Links α :=
  (links.setNext (links.prev node) (links.next node)).setPrev (links.next node) (links.prev node)

/-- Unlinking a listed node removes exactly that node. -/
theorem IsList.unlink {links : Links α} {head : Option α} {front back : List α} {node : α}
    (list : links.IsList head (front ++ node :: back)) :
    (links.unlink node).IsList (front ++ back).head? (front ++ back) := by
  obtain ⟨prev_eq, next_eq⟩ := list.neighbours
  have nodup : (front ++ back).Nodup :=
    list.nodup.sublist (List.Sublist.append_left (List.sublist_cons_self node back) front)
  have parts := segment_append.mp list.segment
  refine ⟨rfl, nodup, ?_⟩
  rw [Links.unlink, prev_eq, next_eq]
  exact parts.1.join nodup parts.2.2.2

/-- Unlinking leaves the pointers of nodes outside the list alone. -/
theorem IsList.unlink_of_not_mem {links : Links α} {head : Option α} {front back : List α}
    {node other : α} (list : links.IsList head (front ++ node :: back))
    (outside : other ∉ front ++ node :: back) :
    (links.unlink node).next other = links.next other ∧
      (links.unlink node).prev other = links.prev other := by
  obtain ⟨prev_eq, next_eq⟩ := list.neighbours
  have not_last : front.getLast? ≠ some other := by
    intro last_eq
    exact outside (by simp [List.mem_of_getLast? last_eq])
  have not_head : back.head? ≠ some other := by
    intro head_eq
    exact outside (by simp [List.mem_of_head? head_eq])
  rw [Links.unlink, prev_eq, next_eq, setPrev_next, setNext_next_of_ne not_last,
    setPrev_prev_of_ne not_head, setNext_prev]
  exact ⟨rfl, rfl⟩

/-- Link a node between two neighbours. -/
def link (links : Links α) (node : α) (before after : Option α) : Links α :=
  let stored : Links α :=
    { next := Function.update links.next node after
      prev := Function.update links.prev node before }
  (stored.setNext before (some node)).setPrev after (some node)

/-- Linking a fresh node between adjacent nodes inserts it exactly there. -/
theorem IsList.link {links : Links α} {head : Option α} {front back : List α} {node : α}
    (list : links.IsList head (front ++ back)) (fresh : node ∉ front ++ back) :
    (links.link node front.getLast? back.head?).IsList
      (front ++ node :: back).head? (front ++ node :: back) := by
  have node_not_front : node ∉ front := fun mem => fresh (by simp [mem])
  have node_not_back : node ∉ back := fun mem => fresh (by simp [mem])
  obtain ⟨frontNodup, backNodup, disjoint⟩ := List.nodup_append.mp list.nodup
  have parts := segment_append.mp list.segment
  simp only [Option.or_none] at parts
  have nodup : (front ++ node :: back).Nodup :=
    (List.perm_middle.nodup_iff).mpr (List.nodup_cons.mpr ⟨fresh, list.nodup⟩)
  have last_ne : front.getLast? ≠ some node :=
    fun last_eq => node_not_front (List.mem_of_getLast? last_eq)
  have head_ne : back.head? ≠ some node :=
    fun head_eq => node_not_back (List.mem_of_head? head_eq)
  refine ⟨rfl, nodup, ?_⟩
  rw [segment_append]
  simp only [Links.link, List.head?_cons, Option.or_none, Segment]
  refine ⟨?_, ?_, ?_, ?_⟩
  · -- the front now leads to the new node
    apply Segment.setPrev_of_not_mem
    · refine Segment.setNext_getLast frontNodup (parts.1.congr ?_) (some node)
      intro other otherMem
      have other_ne : other ≠ node := fun equal => node_not_front (equal ▸ otherMem)
      simp [other_ne]
    · intro other otherMem head_eq
      exact disjoint other otherMem other (List.mem_of_head? head_eq) rfl
  · rw [setPrev_prev_of_ne head_ne]
    simp
  · rw [setPrev_next, setNext_next_of_ne last_ne]
    simp
  · -- the back is now entered from the new node
    apply Segment.setPrev_head backNodup
    apply Segment.setNext_of_not_mem
    · refine parts.2.congr ?_
      intro other otherMem
      have other_ne : other ≠ node := fun equal => node_not_back (equal ▸ otherMem)
      simp [other_ne]
    · intro other otherMem last_eq
      exact disjoint other (List.mem_of_getLast? last_eq) other otherMem rfl

/-- Linking leaves the pointers of all nodes but the new one and its neighbours alone. -/
theorem link_of_ne {links : Links α} {node other : α} {before after : Option α}
    (other_ne : other ≠ node) (before_ne : before ≠ some other) (after_ne : after ≠ some other) :
    (links.link node before after).next other = links.next other ∧
      (links.link node before after).prev other = links.prev other := by
  rw [Links.link, setPrev_next, setNext_next_of_ne before_ne, setPrev_prev_of_ne after_ne,
    setNext_prev]
  simp [other_ne]

end Edit

end Links
end Vespertine
