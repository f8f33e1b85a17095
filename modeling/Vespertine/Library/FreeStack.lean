import Mathlib.Data.List.Nodup
import Mathlib.Logic.Function.Basic

/-!
# Stacks threaded through their own nodes

A free list keeps no memory of its own: each node stores the address of the node below it, and the
last one stores a terminator.  Pushing writes one node, popping writes none, and a stack does not
see writes to nodes outside itself.
-/

namespace Vespertine

variable {α : Type*} {next other : α → α} {stop head item : α} {nodes : List α}

/-- Following `next` from `head` visits these nodes and then meets the terminator. -/
def Threaded (next : α → α) (stop : α) : α → List α → Prop
  | head, [] => head = stop
  | head, node :: rest => head = node ∧ node ≠ stop ∧ Threaded next stop (next node) rest

namespace Threaded

theorem nil : Threaded next stop stop [] := rfl

/-- A stack reads only its own nodes. -/
theorem congr (threaded : Threaded next stop head nodes)
    (agree : ∀ node ∈ nodes, other node = next node) : Threaded other stop head nodes := by
  induction nodes generalizing head with
  | nil => exact threaded
  | cons node rest ih =>
      obtain ⟨head_eq, ne, below⟩ := threaded
      refine ⟨head_eq, ne, ?_⟩
      rw [agree node List.mem_cons_self]
      exact ih below fun later mem => agree later (List.mem_cons_of_mem _ mem)

/-- Only the empty stack starts with the terminator. -/
theorem head_eq_stop_iff (threaded : Threaded next stop head nodes) :
    head = stop ↔ nodes = [] := by
  cases nodes with
  | nil => exact iff_of_true threaded rfl
  | cons node rest =>
      refine iff_of_false (fun at_stop => threaded.2.1 ?_) (List.cons_ne_nil node rest)
      exact threaded.1.symm.trans at_stop

/-- A stack that does not start with the terminator has a first node. -/
theorem exists_cons (threaded : Threaded next stop head nodes) (ne : head ≠ stop) :
    ∃ rest, nodes = head :: rest ∧ Threaded next stop (next head) rest := by
  cases nodes with
  | nil => exact absurd threaded ne
  | cons node rest =>
      obtain ⟨rfl, -, below⟩ := threaded
      exact ⟨rest, rfl, below⟩

/-- A stack is determined by its first node. -/
theorem unique {others : List α} (threaded : Threaded next stop head nodes)
    (second : Threaded next stop head others) : nodes = others := by
  induction nodes generalizing head others with
  | nil => exact (second.head_eq_stop_iff.mp threaded).symm
  | cons node rest ih =>
      obtain ⟨rfl, ne, below⟩ := threaded
      obtain ⟨others, rfl, below_second⟩ := second.exists_cons ne
      rw [ih below below_second]

/-- The part of a stack below one of its nodes. -/
theorem below {front back : List α} (threaded : Threaded next stop head (front ++ item :: back)) :
    Threaded next stop (next item) back := by
  induction front generalizing head with
  | nil => exact threaded.2.2
  | cons node rest ih => exact ih threaded.2.2

/-- A stack that ends is acyclic. -/
theorem nodup (threaded : Threaded next stop head nodes) : nodes.Nodup := by
  induction nodes generalizing head with
  | nil => exact List.nodup_nil
  | cons node rest ih =>
      obtain ⟨-, -, under⟩ := threaded
      refine List.nodup_cons.mpr ⟨fun again => ?_, ih under⟩
      -- a second visit would have the whole stack below itself
      obtain ⟨front, back, rfl⟩ := List.append_of_mem again
      have same := congrArg List.length (under.unique under.below)
      rw [List.length_append, List.length_cons] at same
      omega

section Push

variable [DecidableEq α]

/-- Writing a node outside the stack is not seen. -/
theorem update_of_not_mem (threaded : Threaded next stop head nodes) (fresh : item ∉ nodes)
    (value : α) : Threaded (Function.update next item value) stop head nodes :=
  threaded.congr fun node mem =>
    Function.update_of_ne (fun same : node = item => fresh (same ▸ mem)) ..

/-- A node that is not in the stack is put on top. -/
theorem push (threaded : Threaded next stop head nodes) (fresh : item ∉ nodes)
    (ne : item ≠ stop) : Threaded (Function.update next item head) stop item (item :: nodes) := by
  refine ⟨rfl, ne, ?_⟩
  rw [Function.update_self]
  exact threaded.update_of_not_mem fresh head

end Push

/-- A row of nodes, each of which stores the next one, is a stack. -/
theorem of_range (node : Nat → α) {start count : Nat}
    (links : ∀ index, start ≤ index → index < start + count →
      next (node index) = if index + 1 = start + count then stop else node (index + 1))
    (ne : ∀ index, start ≤ index → index < start + count → node index ≠ stop) :
    Threaded next stop (if count = 0 then stop else node start)
      ((List.range' start count).map node) := by
  induction count generalizing start with
  | zero => exact nil
  | succ count ih =>
      rw [List.range'_succ, List.map_cons, if_neg (Nat.succ_ne_zero count)]
      refine ⟨rfl, ne start (Nat.le_refl _) (by omega), ?_⟩
      have last_eq : start + 1 + count = start + (count + 1) := by omega
      have below : Threaded next stop (if count = 0 then stop else node (start + 1))
          ((List.range' (start + 1) count).map node) := by
        refine ih (fun index lower upper => ?_) fun index lower upper => ?_
        · rw [links index (by omega) (by omega), last_eq]
        · exact ne index (by omega) (by omega)
      rw [links start (Nat.le_refl _) (by omega)]
      have last : start + 1 = start + (count + 1) ↔ count = 0 := by omega
      simpa only [last] using below

end Threaded

/-!
### Loops that write one node after another
-/

section Loop

variable [DecidableEq α] {β : Type*}

/-- Execute `store[key i] = value i` for every index of a list. -/
def writeAll (store : α → β) (key : Nat → α) (value : Nat → β) (indices : List Nat) : α → β :=
  indices.foldl (fun store index => Function.update store (key index) (value index)) store

variable {key : Nat → α} {value : Nat → β} {indices : List Nat}

theorem writeAll_of_not_mem (store : α → β) (outside : ∀ index ∈ indices, key index ≠ item) :
    writeAll store key value indices item = store item := by
  induction indices generalizing store with
  | nil => rfl
  | cons index rest ih =>
      rw [writeAll, List.foldl_cons]
      refine (ih _ fun later mem => outside later (List.mem_cons_of_mem _ mem)).trans ?_
      exact Function.update_of_ne (outside index List.mem_cons_self).symm ..

/-- A loop over different keys leaves at each what it wrote there. -/
theorem writeAll_of_mem (store : α → β) {index : Nat} (mem : index ∈ indices)
    (injective : ∀ left ∈ indices, ∀ right ∈ indices, key left = key right → left = right) :
    writeAll store key value indices (key index) = value index := by
  induction indices generalizing store with
  | nil => cases mem
  | cons first rest ih =>
      rw [writeAll, List.foldl_cons]
      by_cases later : index ∈ rest
      · refine ih _ later fun left left_mem right right_mem => ?_
        exact injective left (List.mem_cons_of_mem _ left_mem) right
          (List.mem_cons_of_mem _ right_mem)
      · obtain rfl : index = first := (List.mem_cons.mp mem).resolve_right later
        refine (writeAll_of_not_mem _ fun other other_mem same => later ?_).trans ?_
        · rw [← injective other (List.mem_cons_of_mem _ other_mem) index mem same]
          exact other_mem
        · exact Function.update_self ..

end Loop

end Vespertine
