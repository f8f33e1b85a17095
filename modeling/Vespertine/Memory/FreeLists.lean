import Vespertine.Library.Dyadic
import Vespertine.Library.LinkedList
import Vespertine.Memory.Pmm

/-!
# The free lists of the page allocator

`FreeLists` reads the intrusive lists and the frame table as one list of block addresses per
order.  Two edits change it: a listed block is unlisted and loses its head flag, or an unlisted
block is pushed and gains it.  Every loop of the allocator is a sequence of these two edits.
-/

namespace Vespertine
namespace Allocator

/-- A block address as a pointer; address zero is null. -/
def pointer (addr : Nat) : Option Nat := if addr = 0 then none else some addr

/-- The list words of physical memory as pointers. -/
def listLinks (memory : Nat → FreeBlock) : Links Nat where
  next addr := pointer (memory addr).next
  prev addr := pointer (memory addr).prev

/-- The frame carries the head flag. -/
def IsHead (entry : PageFrame) : Prop := entry.flags &&& PF_BUDDY_HEAD ≠ 0

/-- The free lists hold the given block addresses, and exactly their frames are flagged. -/
structure FreeLists (pmm : Allocator) (lists : Nat → List Nat) : Prop where
  /-- Each list is a finite acyclic doubly linked list. -/
  linked : ∀ order ≤ ORDER_MAX,
    (listLinks pmm.memory).IsList (pointer (pmm.freelist order)) (lists order)
  /-- Listed blocks are not at the null address. -/
  ne_zero : ∀ order ≤ ORDER_MAX, ∀ addr ∈ lists order, addr ≠ 0
  /-- Listed blocks are aligned to their size. -/
  aligned : ∀ order ≤ ORDER_MAX, ∀ addr ∈ lists order, NORMAL_PAGE_SIZE <<< order ∣ addr
  /-- The frame table covers listed blocks. -/
  covered : ∀ order ≤ ORDER_MAX, ∀ addr ∈ lists order, addr / NORMAL_PAGE_SIZE < pmm.pfndbLen
  /-- The head frame of a listed block is flagged free and head, with the order of its list. -/
  flagged : ∀ order ≤ ORDER_MAX, ∀ addr ∈ lists order,
    (pmm.pfndb (addr / NORMAL_PAGE_SIZE)).flags = PF_FREE ||| PF_BUDDY_HEAD ∧
      (pmm.pfndb (addr / NORMAL_PAGE_SIZE)).buddyOrder = order
  /-- Only head frames of listed blocks carry the head flag. -/
  only : ∀ pfn < pmm.pfndbLen, IsHead (pmm.pfndb pfn) →
    ∃ order ≤ ORDER_MAX, pfn * NORMAL_PAGE_SIZE ∈ lists order

@[simp] theorem pointer_zero : pointer 0 = none := rfl

@[simp] theorem pointer_of_ne {addr : Nat} (ne_zero : addr ≠ 0) : pointer addr = some addr :=
  if_neg ne_zero

theorem listLinks_setBlock (pmm : Allocator) (addr : Nat) (block : FreeBlock) :
    listLinks (pmm.setBlock addr block).memory =
      { next := Function.update (listLinks pmm.memory).next addr (pointer block.next)
        prev := Function.update (listLinks pmm.memory).prev addr (pointer block.prev) } := by
  ext node target <;> by_cases same : node = addr <;> simp [listLinks, setBlock, same]

theorem listLinks_setNext (pmm : Allocator) {addr : Nat} (ne_zero : addr ≠ 0) (target : Nat) :
    listLinks (pmm.setBlock addr { pmm.memory addr with next := target }).memory =
      (listLinks pmm.memory).setNext (pointer addr) (pointer target) := by
  rw [listLinks_setBlock, pointer_of_ne ne_zero, Links.setNext]
  congr
  exact Function.update_eq_self addr _

theorem listLinks_setPrevAt (pmm : Allocator) (addr target : Nat) :
    listLinks (pmm.setPrevAt addr target).memory =
      (listLinks pmm.memory).setPrev (pointer addr) (pointer target) := by
  by_cases zero : addr = 0
  · simp [setPrevAt, zero, Links.setPrev]
  · rw [setPrevAt, if_pos zero, listLinks_setBlock, pointer_of_ne zero, Links.setPrev]
    congr
    exact Function.update_eq_self addr _

@[simp] theorem setPrevAt_pfndb (pmm : Allocator) (addr prev : Nat) :
    (pmm.setPrevAt addr prev).pfndb = pmm.pfndb := by
  unfold setPrevAt
  split <;> rfl

@[simp] theorem setPrevAt_pfndbLen (pmm : Allocator) (addr prev : Nat) :
    (pmm.setPrevAt addr prev).pfndbLen = pmm.pfndbLen := by
  unfold setPrevAt
  split <;> rfl

@[simp] theorem setPrevAt_freelist (pmm : Allocator) (addr prev : Nat) :
    (pmm.setPrevAt addr prev).freelist = pmm.freelist := by
  unfold setPrevAt
  split <;> rfl

theorem frame_of_lt {pmm : Allocator} {pfn : Nat} (lt : pfn < pmm.pfndbLen) :
    pmm.frame pfn = .ok (pmm.pfndb pfn) := if_pos lt

/-- An aligned block address is the address of its first frame. -/
theorem page_mul_div {order addr : Nat} (aligned : NORMAL_PAGE_SIZE <<< order ∣ addr) :
    addr / NORMAL_PAGE_SIZE * NORMAL_PAGE_SIZE = addr := by
  rw [Nat.shiftLeft_eq] at aligned
  exact Nat.div_mul_cancel ((Nat.dvd_mul_right _ _).trans aligned)

/-- Multiplying a frame number by the page size aligns its address. -/
theorem page_aligned {order base : Nat} (aligned : 2 ^ order ∣ base) :
    NORMAL_PAGE_SIZE <<< order ∣ base * NORMAL_PAGE_SIZE := by
  rw [Nat.shiftLeft_eq, Nat.mul_comm NORMAL_PAGE_SIZE]
  exact Nat.mul_dvd_mul_right aligned NORMAL_PAGE_SIZE

@[simp] theorem mul_page_div (base : Nat) : base * NORMAL_PAGE_SIZE / NORMAL_PAGE_SIZE = base :=
  Nat.mul_div_cancel base (by decide)

namespace FreeLists

variable {pmm : Allocator} {lists : Nat → List Nat}

/-- An address is listed at one order only. -/
theorem order_unique (free : FreeLists pmm lists) {left right addr : Nat}
    (left_le : left ≤ ORDER_MAX) (right_le : right ≤ ORDER_MAX)
    (left_mem : addr ∈ lists left) (right_mem : addr ∈ lists right) : left = right :=
  (free.flagged left left_le addr left_mem).2.symm.trans
    (free.flagged right right_le addr right_mem).2

theorem page_of_mem (free : FreeLists pmm lists) {order addr : Nat} (order_le : order ≤ ORDER_MAX)
    (mem : addr ∈ lists order) : addr / NORMAL_PAGE_SIZE * NORMAL_PAGE_SIZE = addr :=
  page_mul_div (free.aligned order order_le addr mem)

/-- Different blocks start at different frames. -/
theorem frame_ne (free : FreeLists pmm lists) {order node addr : Nat} (order_le : order ≤ ORDER_MAX)
    (mem : node ∈ lists order) (page : addr / NORMAL_PAGE_SIZE * NORMAL_PAGE_SIZE = addr)
    (node_ne : node ≠ addr) : node / NORMAL_PAGE_SIZE ≠ addr / NORMAL_PAGE_SIZE := by
  intro frame_eq
  apply node_ne
  rw [← free.page_of_mem order_le mem, frame_eq, page]

theorem head_cons (free : FreeLists pmm lists) {order : Nat} (order_le : order ≤ ORDER_MAX)
    (ne_zero : pmm.freelist order ≠ 0) : ∃ rest, lists order = pmm.freelist order :: rest := by
  have list := free.linked order order_le
  rw [pointer_of_ne ne_zero] at list
  exact list.head_some

/-- Unlisting a block: its neighbours are joined and its frame loses the head flag. -/
theorem unlist (free : FreeLists pmm lists) {order addr : Nat} {front back : List Nat}
    (order_le : order ≤ ORDER_MAX) (list_eq : lists order = front ++ addr :: back)
    (after : Allocator) (len_eq : after.pfndbLen = pmm.pfndbLen) {entry : PageFrame}
    (pfndb_eq : after.pfndb = Function.update pmm.pfndb (addr / NORMAL_PAGE_SIZE) entry)
    (cleared : ¬IsHead entry) {head : Nat}
    (freelist_eq : after.freelist = Function.update pmm.freelist order head)
    (head_eq : pointer head = (front ++ back).head?)
    (links_eq : ∀ node ≠ addr,
      (listLinks after.memory).next node = ((listLinks pmm.memory).unlink addr).next node ∧
        (listLinks after.memory).prev node = ((listLinks pmm.memory).unlink addr).prev node) :
    FreeLists after (Function.update lists order (front ++ back)) := by
  have list := free.linked order order_le
  rw [list_eq] at list
  have addr_mem : addr ∈ lists order := by simp [list_eq]
  have addr_not_mem : addr ∉ front ++ back := by
    have nodup := List.perm_middle.nodup_iff.mp list.nodup
    exact (List.nodup_cons.mp nodup).1
  -- what remains listed was listed before and is not the removed block
  have remains : ∀ other ≤ ORDER_MAX, ∀ node ∈ Function.update lists order (front ++ back) other,
      node ∈ lists other ∧ node ≠ addr := by
    intro other other_le node mem
    by_cases same : other = order
    · subst same
      rw [Function.update_self] at mem
      refine ⟨?_, fun equal => addr_not_mem (equal ▸ mem)⟩
      rw [list_eq]
      rcases List.mem_append.mp mem with inFront | inBack
      · simp [inFront]
      · simp [inBack]
    · rw [Function.update_of_ne same] at mem
      refine ⟨mem, fun equal => same ?_⟩
      exact free.order_unique other_le order_le (equal ▸ mem) addr_mem
  refine ⟨?_, ?_, ?_, ?_, ?_, ?_⟩
  · intro other other_le
    by_cases same : other = order
    · subst same
      rw [Function.update_self, freelist_eq, Function.update_self, head_eq]
      refine list.unlink.congr fun node mem => links_eq node ?_
      exact fun equal => addr_not_mem (equal ▸ mem)
    · rw [Function.update_of_ne same, freelist_eq, Function.update_of_ne same]
      refine (free.linked other other_le).congr fun node mem => ?_
      have node_ne : node ≠ addr := fun equal =>
        same (free.order_unique other_le order_le (equal ▸ mem) addr_mem)
      have outside : node ∉ front ++ addr :: back := fun inside =>
        same (free.order_unique other_le order_le mem (list_eq ▸ inside))
      have kept := list.unlink_of_not_mem outside
      exact ⟨(links_eq node node_ne).1.trans kept.1, (links_eq node node_ne).2.trans kept.2⟩
  · intro other other_le node mem
    exact free.ne_zero other other_le node (remains other other_le node mem).1
  · intro other other_le node mem
    exact free.aligned other other_le node (remains other other_le node mem).1
  · intro other other_le node mem
    rw [len_eq]
    exact free.covered other other_le node (remains other other_le node mem).1
  · intro other other_le node mem
    obtain ⟨listed, node_ne⟩ := remains other other_le node mem
    have page := free.page_of_mem order_le addr_mem
    rw [pfndb_eq, Function.update_of_ne (free.frame_ne other_le listed page node_ne)]
    exact free.flagged other other_le node listed
  · intro pfn pfn_lt isHead
    by_cases same : pfn = addr / NORMAL_PAGE_SIZE
    · rw [same, pfndb_eq, Function.update_self] at isHead
      exact absurd isHead cleared
    · rw [pfndb_eq, Function.update_of_ne same] at isHead
      obtain ⟨other, other_le, mem⟩ := free.only pfn (len_eq ▸ pfn_lt) isHead
      refine ⟨other, other_le, ?_⟩
      by_cases same_order : other = order
      · subst same_order
        rw [Function.update_self]
        rw [list_eq] at mem
        have node_ne : pfn * NORMAL_PAGE_SIZE ≠ addr := by
          intro equal
          apply same
          rw [← equal, mul_page_div]
        simpa [node_ne] using mem
      · rwa [Function.update_of_ne same_order]

/-- Listing a block: it becomes the first of its list and its frame gains the head flag. -/
theorem list (free : FreeLists pmm lists) {order addr : Nat} (order_le : order ≤ ORDER_MAX)
    (ne_zero : addr ≠ 0) (aligned : NORMAL_PAGE_SIZE <<< order ∣ addr)
    (covered : addr / NORMAL_PAGE_SIZE < pmm.pfndbLen)
    (unlisted : ∀ other ≤ ORDER_MAX, addr ∉ lists other)
    (after : Allocator) (len_eq : after.pfndbLen = pmm.pfndbLen)
    (pfndb_eq : after.pfndb = Function.update pmm.pfndb (addr / NORMAL_PAGE_SIZE)
      { refcount := 0, flags := PF_FREE ||| PF_BUDDY_HEAD, buddyOrder := order })
    (freelist_eq : after.freelist = Function.update pmm.freelist order addr)
    (links_eq : listLinks after.memory =
      (listLinks pmm.memory).link addr none (pointer (pmm.freelist order))) :
    FreeLists after (Function.update lists order (addr :: lists order)) := by
  have list := free.linked order order_le
  have listed : ∀ other ≤ ORDER_MAX,
      ∀ node ∈ Function.update lists order (addr :: lists order) other,
        (node = addr ∧ other = order) ∨ (node ∈ lists other ∧ node ≠ addr) := by
    intro other other_le node mem
    have old_ne : node ∈ lists other → node ≠ addr := fun old equal =>
      unlisted other other_le (equal ▸ old)
    by_cases same : other = order
    · subst same
      rw [Function.update_self] at mem
      rcases List.mem_cons.mp mem with new | old
      · exact Or.inl ⟨new, rfl⟩
      · exact Or.inr ⟨old, old_ne old⟩
    · rw [Function.update_of_ne same] at mem
      exact Or.inr ⟨mem, old_ne mem⟩
  refine ⟨?_, ?_, ?_, ?_, ?_, ?_⟩
  · intro other other_le
    by_cases same : other = order
    · subst same
      rw [Function.update_self, freelist_eq, Function.update_self, links_eq, list.head_eq,
        pointer_of_ne ne_zero]
      rw [← List.nil_append (lists other)] at list
      simpa using list.link (unlisted other order_le)
    · rw [Function.update_of_ne same, freelist_eq, Function.update_of_ne same, links_eq,
        list.head_eq]
      refine (free.linked other other_le).congr fun node mem => ?_
      apply Links.link_of_ne
      · exact fun equal => unlisted other other_le (equal ▸ mem)
      · simp
      · intro head_eq
        exact same (free.order_unique other_le order_le mem (List.mem_of_head? head_eq))
  · intro other other_le node mem
    rcases listed other other_le node mem with ⟨rfl, rfl⟩ | ⟨old, -⟩
    · exact ne_zero
    · exact free.ne_zero other other_le node old
  · intro other other_le node mem
    rcases listed other other_le node mem with ⟨rfl, rfl⟩ | ⟨old, -⟩
    · exact aligned
    · exact free.aligned other other_le node old
  · intro other other_le node mem
    rw [len_eq]
    rcases listed other other_le node mem with ⟨rfl, rfl⟩ | ⟨old, -⟩
    · exact covered
    · exact free.covered other other_le node old
  · intro other other_le node mem
    rcases listed other other_le node mem with ⟨rfl, rfl⟩ | ⟨old, node_ne⟩
    · rw [pfndb_eq, Function.update_self]
      exact ⟨rfl, rfl⟩
    · have page := page_mul_div aligned
      rw [pfndb_eq, Function.update_of_ne (free.frame_ne other_le old page node_ne)]
      exact free.flagged other other_le node old
  · intro pfn pfn_lt isHead
    by_cases same : pfn = addr / NORMAL_PAGE_SIZE
    · refine ⟨order, order_le, ?_⟩
      rw [Function.update_self, same, page_mul_div aligned]
      exact List.mem_cons_self
    · rw [pfndb_eq, Function.update_of_ne same] at isHead
      obtain ⟨other, other_le, mem⟩ := free.only pfn (len_eq ▸ pfn_lt) isHead
      refine ⟨other, other_le, ?_⟩
      by_cases same_order : other = order
      · subst same_order
        rw [Function.update_self]
        exact List.mem_cons_of_mem _ mem
      · rwa [Function.update_of_ne same_order]

/-- The entry of a frame that heads no listed block may be rewritten without the head flag. -/
theorem setFrame (free : FreeLists pmm lists) {pfn : Nat} {entry : PageFrame}
    (unlisted : ∀ order ≤ ORDER_MAX, pfn * NORMAL_PAGE_SIZE ∉ lists order)
    (cleared : ¬IsHead entry) : FreeLists (pmm.setFrame pfn entry) lists := by
  refine ⟨free.linked, free.ne_zero, free.aligned, free.covered, ?_, ?_⟩
  · intro order order_le addr mem
    have other : addr / NORMAL_PAGE_SIZE ≠ pfn := by
      rintro rfl
      exact unlisted order order_le (by rwa [free.page_of_mem order_le mem])
    simpa [Allocator.setFrame, other] using free.flagged order order_le addr mem
  · intro other other_lt isHead
    by_cases same : other = pfn
    · subst same
      simp only [Allocator.setFrame, Function.update_self] at isHead
      exact absurd isHead cleared
    · simp only [Allocator.setFrame, Function.update_of_ne same] at isHead
      exact free.only other other_lt isHead

/-- List words of memory outside every listed block may change freely. -/
theorem setBlock (free : FreeLists pmm lists) {addr : Nat} {block : FreeBlock}
    (unlisted : ∀ order ≤ ORDER_MAX, addr ∉ lists order) :
    FreeLists (pmm.setBlock addr block) lists := by
  refine ⟨?_, free.ne_zero, free.aligned, free.covered, free.flagged, free.only⟩
  intro order order_le
  refine (free.linked order order_le).congr fun node mem => ?_
  have node_ne : node ≠ addr := fun equal => unlisted order order_le (equal ▸ mem)
  rw [listLinks_setBlock]
  simp [node_ne]

end FreeLists
end Allocator
end Vespertine
