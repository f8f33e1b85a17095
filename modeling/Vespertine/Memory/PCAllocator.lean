import Vespertine.Memory.Exhaustion
import Vespertine.Memory.Magazine

/-!
# Single pages and the last frames of memory

`PCAllocator` takes single pages from the magazine of the core it runs on and everything else from
the buddy allocator.  A refill and a flush hold the lock of the buddy allocator and run with
interrupts disabled, so each call is one step on the allocator and one magazine.

A refill fetches half a magazine and does not stop early, so the frames that are left when fewer
are free cannot be allocated one by one.
-/

namespace Vespertine.Magazines

open Allocator DyadicBlock

namespace Magazine

/-- The loop of `Magazine::alloc`. -/
def refill : (turns : Nat) → Magazine → Allocator → Kernel (Magazine × Allocator)
  | 0, magazine, pmm => .ok (magazine, pmm)
  | turns + 1, magazine, pmm => do
      let (block, pmm) ← pmm.alloc .Normal
      match block with
      | none => .error .outOfMemory
      | some addr => do
          let magazine ← magazine.store addr
          refill turns magazine pmm

/-- `Magazine::alloc`. -/
def alloc (magazine : Magazine) (pmm : Allocator) : Kernel (Nat × Magazine × Allocator) :=
  if magazine.count > 0 then do
    let (ret, magazine) ← magazine.take
    return (ret, magazine.erase, pmm)
  else do
    let (magazine, pmm) ← magazine.refill (MAG_CAPACITY / 2 - 1) pmm
    let (block, pmm) ← pmm.alloc .Normal
    match block with
    | none => .error .outOfMemory
    | some ret => return (ret, magazine, pmm)

/-- The loop of `Magazine::free`. -/
def flush : (turns : Nat) → Magazine → Allocator → Kernel (Magazine × Allocator)
  | 0, magazine, pmm => .ok (magazine, pmm)
  | turns + 1, magazine, pmm => do
      let (page, magazine) ← magazine.take
      let pmm ← pmm.free page .Normal
      flush turns magazine pmm

/-- `Magazine::free`. -/
def free (magazine : Magazine) (pmm : Allocator) (addr : Nat) : Kernel (Magazine × Allocator) :=
  if magazine.count < MAG_CAPACITY then do
    let magazine ← magazine.store addr
    return (magazine, pmm)
  else do
    let (magazine, pmm) ← magazine.flush (MAG_CAPACITY / 2) pmm
    let magazine ← magazine.store addr
    return (magazine, pmm)

end Magazine

/-- The buddy allocator and the magazines of the cores. -/
structure PCAllocator (κ : Type) where
  pmm : Allocator
  magazine : κ → Magazine

variable {κ : Type} [DecidableEq κ]

namespace PCAllocator

/-- `PCAllocator::alloc` on a core. -/
def alloc (memory : PCAllocator κ) (core : κ) : BlockSize → Kernel (Nat × PCAllocator κ)
  | .Huge => do
      let (block, pmm) ← memory.pmm.alloc .Huge
      match block with
      | none => .error .outOfMemory
      | some addr => return (addr, { memory with pmm })
  | .Normal => do
      let (ret, magazine, pmm) ← (memory.magazine core).alloc memory.pmm
      return (ret, ⟨pmm, Function.update memory.magazine core magazine⟩)

/-- `PCAllocator::alloc_order`. -/
def allocOrder (memory : PCAllocator κ) (order : Nat) : Kernel (Option Nat × PCAllocator κ) := do
  let (block, pmm) ← memory.pmm.allocOrder order
  return (block, { memory with pmm })

/-- `PCAllocator::free` on a core. -/
def free (memory : PCAllocator κ) (core : κ) (addr : Nat) : BlockSize → Kernel (PCAllocator κ)
  | .Huge => do
      let pmm ← memory.pmm.free addr .Huge
      return { memory with pmm }
  | .Normal => do
      let (magazine, pmm) ← (memory.magazine core).free memory.pmm addr
      return ⟨pmm, Function.update memory.magazine core magazine⟩

/-- `PCAllocator::free_order`. -/
def freeOrder (memory : PCAllocator κ) (addr order : Nat) : Kernel (PCAllocator κ) := do
  let pmm ← memory.pmm.freeOrder addr order
  return { memory with pmm }

end PCAllocator

/-! ## Where the blocks are -/

/-- The block of the frame at an address. -/
def frameBlock (addr : Nat) : DyadicBlock := ⟨addr / NORMAL_PAGE_SIZE, 0⟩

/-- The blocks outside the buddy allocator: those of the callers and the frames in the magazines. -/
def shelves (magazine : κ → Magazine) (held : List DyadicBlock) : Option κ → List DyadicBlock
  | none => held
  | some core => (magazine core).contents.map frameBlock

/-- Callers and magazines share the live blocks of a sound buddy allocator. -/
structure Kept (managed : Set Nat) (pfndbLen : Nat) (pmm : Allocator) (lists : Nat → List Nat)
    (live : List DyadicBlock) (magazine : κ → Magazine) (held : List DyadicBlock) : Prop where
  holds : Holds managed pmm lists live
  len_eq : pmm.pfndbLen = pfndbLen
  notFree : HeadsNotFree pmm live
  shares : Shares live (shelves magazine held)
  count_le : ∀ core, (magazine core).count ≤ MAG_CAPACITY
  aligned : ∀ core, ∀ addr ∈ (magazine core).contents, NORMAL_PAGE_SIZE ∣ addr

@[simp] theorem frameBlock_mul (frame : Nat) :
    frameBlock (frame * NORMAL_PAGE_SIZE) = ⟨frame, 0⟩ := by
  rw [frameBlock, mul_page_div]

/-- Live blocks are listed once. -/
theorem live_nodup {managed : Set Nat} {pmm : Allocator} {lists : Nat → List Nat}
    {live : List DyadicBlock} (holds : Holds managed pmm lists live) : live.Nodup := by
  have apart := (List.pairwise_append.mp holds.tiles.pairwise_apart).2.1
  refine apart.imp fun {left right} apart => ?_
  rintro rfl
  exact apart left.base ⟨covers_base left, covers_base left⟩

theorem shelves_of_ne {magazine : κ → Magazine} {core : κ} {filled : Magazine}
    {held : List DyadicBlock} {shelf : Option κ} (ne : shelf ≠ some core) :
    shelves (Function.update magazine core filled) held shelf = shelves magazine held shelf := by
  cases shelf with
  | none => rfl
  | some other =>
      have other_ne : other ≠ core := fun same => ne (congrArg some same)
      rw [shelves, Function.update_of_ne other_ne, shelves]

omit [DecidableEq κ] in
theorem shelves_of_ne_none (magazine : κ → Magazine) (held held' : List DyadicBlock)
    {shelf : Option κ} (ne : shelf ≠ none) :
    shelves magazine held' shelf = shelves magazine held shelf := by
  cases shelf with
  | none => exact absurd rfl ne
  | some core => rfl

theorem shelves_self (magazine : κ → Magazine) (core : κ) (filled : Magazine)
    (held : List DyadicBlock) : shelves (Function.update magazine core filled) held (some core) =
      filled.contents.map frameBlock := by
  rw [shelves, Function.update_self]

namespace Magazine

theorem store_of_lt {magazine : Magazine} (addr : Nat) (lt : magazine.count < MAG_CAPACITY) :
    ∃ next, magazine.store addr = .ok next := ⟨_, if_pos lt⟩

theorem take_of_pos {magazine : Magazine} (positive : 0 < magazine.count)
    (count_le : magazine.count ≤ MAG_CAPACITY) :
    ∃ addr next, magazine.take = .ok (addr, next) := by
  rw [take]
  split
  next zero => omega
  next count count_eq => exact ⟨_, _, if_pos (by omega)⟩

end Magazine

namespace Kept

variable {managed : Set Nat} {pfndbLen : Nat} {pmm after : Allocator}
  {lists lists' : Nat → List Nat} {live live' : List DyadicBlock} {magazine : κ → Magazine}
  {held : List DyadicBlock} {core : κ} {filled : Magazine}

/-- Replace the magazine of one core. -/
theorem refit (kept : Kept managed pfndbLen pmm lists live magazine held)
    (holds : Holds managed after lists' live') (len_eq : after.pfndbLen = pfndbLen)
    (notFree : HeadsNotFree after live') {held' : List DyadicBlock}
    (shares : Shares live' (shelves (Function.update magazine core filled) held'))
    (count_le : filled.count ≤ MAG_CAPACITY)
    (aligned : ∀ addr ∈ filled.contents, NORMAL_PAGE_SIZE ∣ addr) :
    Kept managed pfndbLen after lists' live' (Function.update magazine core filled) held' := by
  refine ⟨holds, len_eq, notFree, shares, fun other => ?_, fun other => ?_⟩
  · by_cases same : other = core
    · rwa [same, Function.update_self]
    · rw [Function.update_of_ne same]
      exact kept.count_le other
  · by_cases same : other = core
    · rwa [same, Function.update_self]
    · rw [Function.update_of_ne same]
      exact kept.aligned other

/-- A frame fetched from the buddy allocator is stored in a magazine. -/
theorem fetch (kept : Kept managed pfndbLen pmm lists live magazine held) {frame : Nat}
    (holds : Holds managed after lists' (⟨frame, 0⟩ :: live)) (len_eq : after.pfndbLen = pfndbLen)
    (notFree : HeadsNotFree after (⟨frame, 0⟩ :: live))
    (store_eq : (magazine core).store (frame * NORMAL_PAGE_SIZE) = .ok filled) :
    Kept managed pfndbLen after lists' (⟨frame, 0⟩ :: live) (Function.update magazine core filled)
      held := by
  obtain ⟨lt, count_eq, contents_eq⟩ := Magazine.store_ok store_eq
  have fresh := (List.nodup_cons.mp (live_nodup holds)).1
  refine kept.refit holds len_eq notFree ?_ (by omega) fun addr mem => ?_
  · refine kept.shares.put (some core) fresh ?_ fun other ne => shelves_of_ne ne
    rw [shelves_self, contents_eq, List.map_append, List.map_singleton, frameBlock_mul]
    exact List.perm_append_singleton _ _
  · rw [contents_eq] at mem
    rcases List.mem_append.mp mem with old | new
    · exact kept.aligned core addr old
    · rw [List.mem_singleton.mp new]
      exact Nat.dvd_mul_left _ _

/-- The loop of a refill runs out of frames, or stores one in each turn. -/
theorem refill (covers : Covers managed pfndbLen)
    (kept : Kept managed pfndbLen pmm lists live magazine held) {turns : Nat}
    (room : (magazine core).count + turns ≤ MAG_CAPACITY) :
    (freeFrames lists < turns ∧ (magazine core).refill turns pmm = .error .outOfMemory) ∨
      ∃ after filled lists' live', (magazine core).refill turns pmm = .ok (filled, after) ∧
        Kept managed pfndbLen after lists' live' (Function.update magazine core filled) held ∧
        freeFrames lists = freeFrames lists' + turns := by
  induction turns generalizing pmm lists live magazine with
  | zero =>
      refine Or.inr ⟨pmm, magazine core, lists, live, rfl, ?_, rfl⟩
      rwa [Function.update_eq_self]
  | succ turns ih =>
      rw [Magazine.refill]
      rcases alloc_frame covers kept.holds kept.len_eq kept.notFree with
        ⟨alloc_eq, none_free⟩ | ⟨frame, middle, lists₁, alloc_eq, holds, len_eq, notFree, count_eq⟩
      · refine Or.inl ⟨by omega, ?_⟩
        rw [alloc_eq]
        rfl
      · have lt : (magazine core).count < MAG_CAPACITY := by omega
        obtain ⟨stored, store_eq⟩ := Magazine.store_of_lt (frame * NORMAL_PAGE_SIZE) lt
        have fetched := kept.fetch holds len_eq notFree store_eq
        have stored_count := (Magazine.store_ok store_eq).2.1
        have refill_eq : (pmm.alloc .Normal >>= fun (block, pmm) =>
            match block with
            | none => .error .outOfMemory
            | some addr => do
                let magazine ← (magazine core).store addr
                magazine.refill turns pmm) = stored.refill turns middle := by
          rw [alloc_eq]
          change ((magazine core).store (frame * NORMAL_PAGE_SIZE) >>= fun magazine =>
            magazine.refill turns middle) = _
          rw [store_eq]
          rfl
        have room' : (Function.update magazine core stored core).count + turns ≤ MAG_CAPACITY := by
          rw [Function.update_self, stored_count]
          omega
        have rest := ih fetched room'
        rw [Function.update_self] at rest
        rw [refill_eq]
        rcases rest with
          ⟨short, rest_eq⟩ | ⟨after, filled, lists₂, live₂, rest_eq, done, done_count⟩
        · exact Or.inl ⟨by omega, rest_eq⟩
        · rw [Function.update_idem] at done
          exact Or.inr ⟨after, filled, lists₂, live₂, rest_eq, done, by omega⟩

omit [DecidableEq κ] in
/-- A block handed out by the buddy allocator goes to a caller. -/
theorem grant (kept : Kept managed pfndbLen pmm lists live magazine held) {block : DyadicBlock}
    (holds : Holds managed after lists' (block :: live)) (len_eq : after.pfndbLen = pfndbLen)
    (notFree : HeadsNotFree after (block :: live)) :
    Kept managed pfndbLen after lists' (block :: live) magazine (block :: held) := by
  have fresh := (List.nodup_cons.mp (live_nodup holds)).1
  refine ⟨holds, len_eq, notFree, ?_, kept.count_le, kept.aligned⟩
  exact kept.shares.put none fresh (List.Perm.refl _) fun other ne => shelves_of_ne_none _ _ _ ne

omit [DecidableEq κ] in
/-- An allocation of an order that returns. -/
theorem allocOrder (covers : Covers managed pfndbLen)
    (kept : Kept managed pfndbLen pmm lists live magazine held) {order : Nat} {result : Option Nat}
    (alloc_eq : pmm.allocOrder order = .ok (result, after)) :
    (result = none ∧ after = pmm) ∨ ∃ addr lists' live', result = some addr ∧
      Kept managed pfndbLen after lists' live' magazine
        (⟨addr / NORMAL_PAGE_SIZE, order⟩ :: held) := by
  have order_le : order ≤ ORDER_MAX := by
    by_contra large
    rw [Allocator.allocOrder, if_pos (Nat.lt_of_not_le large)] at alloc_eq
    cases alloc_eq
  rcases alloc_sound covers order_le kept.holds kept.len_eq kept.notFree with
    ⟨none_eq, -⟩ | ⟨base, other, lists', some_eq, holds, len_eq, notFree, -⟩
  · cases alloc_eq.symm.trans none_eq
    exact Or.inl ⟨rfl, rfl⟩
  · cases alloc_eq.symm.trans some_eq
    refine Or.inr ⟨_, lists', ⟨base, order⟩ :: live, rfl, ?_⟩
    rw [mul_page_div]
    exact kept.grant holds len_eq notFree

/-- A single page comes from the magazine, or from a refill that finds half a magazine of frames. -/
theorem alloc (covers : Covers managed pfndbLen)
    (kept : Kept managed pfndbLen pmm lists live magazine held) (core : κ) :
    ((magazine core).count = 0 ∧ freeFrames lists < MAG_CAPACITY / 2 ∧
        (magazine core).alloc pmm = .error .outOfMemory) ∨
      (((magazine core).count = 0 → MAG_CAPACITY / 2 ≤ freeFrames lists) ∧
        ∃ ret filled after lists' live', (magazine core).alloc pmm = .ok (ret, filled, after) ∧
          Kept managed pfndbLen after lists' live' (Function.update magazine core filled)
            (frameBlock ret :: held)) := by
  have capacity : MAG_CAPACITY = 256 := rfl
  rw [Magazine.alloc]
  split
  next positive =>
    obtain ⟨ret, rest, take_eq⟩ := Magazine.take_of_pos positive (kept.count_le core)
    obtain ⟨count_eq, contents_eq⟩ := Magazine.take_ok take_eq
    refine Or.inr ⟨fun empty => by omega, ret, rest.erase, pmm, lists, live, ?_, ?_⟩
    · rw [take_eq]
      rfl
    · refine kept.refit kept.holds kept.len_eq kept.notFree ?_ ?_ fun addr mem => ?_
      · have taken : (shelves magazine held (some core)).Perm
            (frameBlock ret :: shelves (Function.update magazine core rest.erase) held
              (some core)) := by
          rw [shelves_self, Magazine.erase_contents, shelves, contents_eq, List.map_append]
          exact List.perm_append_singleton _ _
        exact kept.shares.pass (live_nodup kept.holds) (some core) none taken
          (fun other ne => shelves_of_ne ne) (List.Perm.refl _)
          fun other ne => shelves_of_ne_none _ _ _ ne
      · have count_le := kept.count_le core
        rw [Magazine.erase_count]
        omega
      · rw [Magazine.erase_contents] at mem
        exact kept.aligned core addr (by rw [contents_eq]; exact List.mem_append_left _ mem)
  next empty =>
    have room : (magazine core).count + (MAG_CAPACITY / 2 - 1) ≤ MAG_CAPACITY := by omega
    rcases kept.refill covers room with
      ⟨short, refill_eq⟩ | ⟨middle, filled, lists₁, live₁, refill_eq, stocked, count_eq⟩
    · refine Or.inl ⟨by omega, by omega, ?_⟩
      rw [refill_eq]
      rfl
    · rw [refill_eq]
      change ((magazine core).count = 0 ∧ freeFrames lists < MAG_CAPACITY / 2 ∧
        (middle.alloc .Normal >>= _) = _) ∨ (_ ∧ ∃ ret filled' after lists' live',
          (middle.alloc .Normal >>= _) = _ ∧ _)
      rcases alloc_frame covers stocked.holds stocked.len_eq stocked.notFree with
        ⟨alloc_eq, none_free⟩ | ⟨frame, after, lists₂, alloc_eq, holds, len_eq, notFree, last_eq⟩
      · refine Or.inl ⟨by omega, by omega, ?_⟩
        rw [alloc_eq]
        rfl
      · refine Or.inr ⟨fun _ => by omega, frame * NORMAL_PAGE_SIZE, filled, after, lists₂,
          ⟨frame, 0⟩ :: live₁, ?_, ?_⟩
        · rw [alloc_eq]
          rfl
        · rw [frameBlock_mul]
          exact stocked.grant holds len_eq notFree

omit [DecidableEq κ] in
/-- A block outside the buddy allocator is freed to the buddy allocator. -/
theorem release (covers : Covers managed pfndbLen)
    (kept : Kept managed pfndbLen pmm lists live magazine held) {base order : Nat}
    (mem : ⟨base, order⟩ ∈ live) :
    ∃ after lists', pmm.freeOrder (base * NORMAL_PAGE_SIZE) order = .ok after ∧
      Holds managed after lists' (live.erase ⟨base, order⟩) ∧ after.pfndbLen = pfndbLen ∧
      HeadsNotFree after (live.erase ⟨base, order⟩) := by
  obtain ⟨next, lists', serve_eq, holds, len_eq, notFree, -⟩ :=
    @serve_spec managed pfndbLen covers ⟨pmm, live⟩ (.free (base * NORMAL_PAGE_SIZE) order) lists
      kept.holds kept.len_eq kept.notFree ⟨Nat.dvd_mul_left _ _, by rwa [mul_page_div]⟩
  obtain ⟨after, free_eq, rest_eq⟩ := bind_eq_ok.mp serve_eq
  obtain rfl := Except.ok.inj rest_eq
  rw [mul_page_div] at holds notFree
  exact ⟨after, lists', free_eq, holds, len_eq, notFree⟩

omit [DecidableEq κ] in
/-- A block of a caller goes back to the buddy allocator. -/
theorem giveBack (covers : Covers managed pfndbLen)
    (kept : Kept managed pfndbLen pmm lists live magazine held) {base order : Nat}
    (mem : ⟨base, order⟩ ∈ held) :
    ∃ after lists' live', pmm.freeOrder (base * NORMAL_PAGE_SIZE) order = .ok after ∧
      Kept managed pfndbLen after lists' live' magazine (held.erase ⟨base, order⟩) := by
  obtain ⟨after, lists', free_eq, holds, len_eq, notFree⟩ :=
    kept.release covers (kept.shares.stocked none _ mem)
  refine ⟨after, lists', _, free_eq, holds, len_eq, notFree, ?_, kept.count_le, kept.aligned⟩
  exact kept.shares.drop none (List.perm_cons_erase mem) fun other ne => shelves_of_ne_none _ _ _ ne

/-- The loop of a flush frees the topmost frames of the magazine. -/
theorem flush (covers : Covers managed pfndbLen)
    (kept : Kept managed pfndbLen pmm lists live magazine held) {turns : Nat}
    (enough : turns ≤ (magazine core).count) :
    ∃ after filled lists' live', (magazine core).flush turns pmm = .ok (filled, after) ∧
      Kept managed pfndbLen after lists' live' (Function.update magazine core filled) held ∧
      filled.count + turns = (magazine core).count := by
  induction turns generalizing pmm lists live magazine with
  | zero =>
      refine ⟨pmm, magazine core, lists, live, rfl, ?_, rfl⟩
      rwa [Function.update_eq_self]
  | succ turns ih =>
      obtain ⟨page, rest, take_eq⟩ := Magazine.take_of_pos (by omega) (kept.count_le core)
      obtain ⟨count_eq, contents_eq⟩ := Magazine.take_ok take_eq
      have stored : page ∈ (magazine core).contents := by simp [contents_eq]
      obtain ⟨frame, rfl⟩ : ∃ frame, page = frame * NORMAL_PAGE_SIZE :=
        ⟨page / NORMAL_PAGE_SIZE, (Nat.div_mul_cancel (kept.aligned core page stored)).symm⟩
      have owned : ⟨frame, 0⟩ ∈ shelves magazine held (some core) := by
        rw [shelves, ← frameBlock_mul]
        exact List.mem_map_of_mem stored
      obtain ⟨middle, lists₁, free_eq, holds, len_eq, notFree⟩ :=
        kept.release covers (kept.shares.stocked _ _ owned)
      have flushed : Kept managed pfndbLen middle lists₁ (live.erase ⟨frame, 0⟩)
          (Function.update magazine core rest) held := by
        have count_le := kept.count_le core
        refine kept.refit holds len_eq notFree ?_ (by omega) fun addr mem => ?_
        · refine kept.shares.drop (some core) ?_ fun other ne => shelves_of_ne ne
          rw [shelves_self, shelves, contents_eq, List.map_append, List.map_singleton,
            frameBlock_mul]
          exact List.perm_append_singleton _ _
        · exact kept.aligned core addr (by rw [contents_eq]; exact List.mem_append_left _ mem)
      have enough' : turns ≤ (Function.update magazine core rest core).count := by
        rw [Function.update_self]
        omega
      obtain ⟨after, filled, lists₂, live₂, flush_eq, done, done_count⟩ := ih flushed enough'
      rw [Function.update_self] at flush_eq done_count
      rw [Function.update_idem] at done
      refine ⟨after, filled, lists₂, live₂, ?_, done, by omega⟩
      rw [Magazine.flush, take_eq]
      change (pmm.freeOrder (frame * NORMAL_PAGE_SIZE) 0 >>= fun pmm => rest.flush turns pmm) = _
      rw [free_eq]
      exact flush_eq

/-- A frame of the callers goes into a magazine that has room. -/
theorem store (kept : Kept managed pfndbLen pmm lists live magazine held) {frame : Nat}
    (mem : ⟨frame, 0⟩ ∈ held)
    (store_eq : (magazine core).store (frame * NORMAL_PAGE_SIZE) = .ok filled) :
    Kept managed pfndbLen pmm lists live (Function.update magazine core filled)
      (held.erase ⟨frame, 0⟩) := by
  obtain ⟨lt, count_eq, contents_eq⟩ := Magazine.store_ok store_eq
  refine kept.refit kept.holds kept.len_eq kept.notFree ?_ (by omega) fun addr addr_mem => ?_
  · have taken : (shelves magazine held none).Perm
        (⟨frame, 0⟩ :: shelves magazine (held.erase ⟨frame, 0⟩) none) := List.perm_cons_erase mem
    refine kept.shares.pass (live_nodup kept.holds) none (some core) taken
      (fun other ne => shelves_of_ne_none _ _ _ ne) ?_ fun other ne => shelves_of_ne ne
    rw [shelves_self, contents_eq, List.map_append, List.map_singleton, frameBlock_mul]
    exact List.perm_append_singleton _ _
  · rw [contents_eq] at addr_mem
    rcases List.mem_append.mp addr_mem with old | new
    · exact kept.aligned core addr old
    · rw [List.mem_singleton.mp new]
      exact Nat.dvd_mul_left _ _

/-- A single page of the callers can be freed. -/
theorem free (covers : Covers managed pfndbLen)
    (kept : Kept managed pfndbLen pmm lists live magazine held) (core : κ) {frame : Nat}
    (mem : ⟨frame, 0⟩ ∈ held) :
    ∃ filled after lists' live',
      (magazine core).free pmm (frame * NORMAL_PAGE_SIZE) = .ok (filled, after) ∧
        Kept managed pfndbLen after lists' live' (Function.update magazine core filled)
          (held.erase ⟨frame, 0⟩) := by
  have capacity : MAG_CAPACITY = 256 := rfl
  rw [Magazine.free]
  split
  next room =>
    obtain ⟨filled, store_eq⟩ := Magazine.store_of_lt (frame * NORMAL_PAGE_SIZE) room
    refine ⟨filled, pmm, lists, live, ?_, kept.store mem store_eq⟩
    rw [store_eq]
    rfl
  next full =>
    have enough : MAG_CAPACITY / 2 ≤ (magazine core).count := by omega
    obtain ⟨middle, emptied, lists₁, live₁, flush_eq, flushed, count_eq⟩ :=
      kept.flush covers enough
    have count_le := kept.count_le core
    have room : emptied.count < MAG_CAPACITY := by omega
    obtain ⟨filled, store_eq⟩ := Magazine.store_of_lt (frame * NORMAL_PAGE_SIZE) room
    have store_eq' : (Function.update magazine core emptied core).store (frame * NORMAL_PAGE_SIZE) =
        .ok filled := by
      rw [Function.update_self]
      exact store_eq
    have stored := flushed.store mem store_eq'
    rw [Function.update_idem] at stored
    refine ⟨filled, middle, lists₁, live₁, ?_, stored⟩
    rw [flush_eq]
    change (emptied.store (frame * NORMAL_PAGE_SIZE) >>= _) = _
    rw [store_eq]
    rfl

end Kept

/-! ## Runs -/

/-- The allocator with the blocks that its callers hold. -/
structure Served (κ : Type) where
  memory : PCAllocator κ
  held : List DyadicBlock

/-- Calls of the allocator, and writes to memory by its callers. -/
inductive Request (κ : Type)
  | alloc (core : κ) (size : BlockSize)
  | allocOrder (order : Nat)
  | free (core : κ) (addr : Nat) (size : BlockSize)
  | freeOrder (addr order : Nat)
  | store (addr : Nat) (words : FreeBlock)

/-- One request. -/
def serve (state : Served κ) : Request κ → Kernel (Served κ)
  | .alloc core size => do
      let (addr, memory) ← state.memory.alloc core size
      return ⟨memory, ⟨addr / NORMAL_PAGE_SIZE, sizeOrder size⟩ :: state.held⟩
  | .allocOrder order => do
      let (block, memory) ← state.memory.allocOrder order
      match block with
      | none => return { state with memory }
      | some addr => return ⟨memory, ⟨addr / NORMAL_PAGE_SIZE, order⟩ :: state.held⟩
  | .free core addr size => do
      let memory ← state.memory.free core addr size
      return ⟨memory, state.held.erase ⟨addr / NORMAL_PAGE_SIZE, sizeOrder size⟩⟩
  | .freeOrder addr order => do
      let memory ← state.memory.freeOrder addr order
      return ⟨memory, state.held.erase ⟨addr / NORMAL_PAGE_SIZE, order⟩⟩
  | .store addr words =>
      return { state with memory.pmm := state.memory.pmm.setBlock addr words }

/-- Callers free the blocks they hold, with their size, and write to these only. -/
def Permitted (state : Served κ) : Request κ → Prop
  | .free _ addr size =>
      NORMAL_PAGE_SIZE ∣ addr ∧
        (⟨addr / NORMAL_PAGE_SIZE, sizeOrder size⟩ : DyadicBlock) ∈ state.held
  | .freeOrder addr order =>
      NORMAL_PAGE_SIZE ∣ addr ∧ (⟨addr / NORMAL_PAGE_SIZE, order⟩ : DyadicBlock) ∈ state.held
  | .store addr _ => ∃ block ∈ state.held, block.Covers (addr / NORMAL_PAGE_SIZE)
  | _ => True

/-- The allocator serving requests. -/
def serving (κ : Type) [DecidableEq κ] : Machine (Served κ) (Request κ) Panic where
  step := serve
  permitted := Permitted

/-- Some listing and some live blocks show the state to be sound. -/
def Served.Sound (managed : Set Nat) (pfndbLen : Nat) (state : Served κ) : Prop :=
  ∃ lists live,
    Kept managed pfndbLen state.memory.pmm lists live state.memory.magazine state.held

/-- What every permitted request that returns keeps. -/
theorem Served.Sound.serve {managed : Set Nat} {pfndbLen : Nat}
    (covers : Covers managed pfndbLen) (state : Served κ) (request : Request κ) (next : Served κ)
    (sound : state.Sound managed pfndbLen) (permitted : Permitted state request)
    (serve_eq : serve state request = .ok next) :
    next.Sound managed pfndbLen := by
  obtain ⟨lists, live, kept⟩ := sound
  cases request with
  | alloc core size =>
      obtain ⟨⟨addr, memory⟩, alloc_eq, rest_eq⟩ := bind_eq_ok.mp serve_eq
      obtain rfl := Except.ok.inj rest_eq
      cases size with
      | Huge =>
          obtain ⟨⟨block, pmm⟩, huge_eq, rest_eq⟩ := bind_eq_ok.mp alloc_eq
          rcases kept.allocOrder covers huge_eq with
            ⟨rfl, -⟩ | ⟨addr', lists', live', rfl, granted⟩
          · cases rest_eq
          · cases rest_eq
            exact ⟨lists', live', granted⟩
      | Normal =>
          obtain ⟨⟨ret, magazine, pmm⟩, normal_eq, rest_eq⟩ := bind_eq_ok.mp alloc_eq
          cases rest_eq
          rcases kept.alloc covers core with
            ⟨-, -, error_eq⟩ | ⟨-, ret', filled, after, lists', live', ok_eq, granted⟩
          · cases normal_eq.symm.trans error_eq
          · cases normal_eq.symm.trans ok_eq
            exact ⟨lists', live', granted⟩
  | allocOrder order =>
      obtain ⟨⟨block, memory⟩, alloc_eq, rest_eq⟩ := bind_eq_ok.mp serve_eq
      obtain ⟨⟨result, pmm⟩, order_eq, done⟩ := bind_eq_ok.mp alloc_eq
      cases done
      rcases kept.allocOrder covers order_eq with
        ⟨rfl, rfl⟩ | ⟨addr, lists', live', rfl, granted⟩
      · cases rest_eq
        exact ⟨lists, live, kept⟩
      · cases rest_eq
        exact ⟨lists', live', granted⟩
  | free core addr size =>
      obtain ⟨page, mem⟩ := permitted
      obtain ⟨base, rfl⟩ : ∃ base, addr = base * NORMAL_PAGE_SIZE :=
        ⟨addr / NORMAL_PAGE_SIZE, (Nat.div_mul_cancel page).symm⟩
      obtain ⟨memory, free_eq, rest_eq⟩ := bind_eq_ok.mp serve_eq
      obtain rfl := Except.ok.inj rest_eq
      rw [mul_page_div] at mem ⊢
      cases size with
      | Huge =>
          obtain ⟨pmm, huge_eq, done⟩ := bind_eq_ok.mp free_eq
          cases done
          obtain ⟨after, lists', live', ok_eq, given⟩ := kept.giveBack covers mem
          cases huge_eq.symm.trans ok_eq
          exact ⟨lists', live', given⟩
      | Normal =>
          obtain ⟨⟨magazine, pmm⟩, normal_eq, done⟩ := bind_eq_ok.mp free_eq
          cases done
          obtain ⟨filled, after, lists', live', ok_eq, given⟩ := kept.free covers core mem
          cases normal_eq.symm.trans ok_eq
          exact ⟨lists', live', given⟩
  | freeOrder addr order =>
      obtain ⟨page, mem⟩ := permitted
      obtain ⟨base, rfl⟩ : ∃ base, addr = base * NORMAL_PAGE_SIZE :=
        ⟨addr / NORMAL_PAGE_SIZE, (Nat.div_mul_cancel page).symm⟩
      obtain ⟨memory, free_eq, rest_eq⟩ := bind_eq_ok.mp serve_eq
      obtain rfl := Except.ok.inj rest_eq
      obtain ⟨pmm, order_eq, done⟩ := bind_eq_ok.mp free_eq
      cases done
      rw [mul_page_div] at mem ⊢
      obtain ⟨after, lists', live', ok_eq, given⟩ := kept.giveBack covers mem
      cases order_eq.symm.trans ok_eq
      exact ⟨lists', live', given⟩
  | store addr words =>
      obtain ⟨block, mem, covered⟩ := permitted
      cases serve_eq
      have served := @serve_spec managed pfndbLen covers ⟨state.memory.pmm, live⟩
        (.store addr words) lists kept.holds kept.len_eq kept.notFree
        ⟨block, kept.shares.stocked none block mem, covered⟩
      obtain ⟨stored, lists', store_eq, holds, len_eq, notFree, -⟩ := served
      cases store_eq
      exact ⟨lists', live, holds, len_eq, notFree, kept.shares, kept.count_le, kept.aligned⟩

/-- When a single page is refused. -/
theorem Kept.alloc_fails_iff {managed : Set Nat} {pfndbLen : Nat} {lists : Nat → List Nat}
    {live held : List DyadicBlock} {memory : PCAllocator κ} (covers : Covers managed pfndbLen)
    (kept : Kept managed pfndbLen memory.pmm lists live memory.magazine held) (core : κ) :
    memory.alloc core .Normal = .error .outOfMemory ↔
      (memory.magazine core).count = 0 ∧ freeFrames lists < MAG_CAPACITY / 2 := by
  rw [PCAllocator.alloc]
  rcases kept.alloc covers core with
    ⟨empty, short, error_eq⟩ | ⟨enough, ret, filled, after, lists', live', ok_eq, -⟩
  · rw [error_eq]
    exact iff_of_true rfl ⟨empty, short⟩
  · rw [ok_eq]
    exact iff_of_false nofun fun ⟨empty, short⟩ => absurd (enough empty) (Nat.not_le.mpr short)

/-- Before the first request. -/
def boot (pmm : Allocator) : Served κ := ⟨⟨pmm, fun _ => .init⟩, []⟩

omit [DecidableEq κ] in
/-- At boot nothing is held and the magazines are empty. -/
theorem Kept.boot {managed : Set Nat} {pfndbLen : Nat} {pmm : Allocator} {lists : Nat → List Nat}
    (holds : Holds managed pmm lists []) (len_eq : pmm.pfndbLen = pfndbLen) :
    Kept managed pfndbLen pmm lists [] (fun _ : κ => .init) [] := by
  have empty (shelf : Option κ) : shelves (fun _ => Magazine.init) [] shelf = [] := by
    cases shelf with
    | none => rfl
    | some core => rfl
  refine ⟨holds, len_eq, fun block mem => absurd mem List.not_mem_nil, ?_, fun core => ?_, ?_⟩
  · refine ⟨fun shelf => ?_, fun shelf item mem => ?_, fun item left right mem => ?_⟩
    · rw [empty]
      exact List.nodup_nil
    · rw [empty] at mem
      cases mem
    · rw [empty] at mem
      cases mem
  · exact Nat.zero_le _
  · exact fun core addr mem => absurd mem List.not_mem_nil

/-- A single page is refused only when the magazine of the core is empty and no frame is free. -/
def FailsOnlyExhausted (memory : PCAllocator κ) (lists : Nat → List Nat) (core : κ) : Prop :=
  memory.alloc core .Normal = .error .outOfMemory →
    (memory.magazine core).count = 0 ∧ freeFrames lists = 0

/-- In every state that is reached, single pages fail only for want of frames exactly on the cores
whose magazine is not empty, unless no frame or at least half a magazine of frames is free. -/
theorem fails_only_exhausted_iff (memory : Nat → FreeBlock) {pfndbLen totalFrames : Nat}
    {isFree : Nat → Bool}
    (covers : Covers {frame | frame < totalFrames ∧ isFree frame = true} pfndbLen) :
    ∃ pmm, init memory pfndbLen isFree totalFrames = .ok pmm ∧
      ∀ requests final, (serving κ).Permits (boot pmm) requests →
        (serving κ).run (boot pmm) requests = .ok final →
        ∃ lists live, BuddyInvariant {frame | frame < totalFrames ∧ isFree frame = true}
            ⟨final.memory.pmm, live⟩ lists ∧
          ∀ core, FailsOnlyExhausted final.memory lists core ↔
            0 < (final.memory.magazine core).count ∨ freeFrames lists = 0 ∨
              MAG_CAPACITY / 2 ≤ freeFrames lists := by
  obtain ⟨pmm, lists₀, init_eq, holds, len_eq, -⟩ := init_spec memory covers
  refine ⟨pmm, init_eq, fun requests final permits run_eq => ?_⟩
  have start : (boot pmm : Served κ).Sound {frame | frame < totalFrames ∧ isFree frame = true}
      pfndbLen :=
    ⟨lists₀, [], .boot holds len_eq⟩
  obtain ⟨lists, live, kept⟩ :=
    (serving κ).run_keeps (Served.Sound.serve covers) start permits run_eq
  refine ⟨lists, live, kept.holds.buddyInvariant, fun core => ?_⟩
  rw [FailsOnlyExhausted, kept.alloc_fails_iff covers core]
  omega

/-- Two frames are free, and the first allocation of a single page fails. -/
theorem fails_with_free_frames :
    ∃ pmm lists, init (fun _ => ⟨0, 0⟩) 4 (fun frame => frame == 2 || frame == 3) 4 = .ok pmm ∧
      BuddyInvariant {frame | frame < 4 ∧ (frame == 2 || frame == 3) = true} ⟨pmm, []⟩ lists ∧
      freeFrames lists = 2 ∧
      (boot pmm : Served Unit).memory.alloc () .Normal = .error .outOfMemory := by
  obtain ⟨pmm, lists, init_eq, holds, len_eq, -⟩ :=
    init_spec (fun _ => ⟨0, 0⟩) two_frames_covers
  refine ⟨pmm, lists, init_eq, holds.buddyInvariant, ?_, ?_⟩
  · have tiles : Tiles [⟨2, 1⟩] {frame | frame < 4 ∧ (frame == 2 || frame == 3) = true} := by
      refine .of_pairwise (List.pairwise_singleton _ _) fun frame => ?_
      simp only [Set.mem_ofPred_eq, List.mem_singleton, exists_eq_left, DyadicBlock.Covers]
      simp
      omega
    have same := holds.tiles.total_eq tiles two_frames_covers.frame_lt
    rw [List.append_nil] at same
    exact same
  · cases init_eq
    rfl

/-- Two frames, one of them handed out. -/
theorem fails_only_exhausted_two_frames :
    ∃ pmm, init (fun _ => ⟨0, 0⟩) 4 (fun frame => frame == 2 || frame == 3) 4 = .ok pmm ∧
      ∃ final, (serving Unit).run (boot pmm) [.allocOrder 0] = .ok final ∧
        ∃ lists live, BuddyInvariant {frame | frame < 4 ∧ (frame == 2 || frame == 3) = true}
            ⟨final.memory.pmm, live⟩ lists ∧
          ∀ core, FailsOnlyExhausted final.memory lists core ↔
            0 < (final.memory.magazine core).count ∨ freeFrames lists = 0 ∨
              MAG_CAPACITY / 2 ≤ freeFrames lists := by
  obtain ⟨pmm, init_eq, reached⟩ :=
    @fails_only_exhausted_iff Unit _ (fun _ => ⟨0, 0⟩) _ _ _ two_frames_covers
  refine ⟨pmm, init_eq, ?_⟩
  cases init_eq
  exact ⟨_, rfl, reached [.allocOrder 0] _ ⟨trivial, fun _ _ => trivial⟩ rfl⟩

/-! ## One owner for each frame -/

/-- Blocks of callers, pages in magazines and listed blocks share no frame. -/
structure Exclusive (managed : Set Nat) (state : Served κ) (lists : Nat → List Nat) : Prop where
  /-- Nobody has a block twice. -/
  nodup : ∀ shelf, (shelves state.memory.magazine state.held shelf).Nodup
  /-- Different blocks are apart, and no block is on two shelves. -/
  apart : ∀ left right, ∀ block ∈ shelves state.memory.magazine state.held left,
    ∀ other ∈ shelves state.memory.magazine state.held right,
      left = right ∧ block = other ∨ Apart block other
  /-- What is on a shelf is not free. -/
  unlisted : ∀ shelf, ∀ block ∈ shelves state.memory.magazine state.held shelf,
    ∀ free ∈ freeBlocks lists, Apart free block
  /-- Only managed frames are handed out. -/
  owned : ∀ shelf, ∀ block ∈ shelves state.memory.magazine state.held shelf,
    ∀ frame, block.Covers frame → frame ∈ managed

omit [DecidableEq κ] in
theorem Kept.exclusive {managed : Set Nat} {pfndbLen : Nat} {lists : Nat → List Nat}
    {live : List DyadicBlock} {state : Served κ}
    (kept : Kept managed pfndbLen state.memory.pmm lists live state.memory.magazine state.held) :
    Exclusive managed state lists := by
  have pairwise := List.pairwise_append.mp kept.holds.tiles.pairwise_apart
  have symmetric : Std.Symm Apart := ⟨fun _ _ apart number both => apart number both.symm⟩
  refine ⟨kept.shares.nodup, fun left right block mem other other_mem => ?_,
    fun shelf block mem free free_mem => ?_, fun shelf block mem frame covers => ?_⟩
  · have live_mem := kept.shares.stocked left block mem
    have other_live := kept.shares.stocked right other other_mem
    by_cases same : block = other
    · subst same
      exact .inl ⟨kept.shares.apart block left right mem other_mem, rfl⟩
    · exact .inr (pairwise.2.1.forall live_mem other_live same)
  · exact pairwise.2.2 free free_mem block (kept.shares.stocked shelf block mem)
  · exact kept.holds.managed_of_covers (kept.shares.stocked shelf block mem) covers

/-- In every run from boot in which callers free and write only what they hold, whatever the sizes,
orders and cores, the free lists stay sound and no frame has two owners. -/
theorem page_allocator_exclusive (memory : Nat → FreeBlock) {pfndbLen totalFrames : Nat}
    {isFree : Nat → Bool}
    (covers : Covers {frame | frame < totalFrames ∧ isFree frame = true} pfndbLen) :
    ∃ pmm, init memory pfndbLen isFree totalFrames = .ok pmm ∧
      ∀ requests final, (serving κ).Permits (boot pmm) requests →
        (serving κ).run (boot pmm) requests = .ok final →
        ∃ lists live, BuddyInvariant {frame | frame < totalFrames ∧ isFree frame = true}
            ⟨final.memory.pmm, live⟩ lists ∧
          Exclusive {frame | frame < totalFrames ∧ isFree frame = true} final lists := by
  obtain ⟨pmm, lists₀, init_eq, holds, len_eq, -⟩ := init_spec memory covers
  refine ⟨pmm, init_eq, fun requests final permits run_eq => ?_⟩
  obtain ⟨lists, live, kept⟩ := (serving κ).run_keeps (Served.Sound.serve covers)
    ⟨lists₀, [], .boot holds len_eq⟩ permits run_eq
  exact ⟨lists, live, kept.holds.buddyInvariant, kept.exclusive⟩

/-- Two frames, handed out one after the other. -/
theorem page_allocator_exclusive_two_frames :
    ∃ pmm, init (fun _ => ⟨0, 0⟩) 4 (fun frame => frame == 2 || frame == 3) 4 = .ok pmm ∧
      ∃ final, (serving Unit).run (boot pmm) [.allocOrder 0, .allocOrder 0] = .ok final ∧
        final.held = [⟨3, 0⟩, ⟨2, 0⟩] ∧
        ∃ lists, Exclusive {frame | frame < 4 ∧ (frame == 2 || frame == 3) = true} final lists := by
  obtain ⟨pmm, init_eq, reached⟩ :=
    @page_allocator_exclusive Unit _ (fun _ => ⟨0, 0⟩) _ _ _ two_frames_covers
  refine ⟨pmm, init_eq, ?_⟩
  cases init_eq
  obtain ⟨lists, live, -, exclusive⟩ := reached [.allocOrder 0, .allocOrder 0] _
    (Machine.permits_of_mem _ _ (by simp [serving, Permitted])) rfl
  exact ⟨_, rfl, rfl, lists, exclusive⟩

end Vespertine.Magazines
