import Vespertine.Memory.Invalidation
import Vespertine.Memory.KernelHalf

/-!
# Unmapping an area, exactly

The two loops of `munmap` share one cursor: the inner one stops at the end of the area or with 64
frames in hand.  Whatever pages of the area are present, the loops together clear each of them once,
from the lowest to the highest, and free the frame of each if the area is anonymous.
-/

namespace Vespertine

/-- The pages present among `count` pages from an address on, with their frames. -/
def presentFrom (space : AddressSpace) (block : BlockSize) : (count addr : Nat) → List (Nat × Nat)
  | 0, _ => []
  | count + 1, addr =>
      ((space block (addr / block.bytes)).map (addr, ·)).toList ++
        presentFrom space block count (addr + block.bytes)

/-- A map without the pages of a range. -/
def AddressSpace.cut (space : AddressSpace) (block : BlockSize) (start stop : Nat) : AddressSpace :=
  fun size page =>
    if size = block ∧ start ≤ page * block.bytes ∧ page * block.bytes < stop then
      none
    else
      space size page

/-- The page an effect clears. -/
def Effect.unmapped : Effect → Option (Nat × BlockSize)
  | .unmapPage virt size => some (virt, size)
  | _ => none

/-- The frame an effect frees. -/
def Effect.freed : Effect → Option (Nat × BlockSize)
  | .free addr size => some (addr, size)
  | _ => none

section Present

variable {space : AddressSpace} {block : BlockSize}

theorem presentFrom_add (front back addr : Nat) :
    presentFrom space block (front + back) addr =
      presentFrom space block front addr ++
        presentFrom space block back (addr + front * block.bytes) := by
  induction front generalizing addr with
  | zero => simp [presentFrom]
  | succ front ih =>
      rw [Nat.succ_add, presentFrom, presentFrom, ih, List.append_assoc, Nat.succ_mul,
        Nat.add_assoc addr, Nat.add_comm block.bytes]

theorem mem_presentFrom {count addr page phys : Nat} :
    (page, phys) ∈ presentFrom space block count addr ↔
      (∃ index < count, page = addr + index * block.bytes) ∧
        space block (page / block.bytes) = some phys := by
  induction count generalizing addr with
  | zero => simp [presentFrom]
  | succ count ih =>
      rw [presentFrom, List.mem_append, ih, Option.mem_toList, Option.map_eq_some_iff]
      constructor
      · rintro (⟨found, stored, pair_eq⟩ | ⟨⟨index, lt, page_eq⟩, stored⟩)
        · cases pair_eq
          exact ⟨⟨0, Nat.succ_pos _, by simp⟩, stored⟩
        · refine ⟨⟨index + 1, Nat.succ_lt_succ lt, ?_⟩, stored⟩
          rw [page_eq, Nat.succ_mul]
          omega
      · rintro ⟨⟨index, lt, page_eq⟩, stored⟩
        cases index with
        | zero =>
            obtain rfl : page = addr := by simpa using page_eq
            exact .inl ⟨phys, stored, rfl⟩
        | succ index =>
            refine .inr ⟨⟨index, Nat.lt_of_succ_lt_succ lt, ?_⟩, stored⟩
            rw [page_eq, Nat.succ_mul]
            omega

/-- No page is listed twice. -/
theorem presentFrom_nodup (count addr : Nat) :
    ((presentFrom space block count addr).map Prod.fst).Nodup := by
  induction count generalizing addr with
  | zero => exact List.nodup_nil
  | succ count ih =>
      rw [presentFrom, List.map_append]
      refine List.nodup_append.mpr ⟨?_, ih _, ?_⟩
      · cases space block (addr / block.bytes) <;> simp
      · rintro page here other later rfl
        obtain ⟨⟨_, phys⟩, mem, rfl⟩ := List.mem_map.mp later
        obtain ⟨⟨index, -, page_eq⟩, -⟩ := mem_presentFrom.mp mem
        have positive := bytes_pos block
        obtain ⟨⟨_, other⟩, here, same⟩ := List.mem_map.mp here
        obtain ⟨found, -, pair_eq⟩ := Option.map_eq_some_iff.mp (Option.mem_toList.mp here)
        cases pair_eq
        dsimp only at page_eq same
        omega

theorem cut_self (start : Nat) : space.cut block start start = space := by
  funext size page
  rw [AddressSpace.cut, if_neg]
  rintro ⟨-, ge, lt⟩
  omega

/-- Clearing the next page of a range. -/
theorem cut_set {start stop : Nat} (aligned : block.bytes ∣ stop) (le : start ≤ stop) :
    (space.cut block start stop).set block (stop / block.bytes) none =
      space.cut block start (stop + block.bytes) := by
  have positive := bytes_pos block
  have base := Nat.div_mul_cancel aligned
  funext size page
  rw [AddressSpace.set, AddressSpace.cut, AddressSpace.cut]
  by_cases same : size = block
  · subst same
    by_cases here : page = stop / size.bytes
    · rw [if_pos ⟨rfl, here⟩, if_pos]
      rw [here, base]
      exact ⟨rfl, le, by omega⟩
    · rw [if_neg fun both => here both.2]
      congr 1
      refine propext (and_congr_right fun _ => and_congr_right fun _ => ?_)
      constructor
      · intro lt
        omega
      · intro lt
        by_contra! ge
        exact here (VirtMemManager.page_unique positive aligned ge lt)
  · rw [if_neg fun both => same both.1, if_neg fun both => same both.1,
      if_neg fun both => same both.1]

theorem cut_behind {size : BlockSize} {start stop page : Nat} (ge : stop ≤ page * block.bytes) :
    space.cut block start stop size page = space size page :=
  if_neg fun inside => absurd inside.2.2 (Nat.not_lt.mpr ge)

theorem cut_other {size : BlockSize} (ne : size ≠ block) (start stop page : Nat) :
    space.cut block start stop size page = space size page := if_neg fun inside => ne inside.1

end Present

namespace VirtMemManager

open UserTree

/-- How far an area is cleared, from its start on. -/
structure Cleared (before : Tables) (l4Addr : Nat) (space : AddressSpace) (block : BlockSize)
    (start : Nat) (batch : Batch) : Prop where
  /-- The tables store all pages but the cleared ones. -/
  represents : Represents batch.tables l4Addr (space.cut block start batch.currentPage)
  aligned : block.bytes ∣ batch.currentPage
  start_le : start ≤ batch.currentPage
  /-- The user half has the tables it had, and nothing outside it was written. -/
  grown : Grown before batch.tables l4Addr []

/-- A batch moved over a number of pages. -/
structure Advance (space : AddressSpace) (block : BlockSize) (done : Nat) (batch after : Batch) :
    Prop where
  page_eq : after.currentPage = batch.currentPage + done * block.bytes
  /-- It collected the frames of the present pages. -/
  frames_eq : after.physBatch =
    batch.physBatch ++ (presentFrom space block done batch.currentPage).map Prod.snd
  /-- It cleared the present pages. -/
  effects_eq : after.effects = batch.effects ++
    (presentFrom space block done batch.currentPage).map fun page => .unmapPage page.1 block

section Clearing

variable {before : Tables} {l4Addr start : Nat} {space : AddressSpace} {block : BlockSize}
  {batch : Batch}

theorem Advance.refl (batch : Batch) : Advance space block 0 batch batch :=
  ⟨by simp, by simp [presentFrom], by simp [presentFrom]⟩

theorem Advance.trans {front back : Nat} {middle after : Batch}
    (first : Advance space block front batch middle)
    (second : Advance space block back middle after) :
    Advance space block (front + back) batch after := by
  refine ⟨?_, ?_, ?_⟩
  · rw [second.page_eq, first.page_eq, Nat.add_assoc, Nat.add_mul]
  · rw [second.frames_eq, first.frames_eq, first.page_eq, presentFrom_add, List.map_append,
      List.append_assoc]
  · rw [second.effects_eq, first.effects_eq, first.page_eq, presentFrom_add, List.map_append,
      List.append_assoc]

/-- One page of the loop: it is looked up, and cleared if present. -/
theorem Cleared.unmapOne (cleared : Cleared before l4Addr space block start batch)
    (user : batch.currentPage < USER_END)
    (alone : ∀ size ≠ block, space size (batch.currentPage / size.bytes) = none) :
    ∃ one, VirtMemManager.unmapOne l4Addr block batch = .ok one ∧
      one.currentPage = batch.currentPage ∧
      Advance space block 1 batch { one with currentPage := batch.currentPage + block.bytes } ∧
      Cleared before l4Addr space block start
        { one with currentPage := batch.currentPage + block.bytes } := by
  have base := Nat.div_mul_cancel cleared.aligned
  have further : block.bytes ∣ batch.currentPage + block.bytes :=
    Nat.dvd_add cleared.aligned (dvd_refl _)
  have start_le := cleared.start_le.trans (Nat.le_add_right _ block.bytes)
  have here : space.cut block start batch.currentPage block (batch.currentPage / block.bytes) =
      space block (batch.currentPage / block.bytes) := cut_behind (le_of_eq base.symm)
  have cut_eq := @cut_set space block _ _ cleared.aligned cleared.start_le
  have found := unmapOne_cases cleared.represents cleared.aligned user fun size ne => by
    rw [cut_other ne]
    exact alone size ne
  rw [here] at found
  rcases found with ⟨vacant, one_eq⟩ | ⟨phys, stored, one_eq, represents⟩
  · have same : (space.cut block start batch.currentPage).set block
        (batch.currentPage / block.bytes) none = space.cut block start batch.currentPage :=
      AddressSpace.set_same (here.trans vacant)
    refine ⟨batch, one_eq, rfl, ⟨by simp, ?_, ?_⟩,
      ⟨?_, further, start_le, cleared.grown⟩⟩
    · simp [presentFrom, vacant]
    · simp [presentFrom, vacant]
    · rw [← cut_eq, same]
      exact cleared.represents
  · have grown := cleared.represents.grown_unmapPage user (here.trans stored)
    refine ⟨_, one_eq, rfl, ⟨by simp, ?_, ?_⟩,
      ⟨?_, further, start_le, cleared.grown.trans grown⟩⟩
    · simp [presentFrom, stored]
    · simp [presentFrom, stored]
    · rw [← cut_eq]
      exact represents

theorem Cleared.restart (cleared : Cleared before l4Addr space block start batch)
    (physBatch : List Nat) (effects : List Effect) :
    Cleared before l4Addr space block start { batch with physBatch, effects } :=
  ⟨cleared.represents, cleared.aligned, cleared.start_le, cleared.grown⟩

/-- The inner loop clears the pages it passes, and passes some unless the batch is full. -/
theorem Cleared.unmapBatch {endPage count fuel : Nat} (user : endPage ≤ USER_END)
    (alone : ∀ addr, start ≤ addr → addr < endPage → ∀ size ≠ block,
      space size (addr / size.bytes) = none)
    (cleared : Cleared before l4Addr space block start batch)
    (end_eq : batch.currentPage + count * block.bytes = endPage) (enough : count ≤ fuel) :
    ∃ done after,
      VirtMemManager.unmapBatch l4Addr endPage block.bytes block fuel batch = .ok after ∧
      done ≤ count ∧ Advance space block done batch after ∧
      Cleared before l4Addr space block start after ∧
      (0 < count → batch.physBatch.length < BATCH_SIZE → 0 < done) := by
  have positive := bytes_pos block
  induction fuel generalizing batch count with
  | zero =>
      obtain rfl : count = 0 := Nat.le_zero.mp enough
      have stop : ¬(batch.currentPage < endPage ∧ batch.physBatch.length < BATCH_SIZE) := by omega
      exact ⟨0, batch, by rw [VirtMemManager.unmapBatch, if_neg stop], le_rfl, .refl batch, cleared,
        fun lt => absurd lt (lt_irrefl 0)⟩
  | succ fuel ih =>
      rw [VirtMemManager.unmapBatch]
      split
      next continues =>
        obtain ⟨count, rfl⟩ : ∃ less, count = less + 1 := by
          refine Nat.exists_eq_succ_of_ne_zero fun none_left => ?_
          rw [none_left] at end_eq
          omega
        have lt := continues.1
        obtain ⟨one, one_eq, page_eq, first, advanced⟩ :=
          cleared.unmapOne (lt.trans_le user) (alone _ cleared.start_le lt)
        have moved : wrappingAdd one.currentPage block.bytes = batch.currentPage + block.bytes := by
          rw [page_eq]
          exact wrappingAdd_page (lt.trans_le user) block
        obtain ⟨done, after, rest_eq, done_le, rest, final, -⟩ := ih advanced
          (show batch.currentPage + block.bytes + count * block.bytes = endPage by
            rw [Nat.succ_mul] at end_eq
            omega)
          (Nat.le_of_succ_le_succ enough)
        refine ⟨1 + done, after, ?_, by omega, first.trans rest, final, fun _ _ => by omega⟩
        rw [one_eq, ← rest_eq, ← moved]
        rfl
      next stop =>
        refine ⟨0, batch, rfl, Nat.zero_le _, .refl batch, cleared, fun left small => ?_⟩
        have ahead : 0 < count * block.bytes := Nat.mul_pos left positive
        exact absurd ⟨by omega, small⟩ stop

theorem filterMap_unmapPage (pages : List (Nat × Nat)) :
    (pages.map fun page => Effect.unmapPage page.1 block).filterMap Effect.unmapped =
        pages.map (·.1, block) ∧
      (pages.map fun page => Effect.unmapPage page.1 block).filterMap Effect.freed = [] := by
  induction pages with
  | nil => exact ⟨rfl, rfl⟩
  | cons page rest ih => exact ⟨congrArg _ ih.1, ih.2⟩

theorem filterMap_free (frames : List Nat) :
    (frames.map (Effect.free · block)).filterMap Effect.unmapped = [] ∧
      (frames.map (Effect.free · block)).filterMap Effect.freed = frames.map (·, block) := by
  induction frames with
  | nil => exact ⟨rfl, rfl⟩
  | cons frame rest ih => exact ⟨ih.1, congrArg _ ih.2⟩

/-- A batch ends with its frames freed, if the area is anonymous. -/
theorem filterMap_batchEnd (batchStart : Nat) (anonymous : Bool) (batch : Batch) :
    (batchEnd batchStart block anonymous batch).filterMap Effect.unmapped = [] ∧
      (batchEnd batchStart block anonymous batch).filterMap Effect.freed =
        if anonymous then batch.physBatch.map (·, block) else [] := by
  rw [batchEnd]
  split
  next =>
    cases anonymous with
    | false => exact ⟨rfl, rfl⟩
    | true => exact filterMap_free batch.physBatch
  next none_left =>
    have empty : batch.physBatch = [] := List.eq_nil_of_length_eq_zero (by omega)
    cases anonymous <;> simp [empty]

/-- Both loops clear the present pages of the range, each once, and free the frames of an anonymous
area. -/
theorem Cleared.unmapPages {endPage pages count fuel : Nat} {anonymous : Bool}
    (user : endPage ≤ USER_END)
    (alone : ∀ addr, start ≤ addr → addr < endPage → ∀ size ≠ block,
      space size (addr / size.bytes) = none)
    (cleared : Cleared before l4Addr space block start batch)
    (end_eq : batch.currentPage + count * block.bytes = endPage) (enough : count ≤ fuel)
    (enough_pages : count ≤ pages) :
    ∃ after trace, VirtMemManager.unmapPages l4Addr endPage block.bytes pages block anonymous fuel
        batch = .ok after ∧
      after.effects = batch.effects ++ trace ∧
      trace.filterMap Effect.unmapped =
        (presentFrom space block count batch.currentPage).map (·.1, block) ∧
      trace.filterMap Effect.freed =
        (if anonymous then (presentFrom space block count batch.currentPage).map (·.2, block)
          else []) ∧
      after.currentPage = endPage ∧ Cleared before l4Addr space block start after := by
  have positive := bytes_pos block
  induction fuel generalizing batch count with
  | zero =>
      obtain rfl : count = 0 := Nat.le_zero.mp enough
      refine ⟨batch, [], ?_, by simp, by simp [presentFrom], by simp [presentFrom], by omega,
        cleared⟩
      rw [VirtMemManager.unmapPages, if_neg (by omega)]
  | succ fuel ih =>
      rw [VirtMemManager.unmapPages]
      split
      next continues =>
        have left : 0 < count := by
          refine Nat.pos_of_ne_zero fun none_left => ?_
          rw [none_left] at end_eq
          omega
        obtain ⟨done, next, batch_eq, done_le, advance, reached, moves⟩ :=
          (cleared.restart [] batch.effects).unmapBatch user alone end_eq enough_pages
        have some_done := moves left (by simp [BATCH_SIZE])
        obtain ⟨rest, rfl⟩ : ∃ rest, count = done + rest := ⟨count - done, by omega⟩
        have frames_eq := advance.frames_eq
        have effects_eq := advance.effects_eq
        have page_eq := advance.page_eq
        dsimp only at frames_eq effects_eq page_eq
        rw [List.nil_append] at frames_eq
        obtain ⟨after, trace, after_eq, trace_eq, unmapped_eq, freed_eq, final_eq, final⟩ :=
          ih (reached.restart next.physBatch
              (next.effects ++ batchEnd batch.currentPage block anonymous next))
            (show next.currentPage + rest * block.bytes = endPage by
              rw [page_eq, Nat.add_assoc, ← Nat.add_mul]
              exact end_eq)
            (by omega) (by omega)
        obtain ⟨end_unmapped, end_freed⟩ :=
          @filterMap_batchEnd block batch.currentPage anonymous next
        dsimp only at trace_eq unmapped_eq freed_eq
        refine ⟨after, (presentFrom space block done batch.currentPage).map
            (fun page => .unmapPage page.1 block) ++
          batchEnd batch.currentPage block anonymous next ++ trace, ?_, ?_, ?_, ?_, final_eq, final⟩
        · rw [batch_eq, ← after_eq, ← finishBatch_eq]
          rfl
        · rw [trace_eq, effects_eq]
          simp only [List.append_assoc]
        · rw [List.filterMap_append, List.filterMap_append, end_unmapped, unmapped_eq, page_eq,
            presentFrom_add, List.map_append, List.append_nil, (filterMap_unmapPage _).1]
        · rw [List.filterMap_append, List.filterMap_append, end_freed, freed_eq, page_eq, frames_eq,
            presentFrom_add, (filterMap_unmapPage _).2]
          cases anonymous <;> simp
      next stop =>
        obtain rfl : count = 0 := by
          refine Nat.eq_zero_of_not_pos fun left => ?_
          have ahead : 0 < count * block.bytes := Nat.mul_pos left positive
          omega
        exact ⟨batch, [], rfl, by simp, by simp [presentFrom], by simp [presentFrom], by omega,
          cleared⟩

end Clearing

/-- Rounding keeps the sizes of areas. -/
theorem alignUp_of_dvd {size : Nat} (pages : NORMAL_PAGE_SIZE ∣ size) (small : size ≤ USER_END) :
    alignUp size = size := by
  have room : USER_END + 2 ^ 21 ≤ wordSize := by decide
  have fits : size + (BlockSize.Normal.bytes - 1) < wordSize := by
    have page_small := bytes_le .Normal
    omega
  rw [show alignUp size = roundUp _ (BlockSize.Normal.bytes - 1) from rfl, roundUp_of_fits fits]
  obtain ⟨count, rfl⟩ := pages
  rw [show BlockSize.Normal.bytes = NORMAL_PAGE_SIZE from rfl,
    show NORMAL_PAGE_SIZE = 4096 from rfl]
  omega

/-- `munmap` finds an area by its start, detaches it and unmaps its pages. -/
theorem munmap_of_start {vmm : VirtMemManager} {vmas : List Nat} {ptr : Nat}
    (linked : (links vmm.nodes).IsList vmm.head vmas) (heap : vmas.Perm vmm.live)
    (mem : ptr ∈ vmas)
    (alone : ∀ other ∈ vmas, (vmm.nodes other).start = (vmm.nodes ptr).start → other = ptr)
    (rounded : alignUp (vmm.nodes ptr).size = (vmm.nodes ptr).size) :
    vmm.munmap (vmm.nodes ptr).start (vmm.nodes ptr).size =
      ((vmm.detach ptr).unmapArea ((vmm.detach ptr).nodes ptr)).map fun unmapped =>
        (.ok (), { unmapped with live := unmapped.live.erase ptr }) := by
  rcases findLoop_spec ((List.nil_append vmas).symm ▸ linked) (le_of_eq heap.length_eq)
      (show ∀ other ∈ [], (vmm.nodes other).start ≠ (vmm.nodes ptr).start by simp) with
    ⟨-, missed⟩ | ⟨front, found, back, split_eq, start_eq, -, loop_eq⟩
  · exact absurd rfl (missed ptr (by simpa using mem))
  · rw [← linked.head_eq] at loop_eq
    rw [List.nil_append] at split_eq
    obtain rfl : found = ptr := alone found (by simp [split_eq]) start_eq
    simp only [munmap, loop_eq, bind, Except.bind, rounded, ne_eq, not_true_eq_false, if_false]
    cases (vmm.detach found).unmapArea ((vmm.detach found).nodes found) <;> rfl

/-- The pages of an area on page boundaries are unmapped, each once. -/
theorem unmapArea_exact {vmm : VirtMemManager} {node : VmaNode} {space : AddressSpace}
    (start_aligned : (blockSize node.flags).bytes ∣ node.start)
    (size_aligned : (blockSize node.flags).bytes ∣ node.size)
    (area : UserArea vmm node space) :
    ∃ after trace, vmm.unmapArea node = .ok after ∧ after.effects = vmm.effects ++ trace ∧
      trace.filterMap Effect.unmapped =
        (presentFrom space (blockSize node.flags) (node.size / (blockSize node.flags).bytes)
          node.start).map (·.1, blockSize node.flags) ∧
      trace.filterMap Effect.freed =
        (if node.backingVmo.isNone then
          (presentFrom space (blockSize node.flags) (node.size / (blockSize node.flags).bytes)
            node.start).map (·.2, blockSize node.flags)
        else []) ∧
      Represents after.tables vmm.l4Addr
        (space.cut (blockSize node.flags) node.start (endOf node)) ∧
      Grown vmm.tables after.tables vmm.l4Addr [] := by
  have whole := Nat.div_mul_cancel size_aligned
  have room : USER_END < wordSize := by decide
  have user := area.user
  rw [endOf] at user
  have initial : Cleared vmm.tables vmm.l4Addr space (blockSize node.flags) node.start
      ⟨vmm.tables, node.start, [], vmm.effects⟩ :=
    ⟨(cut_self node.start).symm ▸ area.represents, start_aligned, le_rfl, .refl _ _⟩
  obtain ⟨after, trace, pages_eq, trace_eq, unmapped_eq, freed_eq, page_eq, final⟩ :=
    @Cleared.unmapPages _ _ _ _ _ _ (endOf node) (node.size / (blockSize node.flags).bytes + 1) _
      (node.size / (blockSize node.flags).bytes + 1) node.backingVmo.isNone area.user area.uniform
      initial (by rw [whole, endOf]) (Nat.le_succ _) (Nat.le_succ _)
  refine ⟨{ vmm with tables := after.tables, effects := after.effects }, trace, ?_, trace_eq,
    unmapped_eq, freed_eq, page_eq ▸ final.represents, final.grown⟩
  simp only [unmapArea, stepSize_eq]
  rw [wrappingAdd_of_lt (by omega), ← endOf, pages_eq]
  rfl

/-- The page bases of a range are the multiples of the page size in it. -/
theorem base_iff {bytes start size addr : Nat} (positive : 0 < bytes)
    (start_aligned : bytes ∣ start) (size_aligned : bytes ∣ size) :
    (∃ index < size / bytes, addr = start + index * bytes) ↔
      bytes ∣ addr ∧ start ≤ addr ∧ addr < start + size := by
  have whole := Nat.div_mul_cancel size_aligned
  constructor
  · rintro ⟨index, lt, rfl⟩
    have inside := Nat.mul_lt_mul_of_pos_right lt positive
    exact ⟨Nat.dvd_add start_aligned (Nat.dvd_mul_left _ _), by omega, by omega⟩
  · rintro ⟨aligned, ge, lt⟩
    have offset := Nat.div_mul_cancel (Nat.dvd_sub aligned start_aligned)
    refine ⟨(addr - start) / bytes, Nat.lt_of_mul_lt_mul_right (a := bytes) ?_, by omega⟩
    rw [offset, whole]
    omega

section Result

variable {vmm : VirtMemManager} {node : VmaNode} {space : AddressSpace}

/-- In an area, `translate` finds the pages of the area's own size. -/
theorem UserArea.translate_eq (area : UserArea vmm node space) {addr : Nat} (ge : node.start ≤ addr)
    (lt : addr < endOf node) :
    Pager.translate vmm.tables vmm.l4Addr addr =
      (space (blockSize node.flags) (addr / (blockSize node.flags).bytes)).map
        (· + addr % (blockSize node.flags).bytes) := by
  ext found
  rw [Pager.translate_iff area.represents (lt.trans_le area.user), Option.map_eq_some_iff]
  constructor
  · rintro ⟨size, phys, stored, rfl⟩
    obtain rfl : size = blockSize node.flags := by
      by_contra differs
      rw [area.uniform addr ge lt size differs] at stored
      cases stored
    exact ⟨phys, stored, rfl⟩
  · rintro ⟨phys, stored, rfl⟩
    exact ⟨_, phys, stored, rfl⟩

/-- The present pages of an area, in the terms of `translate`. -/
theorem UserArea.mem_presentFrom_iff (area : UserArea vmm node space)
    (start_aligned : (blockSize node.flags).bytes ∣ node.start)
    (size_aligned : (blockSize node.flags).bytes ∣ node.size) {virt phys : Nat} :
    (virt, phys) ∈ presentFrom space (blockSize node.flags)
        (node.size / (blockSize node.flags).bytes) node.start ↔
      ((blockSize node.flags).bytes ∣ virt ∧ node.start ≤ virt ∧ virt < endOf node) ∧
        Pager.translate vmm.tables vmm.l4Addr virt = some phys := by
  rw [mem_presentFrom, base_iff (bytes_pos _) start_aligned size_aligned, ← endOf]
  refine and_congr_right ?_
  rintro ⟨aligned, ge, lt⟩
  rw [area.translate_eq ge lt, Nat.mod_eq_zero_of_dvd aligned]
  simp

end Result

/-- An area is unmapped exactly: what `munmap` does, in the terms of `translate`. -/
structure UnmapsExactly (vmm next : VirtMemManager) (node : VmaNode) (trace : List Effect) :
    Prop where
  /-- No page is unmapped twice. -/
  once : (trace.filterMap Effect.unmapped).Nodup
  /-- The pages unmapped are the present ones. -/
  pages : ∀ virt size, (virt, size) ∈ trace.filterMap Effect.unmapped ↔
    size = blockSize node.flags ∧ (size.bytes ∣ virt ∧ node.start ≤ virt ∧ virt < endOf node) ∧
      Pager.translate vmm.tables vmm.l4Addr virt ≠ none
  /-- The frames of an anonymous area are freed, one for each page, and no frame of another. -/
  freed : trace.filterMap Effect.freed =
    if node.backingVmo = none then
      (trace.filterMap Effect.unmapped).filterMap fun page =>
        (Pager.translate vmm.tables vmm.l4Addr page.1).map (·, page.2)
    else []
  /-- Frames that belong to one page each are freed once each. -/
  freed_once : (∀ left right phys, node.start ≤ left → left < endOf node →
    node.start ≤ right → right < endOf node →
    Pager.translate vmm.tables vmm.l4Addr left = some phys →
    Pager.translate vmm.tables vmm.l4Addr right = some phys → left = right) →
    (trace.filterMap Effect.freed).Nodup
  /-- Nothing is mapped in the range. -/
  gone : ∀ addr, node.start ≤ addr → addr < endOf node →
    Pager.translate next.tables next.l4Addr addr = none
  /-- All other addresses of both halves are translated as before. -/
  elsewhere : ∀ addr, addr < USER_END ∨ 256 ≤ (getIdxs addr).l4 →
    ¬(node.start ≤ addr ∧ addr < endOf node) →
    Pager.translate next.tables next.l4Addr addr = Pager.translate vmm.tables vmm.l4Addr addr

/-- A map without the pages of an area, in the terms of `translate`. -/
theorem UserArea.translate_cut {vmm : VirtMemManager} {node : VmaNode} {space : AddressSpace}
    (area : UserArea vmm node space)
    (start_aligned : (blockSize node.flags).bytes ∣ node.start)
    (size_aligned : (blockSize node.flags).bytes ∣ node.size) {tables : Tables}
    (represents : Represents tables vmm.l4Addr
      (space.cut (blockSize node.flags) node.start (endOf node)))
    {addr : Nat} (user : addr < USER_END) :
    Pager.translate tables vmm.l4Addr addr =
      if node.start ≤ addr ∧ addr < endOf node then none
      else Pager.translate vmm.tables vmm.l4Addr addr := by
  have positive := bytes_pos (blockSize node.flags)
  have base_le : addr / (blockSize node.flags).bytes * (blockSize node.flags).bytes ≤ addr :=
    Nat.div_mul_le_self _ _
  -- A page lies in the area exactly if its base does.
  have base_iff : (node.start ≤ addr / (blockSize node.flags).bytes * (blockSize node.flags).bytes ∧
      addr / (blockSize node.flags).bytes * (blockSize node.flags).bytes < endOf node) ↔
      node.start ≤ addr ∧ addr < endOf node := by
    obtain ⟨first, start_eq⟩ := start_aligned
    obtain ⟨count, size_eq⟩ := size_aligned
    rw [endOf, start_eq, size_eq, ← Nat.mul_add, Nat.mul_comm _ first,
      Nat.mul_comm _ (first + count)]
    rw [Nat.mul_le_mul_right_iff positive, Nat.mul_lt_mul_right positive,
      Nat.le_div_iff_mul_le positive, Nat.div_lt_iff_lt_mul positive]
  ext found
  rw [Pager.translate_iff represents user]
  split
  next inside =>
    refine iff_of_false ?_ (by simp)
    rintro ⟨size, phys, stored, -⟩
    by_cases same : size = blockSize node.flags
    · subst same
      rw [AddressSpace.cut, if_pos ⟨rfl, base_iff.mpr inside⟩] at stored
      cases stored
    · rw [cut_other same, area.uniform addr inside.1 inside.2 size same] at stored
      cases stored
  next outside =>
    rw [Pager.translate_iff area.represents user]
    refine exists_congr fun size => exists_congr fun phys => and_congr_left fun _ => ?_
    by_cases same : size = blockSize node.flags
    · subst same
      rw [AddressSpace.cut, if_neg fun inside => outside (base_iff.mp inside.2)]
    · rw [cut_other same]

section Trace

variable {vmm : VirtMemManager} {node : VmaNode} {space : AddressSpace} {trace : List Effect}
  (area : UserArea vmm node space)
  (start_aligned : (blockSize node.flags).bytes ∣ node.start)
  (size_aligned : (blockSize node.flags).bytes ∣ node.size)
  (unmapped_eq : trace.filterMap Effect.unmapped =
    (presentFrom space (blockSize node.flags) (node.size / (blockSize node.flags).bytes)
      node.start).map (·.1, blockSize node.flags))
include unmapped_eq

theorem unmapped_nodup : (trace.filterMap Effect.unmapped).Nodup := by
  rw [unmapped_eq]
  refine List.Nodup.of_map Prod.fst ?_
  rw [List.map_map]
  exact presentFrom_nodup _ _

include area start_aligned size_aligned

theorem mem_unmapped_iff (virt : Nat) (size : BlockSize) :
    (virt, size) ∈ trace.filterMap Effect.unmapped ↔
      size = blockSize node.flags ∧ (size.bytes ∣ virt ∧ node.start ≤ virt ∧ virt < endOf node) ∧
        Pager.translate vmm.tables vmm.l4Addr virt ≠ none := by
  rw [unmapped_eq, List.mem_map]
  constructor
  · rintro ⟨⟨_, phys⟩, mem, pair_eq⟩
    cases pair_eq
    obtain ⟨base, translated⟩ := (area.mem_presentFrom_iff start_aligned size_aligned).mp mem
    exact ⟨rfl, base, Option.ne_none_iff_exists'.mpr ⟨phys, translated⟩⟩
  · rintro ⟨rfl, base, present⟩
    obtain ⟨phys, translated⟩ := Option.ne_none_iff_exists'.mp present
    exact ⟨(virt, phys),
      (area.mem_presentFrom_iff start_aligned size_aligned).mpr ⟨base, translated⟩, rfl⟩

variable (freed_eq : trace.filterMap Effect.freed =
  if node.backingVmo.isNone then
    (presentFrom space (blockSize node.flags) (node.size / (blockSize node.flags).bytes)
      node.start).map (·.2, blockSize node.flags)
  else [])
include freed_eq

/-- One frame is freed for each page unmapped. -/
theorem freed_of_unmapped : trace.filterMap Effect.freed =
    if node.backingVmo = none then
      (trace.filterMap Effect.unmapped).filterMap fun page =>
        (Pager.translate vmm.tables vmm.l4Addr page.1).map (·, page.2)
    else [] := by
  rw [freed_eq, unmapped_eq, List.filterMap_map]
  simp only [Option.isNone_iff_eq_none]
  congr 1
  rw [← List.filterMap_eq_map]
  refine List.filterMap_congr fun page mem => ?_
  have translated := ((area.mem_presentFrom_iff start_aligned size_aligned).mp mem).2
  simp [translated]

omit unmapped_eq in
theorem freed_nodup (own : ∀ left right phys, node.start ≤ left → left < endOf node →
    node.start ≤ right → right < endOf node →
    Pager.translate vmm.tables vmm.l4Addr left = some phys →
    Pager.translate vmm.tables vmm.l4Addr right = some phys → left = right) :
    (trace.filterMap Effect.freed).Nodup := by
  rw [freed_eq]
  split
  · refine List.Nodup.map_on ?_ (List.Nodup.of_map Prod.fst (presentFrom_nodup _ _))
    rintro ⟨left, phys⟩ left_mem ⟨right, other⟩ right_mem pair_eq
    obtain rfl : phys = other := (Prod.mk.inj pair_eq).1
    obtain ⟨⟨-, left_ge, left_lt⟩, left_eq⟩ :=
      (area.mem_presentFrom_iff start_aligned size_aligned).mp left_mem
    obtain ⟨⟨-, right_ge, right_lt⟩, right_eq⟩ :=
      (area.mem_presentFrom_iff start_aligned size_aligned).mp right_mem
    rw [own left right phys left_ge left_lt right_ge right_lt left_eq right_eq]
  · exact List.nodup_nil

end Trace

/-- **Exact unmapping.** `munmap` of an area on page boundaries of the user half succeeds and unmaps
exactly the area, whatever pages of it are present. -/
theorem munmap_exact {vmm : VirtMemManager} {vmas : List Nat} {ptr : Nat} {space : AddressSpace}
    (linked : (links vmm.nodes).IsList vmm.head vmas) (heap : vmas.Perm vmm.live)
    (mem : ptr ∈ vmas)
    (alone : ∀ other ∈ vmas, (vmm.nodes other).start = (vmm.nodes ptr).start → other = ptr)
    (start_aligned : (blockSize (vmm.nodes ptr).flags).bytes ∣ (vmm.nodes ptr).start)
    (size_aligned : (blockSize (vmm.nodes ptr).flags).bytes ∣ (vmm.nodes ptr).size)
    (area : UserArea vmm (vmm.nodes ptr) space) (apart : KernelApart vmm.tables vmm.l4Addr) :
    ∃ next trace, vmm.munmap (vmm.nodes ptr).start (vmm.nodes ptr).size = .ok (.ok (), next) ∧
      next.effects = vmm.effects ++ trace ∧ UnmapsExactly vmm next (vmm.nodes ptr) trace := by
  have rounded : alignUp (vmm.nodes ptr).size = (vmm.nodes ptr).size :=
    alignUp_of_dvd ((Pager.bytes_dvd _).trans size_aligned)
      ((Nat.le_add_left _ _).trans area.user)
  have same := detach_content vmm ptr ptr
  obtain ⟨tables_eq, root_eq⟩ := detach_tables vmm ptr
  have detached : UserArea (vmm.detach ptr) ((vmm.detach ptr).nodes ptr) space := by
    refine ⟨?_, ?_, ?_⟩
    · rw [tables_eq, root_eq]
      exact area.represents
    · rw [endOf_of_content same]
      exact area.user
    · rw [start_of_content same, endOf_of_content same, flags_of_content same]
      exact area.uniform
  have found := unmapArea_exact
    (by rw [flags_of_content same, start_of_content same]; exact start_aligned)
    (by rw [flags_of_content same, size_of_content same]; exact size_aligned) detached
  rw [flags_of_content same, start_of_content same, size_of_content same, endOf_of_content same,
    backing_of_content same, tables_eq, root_eq, detach_effects] at found
  obtain ⟨after, trace, unmap_eq, trace_eq, unmapped_eq, freed_eq, represents, grown⟩ := found
  obtain ⟨kernel, -⟩ := grown.kernel apart (by simp)
  have root_eq : after.l4Addr = vmm.l4Addr := (unmapArea_frame unmap_eq).2.2.2.trans root_eq
  refine ⟨{ after with live := after.live.erase ptr }, trace, ?_, trace_eq, ?_⟩
  · rw [munmap_of_start linked heap mem alone rounded, unmap_eq]
    rfl
  refine ⟨unmapped_nodup unmapped_eq, mem_unmapped_iff area start_aligned size_aligned unmapped_eq,
    freed_of_unmapped area start_aligned size_aligned unmapped_eq freed_eq,
    freed_nodup area start_aligned size_aligned freed_eq, fun addr ge lt => ?_,
    fun addr half outside => ?_⟩
  · change Pager.translate after.tables after.l4Addr addr = none
    rw [root_eq, area.translate_cut start_aligned size_aligned represents (lt.trans_le area.user),
      if_pos ⟨ge, lt⟩]
  · change Pager.translate after.tables after.l4Addr addr = _
    rw [root_eq]
    rcases half with user | upper
    · rw [area.translate_cut start_aligned size_aligned represents user, if_neg outside]
    · exact kernel.translate upper

/-- Tables that store a single page beside an empty kernel half. -/
theorem onePage_apart {virt : Nat} (user : virt < USER_END) :
    ∃ tables, Represents tables 0x1000 (onePage (virt / NORMAL_PAGE_SIZE)) ∧
      KernelApart tables 0x1000 := by
  have no_kernel (table : Nat) : ¬ KernelTable (fun _ _ => .unused) 0x1000 table :=
    not_kernelTable_of_empty fun _ _ => PageTableEntry.isPresent_unused
  have absent : ∀ index < 256, ((fun _ _ => .unused : Tables) 0x1000 index).isPresent = false :=
    fun _ _ => PageTableEntry.isPresent_unused
  have empty : Represents (fun _ _ => .unused) 0x1000 fun _ _ => none :=
    Pager.represents_empty absent
  have free : FreeFrames (fun _ _ => .unused) 0x1000 [0x6000, 0x7000, 0x8000] := by
    refine ⟨by decide, by decide, by decide, fun frame mem user => ?_⟩
    rw [userTable_of_empty absent] at user
    subst user
    exact absurd mem (by decide)
  have valid : ValidFlags (convertVmFlags (VM_FLAG_WRITE ||| VM_FLAG_USER)) := ⟨rfl, rfl⟩
  obtain ⟨after, map_eq, represents⟩ := mapPage_spec empty user
    (show NORMAL_PAGE_SIZE ∣ 0x5000 by decide) (by decide) valid
    (show NoOtherSize (fun _ _ => none) virt .Normal from rfl) (free.supplies (by decide))
  obtain ⟨taken, -, grown, -⟩ := mapPage_grown empty free user
    (show NORMAL_PAGE_SIZE ∣ 0x5000 by decide) (by decide) valid rfl map_eq
  obtain ⟨-, apart⟩ := grown.kernel (fun table _ => no_kernel table) fun frame _ => no_kernel frame
  exact ⟨after.tables, represents, apart⟩

/-- An area of two pages of which the second is present. -/
theorem munmap_exact_two_pages : ∃ tables next trace,
    Pager.translate tables 0x1000 0x40001000 = some 0x5000 ∧
    (oneArea 0x2000 tables).munmap VM_BASE_ADDR 0x2000 = .ok (.ok (), next) ∧
    UnmapsExactly (oneArea 0x2000 tables) next ((oneArea 0x2000 tables).nodes 7) trace := by
  obtain ⟨tables, represents, apart⟩ := onePage_apart (show 0x40001000 < USER_END by decide)
  have list := oneArea_list (show 0 < 0x2000 by decide) (by decide) tables
  obtain ⟨next, trace, call_eq, -, exact⟩ := munmap_exact list.linked list.heap
    (List.mem_singleton_self 7) (fun other mem _ => List.mem_singleton.mp mem)
    (by rw [oneArea_block]; exact (show NORMAL_PAGE_SIZE ∣ VM_BASE_ADDR by decide))
    (by rw [oneArea_block]; exact (show NORMAL_PAGE_SIZE ∣ 0x2000 by decide))
    (oneArea_userArea (show 0x2000 ≤ 0x2000 from le_rfl) represents) apart
  refine ⟨tables, next, trace, ?_, call_eq, exact⟩
  exact (Pager.translate_iff represents (show 0x40001000 < USER_END by decide) 0x5000).mpr
    ⟨.Normal, 0x5000, by decide, by decide⟩

end VirtMemManager
end Vespertine
