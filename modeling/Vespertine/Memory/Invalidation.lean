import Mathlib.Data.Fin.Basic
import Mathlib.Data.Nat.Find
import Mathlib.Data.Set.Insert
import Vespertine.Memory.Tlb
import Vespertine.Memory.UserRange

/-!
# Invalidation of unmapped areas

`munmap` clears the present pages of an area in batches, flushing each page on its own core, and
ends a batch with a shootdown of the address at which the batch began.  The other cores therefore
drop one page of a batch.  The translations of an area are gone from every core exactly when its
first page is the only one that was present, or when there is no other core.

`Progress` follows the batches: the tables represent the pages not yet cleared, and every frame
collected belonged to a page that was.
-/

namespace Vespertine
namespace VirtMemManager

open UserTree Tlb

/-- The pages of an area of the user half, as page faults leave them: only pages of its own size. -/
structure UserArea (vmm : VirtMemManager) (node : VmaNode) (space : AddressSpace) : Prop where
  /-- The page tables store the pages. -/
  represents : Represents vmm.tables vmm.l4Addr space
  /-- The area lies in the user half. -/
  user : endOf node ≤ USER_END
  /-- The area holds no page of the other size. -/
  uniform : ∀ addr, node.start ≤ addr → addr < endOf node → ∀ size ≠ blockSize node.flags,
    space size (addr / size.bytes) = none

/-- The only page that begins in the block at an aligned address is the one there. -/
theorem page_unique {bytes page addr : Nat} (positive : 0 < bytes) (aligned : bytes ∣ addr)
    (ge : addr ≤ page * bytes) (lt : page * bytes < addr + bytes) : page = addr / bytes := by
  obtain ⟨number, rfl⟩ := aligned
  rw [Nat.mul_div_cancel_left number positive]
  rw [Nat.mul_comm bytes number] at ge lt
  rw [← Nat.succ_mul] at lt
  exact le_antisymm (Nat.lt_succ_iff.mp (Nat.lt_of_mul_lt_mul_right lt))
    (Nat.le_of_mul_le_mul_right ge positive)

/-- The code looks a page up and clears it if it is there. -/
theorem unmapOne_cases {l4Addr : Nat} {batch : Batch} {space : AddressSpace} {block : BlockSize}
    (represents : Represents batch.tables l4Addr space) (aligned : block.bytes ∣ batch.currentPage)
    (user : batch.currentPage < USER_END)
    (alone : ∀ size ≠ block, space size (batch.currentPage / size.bytes) = none) :
    space block (batch.currentPage / block.bytes) = none ∧
        unmapOne l4Addr block batch = .ok batch ∨
      ∃ phys, space block (batch.currentPage / block.bytes) = some phys ∧
        unmapOne l4Addr block batch = .ok { batch with
          tables := PageTable.unmapPage batch.tables l4Addr batch.currentPage block
          physBatch := batch.physBatch ++ [phys]
          effects := batch.effects ++ [.unmapPage batch.currentPage block] } ∧
        Represents (PageTable.unmapPage batch.tables l4Addr batch.currentPage block) l4Addr
          (space.set block (batch.currentPage / block.bytes) none) := by
  have found := Pager.translate_iff represents user
  have offset : batch.currentPage % block.bytes = 0 := Nat.mod_eq_zero_of_dvd aligned
  cases stored : space block (batch.currentPage / block.bytes) with
  | none =>
      refine .inl ⟨rfl, ?_⟩
      have absent : Pager.translate batch.tables l4Addr batch.currentPage = none := by
        rw [Option.eq_none_iff_forall_ne_some]
        intro addr translated
        obtain ⟨size, phys, mapped, -⟩ := (found addr).mp translated
        by_cases same : size = block
        · subst same
          rw [stored] at mapped
          cases mapped
        · rw [alone size same] at mapped
          cases mapped
      rw [unmapOne, absent]
  | some phys =>
      have translated : Pager.translate batch.tables l4Addr batch.currentPage = some phys :=
        (found phys).mpr ⟨block, phys, stored, by rw [offset, Nat.add_zero]⟩
      refine .inr ⟨phys, rfl, ?_, unmapPage_spec represents user stored⟩
      rw [unmapOne, translated]
      simp only [Pager.unmapPage, Pager.assertVirt_ok aligned]
      rfl

/-- How far a range is cleared. -/
structure Progress (region : Region) (l4Addr : Nat) (batch : Batch) (space : AddressSpace) :
    Prop where
  /-- The tables store the remaining pages. -/
  represents : Represents batch.tables l4Addr space
  aligned : region.block.bytes ∣ batch.currentPage
  start_le : region.start ≤ batch.currentPage
  /-- Pages behind are cleared. -/
  cleared : ∀ page, region.start ≤ page * region.block.bytes →
    page * region.block.bytes < batch.currentPage → space region.block page = none
  /-- Pages ahead are as they were. -/
  ahead : ∀ page, batch.currentPage ≤ page * region.block.bytes →
    space region.block page = region.space region.block page
  /-- Pages of the other size are as they were. -/
  other : ∀ size ≠ region.block, space size = region.space size
  /-- The frames of the batch belonged to cleared pages. -/
  frames : ∀ phys ∈ batch.physBatch, ∃ page, region.start ≤ page * region.block.bytes ∧
    page * region.block.bytes < batch.currentPage ∧
    page * region.block.bytes < region.start + region.size ∧
    region.space region.block page = some phys

namespace Progress

variable {region : Region} {l4Addr : Nat} {batch : Batch} {space : AddressSpace}

/-- Collected frames are released. -/
theorem released (progress : Progress region l4Addr batch space) :
    ∀ phys ∈ batch.physBatch, region.Released space phys := by
  intro phys mem
  obtain ⟨page, ge, behind, inside, was⟩ := progress.frames phys mem
  exact ⟨page, ge, inside, was, progress.cleared page ge behind⟩

theorem record (progress : Progress region l4Addr batch space) (effects : List Effect) :
    Progress region l4Addr { batch with effects } space :=
  ⟨progress.represents, progress.aligned, progress.start_le, progress.cleared, progress.ahead,
    progress.other, progress.frames⟩

/-- A vacant page is skipped. -/
theorem skip (progress : Progress region l4Addr batch space)
    (vacant : space region.block (batch.currentPage / region.block.bytes) = none) :
    Progress region l4Addr
      { batch with currentPage := batch.currentPage + region.block.bytes } space := by
  have positive := bytes_pos region.block
  refine ⟨progress.represents, Nat.dvd_add progress.aligned (dvd_refl _),
    progress.start_le.trans (Nat.le_add_right _ _), fun page ge lt => ?_, fun page ge => ?_,
    progress.other, fun phys mem => ?_⟩
  · by_cases behind : page * region.block.bytes < batch.currentPage
    · exact progress.cleared page ge behind
    · rw [page_unique positive progress.aligned (Nat.not_lt.mp behind) lt]
      exact vacant
  · exact progress.ahead page ((Nat.le_add_right _ _).trans ge)
  · obtain ⟨page, ge, lt, inside, was⟩ := progress.frames phys mem
    exact ⟨page, ge, lt.trans_le (Nat.le_add_right _ _), inside, was⟩

/-- The page at hand is cleared. -/
theorem clear {tables : Tables} {phys : Nat} {effects : List Effect}
    (progress : Progress region l4Addr batch space)
    (inside : batch.currentPage < region.start + region.size)
    (was : space region.block (batch.currentPage / region.block.bytes) = some phys)
    (represents : Represents tables l4Addr
      (space.set region.block (batch.currentPage / region.block.bytes) none)) :
    Progress region l4Addr
      ⟨tables, batch.currentPage + region.block.bytes, batch.physBatch ++ [phys], effects⟩
      (space.set region.block (batch.currentPage / region.block.bytes) none) := by
  have positive := bytes_pos region.block
  have base := Nat.div_mul_cancel progress.aligned
  refine ⟨represents, Nat.dvd_add progress.aligned (dvd_refl _),
    progress.start_le.trans (Nat.le_add_right _ _), fun page ge lt => ?_, fun page ge => ?_,
    fun size ne => ?_, fun frame mem => ?_⟩
  · rw [AddressSpace.set]
    split
    next => rfl
    next elsewhere =>
      refine progress.cleared page ge (Nat.lt_of_not_le fun le => elsewhere ⟨rfl, ?_⟩)
      exact page_unique positive progress.aligned le lt
  · rw [AddressSpace.set, if_neg]
    · exact progress.ahead page ((Nat.le_add_right _ _).trans ge)
    · rintro ⟨-, rfl⟩
      rw [base] at ge
      exact absurd ge (Nat.not_le.mpr (Nat.lt_add_of_pos_right positive))
  · funext page
    rw [AddressSpace.set, if_neg fun here => ne here.1, progress.other size ne]
  · rcases List.mem_append.mp mem with old | new
    · obtain ⟨page, ge, lt, inside, was⟩ := progress.frames frame old
      exact ⟨page, ge, lt.trans_le (Nat.le_add_right _ _), inside, was⟩
    · obtain rfl : frame = phys := by simpa using new
      have here := progress.ahead _ (le_of_eq base.symm)
      refine ⟨_, base.symm ▸ progress.start_le, ?_, base.symm ▸ inside, here ▸ was⟩
      rw [base]
      exact Nat.lt_add_of_pos_right positive

/-- The code looks a page up and clears it if it is there. -/
theorem unmapOne (progress : Progress region l4Addr batch space)
    (user : batch.currentPage < USER_END)
    (uniform : ∀ size ≠ region.block, region.space size (batch.currentPage / size.bytes) = none) :
    space region.block (batch.currentPage / region.block.bytes) = none ∧
        VirtMemManager.unmapOne l4Addr region.block batch = .ok batch ∨
      ∃ phys tables, space region.block (batch.currentPage / region.block.bytes) = some phys ∧
        VirtMemManager.unmapOne l4Addr region.block batch = .ok { batch with
          tables
          physBatch := batch.physBatch ++ [phys]
          effects := batch.effects ++ [.unmapPage batch.currentPage region.block] } ∧
        Represents tables l4Addr
          (space.set region.block (batch.currentPage / region.block.bytes) none) := by
  have alone (size : BlockSize) (ne : size ≠ region.block) :
      space size (batch.currentPage / size.bytes) = none := by
    rw [progress.other size ne]
    exact uniform size ne
  rcases unmapOne_cases progress.represents progress.aligned user alone with
    vacant | ⟨phys, was, one_eq, represents⟩
  · exact .inl vacant
  · exact .inr ⟨phys, _, was, one_eq, represents⟩

end Progress

theorem wrappingAdd_page {addr : Nat} (user : addr < USER_END) (block : BlockSize) :
    wrappingAdd addr block.bytes = addr + block.bytes := by
  have small := bytes_le block
  have room : USER_END + 2 ^ 21 ≤ wordSize := by decide
  exact wrappingAdd_of_lt (by omega)

/-- The effects that end a batch. -/
def batchEnd (batchStart : Nat) (block : BlockSize) (anonymous : Bool) (batch : Batch) :
    List Effect :=
  if batch.physBatch.length > 0 then
    .shootdown batchStart (wrappingSub batch.currentPage batchStart) ::
      if anonymous then batch.physBatch.map (.free · block) else []
  else
    []

theorem finishBatch_eq (batchStart : Nat) (block : BlockSize) (anonymous : Bool) (batch : Batch) :
    finishBatch batchStart block anonymous batch =
      { batch with effects := batch.effects ++ batchEnd batchStart block anonymous batch } := by
  rw [finishBatch, batchEnd]
  split
  · simp
  · simp

theorem shootdown_mem_batchEnd {batchStart addr size : Nat} {block : BlockSize} {anonymous : Bool}
    {batch : Batch} (mem : .shootdown addr size ∈ batchEnd batchStart block anonymous batch) :
    addr = batchStart := by
  rw [batchEnd] at mem
  split at mem
  · cases anonymous <;> simp at mem <;> exact mem.1
  · simp at mem

theorem Progress.batchEnd {region : Region} {l4Addr : Nat} {batch : Batch} {space : AddressSpace}
    (progress : Progress region l4Addr batch space) (batchStart : Nat) (anonymous : Bool) :
    Clearing region space (batchEnd batchStart region.block anonymous batch) space := by
  rw [VirtMemManager.batchEnd]
  split
  · refine .shootdown _ _ ?_
    cases anonymous
    · exact .done space
    · exact .frees progress.released
  · exact .done space

/-- A batch that goes on handles the page at hand and continues behind it. -/
theorem unmapBatch_step {l4Addr endPage step fuel : Nat} {block : BlockSize} {batch after : Batch}
    (batch_eq : unmapBatch l4Addr endPage step block fuel batch = .ok after)
    (lt : batch.currentPage < endPage) (small : batch.physBatch.length < BATCH_SIZE) :
    ∃ rest one, unmapOne l4Addr block batch = .ok one ∧
      unmapBatch l4Addr endPage step block rest
        { one with currentPage := wrappingAdd one.currentPage step } = .ok after := by
  cases fuel with
  | zero =>
      rw [unmapBatch, if_pos ⟨lt, small⟩] at batch_eq
      cases batch_eq
  | succ fuel =>
      rw [unmapBatch, if_pos ⟨lt, small⟩] at batch_eq
      obtain ⟨one, one_eq, rest_eq⟩ := bind_eq_ok.mp batch_eq
      exact ⟨fuel, one, one_eq, rest_eq⟩

theorem unmapPages_step {l4Addr endPage step pages fuel : Nat} {block : BlockSize}
    {anonymous : Bool} {batch after : Batch} (lt : batch.currentPage < endPage)
    (pages_eq : unmapPages l4Addr endPage step pages block anonymous fuel batch = .ok after) :
    ∃ rest next, unmapBatch l4Addr endPage step block pages { batch with physBatch := [] } =
        .ok next ∧
      unmapPages l4Addr endPage step pages block anonymous rest { next with
        effects := next.effects ++ batchEnd batch.currentPage block anonymous next } =
        .ok after := by
  cases fuel with
  | zero =>
      rw [unmapPages, if_pos lt] at pages_eq
      cases pages_eq
  | succ fuel =>
      rw [unmapPages, if_pos lt] at pages_eq
      obtain ⟨next, batch_eq, rest_eq⟩ := bind_eq_ok.mp pages_eq
      rw [finishBatch_eq] at rest_eq
      exact ⟨fuel, next, batch_eq, rest_eq⟩

theorem unmapPages_done {l4Addr endPage step pages fuel : Nat} {block : BlockSize}
    {anonymous : Bool} {batch after : Batch}
    (pages_eq : unmapPages l4Addr endPage step pages block anonymous fuel batch = .ok after)
    (ge : endPage ≤ batch.currentPage) : after = batch := by
  cases fuel <;> rw [unmapPages, if_neg (Nat.not_lt.mpr ge)] at pages_eq <;>
    exact (Except.ok.inj pages_eq).symm

section Batches

variable {region : Region} {l4Addr endPage : Nat}
  (user : endPage ≤ USER_END)
  (uniform : ∀ addr, region.start ≤ addr → addr < endPage → ∀ size ≠ region.block,
    region.space size (addr / size.bytes) = none)
  (inside : ∀ page, region.start ≤ page * region.block.bytes →
    page * region.block.bytes < endPage →
    page * region.block.bytes < region.start + region.size)
include user uniform inside

/-- Handling the page at hand keeps the progress, with at most one more frame. -/
theorem Progress.advance {batch one : Batch} {space : AddressSpace}
    (progress : Progress region l4Addr batch space) (lt : batch.currentPage < endPage)
    (one_eq : VirtMemManager.unmapOne l4Addr region.block batch = .ok one) :
    ∃ (space' : AddressSpace) (pages : List Nat),
      one.effects = batch.effects ++ pages.map (.unmapPage · region.block) ∧
      Clearing region space (pages.map (.unmapPage · region.block)) space' ∧
      Progress region l4Addr
        { one with currentPage := batch.currentPage + region.block.bytes } space' ∧
      wrappingAdd one.currentPage region.block.bytes = batch.currentPage + region.block.bytes ∧
      one.physBatch.length ≤ batch.physBatch.length + 1 := by
  have moved := wrappingAdd_page (lt.trans_le user) region.block
  rcases progress.unmapOne (lt.trans_le user) (uniform _ progress.start_le lt) with
    ⟨vacant, skip_eq⟩ | ⟨phys, tables, was, clear_eq, represents⟩
  · obtain rfl := Except.ok.inj (skip_eq.symm.trans one_eq)
    exact ⟨space, [], by simp, .done space, progress.skip vacant, moved, Nat.le_add_right _ _⟩
  · obtain rfl := Except.ok.inj (clear_eq.symm.trans one_eq)
    have base := Nat.div_mul_cancel progress.aligned
    have within := inside (batch.currentPage / region.block.bytes)
      (base.symm ▸ progress.start_le) (base.symm ▸ lt)
    rw [base] at within
    refine ⟨_, [batch.currentPage], by simp, .unmapPage _ (.done _),
      progress.clear within was represents, moved, by simp⟩

/-- One batch clears pages and collects their frames. -/
theorem Progress.unmapBatch {fuel : Nat} {batch after : Batch} {space : AddressSpace}
    (progress : Progress region l4Addr batch space)
    (batch_eq : unmapBatch l4Addr endPage region.block.bytes region.block fuel batch = .ok after) :
    ∃ (space' : AddressSpace) (pages : List Nat),
      after.effects = batch.effects ++ pages.map (.unmapPage · region.block) ∧
      Clearing region space (pages.map (.unmapPage · region.block)) space' ∧
      Progress region l4Addr after space' ∧ batch.currentPage ≤ after.currentPage ∧
      (batch.currentPage < endPage → batch.physBatch.length < BATCH_SIZE →
        batch.currentPage < after.currentPage) := by
  induction fuel generalizing batch space with
  | zero =>
      rw [VirtMemManager.unmapBatch] at batch_eq
      split at batch_eq
      next => cases batch_eq
      next stop =>
        cases batch_eq
        exact ⟨space, [], by simp, .done space, progress, le_rfl,
          fun lt small => absurd ⟨lt, small⟩ stop⟩
  | succ fuel ih =>
      rw [VirtMemManager.unmapBatch] at batch_eq
      split at batch_eq
      next continues =>
        have positive := bytes_pos region.block
        obtain ⟨one, one_eq, rest_eq⟩ := bind_eq_ok.mp batch_eq
        obtain ⟨middle, first, first_eq, cleared, advanced, moved, -⟩ :=
          progress.advance user uniform inside continues.1 one_eq
        rw [moved] at rest_eq
        obtain ⟨space', pages, effects_eq, clearing, later, ge, -⟩ := ih advanced rest_eq
        have passed : batch.currentPage + region.block.bytes ≤ after.currentPage := ge
        refine ⟨space', first ++ pages, ?_, ?_, later, by omega, fun _ _ => by omega⟩
        · rw [effects_eq, first_eq, List.map_append, List.append_assoc]
        · rw [List.map_append]
          exact cleared.append clearing
      next stop =>
        cases batch_eq
        exact ⟨space, [], by simp, .done space, progress, le_rfl,
          fun lt small => absurd ⟨lt, small⟩ stop⟩

/-- All pages of the range are cleared, and later batches publish later addresses. -/
theorem Progress.unmapPages {pages fuel : Nat} {anonymous : Bool} {batch after : Batch}
    {space : AddressSpace} (progress : Progress region l4Addr batch space)
    (pages_eq : unmapPages l4Addr endPage region.block.bytes pages region.block anonymous fuel
      batch = .ok after) :
    ∃ (space' : AddressSpace) (effects : List Effect), after.effects = batch.effects ++ effects ∧
      Clearing region space effects space' ∧ Progress region l4Addr after space' ∧
      endPage ≤ after.currentPage ∧
      ∀ addr size, .shootdown addr size ∈ effects → batch.currentPage ≤ addr := by
  induction fuel generalizing batch space with
  | zero =>
      rw [VirtMemManager.unmapPages] at pages_eq
      split at pages_eq
      next => cases pages_eq
      next stop =>
        cases pages_eq
        exact ⟨space, [], by simp, .done space, progress, Nat.not_lt.mp stop, by simp⟩
  | succ fuel ih =>
      rw [VirtMemManager.unmapPages] at pages_eq
      split at pages_eq
      next continues =>
        obtain ⟨next, batch_eq, rest_eq⟩ := bind_eq_ok.mp pages_eq
        have restarted : Progress region l4Addr { batch with physBatch := [] } space :=
          { progress with frames := by simp }
        obtain ⟨middle, cleared, cleared_eq, clearing, reached, ge, -⟩ :=
          restarted.unmapBatch user uniform inside batch_eq
        rw [finishBatch_eq] at rest_eq
        obtain ⟨space', effects, effects_eq, later, final, done, bound⟩ :=
          ih (reached.record _) rest_eq
        refine ⟨space', cleared.map (.unmapPage · region.block) ++
          VirtMemManager.batchEnd batch.currentPage region.block anonymous next ++ effects, ?_,
          (clearing.append (reached.batchEnd _ _)).append later, final, done,
          fun addr size mem => ?_⟩
        · rw [effects_eq, cleared_eq]
          simp
        · rcases List.mem_append.mp mem with early | late
          · rcases List.mem_append.mp early with unmap | finish
            · simp at unmap
            · exact le_of_eq (shootdown_mem_batchEnd finish).symm
          · exact ge.trans (bound addr size late)
      next stop =>
        cases pages_eq
        exact ⟨space, [], by simp, .done space, progress, Nat.not_lt.mp stop, by simp⟩

omit inside in
/-- Without present pages ahead a batch runs to the end of the range and changes nothing. -/
theorem Progress.unmapBatch_vacant {fuel : Nat} {batch after : Batch} {space : AddressSpace}
    (progress : Progress region l4Addr batch space)
    (small : batch.physBatch.length < BATCH_SIZE)
    (vacant : ∀ page, batch.currentPage ≤ page * region.block.bytes →
      page * region.block.bytes < endPage → region.space region.block page = none)
    (batch_eq : VirtMemManager.unmapBatch l4Addr endPage region.block.bytes region.block fuel
      batch = .ok after) :
    endPage ≤ after.currentPage ∧ after.physBatch = batch.physBatch ∧
      after.effects = batch.effects := by
  induction fuel generalizing batch with
  | zero =>
      rw [VirtMemManager.unmapBatch] at batch_eq
      split at batch_eq
      next => cases batch_eq
      next stop =>
        cases batch_eq
        exact ⟨Nat.not_lt.mp fun lt => stop ⟨lt, small⟩, rfl, rfl⟩
  | succ fuel ih =>
      rw [VirtMemManager.unmapBatch] at batch_eq
      split at batch_eq
      next continues =>
        have lt := continues.1
        obtain ⟨one, one_eq, rest_eq⟩ := bind_eq_ok.mp batch_eq
        have base := Nat.div_mul_cancel progress.aligned
        have absent := (progress.ahead _ (le_of_eq base.symm)).trans
          (vacant _ (le_of_eq base.symm) (base.symm ▸ lt))
        rcases progress.unmapOne (lt.trans_le user) (uniform _ progress.start_le lt) with
          ⟨-, skip_eq⟩ | ⟨phys, tables, was, -⟩
        · obtain rfl := Except.ok.inj (skip_eq.symm.trans one_eq)
          rw [wrappingAdd_page (lt.trans_le user)] at rest_eq
          have rest := ih (progress.skip absent) small
            (fun page ge => vacant page ((Nat.le_add_right _ _).trans ge)) rest_eq
          exact rest
        · rw [absent] at was
          cases was
      next stop =>
        cases batch_eq
        exact ⟨Nat.not_lt.mp fun lt => stop ⟨lt, small⟩, rfl, rfl⟩

/-- A batch with room passes the next present page. -/
theorem Progress.unmapBatch_passes {fuel number : Nat} {batch after : Batch} {space : AddressSpace}
    (progress : Progress region l4Addr batch space)
    (small : batch.physBatch.length < BATCH_SIZE)
    (le : batch.currentPage ≤ number * region.block.bytes)
    (lt : number * region.block.bytes < endPage)
    (vacant : ∀ page, batch.currentPage ≤ page * region.block.bytes →
      page < number → region.space region.block page = none)
    (batch_eq : VirtMemManager.unmapBatch l4Addr endPage region.block.bytes region.block fuel
      batch = .ok after) : number * region.block.bytes < after.currentPage := by
  induction fuel generalizing batch with
  | zero =>
      rw [VirtMemManager.unmapBatch, if_pos ⟨le.trans_lt lt, small⟩] at batch_eq
      cases batch_eq
  | succ fuel ih =>
      have current_lt := le.trans_lt lt
      have base := Nat.div_mul_cancel progress.aligned
      obtain ⟨-, -, -, -, -, -, advances⟩ := progress.unmapBatch user uniform inside batch_eq
      rcases Nat.eq_or_lt_of_le le with here | before
      · rw [← here]
        exact advances current_lt small
      rw [VirtMemManager.unmapBatch, if_pos ⟨current_lt, small⟩] at batch_eq
      obtain ⟨one, one_eq, rest_eq⟩ := bind_eq_ok.mp batch_eq
      have earlier : batch.currentPage / region.block.bytes < number := by
        rw [← base] at before
        exact Nat.lt_of_mul_lt_mul_right before
      have absent := (progress.ahead _ (le_of_eq base.symm)).trans
        (vacant _ (le_of_eq base.symm) earlier)
      rcases progress.unmapOne (current_lt.trans_le user)
          (uniform _ progress.start_le current_lt) with
        ⟨-, skip_eq⟩ | ⟨phys, tables, was, -⟩
      · obtain rfl := Except.ok.inj (skip_eq.symm.trans one_eq)
        rw [wrappingAdd_page (current_lt.trans_le user)] at rest_eq
        refine ih (progress.skip absent) small ?_
          (fun page ge => vacant page ((Nat.le_add_right _ _).trans ge)) rest_eq
        calc batch.currentPage + region.block.bytes
            = (batch.currentPage / region.block.bytes + 1) * region.block.bytes := by
              rw [Nat.succ_mul, base]
          _ ≤ number * region.block.bytes := Nat.mul_le_mul_right _ earlier
      · rw [absent] at was
        cases was

/-- If at most the first page is present, there is one shootdown, of its address. -/
theorem Progress.unmapPages_first {pages fuel : Nat} {anonymous : Bool} {batch after : Batch}
    (progress : Progress region l4Addr batch region.space)
    (start_eq : batch.currentPage = region.start) (lt : region.start < endPage)
    (vacant : ∀ page, region.start < page * region.block.bytes →
      page * region.block.bytes < endPage → region.space region.block page = none)
    (pages_eq : VirtMemManager.unmapPages l4Addr endPage region.block.bytes pages region.block
      anonymous fuel batch = .ok after) :
    after.effects = batch.effects ∨ ∃ (length : Nat) (frames : List Nat),
      after.effects = batch.effects ++
        .unmapPage region.start region.block :: .shootdown region.start length ::
          frames.map (.free · region.block) := by
  have positive := bytes_pos region.block
  have current_lt : batch.currentPage < endPage := start_eq ▸ lt
  have base := Nat.div_mul_cancel progress.aligned
  have restarted : Progress region l4Addr { batch with physBatch := [] } region.space :=
    { progress with frames := by simp }
  have behind : ∀ page, batch.currentPage + region.block.bytes ≤ page * region.block.bytes →
      page * region.block.bytes < endPage → region.space region.block page = none := by
    intro page ge page_lt
    exact vacant page (by omega) page_lt
  obtain ⟨rest, next, batch_eq, rest_eq⟩ := unmapPages_step current_lt pages_eq
  obtain ⟨fuel, one, one_eq, next_eq⟩ := unmapBatch_step batch_eq current_lt (by simp [BATCH_SIZE])
  rcases restarted.unmapOne (current_lt.trans_le user)
      (uniform _ restarted.start_le current_lt) with
    ⟨absent, skip_eq⟩ | ⟨phys, tables, was, clear_eq, represents⟩
  · obtain rfl := Except.ok.inj (skip_eq.symm.trans one_eq)
    rw [wrappingAdd_page (current_lt.trans_le user)] at next_eq
    obtain ⟨ge, frames_eq, effects_eq⟩ := (restarted.skip absent).unmapBatch_vacant user uniform
      (by simp [BATCH_SIZE]) behind next_eq
    obtain rfl := unmapPages_done rest_eq ge
    left
    simp [VirtMemManager.batchEnd, frames_eq, effects_eq]
  · obtain rfl := Except.ok.inj (clear_eq.symm.trans one_eq)
    have within := inside (batch.currentPage / region.block.bytes)
      (base.symm ▸ progress.start_le) (base.symm ▸ current_lt)
    rw [base] at within
    rw [wrappingAdd_page (current_lt.trans_le user)] at next_eq
    obtain ⟨ge, frames_eq, effects_eq⟩ := (restarted.clear within was represents).unmapBatch_vacant
      user uniform (by simp [BATCH_SIZE]) behind next_eq
    obtain rfl := unmapPages_done rest_eq ge
    right
    refine ⟨wrappingSub next.currentPage batch.currentPage, if anonymous then [phys] else [], ?_⟩
    cases anonymous <;> simp [VirtMemManager.batchEnd, frames_eq, effects_eq, start_eq]

/-- The shootdowns publish the start of the range or addresses behind the next present page. -/
theorem Progress.unmapPages_second {pages fuel number : Nat} {anonymous : Bool}
    {batch after : Batch} (progress : Progress region l4Addr batch region.space)
    (start_eq : batch.currentPage = region.start)
    (le : region.start + region.block.bytes ≤ number * region.block.bytes)
    (lt : number * region.block.bytes < endPage)
    (vacant : ∀ page, region.start < page * region.block.bytes → page < number →
      region.space region.block page = none)
    (pages_eq : VirtMemManager.unmapPages l4Addr endPage region.block.bytes pages region.block
      anonymous fuel batch = .ok after) :
    ∃ effects, after.effects = batch.effects ++ effects ∧
      ∀ addr size, .shootdown addr size ∈ effects →
        addr = region.start ∨ (number + 1) * region.block.bytes ≤ addr := by
  have positive := bytes_pos region.block
  have current_lt : batch.currentPage < endPage := by omega
  have base := Nat.div_mul_cancel progress.aligned
  have restarted : Progress region l4Addr { batch with physBatch := [] } region.space :=
    { progress with frames := by simp }
  have behind : ∀ page, batch.currentPage + region.block.bytes ≤ page * region.block.bytes →
      page < number → region.space region.block page = none := by
    intro page ge page_lt
    exact vacant page (by omega) page_lt
  obtain ⟨rest, next, batch_eq, rest_eq⟩ := unmapPages_step current_lt pages_eq
  have passed : number * region.block.bytes < next.currentPage := by
    obtain ⟨fuel, one, one_eq, next_eq⟩ :=
      unmapBatch_step batch_eq current_lt (by simp [BATCH_SIZE])
    obtain ⟨space', -, -, -, advanced, moved, few⟩ :=
      restarted.advance user uniform inside current_lt one_eq
    rw [moved] at next_eq
    have room : one.physBatch.length < BATCH_SIZE :=
      few.trans_lt (show 0 + 1 < BATCH_SIZE by decide)
    exact advanced.unmapBatch_passes user uniform inside room (start_eq ▸ le) lt behind next_eq
  obtain ⟨middle, cleared, cleared_eq, -, reached, -⟩ :=
    restarted.unmapBatch user uniform inside batch_eq
  obtain ⟨-, effects, effects_eq, -, -, -, bound⟩ :=
    (reached.record _).unmapPages user uniform inside rest_eq
  refine ⟨cleared.map (.unmapPage · region.block) ++
    VirtMemManager.batchEnd batch.currentPage region.block anonymous next ++ effects, ?_,
    fun addr size mem => ?_⟩
  · rw [effects_eq, cleared_eq]
    simp
  · rcases List.mem_append.mp mem with early | late
    · rcases List.mem_append.mp early with unmap | finish
      · simp at unmap
      · exact .inl ((shootdown_mem_batchEnd finish).trans start_eq)
    · refine .inr (le_trans ?_ (bound addr size late))
      rw [← Nat.div_mul_cancel reached.aligned] at passed
      calc (number + 1) * region.block.bytes
          ≤ next.currentPage / region.block.bytes * region.block.bytes :=
            Nat.mul_le_mul_right _ (Nat.lt_of_mul_lt_mul_right passed)
        _ = next.currentPage := Nat.div_mul_cancel reached.aligned

end Batches

section Unaligned

variable {l4Addr endPage : Nat} {block : BlockSize} (user : endPage ≤ USER_END)
include user

/-- Off the page boundaries the alignment assertion lets only vacant pages pass. -/
theorem unmapBatch_unaligned {fuel : Nat} {batch after : Batch}
    (batch_eq : unmapBatch l4Addr endPage block.bytes block fuel batch = .ok after)
    (unaligned : ¬block.bytes ∣ batch.currentPage) :
    after.physBatch = batch.physBatch ∧ after.effects = batch.effects ∧
      ¬block.bytes ∣ after.currentPage := by
  induction fuel generalizing batch with
  | zero =>
      rw [unmapBatch] at batch_eq
      split at batch_eq
      · cases batch_eq
      · cases batch_eq
        exact ⟨rfl, rfl, unaligned⟩
  | succ fuel ih =>
      rw [unmapBatch] at batch_eq
      split at batch_eq
      next continues =>
        obtain ⟨one, one_eq, rest_eq⟩ := bind_eq_ok.mp batch_eq
        rw [unmapOne] at one_eq
        split at one_eq
        · cases one_eq
          rw [wrappingAdd_page (continues.1.trans_le user)] at rest_eq
          have rest := ih rest_eq fun dvd => unaligned ((Nat.dvd_add_left (dvd_refl _)).mp dvd)
          exact rest
        · obtain ⟨tables, unmap_eq, -⟩ := bind_eq_ok.mp one_eq
          obtain ⟨⟨⟩, assert_eq, -⟩ := bind_eq_ok.mp unmap_eq
          exact absurd (Pager.dvd_of_assertVirt assert_eq) unaligned
      next =>
        cases batch_eq
        exact ⟨rfl, rfl, unaligned⟩

theorem unmapPages_unaligned {pages fuel : Nat} {anonymous : Bool} {batch after : Batch}
    (pages_eq : unmapPages l4Addr endPage block.bytes pages block anonymous fuel batch = .ok after)
    (unaligned : ¬block.bytes ∣ batch.currentPage) : after.effects = batch.effects := by
  induction fuel generalizing batch with
  | zero =>
      rw [unmapPages] at pages_eq
      split at pages_eq
      · cases pages_eq
      · cases pages_eq
        rfl
  | succ fuel ih =>
      rw [unmapPages] at pages_eq
      split at pages_eq
      · obtain ⟨next, batch_eq, rest_eq⟩ := bind_eq_ok.mp pages_eq
        obtain ⟨frames_eq, effects_eq, still⟩ := unmapBatch_unaligned user batch_eq unaligned
        rw [finishBatch_eq] at rest_eq
        rw [ih rest_eq still, effects_eq]
        simp [batchEnd, frames_eq]
      · cases pages_eq
        rfl

end Unaligned

theorem detach_tables (vmm : VirtMemManager) (ptr : Nat) :
    (vmm.detach ptr).tables = vmm.tables ∧ (vmm.detach ptr).l4Addr = vmm.l4Addr := by
  rw [detach, (setPrev_tables _ _ _).1, (setPrev_tables _ _ _).2, (setNext_tables _ _ _).1,
    (setNext_tables _ _ _).2]
  exact ⟨rfl, rfl⟩

/-- What `munmap` does to the pages of the area it removes. -/
theorem munmap_unmapPages {vmm next : VirtMemManager} {vmas : List Nat} {ptr startAddr size : Nat}
    (list : VmaList vmm vmas) (mem : ptr ∈ vmas) (start_eq : (vmm.nodes ptr).start = startAddr)
    (call_eq : vmm.munmap startAddr size = .ok (.ok (), next)) :
    (vmm.nodes ptr).size = alignUp size ∧ ∃ pages after,
      unmapPages vmm.l4Addr (endOf (vmm.nodes ptr)) (blockSize (vmm.nodes ptr).flags).bytes pages
        (blockSize (vmm.nodes ptr).flags) (vmm.nodes ptr).backingVmo.isNone pages
        ⟨vmm.tables, startAddr, [], vmm.effects⟩ = .ok after ∧
      next.effects = after.effects := by
  rcases munmap_cases list startAddr size with ⟨message, error_eq, -⟩ |
    ⟨front, found, back, rfl, found_eq, size_eq, munmap_eq⟩
  · rw [error_eq] at call_eq
    cases call_eq
  · obtain rfl : found = ptr :=
      list.eq_of_start (by simp) mem (found_eq.trans start_eq.symm)
    refine ⟨size_eq, ?_⟩
    rw [munmap_eq] at call_eq
    obtain ⟨unmapped, unmap_eq, result_eq⟩ := map_eq_ok.mp call_eq
    have next_eq : next.effects = unmapped.effects :=
      (congrArg VirtMemManager.effects (Prod.mk.inj result_eq).2).symm
    have same := detach_content vmm found found
    obtain ⟨after, pages_eq, after_eq⟩ := bind_eq_ok.mp unmap_eq
    refine ⟨(vmm.nodes found).size / (blockSize (vmm.nodes found).flags).bytes + 1, after, ?_, ?_⟩
    · have backing : ((vmm.detach found).nodes found).backingVmo = (vmm.nodes found).backingVmo :=
        show (content _).backingVmo = (content _).backingVmo by rw [same]
      have fits : (vmm.nodes found).start + (vmm.nodes found).size < wordSize := by
        have bounded := list.bounded found mem
        rw [endOf] at bounded
        omega
      rw [stepSize_eq, start_of_content same, size_of_content same, flags_of_content same, backing,
        detach_effects, (detach_tables vmm found).1, (detach_tables vmm found).2,
        wrappingAdd_of_lt fits, found_eq] at pages_eq
      rw [endOf, found_eq]
      exact pages_eq
    · cases after_eq
      exact next_eq

/-- Rounding a size up to 4 KiB adds no page of either size. -/
theorem page_inside {size start page : Nat} {block : BlockSize} (word : size < wordSize)
    (aligned : block.bytes ∣ start) (ge : start ≤ page * block.bytes)
    (lt : page * block.bytes < start + alignUp size) : page * block.bytes < start + size := by
  have normal : NORMAL_PAGE_SIZE ∣ page * block.bytes - start :=
    Nat.dvd_sub ((Pager.bytes_dvd block).trans (Nat.dvd_mul_left _ _))
      ((Pager.bytes_dvd block).trans aligned)
  obtain ⟨number, offset_eq⟩ := normal
  have rounded := roundUp_cases word .Normal
  rw [show BlockSize.bytes .Normal = 4096 from rfl] at rounded
  rw [show alignUp size = roundUp size (4096 - 1) from rfl] at lt
  rcases rounded with ⟨round_eq, -⟩ | ⟨round_eq, -⟩
  · rw [round_eq, exactRound, show BlockSize.bytes .Normal = 4096 from rfl] at lt
    rw [show NORMAL_PAGE_SIZE = 4096 from rfl] at offset_eq
    omega
  · omega

/-- The effects of `munmap` invalidate its range, whatever the cores have cached of it. -/
def MunmapInvalidates {n : Nat} (self : Fin n) (region : Region) (effects : List Effect) : Prop :=
  ∀ tlb, (⟨region.space, tlb⟩ : Caches n).Coherent region.start region.size →
    Invalidates self region ⟨region.space, tlb⟩ effects

/-- A mapped page is found at each of its addresses. -/
theorem translate_ne_none_iff {tables : Tables} {l4Addr addr : Nat} {space : AddressSpace}
    (represents : Represents tables l4Addr space) (user : addr < USER_END) :
    Pager.translate tables l4Addr addr ≠ none ↔
      ∃ size phys, space size (addr / size.bytes) = some phys := by
  rw [Option.ne_none_iff_exists']
  constructor
  · rintro ⟨found, translated⟩
    obtain ⟨size, phys, stored, -⟩ := (Pager.translate_iff represents user found).mp translated
    exact ⟨size, phys, stored⟩
  · rintro ⟨size, phys, stored⟩
    exact ⟨_, (Pager.translate_iff represents user _).mpr ⟨size, phys, stored, rfl⟩⟩

/-- Effects that touch no page invalidate the range exactly when none is mapped in it. -/
theorem munmapInvalidates_nil {n : Nat} (self : Fin n) (region : Region) :
    MunmapInvalidates self region [] ↔
      ∀ translation : Translation, translation.Meets region.start region.size →
        region.space translation.size translation.page = none := by
  constructor
  · intro invalidates translation meets
    by_contra mapped
    obtain ⟨phys, stored⟩ := Option.ne_none_iff_exists'.mp mapped
    have coherent : (⟨region.space, fun _ => {⟨translation.page, phys, translation.size⟩}⟩ :
        Caches n).Coherent region.start region.size := by
      intro core cached cached_mem _
      obtain rfl := Set.mem_singleton_iff.mp cached_mem
      exact stored
    exact invalidates _ coherent _ (.refl _) self _ (Set.mem_singleton _) meets
  · intro vacant tlb coherent
    exact Clearing.invalidates (.done region.space) (by simp) rfl coherent vacant

section Area

variable {region : Region}

/-- On page boundaries, a page of the region's size that meets it begins in it. -/
theorem meets_base {translation : Translation} (aligned : region.block.bytes ∣ region.start)
    (size_eq : translation.size = region.block)
    (meets : translation.Meets region.start region.size) :
    region.start ≤ translation.page * region.block.bytes ∧
      translation.page * region.block.bytes < region.start + region.size := by
  obtain ⟨addr, ge, lt, covers⟩ := meets
  have positive := bytes_pos region.block
  rw [Translation.Covers, size_eq] at covers
  rw [← covers]
  constructor
  · obtain ⟨number, start_eq⟩ := aligned
    rw [start_eq] at ge ⊢
    rw [Nat.mul_comm region.block.bytes number] at ge ⊢
    exact Nat.mul_le_mul_right _ ((Nat.le_div_iff_mul_le positive).mpr ge)
  · exact (Nat.div_mul_le_self addr _).trans_lt lt

/-- When all pages are cleared, no page meets the range. -/
theorem Progress.vacant {l4Addr endPage : Nat} {batch : Batch} {space : AddressSpace}
    (progress : Progress region l4Addr batch space)
    (aligned : region.block.bytes ∣ region.start) (ge : endPage ≤ batch.currentPage)
    (covers : region.start + region.size ≤ endPage)
    (uniform : ∀ addr, region.start ≤ addr → addr < endPage → ∀ size ≠ region.block,
      region.space size (addr / size.bytes) = none) (translation : Translation)
    (meets : translation.Meets region.start region.size) :
    space translation.size translation.page = none := by
  by_cases same : translation.size = region.block
  · obtain ⟨base_ge, base_lt⟩ := meets_base aligned same meets
    rw [same]
    exact progress.cleared _ base_ge (by omega)
  · obtain ⟨addr, addr_ge, addr_lt, covered⟩ := meets
    rw [progress.other _ same, ← covered]
    exact uniform addr addr_ge (by omega) _ same

variable {n : Nat} {self : Fin n} {l4Addr endPage pages fuel : Nat} {anonymous : Bool}
  {tables : Tables} {effects : List Effect} {after : Batch}
  (represents : Represents tables l4Addr region.space) (user : endPage ≤ USER_END)
  (uniform : ∀ addr, region.start ≤ addr → addr < endPage → ∀ size ≠ region.block,
    region.space size (addr / size.bytes) = none)
  (inside : ∀ page, region.start ≤ page * region.block.bytes →
    page * region.block.bytes < endPage →
    page * region.block.bytes < region.start + region.size)
  (covers : region.start + region.size ≤ endPage)
  (aligned : region.block.bytes ∣ region.start)
  (pages_eq : unmapPages l4Addr endPage region.block.bytes pages region.block anonymous fuel
    ⟨tables, region.start, [], effects⟩ = .ok after)
include represents user uniform inside covers aligned pages_eq

omit user uniform inside covers pages_eq in
theorem Progress.initial (effects : List Effect) :
    Progress region l4Addr ⟨tables, region.start, [], effects⟩ region.space :=
  ⟨represents, aligned, le_rfl, fun _ ge lt => absurd ge (Nat.not_le.mpr lt), fun _ _ => rfl,
    fun _ _ => rfl, by simp⟩

/-- A single core invalidates all it unmaps. -/
theorem invalidates_of_single (single : ∀ core, core = self) :
    MunmapInvalidates self region (after.effects.drop effects.length) := by
  intro tlb coherent
  obtain ⟨final, trace, trace_eq, clearing, done, ge, -⟩ :=
    (Progress.initial represents aligned effects).unmapPages user uniform inside pages_eq
  rw [trace_eq, List.drop_left]
  exact clearing.invalidates (fun _ _ => single) rfl coherent
    (done.vacant aligned ge covers uniform)

/-- A range whose first page only was present is invalidated on all cores. -/
theorem invalidates_of_first (lt : region.start < endPage)
    (vacant : ∀ page, region.start < page * region.block.bytes →
      page * region.block.bytes < endPage → region.space region.block page = none) :
    MunmapInvalidates self region (after.effects.drop effects.length) := by
  intro tlb coherent
  have started := Progress.initial represents aligned effects
  obtain ⟨final, trace, trace_eq, clearing, done, ge, -⟩ :=
    started.unmapPages user uniform inside pages_eq
  have final_vacant := done.vacant aligned ge covers uniform
  rw [trace_eq, List.drop_left]
  rcases started.unmapPages_first user uniform inside rfl lt vacant pages_eq with
    none_eq | ⟨length, frames, first_eq⟩
  · obtain rfl : trace = [] := by simpa [none_eq] using trace_eq
    exact clearing.invalidates (by simp) rfl coherent final_vacant
  · obtain rfl := List.append_cancel_left (trace_eq.symm.trans first_eq)
    refine clearing.invalidates_first (by simp) rfl coherent (fun translation meets => ?_)
      final_vacant
    rw [AddressSpace.set]
    split
    next => rfl
    next elsewhere =>
      by_cases same : translation.size = region.block
      · obtain ⟨base_ge, base_lt⟩ := meets_base aligned same meets
        rw [same]
        rcases Nat.eq_or_lt_of_le base_ge with here | behind
        · refine absurd ⟨same, ?_⟩ elsewhere
          rw [here, Nat.mul_div_cancel _ (bytes_pos region.block)]
        · exact vacant _ behind (by omega)
      · obtain ⟨addr, addr_ge, addr_lt, covered⟩ := meets
        rw [← covered]
        exact uniform addr addr_ge (by omega) _ same

omit covers in
/-- A second present page stays cached on another core. -/
theorem not_invalidates_of_second {other : Fin n} (ne : other ≠ self) {number phys : Nat}
    (gt : region.start < number * region.block.bytes)
    (lt : number * region.block.bytes < endPage)
    (present : region.space region.block number = some phys) :
    ¬MunmapInvalidates self region (after.effects.drop effects.length) := by
  intro invalidates
  have positive := bytes_pos region.block
  -- The first such page is handled in the first batch.
  have exists_present : ∃ number, region.start < number * region.block.bytes ∧
      number * region.block.bytes < endPage ∧ region.space region.block number ≠ none :=
    ⟨number, gt, lt, by simp [present]⟩
  obtain ⟨number, ⟨gt, lt, some_ne⟩, first⟩ :
      ∃ number, (region.start < number * region.block.bytes ∧
        number * region.block.bytes < endPage ∧ region.space region.block number ≠ none) ∧
      ∀ page < number, ¬(region.start < page * region.block.bytes ∧
        page * region.block.bytes < endPage ∧ region.space region.block page ≠ none) := by
    classical
    exact ⟨Nat.find exists_present, Nat.find_spec exists_present,
      fun page page_lt => Nat.find_min exists_present page_lt⟩
  obtain ⟨phys, present⟩ := Option.ne_none_iff_exists'.mp some_ne
  have vacant : ∀ page, region.start < page * region.block.bytes → page < number →
      region.space region.block page = none := by
    intro page page_gt page_lt
    by_contra mapped
    exact first page page_lt ⟨page_gt, (Nat.mul_le_mul_right _ page_lt.le).trans_lt lt, mapped⟩
  have le : region.start + region.block.bytes ≤ number * region.block.bytes := by
    obtain ⟨index, start_eq⟩ := aligned
    rw [start_eq, Nat.mul_comm region.block.bytes index] at gt ⊢
    rw [← Nat.succ_mul]
    exact Nat.mul_le_mul_right _ (Nat.lt_of_mul_lt_mul_right gt)
  obtain ⟨trace, trace_eq, bound⟩ := (Progress.initial represents aligned effects).unmapPages_second
    user uniform inside rfl le lt vacant pages_eq
  rw [trace_eq, List.drop_left] at invalidates
  have meets : Translation.Meets ⟨number, phys, region.block⟩ region.start region.size :=
    ⟨number * region.block.bytes, gt.le, inside number gt.le lt,
      Nat.mul_div_cancel number positive⟩
  refine not_invalidates ne meets (fun addr size mem covered => ?_) ?_
    (invalidates (Function.update (fun _ => ∅) other {⟨number, phys, region.block⟩}) ?_)
  · have covered : addr / region.block.bytes = number := covered
    rcases bound addr size mem with rfl | behind
    · have base := Nat.div_mul_cancel aligned
      rw [covered] at base
      omega
    · have later := (Nat.le_div_iff_mul_le positive).mpr behind
      omega
  · simp
  · intro core translation cached _
    by_cases here : core = other
    · subst here
      obtain rfl : translation = ⟨number, phys, region.block⟩ := by simpa using cached
      exact present
    · simp [here] at cached

variable (region) in
/-- On a page boundary: one core, or no present page but the first. -/
theorem invalidates_iff_aligned (lt : region.start < endPage) :
    MunmapInvalidates self region (after.effects.drop effects.length) ↔
      n = 1 ∨ ∀ addr, region.start ≤ addr → addr < region.start + region.size →
        Pager.translate tables l4Addr addr ≠ none →
        addr / region.block.bytes * region.block.bytes = region.start := by
  have positive := bytes_pos region.block
  constructor
  · intro invalidates
    by_contra neither
    rw [not_or] at neither
    obtain ⟨several, elsewhere⟩ := neither
    refine elsewhere fun addr ge addr_lt present => ?_
    have two : Nontrivial (Fin n) := Fin.nontrivial_iff_two_le.mpr (by
      have one_le := self.pos
      omega)
    obtain ⟨other, ne⟩ := exists_ne self
    obtain ⟨size, phys, stored⟩ :=
      (translate_ne_none_iff represents (by omega)).mp present
    obtain rfl : size = region.block := by
      by_contra differs
      rw [uniform addr ge (by omega) size differs] at stored
      cases stored
    have base := meets_base aligned rfl
      (show Translation.Meets ⟨addr / region.block.bytes, phys, region.block⟩ _ _ from
        ⟨addr, ge, addr_lt, rfl⟩)
    by_contra off
    exact not_invalidates_of_second represents user uniform inside aligned pages_eq ne
      (lt_of_le_of_ne base.1 (Ne.symm off)) (by
        have base_lt := base.2
        dsimp only at base_lt
        omega) stored invalidates
  · rintro (rfl | only)
    · exact invalidates_of_single represents user uniform inside covers aligned pages_eq
        fun core => Subsingleton.elim core self
    · refine invalidates_of_first represents user uniform inside covers aligned pages_eq lt
        fun page gt page_lt => ?_
      by_contra mapped
      obtain ⟨phys, stored⟩ := Option.ne_none_iff_exists'.mp mapped
      have base := only _ gt.le (inside page gt.le page_lt)
        ((translate_ne_none_iff represents (by omega)).mpr
          ⟨region.block, phys, by rwa [Nat.mul_div_cancel page positive]⟩)
      rw [Nat.mul_div_cancel page positive] at base
      omega

variable (region) in
omit uniform inside aligned in
/-- Off the page boundaries: no present page at all. -/
theorem invalidates_iff_unaligned (unaligned : ¬region.block.bytes ∣ region.start) :
    MunmapInvalidates self region (after.effects.drop effects.length) ↔
      ∀ addr, region.start ≤ addr → addr < region.start + region.size →
        Pager.translate tables l4Addr addr ≠ none →
        addr / region.block.bytes * region.block.bytes = region.start := by
  have silent : after.effects = effects := unmapPages_unaligned user pages_eq unaligned
  rw [silent, List.drop_length, munmapInvalidates_nil]
  constructor
  · intro vacant addr ge addr_lt present
    obtain ⟨size, phys, stored⟩ := (translate_ne_none_iff represents (by omega)).mp present
    have gone := vacant ⟨addr / size.bytes, phys, size⟩ ⟨addr, ge, addr_lt, rfl⟩
    dsimp only at gone
    rw [stored] at gone
    cases gone
  · rintro only translation ⟨addr, ge, addr_lt, covered⟩
    by_contra mapped
    obtain ⟨phys, stored⟩ := Option.ne_none_iff_exists'.mp mapped
    have base := only addr ge addr_lt ((translate_ne_none_iff represents (by omega)).mpr
      ⟨translation.size, phys, by rwa [show addr / _ = _ from covered]⟩)
    exact unaligned (base ▸ Nat.dvd_mul_left _ _)

end Area

theorem le_alignUp {size : Nat} (word : size < wordSize) (positive : 0 < alignUp size) :
    size ≤ alignUp size := by
  rcases roundUp_cases word .Normal with ⟨round_eq, -⟩ | ⟨round_eq, -⟩
  · rw [show alignUp size = exactRound size .Normal from round_eq]
    exact le_exactRound size .Normal
  · rw [show alignUp size = 0 from round_eq] at positive
    omega

/-- **Invalidation.** After a successful `munmap`, and at every frame it returned, no core can use
a translation of an unmapped page, exactly when the area begins on a page boundary of the only
core, or no page of the range was present but one that begins with it. -/
theorem munmap_invalidates_iff {n : Nat} (self : Fin n) {vmm next : VirtMemManager}
    {vmas : List Nat} {ptr startAddr size : Nat} {space : AddressSpace} (list : VmaList vmm vmas)
    (mem : ptr ∈ vmas) (start_eq : (vmm.nodes ptr).start = startAddr)
    (area : UserArea vmm (vmm.nodes ptr) space) (word : size < wordSize)
    (call_eq : vmm.munmap startAddr size = .ok (.ok (), next)) :
    MunmapInvalidates self ⟨startAddr, size, blockSize (vmm.nodes ptr).flags, space⟩
        (next.effects.drop vmm.effects.length) ↔
      n = 1 ∧ (blockSize (vmm.nodes ptr).flags).bytes ∣ startAddr ∨
      ∀ addr, startAddr ≤ addr → addr < startAddr + size →
        Pager.translate vmm.tables vmm.l4Addr addr ≠ none →
        addr / (blockSize (vmm.nodes ptr).flags).bytes * (blockSize (vmm.nodes ptr).flags).bytes =
          startAddr := by
  obtain ⟨size_eq, pages, after, pages_eq, effects_eq⟩ :=
    munmap_unmapPages list mem start_eq call_eq
  have nonempty := list.nonempty ptr mem
  have end_eq : endOf (vmm.nodes ptr) = startAddr + alignUp size := by
    rw [endOf, start_eq, size_eq]
  have covers : startAddr + size ≤ endOf (vmm.nodes ptr) := by
    have le := le_alignUp word (size_eq ▸ nonempty)
    omega
  have uniform := area.uniform
  rw [start_eq] at uniform
  rw [effects_eq]
  by_cases aligned : (blockSize (vmm.nodes ptr).flags).bytes ∣ startAddr
  · simp only [aligned, and_true]
    refine invalidates_iff_aligned ⟨startAddr, size, _, space⟩ area.represents area.user uniform
      (fun page ge lt => page_inside word aligned ge (end_eq ▸ lt)) covers aligned
      pages_eq (show startAddr < endOf (vmm.nodes ptr) by omega)
  · simp only [aligned, and_false, false_or]
    exact invalidates_iff_unaligned ⟨startAddr, size, _, space⟩ area.represents
      area.user covers pages_eq aligned

/-- One anonymous area at the base address, in a process with the given page tables. -/
def oneArea (size : Nat) (tables : Tables) : VirtMemManager where
  head := some 7
  nodes := fun _ => ⟨VM_BASE_ADDR, size, VM_FLAG_WRITE ||| VM_FLAG_USER, none, none, none, 0⟩
  live := [7]
  l4Addr := 0x1000
  tables := tables
  effects := []

theorem oneArea_block (size ptr : Nat) (tables : Tables) :
    blockSize ((oneArea size tables).nodes ptr).flags = .Normal :=
  show blockSize (VM_FLAG_WRITE ||| VM_FLAG_USER) = .Normal by decide

theorem oneArea_list {size : Nat} (positive : 0 < size) (small : size ≤ 0x2000) (tables : Tables) :
    VmaList (oneArea size tables) [7] := by
  refine ⟨⟨rfl, by simp, rfl, rfl, trivial⟩, by simp, fun _ _ => positive, fun _ _ => ?_, .refl _⟩
  have room : VM_BASE_ADDR + 0x2000 + 2 ^ 21 ≤ wordSize := by decide
  change VM_BASE_ADDR + size + 2 ^ 21 ≤ wordSize
  omega

/-- Unmapping the area succeeds. -/
theorem oneArea_munmap {size : Nat} (positive : 0 < size) (small : size ≤ 0x2000)
    (pages : alignUp size = size) (tables : Tables) :
    ∃ next, (oneArea size tables).munmap VM_BASE_ADDR size = .ok (.ok (), next) := by
  have list := oneArea_list positive small tables
  rcases munmap_cases list VM_BASE_ADDR size with ⟨-, -, missing⟩ |
    ⟨front, ptr, back, -, -, -, munmap_eq⟩
  · exact absurd pages.symm (missing 7 (by simp) rfl)
  · have same := detach_content (oneArea size tables) ptr ptr
    obtain ⟨after, unmap_eq⟩ := unmapArea_ok ((oneArea size tables).detach ptr)
      (((oneArea size tables).detach ptr).nodes ptr)
      (by
        rw [flags_of_content same, start_of_content same, oneArea_block]
        exact (show NORMAL_PAGE_SIZE ∣ VM_BASE_ADDR by decide))
      (by
        rw [endOf_of_content same]
        exact list.bounded 7 (by simp))
    exact ⟨_, by rw [munmap_eq, unmap_eq]; rfl⟩

/-- The address space with a single page, in frame `0x5000`. -/
def onePage (page : Nat) : AddressSpace :=
  AddressSpace.set (fun _ _ => none) .Normal page (some 0x5000)

/-- Tables that store a single page. -/
theorem onePage_represented {virt : Nat} (user : virt < USER_END) :
    ∃ tables, Represents tables 0x1000 (onePage (virt / NORMAL_PAGE_SIZE)) := by
  have empty : ∀ index < 256, ((fun _ _ => .unused : Tables) 0x1000 index).isPresent = false :=
    fun _ _ => PageTableEntry.isPresent_unused
  have supplies : Supplies (fun _ _ => .unused) 0x1000 [0x6000, 0x7000, 0x8000] 3 := by
    refine ⟨by decide, by decide, by decide, by decide, ?_⟩
    intro frame mem path live reached
    by_cases nonempty : path = []
    · subst nonempty
      obtain rfl : 0x1000 = frame := Option.some.inj reached
      exact absurd mem (by decide)
    · rw [Pager.walk_of_empty empty live nonempty] at reached
      cases reached
  obtain ⟨after, -, represents⟩ := mapPage_spec (Pager.represents_empty empty) user
    (show NORMAL_PAGE_SIZE ∣ 0x5000 by decide) (by decide)
    (show ValidFlags (convertVmFlags (VM_FLAG_WRITE ||| VM_FLAG_USER)) from ⟨rfl, rfl⟩)
    (show NoOtherSize (fun _ _ => none) virt .Normal from rfl) supplies
  exact ⟨after.tables, represents⟩

theorem oneArea_userArea {size page : Nat} {tables : Tables} (small : size ≤ 0x2000)
    (represents : Represents tables 0x1000 (onePage page)) :
    UserArea (oneArea size tables) ((oneArea size tables).nodes 7) (onePage page) := by
  refine ⟨represents, ?_, fun addr _ _ other differs => ?_⟩
  · have room : VM_BASE_ADDR + 0x2000 ≤ USER_END := by decide
    change VM_BASE_ADDR + size ≤ USER_END
    omega
  · rw [oneArea_block] at differs
    exact if_neg fun here => differs here.1

/-- An area of one page, present, is invalidated on two cores. -/
theorem munmap_invalidates_iff_one_page : ∃ tables next,
    Represents tables 0x1000 (onePage (VM_BASE_ADDR / NORMAL_PAGE_SIZE)) ∧
    (oneArea 0x1000 tables).munmap VM_BASE_ADDR 0x1000 = .ok (.ok (), next) ∧
    MunmapInvalidates (0 : Fin 2)
      ⟨VM_BASE_ADDR, 0x1000, .Normal, onePage (VM_BASE_ADDR / NORMAL_PAGE_SIZE)⟩
      next.effects := by
  obtain ⟨tables, represents⟩ := onePage_represented (show VM_BASE_ADDR < USER_END by decide)
  obtain ⟨next, call_eq⟩ :=
    oneArea_munmap (show 0 < 0x1000 by decide) (by decide) (by decide) tables
  refine ⟨tables, next, represents, call_eq, ?_⟩
  have iff := munmap_invalidates_iff (0 : Fin 2) (oneArea_list (by decide) (by decide) tables)
    (List.mem_singleton_self 7) (show _ = VM_BASE_ADDR from rfl)
    (oneArea_userArea (by decide) represents) (by decide) call_eq
  rw [oneArea_block] at iff
  refine iff.mpr (.inr fun addr ge lt _ => ?_)
  change addr / 4096 * 4096 = 1073741824
  change 1073741824 ≤ addr at ge
  change addr < 1073741824 + 4096 at lt
  omega

/-- The second page of an area stays cached on the other one of two cores. -/
theorem second_page_cached : ∃ tables next,
    UserArea (oneArea 0x2000 tables) ((oneArea 0x2000 tables).nodes 7) (onePage 0x40001) ∧
    (oneArea 0x2000 tables).munmap VM_BASE_ADDR 0x2000 = .ok (.ok (), next) ∧
    ¬MunmapInvalidates (0 : Fin 2) ⟨VM_BASE_ADDR, 0x2000, .Normal, onePage 0x40001⟩
      next.effects := by
  obtain ⟨tables, represents⟩ : ∃ tables, Represents tables 0x1000 (onePage 0x40001) :=
    onePage_represented (show 0x40001000 < USER_END by decide)
  obtain ⟨next, call_eq⟩ :=
    oneArea_munmap (show 0 < 0x2000 by decide) (by decide) (by decide) tables
  have area := oneArea_userArea (show 0x2000 ≤ 0x2000 from le_rfl) represents
  refine ⟨tables, next, area, call_eq, ?_⟩
  obtain ⟨-, pages, after, pages_eq, effects_eq⟩ := munmap_unmapPages
    (oneArea_list (by decide) (by decide) tables) (List.mem_singleton_self 7) rfl call_eq
  have uniform := area.uniform
  rw [oneArea_block] at pages_eq uniform
  rw [effects_eq]
  have inside : ∀ page, VM_BASE_ADDR ≤ page * NORMAL_PAGE_SIZE →
      page * NORMAL_PAGE_SIZE < VM_BASE_ADDR + alignUp 0x2000 →
      page * NORMAL_PAGE_SIZE < VM_BASE_ADDR + 0x2000 := fun page ge lt =>
    page_inside (show 0x2000 < wordSize by decide)
      (show BlockSize.Normal.bytes ∣ VM_BASE_ADDR by decide) ge lt
  have present : onePage 0x40001 .Normal 0x40001 = some 0x5000 := by decide
  have stays := @not_invalidates_of_second ⟨VM_BASE_ADDR, 0x2000, .Normal, onePage 0x40001⟩ 2 0
    _ _ _ _ _ _ _ _ represents area.user uniform inside (by decide) pages_eq 1 (by decide) 0x40001
    0x5000 (show VM_BASE_ADDR < 0x40001 * NORMAL_PAGE_SIZE by decide)
    (show 0x40001 * NORMAL_PAGE_SIZE < VM_BASE_ADDR + 0x2000 by decide) present
  exact stays

end VirtMemManager
end Vespertine
