import Vespertine.Memory.Buddy

/-!
# Runs of the page allocator

The allocator is seeded with the frames the boot bitmap reports free and then serves calls.  The
seeding loops free a greedy decomposition of every maximal free run into aligned blocks, so a
seeded allocator satisfies the buddy invariant, and every call keeps it.
-/

namespace Vespertine

open DyadicBlock

namespace Allocator

/-! ## Seeding -/

/-- The blocks one run of frames is freed as. -/
def runBlocks (endFrame : Nat) : (fuel startFrame : Nat) → List DyadicBlock
  | 0, _ => []
  | fuel + 1, startFrame =>
      if startFrame < endFrame then
        let order := fitOrder (min (trailingZeros startFrame) ORDER_MAX) (endFrame - startFrame)
        ⟨startFrame, order⟩ :: runBlocks endFrame fuel (startFrame + 2 ^ order)
      else
        []

/-- The blocks all free runs are freed as. -/
def seedBlocks (isFree : Nat → Bool) (totalFrames : Nat) : (fuel cursor : Nat) → List DyadicBlock
  | 0, _ => []
  | fuel + 1, cursor =>
      if cursor < totalFrames then
        let startFrame := advance totalFrames (fun frame => !isFree frame) totalFrames cursor
        if startFrame ≥ totalFrames then
          []
        else
          let endFrame := advance totalFrames isFree totalFrames startFrame
          runBlocks endFrame (endFrame - startFrame) startFrame ++
            seedBlocks isFree totalFrames fuel endFrame
      else
        []

/-- Free a sequence of blocks. -/
def freeAll (pmm : Allocator) : List DyadicBlock → Kernel Allocator
  | [] => .ok pmm
  | block :: blocks => do
      let pmm ← pmm.freeOrder (block.base * NORMAL_PAGE_SIZE) block.order
      pmm.freeAll blocks

theorem freeAll_append (pmm : Allocator) (left right : List DyadicBlock) :
    pmm.freeAll (left ++ right) = pmm.freeAll left >>= fun middle => middle.freeAll right := by
  induction left generalizing pmm with
  | nil => rfl
  | cons block blocks ih =>
      rw [List.cons_append, freeAll, freeAll]
      cases pmm.freeOrder (block.base * NORMAL_PAGE_SIZE) block.order with
      | error problem => rfl
      | ok next => exact ih next

theorem seedRun_eq (endFrame fuel startFrame : Nat) (pmm : Allocator) :
    seedRun endFrame fuel pmm startFrame = pmm.freeAll (runBlocks endFrame fuel startFrame) := by
  induction fuel generalizing pmm startFrame with
  | zero => rfl
  | succ fuel ih =>
      rw [seedRun, runBlocks]
      split
      · simp only [freeAll, ih]
      · rfl

theorem seed_eq (isFree : Nat → Bool) (totalFrames fuel cursor : Nat) (pmm : Allocator) :
    seed isFree totalFrames fuel pmm cursor =
      pmm.freeAll (seedBlocks isFree totalFrames fuel cursor) := by
  induction fuel generalizing pmm cursor with
  | zero => rfl
  | succ fuel ih =>
      rw [seed, seedBlocks]
      split
      · simp only [seedRun_eq]
        split
        · rfl
        · simp only [freeAll_append, ih]
      · rfl

theorem fitOrder_le (order available : Nat) : fitOrder order available ≤ order := by
  induction order with
  | zero => exact le_refl _
  | succ order ih =>
      rw [fitOrder]
      split
      · omega
      · exact le_refl _

theorem fitOrder_fits (order : Nat) {available : Nat} (positive : 0 < available) :
    2 ^ fitOrder order available ≤ available := by
  induction order with
  | zero => exact positive
  | succ order ih =>
      rw [fitOrder]
      split
      · exact ih
      · omega

theorem two_pow_dvd_of_testBit {word bits : Nat} (zeros : ∀ bit < bits, word.testBit bit = false) :
    2 ^ bits ∣ word := by
  apply Nat.dvd_of_mod_eq_zero
  apply Nat.eq_of_testBit_eq
  intro bit
  rw [Nat.testBit_mod_two_pow, Nat.zero_testBit]
  by_cases low : bit < bits
  · simp [zeros bit low]
  · simp [low]

theorem two_pow_trailingZeros_dvd (word : Nat) : 2 ^ trailingZeros word ∣ word := by
  apply two_pow_dvd_of_testBit
  intro bit bit_lt
  rw [trailingZeros] at bit_lt
  cases found : (List.range 64).find? fun bit => word.testBit bit with
  | none =>
      rw [found, Option.getD_none] at bit_lt
      have none_set := List.find?_eq_none.mp found bit (List.mem_range.mpr bit_lt)
      simpa using none_set
  | some lowest =>
      rw [found, Option.getD_some] at bit_lt
      obtain ⟨-, front, back, range_eq, unset⟩ := List.find?_eq_some_iff_append.mp found
      have lowest_eq : lowest = front.length := by
        have at_front := congrArg (fun list => list[front.length]?) range_eq
        have short : front.length < 64 := by
          have lengths := congrArg List.length range_eq
          simp at lengths
          omega
        simp [short] at at_front
        exact at_front.symm
      have bit_mem : bit ∈ front := by
        have in_range : bit ∈ (List.range 64).take front.length := by
          have short : front.length ≤ 64 := by
            have lengths := congrArg List.length range_eq
            simp at lengths
            omega
          rw [List.take_range, List.mem_range]
          omega
        rwa [range_eq, List.take_left'] at in_range
        rfl
      simpa using unset bit bit_mem

/-- The order chosen for a run of frames aligns its block. -/
theorem fitOrder_aligned (startFrame available : Nat) :
    2 ^ fitOrder (min (trailingZeros startFrame) ORDER_MAX) available ∣ startFrame := by
  have small := fitOrder_le (min (trailingZeros startFrame) ORDER_MAX) available
  exact (Nat.pow_dvd_pow 2 (small.trans (Nat.min_le_left _ _))).trans
    (two_pow_trailingZeros_dvd startFrame)

theorem owners_append (left right : List DyadicBlock) (number : Nat) :
    owners (left ++ right) number = owners left number + owners right number :=
  List.countP_append

/-- The blocks of a run tile exactly the run. -/
theorem owners_runBlocks {endFrame fuel startFrame : Nat} (enough : endFrame - startFrame ≤ fuel)
    (frame : Nat) :
    owners (runBlocks endFrame fuel startFrame) frame =
      if startFrame ≤ frame ∧ frame < endFrame then 1 else 0 := by
  induction fuel generalizing startFrame with
  | zero =>
      rw [runBlocks, if_neg (by omega)]
      rfl
  | succ fuel ih =>
      rw [runBlocks]
      by_cases inside : startFrame < endFrame
      · simp only [if_pos inside]
        set order := fitOrder (min (trailingZeros startFrame) ORDER_MAX) (endFrame - startFrame)
        have fits : 2 ^ order ≤ endFrame - startFrame := fitOrder_fits _ (by omega)
        have positive := Nat.two_pow_pos order
        have covers_iff : (⟨startFrame, order⟩ : DyadicBlock).Covers frame ↔
            startFrame ≤ frame ∧ frame < startFrame + 2 ^ order := Iff.rfl
        rw [owners_cons, ih (by omega)]
        by_cases low : (⟨startFrame, order⟩ : DyadicBlock).Covers frame
        · have bounds := covers_iff.mp low
          rw [if_pos low, if_neg (by omega), if_pos (by omega)]
        · have outside := mt covers_iff.mpr low
          rw [if_neg low, Nat.add_zero]
          by_cases high : startFrame + 2 ^ order ≤ frame ∧ frame < endFrame
          · rw [if_pos high, if_pos (by omega)]
          · rw [if_neg high, if_neg (by omega)]
      · rw [if_neg inside, if_neg (by omega)]
        rfl

theorem runBlocks_valid {endFrame fuel startFrame : Nat} {block : DyadicBlock}
    (mem : block ∈ runBlocks endFrame fuel startFrame) :
    block.Aligned ∧ block.order ≤ ORDER_MAX := by
  induction fuel generalizing startFrame with
  | zero => simp [runBlocks] at mem
  | succ fuel ih =>
      rw [runBlocks] at mem
      split at mem
      · rcases List.mem_cons.mp mem with rfl | later
        · exact ⟨fitOrder_aligned _ _, (fitOrder_le _ _).trans (Nat.min_le_right _ _)⟩
        · exact ih later
      · simp at mem

/-- Where a cursor stops: everything passed satisfies the predicate, the stop does not. -/
theorem advance_spec (limit : Nat) (keep : Nat → Bool) {fuel cursor : Nat}
    (enough : limit - cursor ≤ fuel) (cursor_le : cursor ≤ limit) :
    cursor ≤ advance limit keep fuel cursor ∧ advance limit keep fuel cursor ≤ limit ∧
      (∀ frame, cursor ≤ frame → frame < advance limit keep fuel cursor → keep frame = true) ∧
      (advance limit keep fuel cursor < limit →
        keep (advance limit keep fuel cursor) = false) := by
  induction fuel generalizing cursor with
  | zero =>
      rw [advance]
      exact ⟨le_refl _, cursor_le, fun frame lower upper => by omega, fun lt => by omega⟩
  | succ fuel ih =>
      rw [advance]
      split
      · next continues =>
          have enough : limit - (cursor + 1) ≤ fuel := by omega
          obtain ⟨lower, upper, passed, stop⟩ := ih enough (by omega)
          refine ⟨by omega, upper, fun frame above below => ?_, stop⟩
          by_cases here : frame = cursor
          · rw [here]
            exact continues.2
          · exact passed frame (by omega) below
      · next stops =>
          refine ⟨le_refl _, cursor_le, fun frame lower upper => by omega, fun lt => ?_⟩
          exact Bool.eq_false_iff.mpr fun kept => stops ⟨lt, kept⟩

/-- The seeded blocks tile exactly the frames reported free. -/
theorem owners_seedBlocks {isFree : Nat → Bool} {totalFrames fuel cursor : Nat}
    (enough : totalFrames - cursor < fuel) (frame : Nat) :
    owners (seedBlocks isFree totalFrames fuel cursor) frame =
      if cursor ≤ frame ∧ frame < totalFrames ∧ isFree frame = true then 1 else 0 := by
  induction fuel generalizing cursor with
  | zero => omega
  | succ fuel ih =>
      rw [seedBlocks]
      by_cases inside : cursor < totalFrames
      · rw [if_pos inside]
        set startFrame := advance totalFrames (fun frame => !isFree frame) totalFrames cursor
        obtain ⟨start_ge, start_le, skipped, start_stop⟩ := advance_spec totalFrames
          (fun frame => !isFree frame) (show totalFrames - cursor ≤ totalFrames by omega) inside.le
        by_cases beyond : startFrame ≥ totalFrames
        · simp only [if_pos beyond]
          rw [if_neg]
          · rfl
          · rintro ⟨above, below, free⟩
            have used := skipped frame above (by omega)
            simp [free] at used
        · simp only [if_neg beyond]
          have start_free : isFree startFrame = true := by simpa using start_stop (by omega)
          set endFrame := advance totalFrames isFree totalFrames startFrame
          obtain ⟨end_ge, end_le, taken, end_stop⟩ := advance_spec totalFrames
            isFree (show totalFrames - startFrame ≤ totalFrames by omega) start_le
          have end_gt : startFrame < endFrame := by
            by_contra not_gt
            have same : endFrame = startFrame := by omega
            have used := end_stop (by omega)
            rw [show advance totalFrames isFree totalFrames startFrame = startFrame from same]
              at used
            simp [start_free] at used
          rw [owners_append, owners_runBlocks (le_refl _), ih (by omega)]
          by_cases before : frame < startFrame
          · have not_free : ¬(cursor ≤ frame ∧ frame < totalFrames ∧ isFree frame = true) := by
              rintro ⟨above, -, free⟩
              have used := skipped frame above before
              simp [free] at used
            rw [if_neg (by omega), if_neg (by omega), if_neg not_free]
          · by_cases within : frame < endFrame
            · have free := taken frame (by omega) within
              rw [if_pos (by omega), if_neg (by omega), if_pos ⟨by omega, by omega, free⟩]
            · have same : (endFrame ≤ frame ∧ frame < totalFrames ∧ isFree frame = true) ↔
                  (cursor ≤ frame ∧ frame < totalFrames ∧ isFree frame = true) := by
                constructor <;> rintro ⟨-, below, free⟩ <;> exact ⟨by omega, below, free⟩
              rw [if_neg (by omega), Nat.zero_add]
              simp only [same]
      · rw [if_neg inside, if_neg (by omega)]
        rfl

theorem seedBlocks_valid {isFree : Nat → Bool} {totalFrames fuel cursor : Nat}
    {block : DyadicBlock} (mem : block ∈ seedBlocks isFree totalFrames fuel cursor) :
    block.Aligned ∧ block.order ≤ ORDER_MAX := by
  induction fuel generalizing cursor with
  | zero => simp [seedBlocks] at mem
  | succ fuel ih =>
      rw [seedBlocks] at mem
      split at mem
      · dsimp only at mem
        split at mem
        · simp at mem
        · rcases List.mem_append.mp mem with here | later
          · exact runBlocks_valid here
          · exact ih later
      · simp at mem

/-- No live block is flagged free at its head. -/
def HeadsNotFree (pmm : Allocator) (blocks : List DyadicBlock) : Prop :=
  ∀ block ∈ blocks, (pmm.pfndb block.base).flags &&& PF_FREE = 0

/-- Freeing live blocks one after another lists all of them. -/
theorem freeAll_spec {managed : Set Nat} {pmm : Allocator} {lists : Nat → List Nat}
    {freed kept : List DyadicBlock} (covers : Covers managed pmm.pfndbLen)
    (holds : Holds managed pmm lists (freed ++ kept)) (notFree : HeadsNotFree pmm (freed ++ kept)) :
    ∃ after lists', pmm.freeAll freed = .ok after ∧ Holds managed after lists' kept ∧
      after.pfndbLen = pmm.pfndbLen ∧ HeadsNotFree after kept ∧
      (Coalesced ORDER_MAX (freeBlocks lists) → Coalesced ORDER_MAX (freeBlocks lists')) := by
  induction freed generalizing pmm lists with
  | nil => exact ⟨pmm, lists, rfl, holds, rfl, notFree, id⟩
  | cons block blocks ih =>
      obtain ⟨middle, lists₁, free_eq, middleHolds, middle_len, middle_kept, coalesced⟩ :=
        freeOrder_spec covers holds (notFree block List.mem_cons_self)
      have middleNotFree : HeadsNotFree middle (blocks ++ kept) := by
        intro other mem
        rw [middle_kept other mem]
        exact notFree other (List.mem_cons_of_mem _ mem)
      obtain ⟨after, lists₂, rest_eq, afterHolds, after_len, afterNotFree, coalesced'⟩ :=
        ih (middle_len ▸ covers) middleHolds middleNotFree
      refine ⟨after, lists₂, ?_, afterHolds, after_len.trans middle_len, afterNotFree,
        coalesced' ∘ coalesced⟩
      rw [freeAll, free_eq]
      exact rest_eq

theorem fresh_freeLists (memory : Nat → FreeBlock) (pfndbLen : Nat) :
    FreeLists (fresh memory pfndbLen) fun _ => [] := by
  refine ⟨fun order _ => Links.isList_nil.mpr rfl, ?_, ?_, ?_, ?_, ?_⟩
  · simp
  · simp
  · simp
  · simp
  · exact fun pfn _ isHead => absurd isHead (kernel_not_isHead 1 0)

/-- The seeded blocks are those of a fresh table. -/
theorem fresh_holds (memory : Nat → FreeBlock) (pfndbLen totalFrames : Nat) (isFree : Nat → Bool) :
    Holds {frame | frame < totalFrames ∧ isFree frame = true} (fresh memory pfndbLen)
      (fun _ => []) (seedBlocks isFree totalFrames (totalFrames + 1) 0) := by
  refine ⟨fresh_freeLists memory pfndbLen, ?_, ?_, ?_⟩
  · intro frame
    have no_lists : freeBlocks (fun _ => []) = [] := by simp [freeBlocks]
    rw [no_lists, List.nil_append, owners_seedBlocks (by omega)]
    split
    · next inside => exact ⟨le_refl _, by simpa using inside⟩
    · next outside => exact ⟨Nat.zero_le _, by simpa using outside⟩
  · exact fun block mem => (seedBlocks_valid mem).1
  · exact fun block mem => (seedBlocks_valid mem).2

theorem fresh_notFree (memory : Nat → FreeBlock) (pfndbLen : Nat) (blocks : List DyadicBlock) :
    HeadsNotFree (fresh memory pfndbLen) blocks := by
  intro block _
  change PF_KERNEL &&& PF_FREE = 0
  decide

/-- Initialisation hands exactly the frames reported free to the allocator. -/
theorem init_spec (memory : Nat → FreeBlock) {pfndbLen totalFrames : Nat} {isFree : Nat → Bool}
    (covers : Covers {frame | frame < totalFrames ∧ isFree frame = true} pfndbLen) :
    ∃ pmm lists, init memory pfndbLen isFree totalFrames = .ok pmm ∧
      Holds {frame | frame < totalFrames ∧ isFree frame = true} pmm lists [] ∧
      pmm.pfndbLen = pfndbLen ∧ Coalesced ORDER_MAX (freeBlocks lists) := by
  set blocks := seedBlocks isFree totalFrames (totalFrames + 1) 0 with blocks_def
  have holds : Holds {frame | frame < totalFrames ∧ isFree frame = true} (fresh memory pfndbLen)
      (fun _ => []) (blocks ++ []) := by
    rw [List.append_nil]
    exact fresh_holds memory pfndbLen totalFrames isFree
  obtain ⟨pmm, lists, free_eq, seeded, len_eq, -, coalesced⟩ :=
    freeAll_spec covers holds (fresh_notFree memory pfndbLen _)
  refine ⟨pmm, lists, (seed_eq _ _ _ _ _).trans free_eq, seeded, len_eq, coalesced ?_⟩
  exact fun block mem => by simp [freeBlocks] at mem

/-! ## Calls -/

/-- The allocator and the blocks handed out and not yet freed. -/
structure Served where
  /-- The allocator. -/
  pmm : Allocator
  /-- Live blocks as runs of frames. -/
  live : List DyadicBlock

/-- What happens to the allocator and to the memory it handed out. -/
inductive Call
  | alloc (order : Nat)
  | free (addr order : Nat)
  | store (addr : Nat) (words : FreeBlock)

/-- One call.  A store is a write by the owner of a live block. -/
def serve (state : Served) : Call → Kernel Served
  | .alloc order => do
      let (result, pmm) ← state.pmm.allocOrder order
      match result with
      | none => return { state with pmm }
      | some addr => return { pmm, live := ⟨addr / NORMAL_PAGE_SIZE, order⟩ :: state.live }
  | .free addr order => do
      let pmm ← state.pmm.freeOrder addr order
      return { pmm, live := state.live.erase ⟨addr / NORMAL_PAGE_SIZE, order⟩ }
  | .store addr words => return { state with pmm := state.pmm.setBlock addr words }

/-- Orders are valid, only live blocks are freed, with their order, and only live blocks are
written by their owners. -/
def Allowed (state : Served) : Call → Prop
  | .alloc order => order ≤ ORDER_MAX
  | .free addr order =>
      NORMAL_PAGE_SIZE ∣ addr ∧ (⟨addr / NORMAL_PAGE_SIZE, order⟩ : DyadicBlock) ∈ state.live
  | .store addr _ => ∃ block ∈ state.live, block.Covers (addr / NORMAL_PAGE_SIZE)

/-- The allocator serving calls. -/
def service : Machine Served Call Panic where
  step := serve
  permitted := Allowed

/-- The state between two calls. -/
structure Sound (managed : Set Nat) (pfndbLen : Nat) (state : Served) : Prop where
  /-- The lists, the frame table and the tiling agree for some listing. -/
  holds : ∃ lists, Holds managed state.pmm lists state.live
  /-- The frame table keeps its length. -/
  len_eq : state.pmm.pfndbLen = pfndbLen
  /-- Freeing a live block passes the double-free check. -/
  notFree : HeadsNotFree state.pmm state.live

/-- Every permitted call succeeds, keeps the tiling, and lists no buddies if there were none. -/
theorem serve_spec {managed : Set Nat} {pfndbLen : Nat} (covers : Covers managed pfndbLen)
    {state : Served} {call : Call} {lists : Nat → List Nat}
    (holds : Holds managed state.pmm lists state.live) (len_eq : state.pmm.pfndbLen = pfndbLen)
    (notFree : HeadsNotFree state.pmm state.live) (allowed : Allowed state call) :
    ∃ next lists', serve state call = .ok next ∧ Holds managed next.pmm lists' next.live ∧
      next.pmm.pfndbLen = pfndbLen ∧ HeadsNotFree next.pmm next.live ∧
      (Coalesced ORDER_MAX (freeBlocks lists) → Coalesced ORDER_MAX (freeBlocks lists')) := by
  cases call with
  | alloc order =>
      rcases allocOrder_spec (len_eq ▸ covers.reaches) allowed holds with
        alloc_eq | ⟨base, after, lists', alloc_eq, afterHolds, after_len, flags_eq, kept, coalesced⟩
      · refine ⟨state, lists, ?_, holds, len_eq, notFree, id⟩
        rw [serve, alloc_eq]
        rfl
      · refine ⟨⟨after, ⟨base, order⟩ :: state.live⟩, lists', ?_, afterHolds,
          after_len.trans len_eq, ?_, coalesced⟩
        · rw [serve, alloc_eq]
          simp only [bind, Except.bind, mul_page_div]
          rfl
        · intro block mem
          rcases List.mem_cons.mp mem with rfl | old
          · change (after.pfndb base).flags &&& PF_FREE = 0
            rw [flags_eq]
            decide
          · change (after.pfndb block.base).flags &&& PF_FREE = 0
            rw [kept block old]
            exact notFree block old
  | free addr order =>
      obtain ⟨page, mem⟩ := allowed
      obtain ⟨base, rfl⟩ : ∃ base, addr = base * NORMAL_PAGE_SIZE :=
        ⟨addr / NORMAL_PAGE_SIZE, (Nat.div_mul_cancel page).symm⟩
      rw [mul_page_div] at mem
      obtain ⟨after, lists', free_eq, afterHolds, after_len, kept, coalesced⟩ :=
        freeOrder_spec (len_eq ▸ covers) (holds.front mem) (notFree _ mem)
      refine ⟨⟨after, state.live.erase ⟨base, order⟩⟩, lists', ?_, afterHolds,
        after_len.trans len_eq, ?_, coalesced⟩
      · rw [serve, free_eq, mul_page_div]
        rfl
      · intro block blockMem
        change (after.pfndb block.base).flags &&& PF_FREE = 0
        rw [kept block blockMem]
        exact notFree block (List.mem_of_mem_erase blockMem)
  | store addr words =>
      obtain ⟨block, mem, blockCovers⟩ := allowed
      refine ⟨{ state with pmm := state.pmm.setBlock addr words }, lists, rfl,
        ⟨holds.free.setBlock ?_, holds.tiles, holds.aligned, holds.order_le⟩, len_eq, notFree, id⟩
      intro order order_le listed
      apply (holds.front mem).not_listed blockCovers order order_le
      rwa [holds.free.page_of_mem order_le listed]

/-- Every permitted call succeeds and keeps the allocator sound. -/
theorem serve_sound {managed : Set Nat} {pfndbLen : Nat} (covers : Covers managed pfndbLen)
    (state : Served) (call : Call) (sound : Sound managed pfndbLen state)
    (allowed : Allowed state call) :
    ∃ next, serve state call = .ok next ∧ Sound managed pfndbLen next := by
  obtain ⟨⟨lists, holds⟩, len_eq, notFree⟩ := sound
  obtain ⟨next, lists', serve_eq, nextHolds, next_len, nextNotFree, -⟩ :=
    serve_spec covers holds len_eq notFree allowed
  exact ⟨next, serve_eq, ⟨lists', nextHolds⟩, next_len, nextNotFree⟩

/-- The buddy invariant of a state: some listing of the free lists has all four properties. -/
structure BuddyInvariant (managed : Set Nat) (state : Served) (lists : Nat → List Nat) : Prop where
  /-- Each free list is a finite acyclic list whose `prev` and `next` words mirror each other. -/
  linked : ∀ order ≤ ORDER_MAX,
    (listLinks state.pmm.memory).IsList (pointer (state.pmm.freelist order)) (lists order)
  /-- Listed blocks are aligned to their size. -/
  aligned : ∀ order ≤ ORDER_MAX, ∀ addr ∈ lists order, NORMAL_PAGE_SIZE <<< order ∣ addr
  /-- Their head frames are flagged free and head and carry the order of the list. -/
  flagged : ∀ order ≤ ORDER_MAX, ∀ addr ∈ lists order,
    (state.pmm.pfndb (addr / NORMAL_PAGE_SIZE)).flags = PF_FREE ||| PF_BUDDY_HEAD ∧
      (state.pmm.pfndb (addr / NORMAL_PAGE_SIZE)).buddyOrder = order
  /-- No other frame of the table carries the head flag. -/
  only : ∀ pfn < state.pmm.pfndbLen, IsHead (state.pmm.pfndb pfn) →
    ∃ order ≤ ORDER_MAX, pfn * NORMAL_PAGE_SIZE ∈ lists order
  /-- Listed and live blocks are pairwise disjoint. -/
  disjoint : (freeBlocks lists ++ state.live).Pairwise Apart
  /-- Together they are exactly the managed frames. -/
  union : ∀ frame, frame ∈ managed ↔ ∃ block ∈ freeBlocks lists ++ state.live, block.Covers frame

theorem Holds.buddyInvariant {managed : Set Nat} {state : Served} {lists : Nat → List Nat}
    (holds : Holds managed state.pmm lists state.live) : BuddyInvariant managed state lists :=
  ⟨holds.free.linked, holds.free.aligned, holds.free.flagged, holds.free.only,
    holds.tiles.pairwise_apart, holds.tiles.mem_iff⟩

/-- From boot on, every run of calls that only frees live blocks succeeds and leaves the free
lists, the frame table and the live blocks in the buddy invariant. -/
theorem buddy_invariant (memory : Nat → FreeBlock) {pfndbLen totalFrames : Nat}
    {isFree : Nat → Bool}
    (covers : Covers {frame | frame < totalFrames ∧ isFree frame = true} pfndbLen) :
    ∃ pmm, init memory pfndbLen isFree totalFrames = .ok pmm ∧
      ∀ calls, service.Permits ⟨pmm, []⟩ calls →
        ∃ final lists, service.run ⟨pmm, []⟩ calls = .ok final ∧
          BuddyInvariant {frame | frame < totalFrames ∧ isFree frame = true} final lists := by
  obtain ⟨pmm, lists, init_eq, holds, len_eq, -⟩ := init_spec memory covers
  refine ⟨pmm, init_eq, fun calls permits => ?_⟩
  have start : Sound {frame | frame < totalFrames ∧ isFree frame = true} pfndbLen ⟨pmm, []⟩ :=
    ⟨⟨lists, holds⟩, len_eq, fun block mem => by simp at mem⟩
  obtain ⟨final, run_eq, ⟨finalLists, finalHolds⟩, -, -⟩ :=
    service.run_ok (serve_sound covers) start permits
  exact ⟨final, finalLists, run_eq, finalHolds.buddyInvariant⟩

/-- The two frames above the first two. -/
theorem two_frames_covers : Covers {frame | frame < 4 ∧ (frame == 2 || frame == 3) = true} 4 := by
  refine ⟨by simp, fun frame mem => mem.1, fun block _ _ inside => ?_⟩
  have first := inside block.base (covers_base block)
  have last := inside (block.base + 2 ^ block.order - 1) (by
    have positive := Nat.two_pow_pos block.order
    simp only [DyadicBlock.Covers]
    omega)
  have small : block.order < 2 := by
    by_contra large
    have four := Nat.pow_le_pow_right (n := 2) (by decide) (Nat.not_lt.mp large)
    have first_lt := first.1
    have last_lt := last.1
    simp only [Set.mem_ofPred_eq, Bool.or_eq_true, beq_iff_eq] at first last
    omega
  exact Nat.xor_lt_two_pow (n := 2) first.1 (Nat.pow_lt_pow_right (by decide) small)

/-- One of them is allocated and freed again. -/
theorem two_frames_permitted {pmm : Allocator}
    (init_eq : init (fun _ => ⟨0, 0⟩) 4 (fun frame => frame == 2 || frame == 3) 4 = .ok pmm) :
    service.Permits ⟨pmm, []⟩ [.alloc 0, .free 0x2000 0] := by
  refine ⟨Nat.zero_le _, fun next step_eq => ⟨⟨⟨2, rfl⟩, ?_⟩, fun _ _ => trivial⟩⟩
  have live_eq : (init (fun _ => ⟨0, 0⟩) 4 (fun frame => frame == 2 || frame == 3) 4 >>= fun pmm =>
      (serve ⟨pmm, []⟩ (.alloc 0)).map Served.live) = .ok [⟨2, 0⟩] := rfl
  rw [init_eq] at live_eq
  change (serve ⟨pmm, []⟩ (.alloc 0)).map Served.live = .ok [⟨2, 0⟩] at live_eq
  rw [show serve ⟨pmm, []⟩ (.alloc 0) = .ok next from step_eq] at live_eq
  have next_live : next.live = [⟨2, 0⟩] := Except.ok.inj live_eq
  rw [next_live]
  decide

/-- Two frames above the null frame: one call splits the block they form, the next merges it. -/
theorem buddy_invariant_two_frames :
    ∃ pmm, init (fun _ => ⟨0, 0⟩) 4 (fun frame => frame == 2 || frame == 3) 4 = .ok pmm ∧
      ∃ final lists, service.run ⟨pmm, []⟩ [.alloc 0, .free 0x2000 0] = .ok final ∧
        BuddyInvariant {frame | frame < 4 ∧ (frame == 2 || frame == 3) = true} final lists := by
  obtain ⟨pmm, init_eq, runs⟩ := buddy_invariant (fun _ => ⟨0, 0⟩) two_frames_covers
  exact ⟨pmm, init_eq, runs _ (two_frames_permitted init_eq)⟩

end Allocator
end Vespertine
