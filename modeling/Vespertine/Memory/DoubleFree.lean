import Vespertine.Memory.BuddyRun

/-!
# Double frees

A free is refused when the first frame of its block is flagged free.  The flag is set on the head
of the block that ends up listed and stays until that frame heads an allocation, so a block that
is listed under its own first frame cannot be freed again.  A block that merges into a listed lower
buddy is listed under the buddy's first frame instead; its own is left as it was while the block
was live, and the check passes a second time.
-/

namespace Vespertine

open DyadicBlock

namespace Allocator

/-- The flag that the double-free check reads. -/
def FlaggedFree (pmm : Allocator) (pfn : Nat) : Prop := (pmm.pfndb pfn).flags &&& PF_FREE ≠ 0

instance (pmm : Allocator) (pfn : Nat) : Decidable (pmm.FlaggedFree pfn) :=
  inferInstanceAs (Decidable (_ ≠ _))

/-- The buddy of a block is flagged as the head of a free block of the same order. -/
def Mergeable (pmm : Allocator) (base order : Nat) : Prop :=
  (pmm.pfndb (base ^^^ 2 ^ order)).flags &&& (PF_FREE ||| PF_BUDDY_HEAD) =
      (PF_FREE ||| PF_BUDDY_HEAD) ∧
    order = (pmm.pfndb (base ^^^ 2 ^ order)).buddyOrder

instance (pmm : Allocator) (base order : Nat) : Decidable (Mergeable pmm base order) :=
  inferInstanceAs (Decidable (_ ∧ _))

/-- Freeing the block merges it, or what it has merged to, with a lower buddy. -/
def MergesDown (pmm : Allocator) (base order : Nat) : Prop :=
  ∃ last, order ≤ last ∧ last < ORDER_MAX ∧ base ^^^ 2 ^ last < base ∧
    ∀ level, order ≤ level → level ≤ last → Mergeable pmm base level

/-! ## The flag -/

theorem flaggedFree_setFrame_self (pmm : Allocator) (pfn : Nat) (entry : PageFrame) :
    (pmm.setFrame pfn entry).FlaggedFree pfn ↔ entry.flags &&& PF_FREE ≠ 0 := by
  simp [FlaggedFree, setFrame]

theorem flaggedFree_setFrame_of_ne (pmm : Allocator) {pfn other : Nat} (entry : PageFrame)
    (other_ne : other ≠ pfn) : (pmm.setFrame pfn entry).FlaggedFree other ↔
      pmm.FlaggedFree other := by
  simp [FlaggedFree, setFrame, other_ne]

theorem flaggedFree_congr {pmm after : Allocator} (pfndb_eq : after.pfndb = pmm.pfndb)
    (pfn : Nat) : after.FlaggedFree pfn ↔ pmm.FlaggedFree pfn := by
  rw [FlaggedFree, FlaggedFree, pfndb_eq]

theorem frame_error {pmm : Allocator} {pfn : Nat} {problem : Panic}
    (frame_eq : pmm.frame pfn = .error problem) : problem = .indexOutOfBounds := by
  rw [frame] at frame_eq
  split at frame_eq
  · cases frame_eq
  · exact (Except.error.inj frame_eq).symm

theorem head_flags_free : (PF_FREE ||| PF_BUDDY_HEAD) &&& PF_FREE ≠ 0 := by decide

/-- Clearing the head flag keeps the free flag. -/
theorem andNot_head_free (flags : Nat) :
    andNot flags PF_BUDDY_HEAD &&& PF_FREE = flags &&& PF_FREE := by
  apply Nat.eq_of_testBit_eq
  intro bit
  rw [Nat.testBit_and, Nat.testBit_and, andNot_testBit]
  by_cases first : bit = 0
  · have head_bit : PF_BUDDY_HEAD.testBit 0 = false := by decide
    rw [first, head_bit]
    simp
  · have free_bit : PF_FREE.testBit bit = false := by
      rw [show PF_FREE = 2 ^ 0 from rfl, Nat.testBit_two_pow]
      simpa using Ne.symm first
    rw [free_bit]
    simp

/-! ## Merging -/

/-- What one iteration of the merge loop can do. -/
theorem coalesce_succ_cases {pmm : Allocator} {remaining base order : Nat}
    {result : Allocator × Nat × Nat} (order_lt : order < ORDER_MAX)
    (coalesce_eq : pmm.coalesce (remaining + 1) (base * NORMAL_PAGE_SIZE) order = .ok result) :
    (¬Mergeable pmm base order ∧ result = (pmm, base * NORMAL_PAGE_SIZE, order)) ∨
      (Mergeable pmm base order ∧ ∃ middle : Allocator,
        middle.pfndb = Function.update pmm.pfndb (base ^^^ 2 ^ order)
            { pmm.pfndb (base ^^^ 2 ^ order) with
              flags := andNot (pmm.pfndb (base ^^^ 2 ^ order)).flags PF_BUDDY_HEAD } ∧
          middle.coalesce remaining (min base (base ^^^ 2 ^ order) * NORMAL_PAGE_SIZE)
            (order + 1) = .ok result) := by
  have buddy_lt : base ^^^ 2 ^ order < pmm.pfndbLen := by
    by_contra outside
    rw [coalesce, page_xor, mul_page_div, frame, if_neg outside] at coalesce_eq
    cases coalesce_eq
  rw [coalesce_succ order_lt buddy_lt] at coalesce_eq
  split at coalesce_eq
  · next mergeable => exact Or.inr ⟨mergeable, _, mergeBlock_pfndb _ _ _ _, coalesce_eq⟩
  · next alone => exact Or.inl ⟨alone, (Except.ok.inj coalesce_eq).symm⟩

theorem xor_two_pow_ne {base left right : Nat} (ne : left ≠ right) :
    base ^^^ 2 ^ left ≠ base ^^^ 2 ^ right := by
  intro equal
  exact ne (Nat.pow_right_injective (le_refl 2) (Nat.xor_right_injective equal))

/-- Merging with one buddy leaves those of the larger orders as they were. -/
theorem Mergeable.update_iff {pmm middle : Allocator} {base order level : Nat} {entry : PageFrame}
    (pfndb_eq : middle.pfndb = Function.update pmm.pfndb (base ^^^ 2 ^ order) entry)
    (level_ne : level ≠ order) : Mergeable middle base level ↔ Mergeable pmm base level := by
  rw [Mergeable, Mergeable, pfndb_eq, Function.update_of_ne (xor_two_pow_ne level_ne)]

/-- A block merges down at its own order, or one order further up with an upper buddy. -/
theorem mergesDown_succ {pmm middle : Allocator} {base order : Nat} {entry : PageFrame}
    (order_lt : order < ORDER_MAX) (mergeable : Mergeable pmm base order)
    (pfndb_eq : middle.pfndb = Function.update pmm.pfndb (base ^^^ 2 ^ order) entry) :
    MergesDown pmm base order ↔
      base ^^^ 2 ^ order < base ∨ MergesDown middle base (order + 1) := by
  constructor
  · rintro ⟨last, order_le, last_lt, lower, all⟩
    rcases Nat.eq_or_lt_of_le order_le with rfl | above
    · exact Or.inl lower
    · refine Or.inr ⟨last, above, last_lt, lower, fun level level_ge level_le => ?_⟩
      exact (Mergeable.update_iff pfndb_eq (by omega)).mpr (all level (by omega) level_le)
  · rintro (lower | ⟨last, order_le, last_lt, lower, all⟩)
    · refine ⟨order, le_refl _, order_lt, lower, fun level level_ge level_le => ?_⟩
      rwa [Nat.le_antisymm level_le level_ge]
    · refine ⟨last, by omega, last_lt, lower, fun level level_ge level_le => ?_⟩
      by_cases first : level = order
      · rwa [first]
      · exact (Mergeable.update_iff pfndb_eq first).mp (all level (by omega) level_le)

/-- The merge loop changes the free flag of no frame, and leaves the first frame of the block where
it was exactly when the block does not merge down. -/
theorem coalesce_flags {pmm after : Allocator} {remaining base order addr' order' : Nat}
    (fuel : order + remaining = ORDER_MAX)
    (coalesce_eq : pmm.coalesce remaining (base * NORMAL_PAGE_SIZE) order =
      .ok (after, addr', order')) :
    (∀ pfn, after.FlaggedFree pfn ↔ pmm.FlaggedFree pfn) ∧
      ∃ base' ≤ base, addr' = base' * NORMAL_PAGE_SIZE ∧
        (base' = base ↔ ¬MergesDown pmm base order) := by
  induction remaining generalizing pmm base order with
  | zero =>
      obtain ⟨rfl, rfl, rfl⟩ : pmm = after ∧ base * NORMAL_PAGE_SIZE = addr' ∧ order = order' := by
        simpa [coalesce] using coalesce_eq
      refine ⟨fun _ => Iff.rfl, base, le_refl _, rfl, iff_of_true rfl ?_⟩
      rintro ⟨last, order_le, last_lt, -⟩
      omega
  | succ remaining ih =>
      have order_lt : order < ORDER_MAX := by omega
      rcases coalesce_succ_cases order_lt coalesce_eq with
        ⟨alone, result_eq⟩ | ⟨mergeable, middle, pfndb_eq, rest_eq⟩
      · cases result_eq
        refine ⟨fun _ => Iff.rfl, base, le_refl _, rfl, iff_of_true rfl ?_⟩
        rintro ⟨last, order_le, -, -, all⟩
        exact alone (all _ (le_refl _) order_le)
      · obtain ⟨flags, base', base'_le, addr_eq, same_iff⟩ := ih (by omega) rest_eq
        refine ⟨fun pfn => (flags pfn).trans ?_, base', ?_, addr_eq, ?_⟩
        · by_cases buddy : pfn = base ^^^ 2 ^ order
          · subst buddy
            rw [FlaggedFree, FlaggedFree, pfndb_eq, Function.update_self, andNot_head_free]
          · rw [FlaggedFree, FlaggedFree, pfndb_eq, Function.update_of_ne buddy]
        · exact base'_le.trans (Nat.min_le_left _ _)
        · rw [mergesDown_succ order_lt mergeable pfndb_eq]
          by_cases lower : base ^^^ 2 ^ order < base
          · have below : base' < base := base'_le.trans_lt (by omega)
            exact iff_of_false below.ne (not_not.mpr (Or.inl lower))
          · have upper : min base (base ^^^ 2 ^ order) = base := by omega
            rw [upper] at same_iff
            simpa [lower] using same_iff

theorem pushBlock_flags {pmm after : Allocator} {base order : Nat}
    (push_eq : pmm.pushBlock (base * NORMAL_PAGE_SIZE) order = .ok after) (pfn : Nat) :
    after.FlaggedFree pfn ↔ pfn = base ∨ pmm.FlaggedFree pfn := by
  obtain ⟨entry, -, rest_eq⟩ := bind_eq_ok.mp push_eq
  split at rest_eq
  · cases rest_eq
  · obtain rfl := Except.ok.inj rest_eq
    rw [@flaggedFree_congr (pmm.setFrame base
      { refcount := 0, flags := PF_FREE ||| PF_BUDDY_HEAD, buddyOrder := order % 2 ^ 16 }) _
      (by simp [setBlock, setHead])]
    by_cases here : pfn = base
    · subst here
      rw [flaggedFree_setFrame_self]
      exact iff_of_true head_flags_free (Or.inl rfl)
    · rw [flaggedFree_setFrame_of_ne pmm _ here]
      simp [here]

/-- A free that returns found the block's first frame unflagged.  It flags one frame more, which is
that frame exactly when the block does not merge down. -/
theorem freeOrder_flags {pmm after : Allocator} {base order : Nat} (order_le : order ≤ ORDER_MAX)
    (free_eq : pmm.freeOrder (base * NORMAL_PAGE_SIZE) order = .ok after) :
    (∀ pfn, pmm.FlaggedFree pfn → after.FlaggedFree pfn) ∧
      (after.FlaggedFree base ↔ ¬MergesDown pmm base order) := by
  obtain ⟨entry, frame_eq, checked⟩ := bind_eq_ok.mp free_eq
  rw [mul_page_div] at frame_eq
  have entry_eq : pmm.pfndb base = entry := Except.ok.inj (guard_eq_ok.mp frame_eq).2
  split at checked
  · cases checked
  · next unflagged =>
      rw [← entry_eq] at unflagged
      obtain ⟨⟨middle, addr', order'⟩, coalesce_eq, push_eq⟩ := bind_eq_ok.mp checked
      obtain ⟨kept, base', -, rfl, same_iff⟩ := coalesce_flags (by omega) coalesce_eq
      have pushed := pushBlock_flags push_eq
      refine ⟨fun pfn flagged => (pushed pfn).mpr (Or.inr ((kept pfn).mpr flagged)), ?_⟩
      rw [pushed base, kept base, ← same_iff]
      constructor
      · rintro (same | flagged)
        · exact same.symm
        · exact absurd flagged unflagged
      · exact fun same => Or.inl same.symm

/-! ## Splitting -/

theorem splitStep_flags {pmm after : Allocator} {addr order : Nat}
    (step_eq : pmm.splitStep addr order = .ok after) {pfn : Nat} (flagged : pmm.FlaggedFree pfn) :
    after.FlaggedFree pfn := by
  obtain ⟨entry, -, rest_eq⟩ := bind_eq_ok.mp step_eq
  obtain rfl := Except.ok.inj rest_eq
  by_cases upper : pfn = (addr + NORMAL_PAGE_SIZE <<< order) / NORMAL_PAGE_SIZE
  · subst upper
    exact (flaggedFree_setFrame_self _ _ _).mpr head_flags_free
  · rw [flaggedFree_setFrame_of_ne _ _ upper]
    refine (flaggedFree_congr ?_ pfn).mpr flagged
    simp [setBlock, setHead]

theorem splitBlock_flags {pmm after : Allocator} {addr order target : Nat}
    (split_eq : pmm.splitBlock addr order target = .ok after) {pfn : Nat}
    (flagged : pmm.FlaggedFree pfn) : after.FlaggedFree pfn := by
  induction order generalizing pmm with
  | zero =>
      obtain rfl := Except.ok.inj split_eq
      exact flagged
  | succ order ih =>
      rw [splitBlock] at split_eq
      split at split_eq
      · obtain ⟨middle, step_eq, rest_eq⟩ := bind_eq_ok.mp split_eq
        exact ih rest_eq (splitStep_flags step_eq flagged)
      · obtain rfl := Except.ok.inj split_eq
        exact flagged

/-- An allocation clears the flag of the first frame of its block only. -/
theorem allocOrder_flags {pmm after : Allocator} {order : Nat} {result : Option Nat}
    (alloc_eq : pmm.allocOrder order = .ok (result, after)) {pfn : Nat}
    (elsewhere : ∀ addr ∈ result, pfn ≠ addr / NORMAL_PAGE_SIZE) (flagged : pmm.FlaggedFree pfn) :
    after.FlaggedFree pfn := by
  rw [allocOrder] at alloc_eq
  split at alloc_eq
  · cases alloc_eq
  · split at alloc_eq
    · obtain ⟨-, rfl⟩ := Prod.mk.inj (Except.ok.inj alloc_eq)
      exact flagged
    · next found _ =>
        obtain ⟨entry, -, rest_eq⟩ := bind_eq_ok.mp alloc_eq
        obtain ⟨split, split_eq, rest_eq⟩ := bind_eq_ok.mp rest_eq
        obtain ⟨last, -, result_eq⟩ := bind_eq_ok.mp rest_eq
        obtain ⟨rfl, rfl⟩ := Prod.mk.inj (Except.ok.inj result_eq)
        have pfn_ne := elsewhere _ rfl
        rw [flaggedFree_setFrame_of_ne _ _ pfn_ne]
        apply splitBlock_flags split_eq
        rw [flaggedFree_setFrame_of_ne _ _ pfn_ne]
        refine (flaggedFree_congr ?_ pfn).mpr flagged
        simp [popHead, setHead]

/-! ## Runs -/

/-- The allocator serving calls, with the blocks that were freed and that no block allocated since
covers at their first frame. -/
structure Audited where
  /-- The allocator and the live blocks. -/
  served : Served
  /-- Blocks that must not be freed again. -/
  freed : List DyadicBlock

/-- The freed blocks after a call that leaves the given blocks live. -/
def remember (freed live : List DyadicBlock) : Call → List DyadicBlock
  | .alloc _ => freed.filter fun block => ∀ other ∈ live, ¬other.Covers block.base
  | .free addr order => ⟨addr / NORMAL_PAGE_SIZE, order⟩ :: freed
  | .store .. => freed

/-- One call. -/
def audit (state : Audited) (call : Call) : Kernel Audited := do
  let served ← serve state.served call
  return { served, freed := remember state.freed served.live call }

/-- The calls of `service`, remembered. -/
def auditing : Machine Audited Call Panic where
  step := audit
  permitted state call := Allowed state.served call

/-- A free does not merge its block down. -/
def StaysHead (state : Audited) : Call → Prop
  | .free addr order => ¬MergesDown state.served.pmm (addr / NORMAL_PAGE_SIZE) order
  | _ => True

/-- The calls of `service`, where no free merges its block down. -/
def auditingHeads : Machine Audited Call Panic where
  step := audit
  permitted state call := Allowed state.served call ∧ StaysHead state call

/-- Freeing the block panics at the double-free check, before anything is written. -/
def FreeRefused (pmm : Allocator) (block : DyadicBlock) : Prop :=
  pmm.freeOrder (block.base * NORMAL_PAGE_SIZE) block.order =
    .error (.doubleFree (block.base * NORMAL_PAGE_SIZE))

theorem coalesce_error {pmm : Allocator} {remaining addr order : Nat} {problem : Panic}
    (coalesce_eq : pmm.coalesce remaining addr order = .error problem) :
    problem = .indexOutOfBounds := by
  induction remaining generalizing pmm addr order with
  | zero => cases coalesce_eq
  | succ remaining ih =>
      rcases bind_eq_error.mp coalesce_eq with frame_eq | ⟨entry, -, rest_eq⟩
      · exact frame_error frame_eq
      · dsimp only at rest_eq
        split at rest_eq
        · exact ih rest_eq
        · cases rest_eq

theorem pushBlock_error {pmm : Allocator} {addr order : Nat} {problem : Panic}
    (push_eq : pmm.pushBlock addr order = .error problem) : problem = .indexOutOfBounds := by
  rcases bind_eq_error.mp push_eq with frame_eq | ⟨entry, -, rest_eq⟩
  · exact frame_error frame_eq
  · split at rest_eq
    · exact (Except.error.inj rest_eq).symm
    · cases rest_eq

/-- The check refuses exactly the blocks whose first frame is flagged. -/
theorem freeRefused_iff {pmm : Allocator} {block : DyadicBlock}
    (base_lt : block.base < pmm.pfndbLen) :
    FreeRefused pmm block ↔ pmm.FlaggedFree block.base := by
  have free_eq : pmm.freeOrder (block.base * NORMAL_PAGE_SIZE) block.order =
      if pmm.FlaggedFree block.base then .error (.doubleFree (block.base * NORMAL_PAGE_SIZE)) else
        pmm.coalesce (ORDER_MAX - block.order) (block.base * NORMAL_PAGE_SIZE) block.order >>=
          fun merged => merged.1.pushBlock merged.2.1 merged.2.2 := by
    simp only [freeOrder, mul_page_div, frame_of_lt base_lt]
    rfl
  rw [FreeRefused, free_eq]
  split
  · next flagged => exact iff_of_true rfl flagged
  · next unflagged =>
      refine iff_of_false (fun refused => ?_) unflagged
      rcases bind_eq_error.mp refused with coalesce_eq | ⟨⟨middle, addr, order⟩, -, push_eq⟩
      · cases coalesce_error coalesce_eq
      · cases pushBlock_error push_eq

/-- The state between two calls while no free merges its block down. -/
structure Guarded (managed : Set Nat) (pfndbLen : Nat) (state : Audited) : Prop where
  /-- The allocator is sound. -/
  sound : Sound managed pfndbLen state.served
  /-- The table covers the first frames of the freed blocks. -/
  covered : ∀ block ∈ state.freed, block.base < pfndbLen
  /-- They are flagged free. -/
  flagged : ∀ block ∈ state.freed, state.served.pmm.FlaggedFree block.base

theorem serve_alloc_flags {state served : Served} {order : Nat}
    (serve_eq : serve state (.alloc order) = .ok served) {pfn : Nat}
    (uncovered : ∀ block ∈ served.live, ¬block.Covers pfn) (flagged : state.pmm.FlaggedFree pfn) :
    served.pmm.FlaggedFree pfn := by
  obtain ⟨⟨result, after⟩, alloc_eq, rest_eq⟩ := bind_eq_ok.mp serve_eq
  cases result with
  | none =>
      obtain rfl := Except.ok.inj rest_eq
      exact allocOrder_flags alloc_eq (by simp) flagged
  | some addr =>
      obtain rfl := Except.ok.inj rest_eq
      refine allocOrder_flags alloc_eq (fun other other_mem here => ?_) flagged
      obtain rfl := Option.mem_some.mp other_mem
      exact uncovered _ List.mem_cons_self (here ▸ covers_base _)

theorem audit_eq {state : Audited} {call : Call} {served : Served}
    (serve_eq : serve state.served call = .ok served) :
    audit state call = .ok ⟨served, remember state.freed served.live call⟩ := by
  rw [audit, serve_eq]
  rfl

/-- A free of a live block, remembered. -/
theorem audit_free {managed : Set Nat} {pfndbLen : Nat} (covers : Covers managed pfndbLen)
    {state : Audited} (sound : Sound managed pfndbLen state.served) {base order : Nat}
    (live : ⟨base, order⟩ ∈ state.served.live) :
    ∃ next, audit state (.free (base * NORMAL_PAGE_SIZE) order) = .ok next ∧
      Sound managed pfndbLen next.served ∧ next.freed = ⟨base, order⟩ :: state.freed ∧
      (∀ pfn, state.served.pmm.FlaggedFree pfn → next.served.pmm.FlaggedFree pfn) ∧
      (next.served.pmm.FlaggedFree base ↔ ¬MergesDown state.served.pmm base order) := by
  have allowed : Allowed state.served (.free (base * NORMAL_PAGE_SIZE) order) :=
    ⟨Nat.dvd_mul_left _ _, by rwa [mul_page_div]⟩
  obtain ⟨served, serve_eq, served_sound⟩ := serve_sound covers _ _ sound allowed
  obtain ⟨lists, holds⟩ := sound.holds
  have order_le : order ≤ ORDER_MAX := holds.order_le _ live
  obtain ⟨after, free_eq, rest_eq⟩ := bind_eq_ok.mp serve_eq
  obtain ⟨kept, head_iff⟩ := freeOrder_flags order_le free_eq
  refine ⟨_, audit_eq serve_eq, served_sound, ?_, ?_⟩
  · rw [remember, mul_page_div]
  · obtain rfl := Except.ok.inj rest_eq
    exact ⟨kept, head_iff⟩

theorem Guarded.audit {managed : Set Nat} {pfndbLen : Nat} (covers : Covers managed pfndbLen)
    (state : Audited) (call : Call) (guarded : Guarded managed pfndbLen state)
    (permitted : Allowed state.served call ∧ StaysHead state call) :
    ∃ next, audit state call = .ok next ∧ Guarded managed pfndbLen next := by
  obtain ⟨allowed, stays⟩ := permitted
  cases call with
  | alloc order =>
      obtain ⟨served, serve_eq, sound⟩ := serve_sound covers _ _ guarded.sound allowed
      refine ⟨_, audit_eq serve_eq, sound, fun block mem => ?_,
        fun block mem => ?_⟩
      · exact guarded.covered block (List.mem_filter.mp mem).1
      · obtain ⟨old, uncovered⟩ := List.mem_filter.mp mem
        exact serve_alloc_flags serve_eq (of_decide_eq_true uncovered) (guarded.flagged block old)
  | free addr order =>
      obtain ⟨page, live⟩ := allowed
      obtain ⟨base, rfl⟩ : ∃ base, addr = base * NORMAL_PAGE_SIZE :=
        ⟨addr / NORMAL_PAGE_SIZE, (Nat.div_mul_cancel page).symm⟩
      rw [mul_page_div] at live
      obtain ⟨lists, holds⟩ := guarded.sound.holds
      obtain ⟨next, next_eq, sound, freed_eq, kept, head_iff⟩ :=
        audit_free covers guarded.sound live
      refine ⟨next, next_eq, sound, fun block mem => ?_, fun block mem => ?_⟩
      · rw [freed_eq] at mem
        rcases List.mem_cons.mp mem with rfl | old
        · exact covers.frame_lt _ (holds.managed_of_covers live (covers_base _))
        · exact guarded.covered block old
      · rw [freed_eq] at mem
        rcases List.mem_cons.mp mem with rfl | old
        · rw [StaysHead, mul_page_div] at stays
          exact head_iff.mpr stays
        · exact kept _ (guarded.flagged block old)
  | store addr words =>
      obtain ⟨served, serve_eq, sound⟩ := serve_sound covers _ _ guarded.sound allowed
      refine ⟨_, audit_eq serve_eq, sound, guarded.covered, ?_⟩
      obtain rfl := Except.ok.inj serve_eq
      exact guarded.flagged

/-- From boot on, as long as no free merges its block down, every freed block is refused until an
allocation covers its first frame.  After a run of any frees, the first free decides: its block is
refused the second time exactly when it did not merge down. -/
theorem double_free_refused (memory : Nat → FreeBlock) {pfndbLen totalFrames : Nat}
    {isFree : Nat → Bool}
    (covers : Covers {frame | frame < totalFrames ∧ isFree frame = true} pfndbLen) :
    ∃ pmm, init memory pfndbLen isFree totalFrames = .ok pmm ∧
      (∀ calls, auditingHeads.Permits ⟨⟨pmm, []⟩, []⟩ calls →
        ∃ final, auditingHeads.run ⟨⟨pmm, []⟩, []⟩ calls = .ok final ∧
          ∀ block ∈ final.freed, FreeRefused final.served.pmm block) ∧
      (∀ calls, auditing.Permits ⟨⟨pmm, []⟩, []⟩ calls →
        ∃ final, auditing.run ⟨⟨pmm, []⟩, []⟩ calls = .ok final ∧
          ∀ block ∈ final.served.live, ∃ next,
            audit final (.free (block.base * NORMAL_PAGE_SIZE) block.order) = .ok next ∧
              (FreeRefused next.served.pmm block ↔
                ¬MergesDown final.served.pmm block.base block.order)) := by
  obtain ⟨pmm, lists, init_eq, holds, len_eq, -⟩ := init_spec memory covers
  have start : Sound {frame | frame < totalFrames ∧ isFree frame = true} pfndbLen ⟨pmm, []⟩ :=
    ⟨⟨lists, holds⟩, len_eq, fun block mem => by simp at mem⟩
  refine ⟨pmm, init_eq, fun calls permits => ?_, fun calls permits => ?_⟩
  · have guarded : Guarded {frame | frame < totalFrames ∧ isFree frame = true} pfndbLen
        ⟨⟨pmm, []⟩, []⟩ := ⟨start, by simp, by simp⟩
    obtain ⟨final, run_eq, kept⟩ := auditingHeads.run_ok (Guarded.audit covers) guarded permits
    refine ⟨final, run_eq, fun block mem => ?_⟩
    have base_lt := kept.covered block mem
    rw [← kept.sound.len_eq] at base_lt
    exact (freeRefused_iff base_lt).mpr (kept.flagged block mem)
  · have keeps (state : Audited) (call : Call)
        (sound : Sound {frame | frame < totalFrames ∧ isFree frame = true} pfndbLen state.served)
        (allowed : Allowed state.served call) : ∃ next, audit state call = .ok next ∧
          Sound {frame | frame < totalFrames ∧ isFree frame = true} pfndbLen next.served := by
      obtain ⟨served, serve_eq, served_sound⟩ := serve_sound covers _ _ sound allowed
      exact ⟨_, audit_eq serve_eq, served_sound⟩
    obtain ⟨final, run_eq, sound⟩ := auditing.run_ok keeps start permits
    refine ⟨final, run_eq, fun block live => ?_⟩
    obtain ⟨next, next_eq, next_sound, -, -, head_iff⟩ := audit_free covers sound live
    refine ⟨next, next_eq, (freeRefused_iff ?_).trans head_iff⟩
    obtain ⟨lists', holds'⟩ := sound.holds
    rw [next_sound.len_eq]
    exact covers.frame_lt _ (holds'.managed_of_covers live (covers_base _))

/-- Both of two frames are allocated, and freed from the upper one down. -/
def freeDownwards : List Call := [.alloc 0, .alloc 0, .free 0x3000 0, .free 0x2000 0]

/-- Both of two frames are allocated, and freed from the lower one up. -/
def freeUpwards : List Call := [.alloc 0, .alloc 0, .free 0x2000 0, .free 0x3000 0]

/-- Two frames above the null frame: the lower one merges with the upper one, so that neither can be
freed a second time. -/
theorem double_free_refused_two_frames :
    ∃ pmm, init (fun _ => ⟨0, 0⟩) 4 (fun frame => frame == 2 || frame == 3) 4 = .ok pmm ∧
      ∃ final, auditingHeads.run ⟨⟨pmm, []⟩, []⟩ freeDownwards = .ok final ∧
        ∀ block ∈ final.freed, FreeRefused final.served.pmm block := by
  obtain ⟨pmm, init_eq, refused, -⟩ := double_free_refused (fun _ => ⟨0, 0⟩) two_frames_covers
  refine ⟨pmm, init_eq, refused _ ?_⟩
  cases init_eq
  refine auditingHeads.permits_cons ?_ rfl (auditingHeads.permits_cons ?_ rfl
    (auditingHeads.permits_cons ?_ rfl (auditingHeads.permits_cons ?_ rfl trivial)))
  · exact ⟨Nat.zero_le _, trivial⟩
  · exact ⟨Nat.zero_le _, trivial⟩
  · refine ⟨⟨by decide, by decide⟩, ?_⟩
    rintro ⟨last, -, -, -, all⟩
    exact absurd (all 0 (le_refl _) (Nat.zero_le _)) (by decide)
  · refine ⟨⟨by decide, by decide⟩, ?_⟩
    rintro ⟨last, -, -, lower, all⟩
    have last_pos : 1 ≤ last := by
      by_contra zero
      obtain rfl : last = 0 := by omega
      exact absurd lower (by decide)
    exact absurd (all 1 (Nat.zero_le _) last_pos) (by decide)

/-- Two frames above the null frame: the upper one merges into the lower one, and a second free of
it is accepted. -/
theorem double_free_accepted :
    ∃ pmm, init (fun _ => ⟨0, 0⟩) 4 (fun frame => frame == 2 || frame == 3) 4 = .ok pmm ∧
      auditing.Permits ⟨⟨pmm, []⟩, []⟩ freeUpwards ∧
        ∃ final, auditing.run ⟨⟨pmm, []⟩, []⟩ freeUpwards = .ok final ∧
          (⟨3, 0⟩ : DyadicBlock) ∈ final.freed ∧
            ∃ after, final.served.pmm.freeOrder 0x3000 0 = .ok after := by
  refine ⟨_, rfl, ?_, _, rfl, by decide, _, rfl⟩
  refine auditing.permits_cons ?_ rfl (auditing.permits_cons ?_ rfl
    (auditing.permits_cons ?_ rfl (auditing.permits_cons ?_ rfl trivial)))
  · exact Nat.zero_le _
  · exact Nat.zero_le _
  · exact ⟨by decide, by decide⟩
  · exact ⟨by decide, by decide⟩

end Allocator
end Vespertine
