import Vespertine.Library.Transition
import Vespertine.Memory.Pmm

/-!
# The boot bitmap

Before the page allocator exists, a bitmap with one bit for each frame says which frames are free.
It is placed in the last usable entry of the memory map that is long enough, and the frames that
start inside it stay used.  The allocator takes the frames of its table from the bitmap, first fit.

Arithmetic on addresses wraps at 64 bits.
-/

namespace Vespertine

/-- Kinds of memory in the map of the boot loader. -/
inductive MemmapType where
  | USABLE
  | BOOTLOADER_RECLAIMABLE
  | EXECUTABLE_AND_MODULES
  /-- Reserved memory of any kind. -/
  | RESERVED
deriving DecidableEq

structure MemmapEntry where
  base : UInt64
  length : UInt64
  type_ : MemmapType

/-- The end of an entry. -/
def MemmapEntry.top (entry : MemmapEntry) : Nat := (entry.base + entry.length).toNat

structure BitmapPMM where
  /-- Physical address of the bitmap. -/
  bitmapAddr : Nat
  bitmap : Nat → Nat
  /-- Bytes of the bitmap. -/
  bitmapLen : Nat
  totalFrames : Nat
  maxAddr : Nat

namespace BitmapPMM

def setFree (pmm : BitmapPMM) (frameIdx : Nat) : Kernel BitmapPMM :=
  if frameIdx / 8 < pmm.bitmapLen then
    .ok { pmm with
      bitmap := Function.update pmm.bitmap (frameIdx / 8)
        (andNot (pmm.bitmap (frameIdx / 8)) (1 <<< (frameIdx % 8))) }
  else
    .error .indexOutOfBounds

def setUsed (pmm : BitmapPMM) (frameIdx : Nat) : Kernel BitmapPMM :=
  if frameIdx / 8 < pmm.bitmapLen then
    .ok { pmm with
      bitmap := Function.update pmm.bitmap (frameIdx / 8)
        (pmm.bitmap (frameIdx / 8) ||| (1 <<< (frameIdx % 8))) }
  else
    .error .indexOutOfBounds

/-- Whether a frame below `totalFrames` is free. -/
def isFree (pmm : BitmapPMM) (frameIdx : Nat) : Bool :=
  pmm.bitmap (frameIdx / 8) &&& (1 <<< (frameIdx % 8)) = 0

/-- The highest end of an entry that holds or will hold memory. -/
def highestAddr (memMap : List MemmapEntry) : Nat :=
  memMap.foldl (fun highest entry =>
    if (entry.type_ = .USABLE ∨ entry.type_ = .BOOTLOADER_RECLAIMABLE ∨
        entry.type_ = .EXECUTABLE_AND_MODULES) ∧ highest < entry.top then
      entry.top
    else
      highest) 0

/-- Where the bitmap is placed, or the null address. -/
def bitmapPhysAddr (memMap : List MemmapEntry) (bitmapLen : Nat) : Nat :=
  memMap.foldl (fun found entry =>
    if entry.type_ = .USABLE ∧ bitmapLen ≤ entry.length.toNat then
      entry.base.toNat
    else
      found) 0

/-- The frame starts inside the bitmap. -/
def StartsInside (pmm : BitmapPMM) (frame : Nat) : Prop :=
  pmm.bitmapAddr ≤ frame * NORMAL_PAGE_SIZE ∧
    frame * NORMAL_PAGE_SIZE < wrappingAdd pmm.bitmapAddr pmm.bitmapLen

instance (pmm : BitmapPMM) (frame : Nat) : Decidable (pmm.StartsInside frame) :=
  inferInstanceAs (Decidable (_ ∧ _))

def freeFrame (pmm : BitmapPMM) (frame : Nat) : Kernel BitmapPMM :=
  if pmm.StartsInside frame then .ok pmm else pmm.setFree frame

def freeEntry (pmm : BitmapPMM) (entry : MemmapEntry) : Kernel BitmapPMM :=
  if entry.type_ = .USABLE then
    let startFrame := entry.base.toNat / NORMAL_PAGE_SIZE
    let endFrame := entry.top / NORMAL_PAGE_SIZE
    (List.range' startFrame (endFrame - startFrame)).foldlM freeFrame pmm
  else
    .ok pmm

def init (memMap : List MemmapEntry) : Kernel BitmapPMM :=
  let maxAddr := andNot (wrappingAdd (highestAddr memMap) 4095) 4095
  let totalFrames := maxAddr / NORMAL_PAGE_SIZE
  let bitmapLen := (totalFrames + 7) / 8
  let bitmapAddr := bitmapPhysAddr memMap bitmapLen
  if bitmapAddr = 0 then
    .error .outOfMemory
  else
    memMap.foldlM freeEntry ⟨bitmapAddr, fun _ => 0xFF, bitmapLen, totalFrames, maxAddr⟩

/-- The first frame of the first run of `needed` free frames; `count` frames are free so far. -/
def allocLoop (pmm : BitmapPMM) (needed : Nat) : (fuel frame count start : Nat) → Option Nat
  | 0, _, _, _ => none
  | fuel + 1, frame, count, start =>
      if pmm.isFree frame then
        let start := if count = 0 then frame else start
        if count + 1 = needed then
          some start
        else
          pmm.allocLoop needed fuel (frame + 1) (count + 1) start
      else
        pmm.allocLoop needed fuel (frame + 1) 0 start

def alloc (pmm : BitmapPMM) (size : Nat) : Kernel (Option (Nat × BitmapPMM)) :=
  let needed := (size + 4095) / NORMAL_PAGE_SIZE
  match pmm.allocLoop needed pmm.totalFrames 0 0 0 with
  | none => .ok none
  | some start => do
      let after ← (List.range' start needed).foldlM setUsed pmm
      return some (start, after)

/-! ## Bits -/

section Bits

variable {pmm after : BitmapPMM} {frame other : Nat}

theorem isFree_iff : pmm.isFree frame = true ↔
    (pmm.bitmap (frame / 8)).testBit (frame % 8) = false := by
  rw [isFree, decide_eq_true_iff, Nat.one_shiftLeft, Nat.and_two_pow]
  cases (pmm.bitmap (frame / 8)).testBit (frame % 8) <;> simp

/-- What an operation on a bit leaves alone. -/
structure SameMap (pmm after : BitmapPMM) : Prop where
  bitmapAddr : after.bitmapAddr = pmm.bitmapAddr
  bitmapLen : after.bitmapLen = pmm.bitmapLen
  totalFrames : after.totalFrames = pmm.totalFrames
  maxAddr : after.maxAddr = pmm.maxAddr

theorem SameMap.refl (pmm : BitmapPMM) : SameMap pmm pmm := ⟨rfl, rfl, rfl, rfl⟩

theorem SameMap.trans {last : BitmapPMM} (first : SameMap pmm after) (second : SameMap after last) :
    SameMap pmm last :=
  ⟨second.bitmapAddr.trans first.bitmapAddr, second.bitmapLen.trans first.bitmapLen,
    second.totalFrames.trans first.totalFrames, second.maxAddr.trans first.maxAddr⟩

/-- The frame of a byte and a bit. -/
theorem frame_eq_iff : other / 8 = frame / 8 ∧ other % 8 = frame % 8 ↔ other = frame := by
  omega

theorem setFree_spec (set_eq : pmm.setFree frame = .ok after) :
    SameMap pmm after ∧
      ∀ other, after.isFree other = true ↔ pmm.isFree other = true ∨ other = frame := by
  obtain ⟨-, set_eq⟩ := guard_eq_ok.mp set_eq
  cases set_eq
  refine ⟨⟨rfl, rfl, rfl, rfl⟩, fun other => ?_⟩
  rw [isFree_iff, isFree_iff, ← frame_eq_iff]
  dsimp only
  by_cases same : other / 8 = frame / 8
  · rw [same, Function.update_self, andNot_testBit, Nat.one_shiftLeft, Nat.testBit_two_pow]
    by_cases bit : other % 8 = frame % 8
    · simp [bit]
    · simp [bit, Ne.symm bit]
  · simp [same]

theorem setUsed_spec (set_eq : pmm.setUsed frame = .ok after) :
    SameMap pmm after ∧
      ∀ other, after.isFree other = true ↔ pmm.isFree other = true ∧ other ≠ frame := by
  obtain ⟨-, set_eq⟩ := guard_eq_ok.mp set_eq
  cases set_eq
  refine ⟨⟨rfl, rfl, rfl, rfl⟩, fun other => ?_⟩
  rw [isFree_iff, isFree_iff, ne_eq, ← frame_eq_iff]
  dsimp only
  by_cases same : other / 8 = frame / 8
  · rw [same, Function.update_self, Nat.testBit_or, Nat.one_shiftLeft, Nat.testBit_two_pow]
    by_cases bit : other % 8 = frame % 8
    · simp [bit]
    · simp [bit, Ne.symm bit]
  · simp [same]

end Bits

/-! ## The marked frames -/

section Marked

variable {pmm after : BitmapPMM}

/-- What marking frames one after another keeps. -/
theorem foldlM_keeps {α : Type} {step : BitmapPMM → α → Kernel BitmapPMM}
    {kept : BitmapPMM → Prop}
    (keeps : ∀ pmm item after, kept pmm → step pmm item = .ok after → kept after)
    {items : List α} (holds : kept pmm) (fold_eq : items.foldlM step pmm = .ok after) :
    kept after := by
  induction items generalizing pmm with
  | nil =>
      cases fold_eq
      exact holds
  | cons item items ih =>
      rw [List.foldlM_cons] at fold_eq
      obtain ⟨middle, step_eq, rest_eq⟩ := bind_eq_ok.mp fold_eq
      exact ih (keeps pmm item middle holds step_eq) rest_eq

theorem freeFrame_spec {frame : Nat} (free_eq : pmm.freeFrame frame = .ok after) :
    SameMap pmm after ∧ ∀ other, after.isFree other = true →
      pmm.isFree other = true ∨ other = frame ∧ ¬ pmm.StartsInside frame := by
  rw [freeFrame] at free_eq
  split at free_eq
  next =>
    cases free_eq
    exact ⟨.refl pmm, fun other free => .inl free⟩
  next outside =>
    obtain ⟨same, marked⟩ := setFree_spec free_eq
    exact ⟨same, fun other free => ((marked other).mp free).imp_right fun eq => ⟨eq, outside⟩⟩

/-- The sizes belong together, and no frame that starts inside the bitmap is free. -/
structure Placed (pmm : BitmapPMM) : Prop where
  totalFrames_eq : pmm.totalFrames = pmm.maxAddr / NORMAL_PAGE_SIZE
  bitmapLen_eq : pmm.bitmapLen = (pmm.totalFrames + 7) / 8
  maxAddr_lt : pmm.maxAddr < wordSize
  outside : ∀ frame, pmm.isFree frame = true → ¬ pmm.StartsInside frame

/-- Every frame has a bit. -/
theorem Placed.covers (placed : Placed pmm) : pmm.totalFrames ≤ 8 * pmm.bitmapLen := by
  have bitmapLen_eq := placed.bitmapLen_eq
  omega

theorem Placed.freeFrame {frame : Nat} (placed : Placed pmm)
    (free_eq : pmm.freeFrame frame = .ok after) : Placed after := by
  obtain ⟨same, marked⟩ := freeFrame_spec free_eq
  refine ⟨?_, ?_, ?_, fun other free => ?_⟩
  · rw [same.totalFrames, same.maxAddr, placed.totalFrames_eq]
  · rw [same.bitmapLen, same.totalFrames, placed.bitmapLen_eq]
  · rw [same.maxAddr]
    exact placed.maxAddr_lt
  · rw [StartsInside, same.bitmapAddr, same.bitmapLen]
    rcases marked other free with before | ⟨rfl, outside⟩
    · exact placed.outside other before
    · exact outside

theorem placed_of_init {memMap : List MemmapEntry} (init_eq : init memMap = .ok pmm) :
    Placed pmm := by
  rw [init] at init_eq
  split at init_eq
  next => cases init_eq
  next =>
    refine foldlM_keeps (fun before entry after placed entry_eq => ?_) ⟨rfl, rfl, ?_, ?_⟩ init_eq
    · rw [freeEntry] at entry_eq
      split at entry_eq
      next => exact foldlM_keeps (fun _ _ _ kept eq => kept.freeFrame eq) placed entry_eq
      next =>
        cases entry_eq
        exact placed
    · exact Nat.lt_of_le_of_lt (andNot_le _ _) (Nat.mod_lt _ (Nat.two_pow_pos 64))
    · intro frame free
      -- at first every bit of a byte is set
      have set : ∀ bit < 8, Nat.testBit 0xFF bit = true := by decide
      rw [isFree_iff, set _ (Nat.mod_lt _ (by decide))] at free
      cases free

/-- No frame that holds a byte of the bitmap is marked free. -/
def Kept (pmm : BitmapPMM) : Prop :=
  ∀ byte < pmm.bitmapLen, pmm.isFree ((pmm.bitmapAddr + byte) / NORMAL_PAGE_SIZE) = false

instance (pmm : BitmapPMM) : Decidable pmm.Kept :=
  inferInstanceAs (Decidable (∀ byte < pmm.bitmapLen, _))

end Marked

/-! ## The frames of the table -/

section Alloc

variable {pmm : BitmapPMM} {needed : Nat}

/-- A run of free frames. -/
def Run (pmm : BitmapPMM) (needed start : Nat) : Prop :=
  start + needed ≤ pmm.totalFrames ∧
    ∀ frame, start ≤ frame → frame < start + needed → pmm.isFree frame = true

/-- The lowest run of free frames. -/
def FirstRun (pmm : BitmapPMM) (needed start : Nat) : Prop :=
  pmm.Run needed start ∧ ∀ lower < start, ¬ pmm.Run needed lower

theorem firstRun_unique {left right : Nat} (first : pmm.FirstRun needed left)
    (second : pmm.FirstRun needed right) : left = right := by
  rcases Nat.lt_trichotomy left right with lower | eq | higher
  · exact absurd first.1 (second.2 left lower)
  · exact eq
  · exact absurd second.1 (first.2 right higher)

theorem allocLoop_spec {fuel frame count start : Nat} (end_eq : frame + fuel = pmm.totalFrames)
    (count_lt : count < needed) (count_le : count ≤ frame)
    (start_eq : count ≠ 0 → start = frame - count)
    (free : ∀ passed, frame - count ≤ passed → passed < frame → pmm.isFree passed = true)
    (none_lower : ∀ lower < frame - count, ¬ pmm.Run needed lower) :
    (∃ found, pmm.allocLoop needed fuel frame count start = some found ∧
        pmm.FirstRun needed found) ∨
      pmm.allocLoop needed fuel frame count start = none ∧ ∀ lower, ¬ pmm.Run needed lower := by
  induction fuel generalizing frame count start with
  | zero =>
      refine .inr ⟨rfl, fun lower run => ?_⟩
      by_cases before : lower < frame - count
      · exact none_lower lower before run
      · have := run.1
        omega
  | succ fuel ih =>
      rw [allocLoop]
      split
      next here =>
        have start_eq' : (if count = 0 then frame else start) = frame - count := by
          split
          next zero => omega
          next some => exact start_eq some
        have free' (passed : Nat) (lower : frame - count ≤ passed) (upper : passed < frame + 1) :
            pmm.isFree passed = true := by
          rcases Nat.lt_succ_iff_lt_or_eq.mp upper with earlier | rfl
          · exact free passed lower earlier
          · exact here
        dsimp only
        rw [start_eq']
        split
        next last =>
          refine .inl ⟨frame - count, rfl, ⟨by omega, fun passed lower upper => ?_⟩, none_lower⟩
          exact free' passed lower (by omega)
        next more =>
          have shift : frame + 1 - (count + 1) = frame - count := by omega
          refine ih (by omega) (by omega) (by omega) (fun _ => shift.symm) ?_ ?_
          · rwa [shift]
          · rwa [shift]
      next used =>
        refine ih (by omega) (by omega) (Nat.zero_le _) (fun zero => absurd rfl zero)
          (fun passed lower upper => by omega) fun lower lower_lt run => ?_
        by_cases before : lower < frame - count
        · exact none_lower lower before run
        · exact used (run.2 frame (by omega) (by omega))

/-- Marking frames as used marks these and no others. -/
theorem setUsed_range {start : Nat} (inside : start + needed ≤ pmm.totalFrames)
    (covers : pmm.totalFrames ≤ 8 * pmm.bitmapLen) :
    ∃ after, (List.range' start needed).foldlM setUsed pmm = .ok after ∧ SameMap pmm after ∧
      ∀ other, after.isFree other = true ↔
        pmm.isFree other = true ∧ ¬ (start ≤ other ∧ other < start + needed) := by
  induction needed generalizing pmm start with
  | zero => exact ⟨pmm, rfl, .refl pmm, fun other => by simp⟩
  | succ needed ih =>
      obtain ⟨middle, set_eq⟩ : ∃ middle, pmm.setUsed start = .ok middle :=
        ⟨_, if_pos (by omega)⟩
      obtain ⟨same, marked⟩ := setUsed_spec set_eq
      have inside' : start + 1 + needed ≤ middle.totalFrames := by
        rw [same.totalFrames]
        omega
      have covers' : middle.totalFrames ≤ 8 * middle.bitmapLen := by
        rw [same.bitmapLen, same.totalFrames]
        exact covers
      obtain ⟨after, rest_eq, same', marked'⟩ := ih inside' covers'
      refine ⟨after, ?_, same.trans same', fun other => ?_⟩
      · rw [List.range'_succ, List.foldlM_cons, set_eq]
        exact rest_eq
      · rw [marked', marked]
        constructor
        · rintro ⟨⟨free, ne⟩, outside⟩
          exact ⟨free, by omega⟩
        · rintro ⟨free, outside⟩
          exact ⟨⟨free, by omega⟩, by omega⟩

/-- The frames of the lowest run that is long enough are taken. -/
theorem alloc_spec (covers : pmm.totalFrames ≤ 8 * pmm.bitmapLen) {size : Nat}
    (positive : 0 < size) :
    (∃ start after, pmm.alloc size = .ok (some (start, after)) ∧
        pmm.FirstRun ((size + 4095) / NORMAL_PAGE_SIZE) start ∧ SameMap pmm after ∧
        ∀ other, after.isFree other = true ↔ pmm.isFree other = true ∧
          ¬ (start ≤ other ∧ other < start + (size + 4095) / NORMAL_PAGE_SIZE)) ∨
      pmm.alloc size = .ok none ∧
        ∀ start, ¬ pmm.Run ((size + 4095) / NORMAL_PAGE_SIZE) start := by
  have needed_pos : 0 < (size + 4095) / NORMAL_PAGE_SIZE := by
    rw [show NORMAL_PAGE_SIZE = 4096 from rfl]
    omega
  rw [alloc]
  rcases @allocLoop_spec pmm _ _ _ _ 0 (Nat.zero_add pmm.totalFrames) needed_pos (Nat.le_refl 0)
    (fun zero => absurd rfl zero)
    (fun passed _ upper => absurd upper (Nat.not_lt_zero _))
    (fun lower lower_lt => absurd lower_lt (by omega)) with
      ⟨start, loop_eq, first⟩ | ⟨loop_eq, none_found⟩
  · obtain ⟨after, fold_eq, same, marked⟩ := setUsed_range first.1.1 covers
    refine .inl ⟨start, after, ?_, first, same, marked⟩
    rw [loop_eq]
    dsimp only
    rw [fold_eq]
    rfl
  · refine .inr ⟨?_, none_found⟩
    rw [loop_eq]

/-- A call of `alloc`, with the bitmap that it leaves. -/
def allocCall (pmm : BitmapPMM) (size : Nat) : Kernel (Option Nat × BitmapPMM) :=
  (pmm.alloc size).map fun
    | none => (none, pmm)
    | some (start, after) => (some start, after)

/-- `alloc` finds the lowest run and takes its frames, or there is none; marking a frame changes no
other. -/
theorem alloc_first_fit (pmm : BitmapPMM) (covers : pmm.totalFrames ≤ 8 * pmm.bitmapLen)
    (size : Nat) (positive : 0 < size) :
    (∃ found after, pmm.allocCall size = .ok (found, after) ∧ SameMap pmm after ∧
      (∀ start, found = some start ↔
        pmm.FirstRun ((size + 4095) / NORMAL_PAGE_SIZE) start) ∧
      (found = none ↔ ∀ start, ¬ pmm.Run ((size + 4095) / NORMAL_PAGE_SIZE) start) ∧
      (found = none → after = pmm) ∧
      ∀ start, found = some start → ∀ frame, after.isFree frame = true ↔
        pmm.isFree frame = true ∧
          ¬ (start ≤ frame ∧ frame < start + (size + 4095) / NORMAL_PAGE_SIZE)) ∧
    ∀ frame < 8 * pmm.bitmapLen,
      (∃ after, pmm.setFree frame = .ok after ∧ after.isFree frame = true ∧
        ∀ other ≠ frame, after.isFree other = pmm.isFree other) ∧
      ∃ after, pmm.setUsed frame = .ok after ∧ after.isFree frame = false ∧
        ∀ other ≠ frame, after.isFree other = pmm.isFree other := by
  constructor
  · rcases alloc_spec covers positive with ⟨first, after, alloc_eq, run, same, marked⟩ |
      ⟨alloc_eq, none_found⟩
    · refine ⟨some first, after, ?_, same, fun start => ?_, ?_, nofun, fun start start_eq => ?_⟩
      · rw [allocCall, alloc_eq]
        rfl
      · refine ⟨fun start_eq => Option.some.inj start_eq ▸ run, fun other => ?_⟩
        rw [firstRun_unique run other]
      · exact iff_of_false nofun fun none_found => none_found first run.1
      · cases start_eq
        exact marked
    · refine ⟨none, pmm, ?_, .refl pmm, fun start => ?_, ?_, fun _ => rfl, nofun⟩
      · rw [allocCall, alloc_eq]
        rfl
      · exact iff_of_false nofun fun first => none_found start first.1
      · exact iff_of_true rfl none_found
  · intro frame inside
    have byte_lt : frame / 8 < pmm.bitmapLen := by omega
    constructor
    · obtain ⟨after, free_eq⟩ : ∃ after, pmm.setFree frame = .ok after := ⟨_, if_pos byte_lt⟩
      obtain ⟨-, marked⟩ := setFree_spec free_eq
      refine ⟨after, free_eq, (marked frame).mpr (.inr rfl), fun other ne => ?_⟩
      rw [Bool.eq_iff_iff, marked, or_iff_left ne]
    · obtain ⟨after, used_eq⟩ : ∃ after, pmm.setUsed frame = .ok after := ⟨_, if_pos byte_lt⟩
      obtain ⟨-, marked⟩ := setUsed_spec used_eq
      refine ⟨after, used_eq, ?_, fun other ne => ?_⟩
      · exact Bool.eq_false_iff.mpr fun free => ((marked frame).mp free).2 rfl
      · rw [Bool.eq_iff_iff, marked, and_iff_left ne]

/-- Eight frames, of which the third, the fifth and the sixth are free. -/
theorem alloc_first_fit_two : ∃ after,
    allocCall ⟨0, fun _ => 0b11001011, 1, 8, 0x8000⟩ 5000 = .ok (some 4, after) ∧
      ∀ frame, after.isFree frame = true ↔
        isFree ⟨0, fun _ => 0b11001011, 1, 8, 0x8000⟩ frame = true ∧
          ¬ (4 ≤ frame ∧ frame < 4 + 2) := by
  obtain ⟨⟨found, after, call_eq, -, first_iff, -, -, marked⟩, -⟩ :=
    alloc_first_fit ⟨0, fun _ => 0b11001011, 1, 8, 0x8000⟩ (by decide) 5000 (by decide)
  have run : Run ⟨0, fun _ => 0b11001011, 1, 8, 0x8000⟩ 2 4 := by
    refine ⟨by decide, fun frame lower upper => ?_⟩
    obtain rfl | rfl : frame = 4 ∨ frame = 5 := by omega
    · decide
    · decide
  have none_lower : ∀ lower < 4, ¬ Run ⟨0, fun _ => 0b11001011, 1, 8, 0x8000⟩ 2 lower := by
    have used : ∀ lower < 4, isFree ⟨0, fun _ => 0b11001011, 1, 8, 0x8000⟩ lower = false ∨
        isFree ⟨0, fun _ => 0b11001011, 1, 8, 0x8000⟩ (lower + 1) = false := by
      decide
    intro lower lower_lt run
    rcases used lower lower_lt with here | next
    · cases here.symm.trans (run.2 lower (by omega) (by omega))
    · cases next.symm.trans (run.2 (lower + 1) (by omega) (by omega))
  obtain rfl : found = some 4 := (first_iff 4).mpr ⟨run, none_lower⟩
  exact ⟨after, call_eq, marked 4 rfl⟩

end Alloc

end BitmapPMM
end Vespertine
