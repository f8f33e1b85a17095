import Vespertine.Memory.PagingRefinement

/-!
# Copies through user pointers

Kernel code reads and writes user buffers with `safe_copy_from` and `safe_copy_to`.  Pointers into
the kernel half are copied directly; for all others the assembly routine checks that the range ends
below the kernel half and copies byte by byte.  A page fault that the memory manager cannot resolve
ends the routine with `false`; an address that is not canonical raises a protection fault, whose
handler halts the kernel, and so does an unresolved page fault in a direct copy.
-/

namespace Vespertine
namespace UserCopy

/-- First address of the kernel half. -/
def KERNEL_START : Nat := 0xFFFF800000000000

/-- Addresses the processor accepts. -/
def isCanonical (addr : Nat) : Bool := addr < USER_END || addr ≥ KERNEL_START

/-- How a copy ends. -/
structure Outcome where
  /-- What the copy returns; `none` when the kernel halts. -/
  result : Option Bool
  /-- Bytes copied before that. -/
  copied : Nat
deriving DecidableEq, Repr

/-- One more byte was copied before. -/
def Outcome.after (outcome : Outcome) : Outcome :=
  { outcome with copied := outcome.copied + 1 }

/-- `rep movsb` under the exception table; `faults` tells the addresses whose page faults are not
resolved. -/
def repMovsb (faults : Nat → Bool) : (addr len : Nat) → Outcome
  | _, 0 => ⟨some true, 0⟩
  | addr, len + 1 =>
      if !isCanonical addr then
        ⟨none, 0⟩
      else if faults addr then
        ⟨some false, 0⟩
      else
        (repMovsb faults (addr + 1) len).after

/-- `copy_from_user` and `copy_to_user`, which differ in the register of the user pointer only. -/
def copyUser (faults : Nat → Bool) (ptr : BitVec 64) (len : Nat) : Outcome :=
  if ptr.toNat + len ≥ wordSize then
    ⟨some false, 0⟩
  else if ptr.toNat + len ≥ KERNEL_START then
    ⟨some false, 0⟩
  else
    repMovsb faults ptr.toNat len

/-- `copy_nonoverlapping` at a kernel address: there is no way to recover from a fault. -/
def copyDirect (faults : Nat → Bool) : (addr len : Nat) → Outcome
  | _, 0 => ⟨some true, 0⟩
  | addr, len + 1 =>
      if !isCanonical (addr % wordSize) || faults (addr % wordSize) then
        ⟨none, 0⟩
      else
        (copyDirect faults (addr + 1) len).after

/-- The two copies, which differ in the side of the pointer that is checked only. -/
def safeCopy (faults : Nat → Bool) (ptr : BitVec 64) (len : Nat) : Outcome :=
  if ptr.toNat ≥ KERNEL_START then copyDirect faults ptr.toNat len else copyUser faults ptr len

/-- Copy from a pointer of the caller into the kernel. -/
def safeCopyFrom (faults : Nat → Bool) (src : BitVec 64) (len : Nat) : Outcome :=
  safeCopy faults src len

/-- Copy from the kernel to a pointer of the caller. -/
def safeCopyTo (faults : Nat → Bool) (dst : BitVec 64) (len : Nat) : Outcome :=
  safeCopy faults dst len

/-- Some byte of the range is outside the user half. -/
def Leaves (ptr : BitVec 64) (len : Nat) : Prop :=
  ∃ index < len, USER_END ≤ (ptr.toNat + index) % wordSize

/-- What a copy owes: only bytes of the user half are read or written, and a range that leaves it
is refused without copying anything. -/
structure Respects (ptr : BitVec 64) (len : Nat) (outcome : Outcome) : Prop where
  inside : ∀ index < outcome.copied, (ptr.toNat + index) % wordSize < USER_END
  refused : Leaves ptr len → outcome.result = some false ∧ outcome.copied = 0

/-- The copy is empty, its range lies in the user half or reaches from below the kernel half into
it, or it starts in the user half at a byte that faults. -/
def Within (faults : Nat → Bool) (ptr : BitVec 64) (len : Nat) : Prop :=
  len = 0 ∨ ptr.toNat + len ≤ USER_END ∨
    (ptr.toNat < KERNEL_START ∧ KERNEL_START ≤ ptr.toNat + len) ∨
    (ptr.toNat < USER_END ∧ faults ptr.toNat = true)

/-- Every byte of the range is in the user half and present. -/
def Reachable (faults : Nat → Bool) (ptr : BitVec 64) (len : Nat) : Prop :=
  ∀ index < len, ptr.toNat + index < USER_END ∧ faults (ptr.toNat + index) = false

section Moves

variable {faults : Nat → Bool} {addr len : Nat}

theorem isCanonical_of_lt (user : addr < USER_END) : isCanonical addr = true := by
  simp [isCanonical, user]

theorem isCanonical_eq_false (outside : USER_END ≤ addr) (below : addr < KERNEL_START) :
    isCanonical addr = false := by
  simp [isCanonical, outside, below]

/-- Below the kernel half only bytes of the user half are copied. -/
theorem repMovsb_inside (below : addr + len < KERNEL_START) :
    ∀ index < (repMovsb faults addr len).copied, addr + index < USER_END := by
  induction len generalizing addr with
  | zero => simp [repMovsb]
  | succ len ih =>
      rw [repMovsb]
      split_ifs with outside fault
      · simp
      · simp
      · intro index lt
        have user : addr < USER_END := by
          by_contra far
          simp [isCanonical_eq_false (Nat.not_lt.mp far) (by omega)] at outside
        cases index with
        | zero => exact user
        | succ index =>
            have rest := ih (show addr + 1 + len < KERNEL_START by omega) index (by
              simpa [Outcome.after] using lt)
            omega

/-- A range of the user half is copied as far as its pages are present. -/
theorem repMovsb_result (user : addr + len ≤ USER_END) :
    (repMovsb faults addr len).result = some true ∧
        (∀ index < len, faults (addr + index) = false) ∨
      (repMovsb faults addr len).result = some false ∧
        ∃ index < len, faults (addr + index) = true := by
  induction len generalizing addr with
  | zero => exact .inl ⟨rfl, by simp⟩
  | succ len ih =>
      have canonical : isCanonical addr = true := isCanonical_of_lt (by omega)
      cases fault : faults addr with
      | true =>
          refine .inr ⟨by simp [repMovsb, canonical, fault], 0, Nat.succ_pos len, ?_⟩
          simpa using fault
      | false =>
          have moved : (repMovsb faults addr (len + 1)).result =
              (repMovsb faults (addr + 1) len).result := by
            simp [repMovsb, canonical, fault, Outcome.after]
          rw [moved]
          rcases ih (show addr + 1 + len ≤ USER_END by omega) with ⟨done, present⟩ |
            ⟨failed, index, lt, absent⟩
          · refine .inl ⟨done, fun index lt => ?_⟩
            cases index with
            | zero => simpa using fault
            | succ index => simpa [Nat.add_right_comm, Nat.add_assoc] using present index (by omega)
          · refine .inr ⟨failed, index + 1, by omega, ?_⟩
            rwa [Nat.add_right_comm, Nat.add_assoc] at absent

/-- Without a fault at its first byte, a range that leaves the user half below the kernel half is
copied in part or halts the kernel. -/
theorem repMovsb_leaves (positive : 0 < len)
    (refused : (repMovsb faults addr len).result = some false ∧
      (repMovsb faults addr len).copied = 0) : isCanonical addr = true ∧ faults addr = true := by
  obtain ⟨len, rfl⟩ := Nat.exists_eq_succ_of_ne_zero (Nat.pos_iff_ne_zero.mp positive)
  rw [repMovsb] at refused
  split_ifs at refused with outside fault
  · cases refused.1
  · exact ⟨by simpa using outside, fault⟩
  · cases refused.2

theorem copyDirect_result : (copyDirect faults addr len).result ≠ some false := by
  induction len generalizing addr with
  | zero => simp [copyDirect]
  | succ len ih =>
      rw [copyDirect]
      split_ifs
      · simp
      · exact ih

end Moves

section Copies

variable {faults : Nat → Bool} {ptr : BitVec 64} {len : Nat}

theorem KERNEL_START_lt : USER_END < KERNEL_START ∧ KERNEL_START < wordSize := by decide

theorem safeCopy_eq (below : ptr.toNat < KERNEL_START) :
    safeCopy faults ptr len = if KERNEL_START ≤ ptr.toNat + len then ⟨some false, 0⟩ else
      repMovsb faults ptr.toNat len := by
  have order := KERNEL_START_lt
  rw [safeCopy, if_neg (Nat.not_le.mpr below), copyUser]
  split_ifs <;> first | rfl | omega

theorem leaves_of_gt (positive : 0 < len) (small : ptr.toNat + len ≤ wordSize)
    (gt : USER_END < ptr.toNat + len) : Leaves ptr len := by
  refine ⟨len - 1, by omega, ?_⟩
  rw [Nat.mod_eq_of_lt (by omega)]
  omega

theorem not_leaves_of_le (user : ptr.toNat + len ≤ USER_END) : ¬Leaves ptr len := by
  have order := KERNEL_START_lt
  rintro ⟨index, lt, outside⟩
  rw [Nat.mod_eq_of_lt (by omega)] at outside
  omega

theorem safeCopy_empty : safeCopy faults ptr 0 = ⟨some true, 0⟩ := by
  have order := KERNEL_START_lt
  rw [safeCopy]
  split_ifs with kernel
  · rfl
  · rw [copyUser, if_neg (by omega), if_neg (by omega)]
    rfl

/-- A copy that starts in the user half at a byte that faults is refused. -/
theorem safeCopy_fault (positive : 0 < len) (user : ptr.toNat < USER_END)
    (fault : faults ptr.toNat = true) : safeCopy faults ptr len = ⟨some false, 0⟩ := by
  have order := KERNEL_START_lt
  obtain ⟨len, rfl⟩ := Nat.exists_eq_succ_of_ne_zero (Nat.pos_iff_ne_zero.mp positive)
  rw [safeCopy_eq (by omega)]
  split_ifs
  · rfl
  · simp [repMovsb, isCanonical_of_lt user, fault]

theorem respects_empty : Respects ptr 0 (safeCopy faults ptr 0) := by
  rw [safeCopy_empty]
  refine ⟨by simp, ?_⟩
  rintro ⟨index, lt, -⟩
  exact absurd lt (Nat.not_lt_zero index)

/-- A copy whose range lies in the user half meets its obligation. -/
theorem respects_of_le (user : ptr.toNat + len ≤ USER_END) :
    Respects ptr len (safeCopy faults ptr len) := by
  have order := KERNEL_START_lt
  refine ⟨fun index lt => ?_, fun leaves => absurd leaves (not_leaves_of_le user)⟩
  rw [safeCopy_eq (by omega), if_neg (by omega)] at lt
  have inside := repMovsb_inside (by omega) index lt
  rw [Nat.mod_eq_of_lt (by omega)]
  exact inside

/-- The obligation of a copy is met exactly for the ranges of `Within`. -/
theorem safeCopy_respects_iff :
    Respects ptr len (safeCopy faults ptr len) ↔ Within faults ptr len := by
  have order := KERNEL_START_lt
  have word : ptr.toNat < wordSize := ptr.isLt
  constructor
  · intro respects
    by_contra without
    simp only [Within, not_or, not_and, Nat.not_le] at without
    obtain ⟨nonempty, gt, short, present⟩ := without
    have positive : 0 < len := Nat.pos_of_ne_zero nonempty
    by_cases kernel : KERNEL_START ≤ ptr.toNat
    · have leaves : Leaves ptr len := ⟨0, positive, by
        rw [Nat.add_zero, Nat.mod_eq_of_lt word]
        omega⟩
      have refused := (respects.refused leaves).1
      rw [safeCopy, if_pos kernel] at refused
      exact copyDirect_result refused
    · have below := short (Nat.not_le.mp kernel)
      have refused := respects.refused (leaves_of_gt positive (by omega) gt)
      rw [safeCopy_eq (Nat.not_le.mp kernel), if_neg (Nat.not_le.mpr below)] at refused
      obtain ⟨canonical, fault⟩ := repMovsb_leaves positive refused
      refine present ?_ fault
      by_contra far
      simp [isCanonical_eq_false (Nat.not_lt.mp far) (by omega)] at canonical
  · rintro (rfl | user | ⟨below, reaches⟩ | ⟨user, fault⟩)
    · exact respects_empty
    · exact respects_of_le user
    · rw [safeCopy_eq below, if_pos reaches]
      exact ⟨by simp, fun _ => ⟨rfl, rfl⟩⟩
    · rcases Nat.eq_zero_or_pos len with rfl | positive
      · exact respects_empty
      · rw [safeCopy_fault positive user fault]
        exact ⟨by simp, fun _ => ⟨rfl, rfl⟩⟩

/-- Such a copy returns, and says whether every byte could be reached. -/
theorem Within.result (within : Within faults ptr len) :
    (safeCopy faults ptr len).result = some true ∧ Reachable faults ptr len ∨
      (safeCopy faults ptr len).result = some false ∧ ¬Reachable faults ptr len := by
  have order := KERNEL_START_lt
  rcases Nat.eq_zero_or_pos len with rfl | positive
  · exact .inl ⟨by rw [safeCopy_empty], fun index lt => absurd lt (Nat.not_lt_zero index)⟩
  by_cases user : ptr.toNat + len ≤ USER_END
  · rw [safeCopy_eq (by omega), if_neg (by omega)]
    rcases repMovsb_result user with ⟨done, present⟩ | ⟨failed, index, lt, absent⟩
    · exact .inl ⟨done, fun index lt => ⟨by omega, present index lt⟩⟩
    · refine .inr ⟨failed, fun reachable => ?_⟩
      exact Bool.false_ne_true ((reachable index lt).2.symm.trans absent)
  · -- The last byte of the range is outside the user half, so the copy must have been refused.
    have unreachable : ¬Reachable faults ptr len := fun reachable => by
      have last := (reachable (len - 1) (by omega)).1
      omega
    refine .inr ⟨?_, unreachable⟩
    rcases within with rfl | inside | ⟨below, reaches⟩ | ⟨starts, fault⟩
    · exact absurd positive (Nat.lt_irrefl 0)
    · exact absurd inside user
    · rw [safeCopy_eq below, if_pos reaches]
    · rw [safeCopy_fault positive starts fault]

end Copies

end UserCopy
end Vespertine
