import Mathlib.Data.Nat.Bitwise

/-!
# Masks of high bits

A power of two that is written as a mask: all bits from its exponent on.  The mask is the negated
power, so that complementing it and adding one gives the power back.
-/

namespace Vespertine

/-- All bits from `low` on. -/
def highMask (width low : Nat) : BitVec width := BitVec.allOnes width <<< low

section HighMask

variable {width low exponent : Nat}

theorem getLsbD_highMask (bit : Nat) :
    (highMask width low).getLsbD bit = (decide (bit < width) && decide (low ≤ bit)) := by
  rw [highMask, BitVec.getLsbD_shiftLeft, BitVec.getLsbD_allOnes]
  by_cases inside : bit < width
  · rcases lt_or_ge bit low with below | above
    · simp [below, Nat.not_le.mpr below]
    · simp [inside, above, Nat.not_lt.mpr above, show bit - low < width by omega]
  · simp [inside]

theorem highMask_eq_neg : highMask width low = -BitVec.twoPow width low := by
  rw [highMask, ← BitVec.neg_one_eq_allOnes, BitVec.shiftLeft_eq_mul_twoPow, BitVec.neg_mul,
    BitVec.one_mul]

/-- The power of two is read off its mask. -/
theorem not_highMask_add_one : ~~~highMask width low + 1 = BitVec.twoPow width low := by
  have negated : -highMask width low = ~~~highMask width low + 1 := BitVec.neg_eq_not_add _
  rw [← negated, highMask_eq_neg, BitVec.neg_neg]

/-- A multiple of a power of two has no bits below its exponent. -/
theorem getLsbD_of_dvd {base : BitVec width} (aligned : 2 ^ exponent ∣ base.toNat) {bit : Nat}
    (below : bit < exponent) : base.getLsbD bit = false := by
  obtain ⟨factor, factor_eq⟩ := aligned
  rw [BitVec.getLsbD, factor_eq, Nat.testBit_two_pow_mul]
  simp [below]

/-- What is left of the low bits under the mask of an aligned value. -/
theorem or_and_highMask {base tag : BitVec width} (aligned : 2 ^ exponent ∣ base.toNat)
    (low_le : low ≤ exponent) (tag_lt : tag.toNat < 2 ^ low) :
    (base ||| tag) &&& highMask width low = base := by
  refine BitVec.eq_of_getLsbD_eq fun bit inside => ?_
  rw [BitVec.getLsbD_and,
    BitVec.getLsbD_or, getLsbD_highMask]
  by_cases above : low ≤ bit
  · have untagged : tag.getLsbD bit = false :=
      Nat.testBit_lt_two_pow (tag_lt.trans_le (Nat.pow_le_pow_right Nat.two_pos above))
    simp only [untagged, above, inside, decide_true, Bool.or_false, Bool.and_true]
  · have clear := getLsbD_of_dvd aligned (show bit < exponent by omega)
    simp [above, clear]

/-- The low bits of an aligned value are its tag. -/
theorem or_and_not_highMask {base tag : BitVec width} (aligned : 2 ^ low ∣ base.toNat)
    (tag_lt : tag.toNat < 2 ^ low) : (base ||| tag) &&& ~~~highMask width low = tag := by
  refine BitVec.eq_of_getLsbD_eq fun bit inside => ?_
  rw [BitVec.getLsbD_and, BitVec.getLsbD_or, BitVec.getLsbD_not, getLsbD_highMask]
  by_cases above : low ≤ bit
  · have untagged : tag.getLsbD bit = false :=
      Nat.testBit_lt_two_pow (tag_lt.trans_le (Nat.pow_le_pow_right Nat.two_pos above))
    simp only [untagged, above, inside, decide_true, Bool.and_true, Bool.not_true, Bool.and_false]
  · have clear := getLsbD_of_dvd aligned (Nat.lt_of_not_le above)
    simp only [clear, above, inside, decide_true, decide_false, Bool.false_or, Bool.and_false,
      Bool.not_false, Bool.and_true]

/-- An aligned value has no bits outside the mask. -/
theorem or_highMask_of_dvd {base : BitVec width} (aligned : 2 ^ exponent ∣ base.toNat) :
    base ||| highMask width exponent = highMask width exponent := by
  refine BitVec.eq_of_getLsbD_eq fun bit inside => ?_
  rw [BitVec.getLsbD_or,
    getLsbD_highMask]
  by_cases above : exponent ≤ bit
  · simp [above, inside]
  · simp [above, getLsbD_of_dvd aligned (show bit < exponent by omega)]

/-- A narrower mask is kept by a wider one. -/
theorem highMask_and_highMask (low_le : low ≤ exponent) :
    highMask width exponent &&& highMask width low = highMask width exponent := by
  refine BitVec.eq_of_getLsbD_eq fun bit inside => ?_
  rw [BitVec.getLsbD_and,
    getLsbD_highMask, getLsbD_highMask]
  by_cases above : exponent ≤ bit
  · simp [above, inside, low_le.trans above]
  · simp [above]

/-- All address bits are set, the tag is taken off: what is left is the mask. -/
theorem or_or_and_highMask {base tag : BitVec width} (aligned : 2 ^ exponent ∣ base.toNat)
    (low_le : low ≤ exponent) (tag_lt : tag.toNat < 2 ^ low) :
    (base ||| tag ||| highMask width exponent) &&& highMask width low =
      highMask width exponent := by
  have tag_and : (base ||| tag) &&& highMask width low = base :=
    or_and_highMask aligned low_le tag_lt
  rw [BitVec.and_comm, BitVec.and_or_distrib_left, BitVec.and_comm, tag_and, BitVec.and_comm,
    highMask_and_highMask low_le, or_highMask_of_dvd aligned]

theorem setWidth_highMask {narrow : Nat} (narrow_le : narrow ≤ width) :
    (highMask width low).setWidth narrow = highMask narrow low := by
  refine BitVec.eq_of_getLsbD_eq fun bit inside => ?_
  rw [BitVec.getLsbD_setWidth,
    getLsbD_highMask, getLsbD_highMask]
  simp [inside, inside.trans_le narrow_le]

/-- The low bits of a narrow value are the same in a wide one. -/
theorem setWidth_and_highMask {wide : Nat} (value : BitVec width) :
    value.setWidth wide &&& highMask wide low = (value &&& highMask width low).setWidth wide := by
  refine BitVec.eq_of_getLsbD_eq fun bit inside => ?_
  rw [BitVec.getLsbD_and, BitVec.getLsbD_setWidth, BitVec.getLsbD_setWidth, BitVec.getLsbD_and,
    getLsbD_highMask, getLsbD_highMask]
  by_cases narrow : bit < width
  · simp [inside, narrow]
  · simp [BitVec.getLsbD_of_ge value bit (Nat.le_of_not_lt narrow)]

theorem toNat_highMask (low_lt : low < width) :
    (highMask width low).toNat = 2 ^ width - 2 ^ low := by
  have pow_lt : 2 ^ low < 2 ^ width := Nat.pow_lt_pow_right Nat.one_lt_two low_lt
  have pow_pos : 0 < 2 ^ low := Nat.two_pow_pos low
  rw [highMask_eq_neg, BitVec.toNat_neg, BitVec.toNat_twoPow_of_lt low_lt,
    Nat.mod_eq_of_lt (by omega)]

end HighMask

/-- A word is put together from its halves. -/
theorem join_halves (word : BitVec 64) :
    (word.setWidth 32).setWidth 64 ||| ((word >>> 32).setWidth 32).setWidth 64 <<< 32 = word := by
  refine BitVec.eq_of_getLsbD_eq fun bit inside => ?_
  by_cases lower : bit < 32
  · simp [lower, inside]
  · simp [lower, inside, show bit - 32 < 32 by omega, show 32 + (bit - 32) = bit by omega]

end Vespertine
