import Mathlib.Data.Nat.Bitwise
import Mathlib.Data.Nat.Init

/-!
# 64-bit machine words

Words are natural numbers below `2 ^ 64`.  Arithmetic that may leave this range is written with
the wrapping operations below; the lemmas say when they agree with plain arithmetic.
-/

namespace Vespertine

/-- Number of values of a 64-bit word. -/
def wordSize : Nat := 2 ^ 64

/-- Wrapping 64-bit addition. -/
def wrappingAdd (left right : Nat) : Nat := (left + right) % wordSize

/-- Wrapping 64-bit subtraction. -/
def wrappingSub (left right : Nat) : Nat := (left + (wordSize - right % wordSize)) % wordSize

/-- 64-bit addition that fails on overflow. -/
def checkedAdd (left right : Nat) : Option Nat :=
  if left + right < wordSize then some (left + right) else none

/-- 64-bit multiplication that fails on overflow. -/
def checkedMul (left right : Nat) : Option Nat :=
  if left * right < wordSize then some (left * right) else none

/-- The bits of `value` outside `mask`: `value & !mask`. -/
def andNot (value mask : Nat) : Nat := value ^^^ (value &&& mask)

theorem wrappingAdd_of_lt {left right : Nat} (fits : left + right < wordSize) :
    wrappingAdd left right = left + right := Nat.mod_eq_of_lt fits

theorem wrappingSub_of_le {left right : Nat} (le : right ≤ left) (fits : left < wordSize) :
    wrappingSub left right = left - right := by
  have right_lt : right < wordSize := by omega
  rw [wrappingSub, Nat.mod_eq_of_lt right_lt,
    show left + (wordSize - right) = (left - right) + wordSize by omega, Nat.add_mod_right,
    Nat.mod_eq_of_lt (by omega)]

theorem andNot_testBit (value mask bit : Nat) :
    (andNot value mask).testBit bit = (value.testBit bit && !mask.testBit bit) := by
  rw [andNot, Nat.testBit_xor, Nat.testBit_and]
  cases value.testBit bit <;> cases mask.testBit bit <;> rfl

theorem andNot_le (value mask : Nat) : andNot value mask ≤ value := by
  apply Nat.le_of_testBit
  intro bit set
  rw [andNot_testBit, Bool.and_eq_true] at set
  exact set.1

/-- Clearing the low bits rounds down to a multiple of their weight. -/
theorem andNot_two_pow (value bits : Nat) :
    andNot value (2 ^ bits - 1) = value / 2 ^ bits * 2 ^ bits := by
  apply Nat.eq_of_testBit_eq
  intro bit
  rw [andNot_testBit, Nat.testBit_two_pow_sub_one, Nat.mul_comm, Nat.testBit_two_pow_mul,
    Nat.testBit_div_two_pow]
  by_cases low : bit < bits
  · simp [low, Nat.not_le.mpr low]
  · have high : bits ≤ bit := Nat.not_lt.mp low
    simp [low, high, Nat.sub_add_cancel high]

end Vespertine
