import Mathlib.Data.Nat.Init
import Mathlib.Tactic.Ring

/-!
# Numbers in bytes

Little-endian numbers of a fixed width, written in front of a list of bytes and read off it again.
-/

namespace Vespertine
namespace Bytes

/-- A number in `width` bytes, the lowest first. -/
def ofNat : (width : Nat) → Nat → List UInt8
  | 0, _ => []
  | width + 1, value => UInt8.ofNat value :: ofNat width (value / 256)

/-- The number in some bytes. -/
def toNat : List UInt8 → Nat
  | [] => 0
  | byte :: bytes => byte.toNat + 256 * toNat bytes

@[simp] theorem length_ofNat (width value : Nat) : (ofNat width value).length = width := by
  induction width generalizing value with
  | zero => rfl
  | succ width ih => rw [ofNat, List.length_cons, ih]

theorem toNat_ofNat {width value : Nat} (fits : value < 256 ^ width) :
    toNat (ofNat width value) = value := by
  induction width generalizing value with
  | zero =>
      obtain rfl : value = 0 := by simpa using fits
      rfl
  | succ width ih =>
      have rest_fits : value / 256 < 256 ^ width := by
        rw [Nat.pow_succ'] at fits
        exact Nat.div_lt_of_lt_mul fits
      rw [ofNat, toNat, ih rest_fits, UInt8.toNat_ofNat']
      omega

theorem toNat_lt (bytes : List UInt8) : toNat bytes < 256 ^ bytes.length := by
  induction bytes with
  | nil => exact Nat.one_pos
  | cons byte bytes ih =>
      have byte_lt := byte.toNat_lt
      rw [toNat, List.length_cons, Nat.pow_succ]
      omega

/-- Read a number off the front. -/
def takeNat (width : Nat) (bytes : List UInt8) : Nat × List UInt8 :=
  (toNat (bytes.take width), bytes.drop width)

theorem takeNat_append {width value : Nat} (fits : value < 256 ^ width) (rest : List UInt8) :
    takeNat width (ofNat width value ++ rest) = (value, rest) := by
  rw [takeNat, List.take_left' (length_ofNat width value),
    List.drop_left' (length_ofNat width value), toNat_ofNat fits]

end Bytes
end Vespertine
