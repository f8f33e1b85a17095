import Mathlib.Data.List.Basic
import Vespertine.Library.Bytes

/-!
# Memory of bytes

Memory is a function from addresses to bytes.  Lists of bytes are written to and read from
consecutive addresses, and a list read back is the list written.  Ranges can be copied.
-/

namespace Vespertine

/-- The bytes at every address. -/
abbrev Memory := Nat → UInt8

namespace Memory

/-- The bytes from an address on. -/
def read (memory : Memory) (addr count : Nat) : List UInt8 :=
  (List.range count).map fun i => memory (addr + i)

/-- Put bytes at consecutive addresses. -/
def write (memory : Memory) (addr : Nat) (bytes : List UInt8) : Memory := fun place =>
  if addr ≤ place then (bytes[place - addr]?).getD (memory place) else memory place

/-- Copy bytes from one range to another. -/
def copy (memory : Memory) (source target count : Nat) : Memory := fun place =>
  if target ≤ place ∧ place < target + count then memory (source + (place - target))
  else memory place

section Rules

variable (memory : Memory) (addr : Nat)

theorem copy_inside (source : Nat) {target count i : Nat} (inside : i < count) :
    memory.copy source target count (target + i) = memory (source + i) := by
  rw [copy, if_pos (by omega), Nat.add_sub_cancel_left]

theorem copy_outside (source : Nat) {target count : Nat}
    (outside : addr < target ∨ target + count ≤ addr) :
    memory.copy source target count addr = memory addr :=
  if_neg (by omega)

@[simp] theorem length_read (count : Nat) : (memory.read addr count).length = count := by
  rw [read, List.length_map, List.length_range]

@[simp] theorem getElem_read {count i : Nat} (inside : i < (memory.read addr count).length) :
    (memory.read addr count)[i] = memory (addr + i) := by
  simp only [read, List.getElem_map, List.getElem_range]

theorem write_nil : memory.write addr [] = memory := by
  funext place
  simp [write]

/-- Bytes written behind each other are written at once. -/
theorem write_append (front back : List UInt8) :
    (memory.write addr front).write (addr + front.length) back =
      memory.write addr (front ++ back) := by
  funext place
  simp only [write]
  by_cases below : addr ≤ place
  · by_cases in_front : place - addr < front.length
    · rw [if_neg (by omega), if_pos below, if_pos below, List.getElem?_append_left in_front]
    · have past : front[place - addr]? = none := List.getElem?_eq_none (by omega)
      rw [if_pos (by omega), if_pos below, if_pos below, List.getElem?_append_right (by omega),
        past, Option.getD_none, Nat.sub_add_eq]
  · rw [if_neg (by omega), if_neg below, if_neg below]

/-- Reading from the start of what was written. -/
theorem read_write (bytes : List UInt8) (more : Nat) :
    (memory.write addr bytes).read addr (bytes.length + more) =
      bytes ++ memory.read (addr + bytes.length) more := by
  apply List.ext_getElem
  · simp
  · intro i below _
    rw [length_read] at below
    rw [getElem_read, write, if_pos (Nat.le_add_right addr i), Nat.add_sub_cancel_left]
    by_cases in_bytes : i < bytes.length
    · rw [List.getElem?_eq_getElem in_bytes, Option.getD_some, List.getElem_append_left in_bytes]
    · rw [List.getElem?_eq_none (by omega), Option.getD_none,
        List.getElem_append_right (by omega), getElem_read]
      congr 1
      omega

/-- Bytes that are not written keep their value. -/
theorem write_outside {place : Nat} {bytes : List UInt8}
    (outside : place < addr ∨ addr + bytes.length ≤ place) :
    memory.write addr bytes place = memory place := by
  rw [write]
  split
  next => rw [List.getElem?_eq_none (by omega), Option.getD_none]
  next => rfl

/-- Reading apart from what was written. -/
theorem read_write_apart {other count : Nat} {bytes : List UInt8}
    (apart : addr + count ≤ other ∨ other + bytes.length ≤ addr) :
    (memory.write other bytes).read addr count = memory.read addr count := by
  apply List.map_congr_left
  intro i mem
  rw [List.mem_range] at mem
  exact memory.write_outside other (by omega)

/-- Reading a part of what was written. -/
theorem read_write_part (front part back : List UInt8) :
    (memory.write addr (front ++ (part ++ back))).read (addr + front.length) part.length =
      part := by
  apply List.ext_getElem
  · rw [length_read]
  · intro i below below'
    rw [getElem_read, write, if_pos (by omega)]
    have index_eq : addr + front.length + i - addr = front.length + i := by omega
    rw [index_eq, List.getElem?_append_right (Nat.le_add_right _ _), Nat.add_sub_cancel_left,
      List.getElem?_append_left below', List.getElem?_eq_getElem below', Option.getD_some]

end Rules

end Memory
end Vespertine
