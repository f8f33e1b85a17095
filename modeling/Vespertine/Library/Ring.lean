import Mathlib.Algebra.Order.Group.Nat
import Mathlib.Data.Fin.Basic
import Mathlib.Data.List.Range
import Mathlib.Data.Nat.ModEq

/-!
# Circular windows

The cells of a ring that lie between two wrapping positions, read in order.  A window grows at its
end, shrinks at its front, and does not see writes outside itself.
-/

namespace Vespertine.Ring

/-- How far a position is ahead of another one. -/
def distance (size ahead behind : Nat) : Nat :=
  if behind ≤ ahead then ahead - behind else size - (behind - ahead)

section Window

variable {α : Type*} {size : Nat} [NeZero size]

/-- The `count` cells from `start` on, wrapping at the end of the ring. -/
def window (cells : Fin size → α) (start count : Nat) : List α :=
  (List.range count).map fun offset => cells (Fin.ofNat size (start + offset))

@[simp] theorem length_window (cells : Fin size → α) (start count : Nat) :
    (window cells start count).length = count := by
  simp [window]

/-- The first cell of a window, and the window behind it. -/
theorem window_cons (cells : Fin size → α) (start count : Nat) :
    window cells start (count + 1) =
      cells (Fin.ofNat size start) :: window cells (start + 1) count := by
  rw [window, List.range_succ_eq_map, List.map_cons, List.map_map, window, Nat.add_zero]
  refine congrArg _ (List.map_congr_left fun offset _ => ?_)
  rw [Function.comp_apply, Nat.succ_eq_add_one, Nat.add_assoc, Nat.add_comm 1 offset]

/-- The last cell of a window, and the window before it. -/
theorem window_snoc (cells : Fin size → α) (start count : Nat) :
    window cells start (count + 1) =
      window cells start count ++ [cells (Fin.ofNat size (start + count))] := by
  rw [window, List.range_succ, List.map_append, window, List.map_singleton]

/-- The start of a window wraps. -/
theorem window_mod (cells : Fin size → α) (start count : Nat) :
    window cells (start % size) count = window cells start count := by
  refine List.map_congr_left fun offset _ => congrArg cells (Fin.ext ?_)
  exact Nat.mod_add_mod start size offset

/-- Offsets within one turn lead to different cells. -/
theorem offset_eq {start left right : Nat} (left_lt : left < size) (right_lt : right < size)
    (same : Fin.ofNat size (start + left) = Fin.ofNat size (start + right)) : left = right := by
  have equal : (start + left) % size = (start + right) % size := congrArg Fin.val same
  have congruent : left % size = right % size := Nat.ModEq.add_left_cancel' start equal
  rwa [Nat.mod_eq_of_lt left_lt, Nat.mod_eq_of_lt right_lt] at congruent

/-- The cell right behind a window that does not fill the ring can be written unseen. -/
theorem window_update (cells : Fin size → α) (start : Nat) {count : Nat} (room : count < size)
    (value : α) :
    window (Function.update cells (Fin.ofNat size (start + count)) value) start count =
      window cells start count := by
  refine List.map_congr_left fun offset mem => Function.update_of_ne (fun same => ?_) _ _
  have lt := List.mem_range.mp mem
  exact lt.ne (offset_eq (lt.trans room) room same)

end Window

section Distance

variable {size ahead behind : Nat}

theorem distance_lt (ahead_lt : ahead < size) :
    distance size ahead behind < size := by
  rw [distance]
  split <;> omega

/-- Going the distance leads to the position ahead. -/
theorem add_distance (ahead_lt : ahead < size) (behind_lt : behind < size) :
    (behind + distance size ahead behind) % size = ahead := by
  rw [distance]
  split
  next le => rw [Nat.add_sub_cancel' le, Nat.mod_eq_of_lt ahead_lt]
  next gt =>
    have wraps : behind + (size - (behind - ahead)) = ahead + size := by omega
    rw [wraps, Nat.add_mod_right, Nat.mod_eq_of_lt ahead_lt]

theorem add_one_mod {position : Nat} (lt : position < size) :
    (position + 1) % size = if position + 1 = size then 0 else position + 1 := by
  split
  next last => rw [last, Nat.mod_self]
  next inside => exact Nat.mod_eq_of_lt (by omega)

/-- Moving the position ahead adds one, unless the ring is full. -/
theorem distance_advance (ahead_lt : ahead < size) (behind_lt : behind < size)
    (room : distance size ahead behind + 1 < size) :
    distance size ((ahead + 1) % size) behind = distance size ahead behind + 1 := by
  rw [add_one_mod ahead_lt]
  simp only [distance] at room ⊢
  split_ifs at room ⊢ <;> omega

/-- Moving the position behind takes one away, unless the ring is empty. -/
theorem distance_retreat (ahead_lt : ahead < size) (behind_lt : behind < size)
    (occupied : 0 < distance size ahead behind) :
    distance size ahead ((behind + 1) % size) + 1 = distance size ahead behind := by
  rw [add_one_mod behind_lt]
  simp only [distance] at occupied ⊢
  split_ifs at occupied ⊢ <;> omega

end Distance
end Vespertine.Ring
