import Mathlib.Data.List.Basic
import Mathlib.Tactic.Ring

/-!
# Pictures in a slice

A picture is a slice of pixels, line after line, and `stride` is the length of a line.  Lines are
moved by a copy within the slice and filled from some place to its end; `paint` writes pixel after
pixel.  Each operation is described by the pixels it leaves, in coordinates.
-/

namespace Vespertine

/-!
### Slices
-/

section Slices

variable {α : Type*} (slice : List α) (start stop place index : Nat) (value : α)

/-- The elements from `start` up to `stop`, copied to `place`. -/
def copyWithin : List α :=
  slice.take place ++
    ((slice.drop start).take (stop - start) ++ slice.drop (place + (stop - start)))

/-- Every element from `start` on, set to a value. -/
def fillFrom : List α :=
  slice.take start ++ List.replicate (slice.length - start) value

variable {slice start stop place}

@[simp]
theorem length_fillFrom (start : Nat) : (fillFrom slice start value).length = slice.length := by
  simp only [fillFrom, List.length_append, List.length_take, List.length_replicate]
  omega

theorem getElem?_fillFrom (start : Nat) :
    (fillFrom slice start value)[index]? =
      if start ≤ index ∧ index < slice.length then some value else slice[index]? := by
  simp only [fillFrom, List.getElem?_append, List.length_take, List.getElem?_take,
    List.getElem?_replicate]
  split
  next before =>
    rw [if_pos (by omega), if_neg (by omega)]
  next after =>
    by_cases inside : index < slice.length
    · rw [if_pos (by omega), if_pos (by omega)]
    · rw [if_neg (by omega), if_neg (by omega), List.getElem?_eq_none (by omega)]

/-- The source and the destination lie in the slice. -/
structure CopyFits (slice : List α) (start stop place : Nat) : Prop where
  ordered : start ≤ stop
  source : stop ≤ slice.length
  destination : place + (stop - start) ≤ slice.length

theorem length_copyWithin (fits : CopyFits slice start stop place) :
    (copyWithin slice start stop place).length = slice.length := by
  obtain ⟨ordered, source, destination⟩ := fits
  simp only [copyWithin, List.length_append, List.length_take, List.length_drop]
  omega

theorem getElem?_copyWithin (fits : CopyFits slice start stop place) :
    (copyWithin slice start stop place)[index]? =
      if place ≤ index ∧ index < place + (stop - start) then slice[start + (index - place)]?
      else slice[index]? := by
  obtain ⟨ordered, source, destination⟩ := fits
  have place_le : min place slice.length = place := by omega
  have count_le : min (stop - start) (slice.length - start) = stop - start := by omega
  simp only [copyWithin, List.getElem?_append, List.length_take, List.length_drop,
    List.getElem?_take, List.getElem?_drop, place_le, count_le]
  split
  next before => rw [if_neg (by omega)]
  next after =>
    by_cases inside : index - place < stop - start
    · rw [if_pos inside, if_pos inside, if_pos (by omega)]
    · rw [if_neg inside, if_neg (by omega)]
      congr 1
      omega

end Slices

/-!
### Pixels
-/

namespace Raster

variable {α : Type*} {pixels : List α} {stride x y : Nat}

/-- The pixel of a column and a line. -/
def pixel (pixels : List α) (stride x y : Nat) : Option α := pixels[y * stride + x]?

/-- A place is in one line only. -/
theorem place_inj {column line : Nat} (x_lt : x < stride) (column_lt : column < stride)
    (eq : y * stride + x = line * stride + column) : x = column ∧ y = line := by
  have lines : y = line := by
    have quotient := congrArg (· / stride) eq
    have positive : 0 < stride := by omega
    simpa [Nat.add_div, Nat.div_eq_of_lt x_lt, Nat.div_eq_of_lt column_lt, positive,
      Nat.mod_eq_of_lt x_lt, Nat.mod_eq_of_lt column_lt, Nat.not_le.mpr x_lt,
      Nat.not_le.mpr column_lt] using quotient
  subst lines
  exact ⟨Nat.add_left_cancel eq, rfl⟩

/-- The lines before a place have a pixel in every column. -/
theorem place_lt_iff (x_lt : x < stride) (line : Nat) :
    y * stride + x < line * stride ↔ y < line := by
  constructor
  · intro before
    by_contra later
    have := Nat.mul_le_mul_right stride (Nat.not_lt.mp later)
    omega
  · intro before
    have := Nat.mul_le_mul_right stride (Nat.succ_le_of_lt before)
    rw [Nat.succ_mul] at this
    omega

theorem le_place_iff (x_lt : x < stride) (line : Nat) :
    line * stride ≤ y * stride + x ↔ line ≤ y := by
  rw [← Nat.not_lt, place_lt_iff x_lt, Nat.not_lt]

theorem pixel_set {column line : Nat} (x_lt : x < stride) (column_lt : column < stride)
    (inside : line * stride + column < pixels.length) (value : α) :
    pixel (pixels.set (line * stride + column) value) stride x y =
      if x = column ∧ y = line then some value else pixel pixels stride x y := by
  rw [pixel, List.getElem?_set]
  by_cases here : x = column ∧ y = line
  · obtain ⟨rfl, rfl⟩ := here
    simp [inside]
  · rw [if_neg here, if_neg]
    · rfl
    · exact fun eq => here (place_inj x_lt column_lt eq.symm)

/-- Whole lines copied. -/
theorem pixel_copyWithin {first last line : Nat}
    (fits : CopyFits pixels (first * stride) (last * stride) (line * stride)) (x_lt : x < stride) :
    pixel (copyWithin pixels (first * stride) (last * stride) (line * stride)) stride x y =
      if line ≤ y ∧ y < line + (last - first) then pixel pixels stride x (first + (y - line))
      else pixel pixels stride x y := by
  rw [pixel, getElem?_copyWithin _ fits, ← Nat.sub_mul, ← Nat.add_mul]
  simp only [place_lt_iff x_lt, le_place_iff x_lt]
  split
  next inside =>
    have source : first * stride + (y * stride + x - line * stride) =
        (first + (y - line)) * stride + x := by
      obtain ⟨offset, rfl⟩ := Nat.exists_eq_add_of_le inside.1
      rw [Nat.add_sub_cancel_left, Nat.add_mul line, Nat.add_mul first]
      omega
    rw [source, pixel]
  next => rfl

/-- Everything from a line on filled. -/
theorem pixel_fillFrom (line : Nat) (x_lt : x < stride) (inside : y * stride + x < pixels.length)
    (value : α) :
    pixel (fillFrom pixels (line * stride) value) stride x y =
      if line ≤ y then some value else pixel pixels stride x y := by
  rw [pixel, getElem?_fillFrom]
  simp only [le_place_iff x_lt]
  by_cases below : line ≤ y
  · rw [if_pos ⟨below, inside⟩, if_pos below]
  · rw [if_neg (fun both => below both.1), if_neg below]
    rfl

end Raster

end Vespertine
