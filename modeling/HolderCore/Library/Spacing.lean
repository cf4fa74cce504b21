import Mathlib

/-! # Evenly spaced keys

The points that divide an interval of a linear ordered field into equal parts. Between any two of
them that are two apart lies exactly the one between them. -/

namespace HolderCore

section Spacing
variable {F : Type*} [Field F]

/-- The `i`-th of the points that divide the interval into `count + 1` equal parts, its ends being
the first and the last. -/
def tick (low high : F) (count i : ℕ) : F := low + i * ((high - low) / (count + 1))

@[simp] theorem tick_zero (low high : F) (count : ℕ) : tick low high count 0 = low := by
  simp [tick]

/-- A weighted mean of the ends. -/
theorem tick_eq_weighted (low high : F) (count i : ℕ) :
    tick low high count i =
      low * (1 - (i : F) / (count + 1)) + high * ((i : F) / (count + 1)) := by
  unfold tick
  ring

variable [LinearOrder F] [IsStrictOrderedRing F] {low high : F} {count i j : ℕ}

@[simp] theorem tick_last (low high : F) (count : ℕ) :
    tick low high count (count + 1) = high := by
  have hpos : (count : F) + 1 ≠ 0 := by positivity
  unfold tick
  push_cast
  field_simp
  ring

theorem tick_lt_tick (h : low < high) (hij : i < j) :
    tick low high count i < tick low high count j := by
  have hstep : 0 < (high - low) / ((count : F) + 1) := div_pos (sub_pos.mpr h) (by positivity)
  have hcast : (i : F) < j := Nat.cast_lt.mpr hij
  unfold tick
  gcongr

/-- The point halfway between the neighbours of a point is the point. -/
theorem tick_midpoint (low high : F) (count i : ℕ) :
    tick (tick low high count i) (tick low high count (i + 2)) 1 1 =
      tick low high count (i + 1) := by
  unfold tick
  push_cast
  ring

/-- Above the lower end alone the points lie one apart. -/
theorem tick_step_up (low : F) (count i : ℕ) : tick low (low + count + 1) count i = low + i := by
  have hpos : (count : F) + 1 ≠ 0 := by positivity
  unfold tick
  field_simp
  ring

/-- Below the upper end alone the points lie one apart. -/
theorem tick_step_down (high : F) (count i : ℕ) :
    tick (high - count - 1) high count i = high - count - 1 + i := by
  have hpos : (count : F) + 1 ≠ 0 := by positivity
  unfold tick
  field_simp
  ring

end Spacing

end HolderCore
