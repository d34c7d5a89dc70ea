import Mathlib.Algebra.Order.Field.Basic
import Mathlib.Order.Interval.Set.Defs
import Mathlib.Tactic.FieldSimp
import Mathlib.Tactic.Ring

/-!
# Scales of a plot

A grid puts the columns of a plot at equal gaps. A flipped scale puts the values from
zero to a maximum between the bottom and the top of a frame whose y axis points down.
Positions are in an ordered field.
-/

namespace Scale

variable {K : Type*} [Field K]

/-- The position of column `i`. -/
def grid (start gap : K) (i : ℕ) : K := i * gap + start

/-- The height of a value between zero and a maximum. -/
def flipped (top height maxValue value : K) : K := height + top - value / maxValue * height

variable {start gap width top height maxValue value : K}

@[simp] theorem grid_zero : grid start gap 0 = start := by simp [grid]

/-- Two columns next to each other are a gap apart. -/
theorem grid_succ (i : ℕ) : grid start gap (i + 1) = grid start gap i + gap := by
  simp only [grid, Nat.cast_add, Nat.cast_one]
  ring

@[simp] theorem flipped_zero : flipped top height maxValue 0 = height + top := by
  simp [flipped]

theorem flipped_self (h : maxValue ≠ 0) : flipped top height maxValue maxValue = top := by
  simp [flipped, h]

variable [LinearOrder K] [IsStrictOrderedRing K]

theorem grid_strictMono (h : 0 < gap) : StrictMono (grid start gap) :=
  strictMono_nat_of_lt_succ fun i => by
    rw [grid_succ]
    exact lt_add_of_pos_right _ h

/-- A width is divided among the gaps between the columns. -/
theorem grid_last {n : ℕ} (h : 2 ≤ n) : grid start (width / (n - 1)) (n - 1) = start + width := by
  have hne : (n : K) - 1 ≠ 0 := by
    have hone : (1 : K) < n := by exact_mod_cast h
    exact (sub_pos.mpr hone).ne'
  rw [grid, Nat.cast_sub (by omega), Nat.cast_one, mul_div_cancel₀ _ hne, add_comm]

theorem flipped_strictAnti (hheight : 0 < height) (hmax : 0 < maxValue) :
    StrictAnti (flipped top height maxValue) := fun a b hab => by
  have hdiv : a / maxValue < b / maxValue := div_lt_div_of_pos_right hab hmax
  exact sub_lt_sub_left (mul_lt_mul_of_pos_right hdiv hheight) _

/-- The values from zero to the maximum are inside the frame. -/
theorem flipped_mem_Icc (hheight : 0 < height) (hmax : 0 < maxValue) (hzero : 0 ≤ value)
    (hle : value ≤ maxValue) :
    flipped top height maxValue value ∈ Set.Icc top (height + top) := by
  have hanti : Antitone (flipped top height maxValue) :=
    (flipped_strictAnti hheight hmax).antitone
  constructor
  · calc top
      _ = flipped top height maxValue maxValue := (flipped_self hmax.ne').symm
      _ ≤ flipped top height maxValue value := hanti hle
  · calc flipped top height maxValue value
      _ ≤ flipped top height maxValue 0 := hanti hzero
      _ = height + top := flipped_zero

end Scale
