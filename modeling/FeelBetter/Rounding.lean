import Mathlib.Algebra.Order.Archimedean.Basic
import Mathlib.Algebra.Order.Floor.Ring
import Mathlib.Data.Rat.Floor
import Mathlib.Tactic.Linarith

/-!
# Exact arithmetic

Floating-point numbers are rational here and their arithmetic is exact. What is
left of floating-point is that a division by zero has no number as its result,
and that the conversion to an integer drops the fractional part. This file
bounds conversions and the averages of integers.
-/

namespace FeelBetter

/-- `CGFloat`, with exact arithmetic. -/
abbrev CGFloat := ℚ

/-- The conversion `Int(_:)`, which rounds towards zero. -/
def truncate (q : CGFloat) : ℤ := if 0 ≤ q then ⌊q⌋ else ⌈q⌉

/-- A division. By zero it gives an infinity or no number at all, never a rational. -/
def divide (a b : ℚ) : Option ℚ := if b = 0 then none else some (a / b)

@[simp] theorem truncate_intCast (n : ℤ) : truncate n = n := by
  simp [truncate]

@[simp] theorem truncate_natCast (n : ℕ) : truncate n = n := by
  simp [truncate]

/-- Rounding towards zero stays above every integer below. -/
theorem le_truncate {n : ℤ} {q : ℚ} (h : (n : ℚ) ≤ q) : n ≤ truncate q := by
  unfold truncate
  split
  · exact Int.le_floor.mpr h
  · exact_mod_cast h.trans (Int.le_ceil q)

/-- Rounding towards zero stays below every integer above. -/
theorem truncate_le {n : ℤ} {q : ℚ} (h : q ≤ n) : truncate q ≤ n := by
  unfold truncate
  split
  · exact_mod_cast (Int.floor_le q).trans h
  · exact Int.ceil_le.mpr h

theorem truncate_of_nonneg {q : ℚ} (h : 0 ≤ q) : truncate q = ⌊q⌋ := if_pos h

theorem truncate_of_neg {q : ℚ} (h : q < 0) : truncate q = ⌈q⌉ := if_neg (not_le.mpr h)

/-- What is left of `c` beside `w`, rounded down, and `w`, rounded up, fit into `c`, rounded up. -/
theorem floor_sub_add_ceil_le (c w : ℚ) : ⌊c - w⌋ + ⌈w⌉ ≤ ⌈c⌉ := by
  rw [← Int.ceil_intCast_add]
  apply Int.ceil_mono
  linarith [Int.floor_le (c - w)]

/-- The last start of an interval that is rounded up, and its length, stay below a bound that
is rounded up: only the lengths matter. -/
theorem natAbs_truncate_add_ceil_le_ceil_iff {c w : ℚ} :
    ((truncate (c - w)).natAbs : ℤ) + ⌈w⌉ ≤ ⌈c⌉ ↔ ⌈w⌉ ≤ ⌈c⌉ := by
  constructor
  · intro h
    omega
  · intro hceil
    rcases le_or_gt w c with hle | hlt
    · have hnonneg : 0 ≤ c - w := sub_nonneg.mpr hle
      have hfloor : 0 ≤ ⌊c - w⌋ := Int.floor_nonneg.mpr hnonneg
      rw [truncate_of_nonneg hnonneg, Int.natAbs_of_nonneg hfloor]
      exact floor_sub_add_ceil_le c w
    · -- both have the same ceiling, and their difference is rounded to zero
      have hone : w < c + 1 := by
        have hw : (w : ℚ) ≤ ⌈c⌉ := (Int.le_ceil w).trans (by exact_mod_cast hceil)
        linarith [Int.ceil_lt_add_one c]
      have hzero : truncate (c - w) = 0 := by
        rw [truncate_of_neg (by linarith), Int.ceil_eq_iff]
        constructor
        · push_cast
          linarith
        · push_cast
          linarith
      rw [hzero]
      simpa using hceil

/-- They stay below a bound that is rounded down exactly where the length is whole or its
fractional part above that of the bound. -/
theorem natAbs_truncate_add_ceil_le_floor_iff {c w : ℚ} :
    ((truncate (c - w)).natAbs : ℤ) + ⌈w⌉ ≤ ⌊c⌋ ↔
      w ≤ c ∧ (Int.fract w = 0 ∨ Int.fract c < Int.fract w) := by
  rcases le_or_gt w c with hle | hlt
  · have hnonneg : 0 ≤ c - w := sub_nonneg.mpr hle
    have hfloor : 0 ≤ ⌊c - w⌋ := Int.floor_nonneg.mpr hnonneg
    rw [truncate_of_nonneg hnonneg, Int.natAbs_of_nonneg hfloor]
    have hsub : ⌊c - w⌋ + ⌈w⌉ ≤ ⌊c⌋ ↔ Int.fract c < w - ⌈w⌉ + 1 := by
      rw [show ⌊c - w⌋ + ⌈w⌉ ≤ ⌊c⌋ ↔ ⌊c - w⌋ < ⌊c⌋ - ⌈w⌉ + 1 by omega, Int.floor_lt]
      push_cast
      rw [← Int.self_sub_floor]
      constructor <;> intro h <;> linarith
    rw [hsub, and_iff_right hle]
    by_cases hwhole : Int.fract w = 0
    · have hceil : (⌈w⌉ : ℚ) = w := by
        rw [Int.fract_eq_iff] at hwhole
        obtain ⟨-, -, z, hz⟩ := hwhole
        rw [sub_zero] at hz
        rw [hz, Int.ceil_intCast]
      rw [hceil]
      simp [hwhole, Int.fract_lt_one]
    · rw [Int.ceil_eq_add_one_sub_fract hwhole, or_iff_right hwhole]
      constructor <;> intro h <;> linarith
  · constructor
    · intro h
      have hfloor : (⌈w⌉ : ℤ) ≤ ⌊c⌋ := by omega
      have hceil : (⌈w⌉ : ℚ) ≤ ⌊c⌋ := by exact_mod_cast hfloor
      linarith [Int.le_ceil w, Int.floor_le c]
    · rintro ⟨hle, -⟩
      linarith

theorem isSome_divide_iff {a b : ℚ} : (divide a b).isSome ↔ b ≠ 0 := by
  unfold divide
  split <;> simp_all

theorem divide_of_ne_zero {b : ℚ} (a : ℚ) (h : b ≠ 0) : divide a b = some (a / b) := if_neg h

/-! ### Averages -/

section Average

variable {α : Type} {f : α → ℤ} {l : List α}

/-- The sum of integers that are not below a bound. -/
theorem le_foldl_add {lo : ℤ} (h : ∀ x ∈ l, lo ≤ f x) (a : ℤ) :
    a + l.length * lo ≤ l.foldl (fun total x => total + f x) a := by
  induction l generalizing a with
  | nil => simp
  | cons x l ih =>
    obtain ⟨hx, hl⟩ := List.forall_mem_cons.mp h
    have hrest := ih hl (a + f x)
    rw [List.foldl_cons, List.length_cons]
    push_cast
    linarith

/-- The sum of integers that are not above a bound. -/
theorem foldl_add_le {hi : ℤ} (h : ∀ x ∈ l, f x ≤ hi) (a : ℤ) :
    l.foldl (fun total x => total + f x) a ≤ a + l.length * hi := by
  induction l generalizing a with
  | nil => simp
  | cons x l ih =>
    obtain ⟨hx, hl⟩ := List.forall_mem_cons.mp h
    have hrest := ih hl (a + f x)
    rw [List.foldl_cons, List.length_cons]
    push_cast
    linarith

/-- One integer below the bound keeps the sum below. -/
theorem foldl_add_lt {hi : ℤ} (h : ∀ x ∈ l, f x ≤ hi) (hlt : ∃ x ∈ l, f x < hi) (a : ℤ) :
    l.foldl (fun total x => total + f x) a < a + l.length * hi := by
  induction l generalizing a with
  | nil =>
    obtain ⟨x, hx, _⟩ := hlt
    cases hx
  | cons x l ih =>
    obtain ⟨hx, hl⟩ := List.forall_mem_cons.mp h
    rw [List.foldl_cons, List.length_cons]
    push_cast
    by_cases hhead : f x < hi
    · have hrest := foldl_add_le hl (a + f x)
      linarith
    · obtain ⟨y, hy, hylt⟩ := hlt
      have hy : y ∈ l := (List.mem_cons.mp hy).resolve_left fun heq => hhead (heq ▸ hylt)
      have hrest := ih hl ⟨y, hy, hylt⟩ (a + f x)
      linarith

/-- The truncated average of integers that are not below a bound. -/
theorem le_truncate_average {lo : ℤ} (hne : l ≠ []) (h : ∀ x ∈ l, lo ≤ f x) :
    lo ≤ truncate ((l.foldl (fun total x => total + f x) 0 : ℤ) / (l.length : ℚ)) := by
  have hlength : (0 : ℚ) < l.length := by exact_mod_cast List.length_pos_iff.mpr hne
  have hsum := le_foldl_add h 0
  apply le_truncate
  rw [le_div_iff₀ hlength]
  exact_mod_cast (by linarith : lo * l.length ≤ l.foldl (fun total x => total + f x) 0)

/-- The truncated average of integers that are not above a bound. -/
theorem truncate_average_le {hi : ℤ} (hne : l ≠ []) (h : ∀ x ∈ l, f x ≤ hi) :
    truncate ((l.foldl (fun total x => total + f x) 0 : ℤ) / (l.length : ℚ)) ≤ hi := by
  have hlength : (0 : ℚ) < l.length := by exact_mod_cast List.length_pos_iff.mpr hne
  have hsum := foldl_add_le h 0
  apply truncate_le
  rw [div_le_iff₀ hlength]
  exact_mod_cast (by linarith : l.foldl (fun total x => total + f x) 0 ≤ hi * l.length)

/-- The truncated average of integers between zero and a bound is the bound only where all
of them are. -/
theorem truncate_average_lt_iff {hi : ℤ} (hne : l ≠ []) (hnonneg : ∀ x ∈ l, 0 ≤ f x)
    (h : ∀ x ∈ l, f x ≤ hi) :
    truncate ((l.foldl (fun total x => total + f x) 0 : ℤ) / (l.length : ℚ)) < hi ↔
      ∃ x ∈ l, f x < hi := by
  constructor
  · intro hlt
    by_contra hall
    push Not at hall
    exact absurd (le_truncate_average hne hall) (not_le.mpr hlt)
  · intro hlt
    have hlength : (0 : ℚ) < l.length := by exact_mod_cast List.length_pos_iff.mpr hne
    have hsum := foldl_add_lt h hlt 0
    have hpos := le_foldl_add hnonneg 0
    have hnonneg' : (0 : ℚ) ≤ (l.foldl (fun total x => total + f x) 0 : ℤ) / (l.length : ℚ) := by
      apply div_nonneg _ hlength.le
      exact_mod_cast (by linarith : 0 ≤ l.foldl (fun total x => total + f x) 0)
    rw [truncate_of_nonneg hnonneg', Int.floor_lt, div_lt_iff₀ hlength]
    exact_mod_cast (by linarith : l.foldl (fun total x => total + f x) 0 < hi * l.length)

end Average

end FeelBetter
