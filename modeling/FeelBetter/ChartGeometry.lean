import FeelBetter.ChartView
import FeelBetter.Scale

/-!
# The geometry of the trend chart

For two or more numbers that are not negative and not all zero, the columns of the
chart are a grid between the margins, and the heights a flipped scale between
the borders. So the chart shows the order of the numbers, and its circles are
inside the view.
-/

namespace FeelBetter

open Scale

namespace ChartView

/-- Numbers that make a chart: two or more, none of them negative, with a positive maximum. -/
structure Chartable (graphPoints : List ℤ) (maxValue : ℤ) : Prop where
  two_le : 2 ≤ graphPoints.length
  nonneg : ∀ n ∈ graphPoints, 0 ≤ n
  max? : graphPoints.max? = some maxValue
  pos : 0 < maxValue

/-- `circle.lineWidth` in `draw`. -/
def circleLineWidth : CGFloat := 2

/-- A circle with this origin is inside the view, also the half of its line that is outside
the oval. -/
structure CircleInside (view : ChartView) (origin : CGPoint) : Prop where
  left : 0 ≤ origin.x - circleLineWidth / 2
  right : origin.x + circleDiameter + circleLineWidth / 2 ≤ view.frame.width
  top : 0 ≤ origin.y - circleLineWidth / 2
  bottom : origin.y + circleDiameter + circleLineWidth / 2 ≤ view.frame.height

/-- A drawing whose vertices have the coordinates `x` and `y` plots the points of the view
faithfully inside its frame. -/
structure PlotsFaithfully (view : ChartView) (drawing : Drawing) (x y : ℕ → CGFloat) :
    Prop where
  graphPath : drawing.graphPath =
    (List.range view.graphPoints.length).map fun i => ⟨some (x i), some (y i)⟩
  first : x 0 = margin + 2
  last : x (view.graphPoints.length - 1) = view.frame.width - margin - 2
  increasing : StrictMono x
  spaced : ∀ i j, x (i + 1) - x i = x (j + 1) - x j
  inside : ∀ i < view.graphPoints.length,
    topBorder ≤ y i ∧ y i ≤ view.frame.height - bottomBorder
  higher : ∀ i j a b, view.graphPoints[i]? = some a → view.graphPoints[j]? = some b →
    a < b → y j < y i
  level : ∀ i j a, view.graphPoints[i]? = some a → view.graphPoints[j]? = some a → y i = y j
  topLine : drawing.linePath.head? =
    some (⟨margin, topBorder⟩, ⟨view.frame.width - margin, topBorder⟩)
  bottomLine : drawing.linePath.getLast? = some (⟨margin, view.frame.height - bottomBorder⟩,
    ⟨view.frame.width - margin, view.frame.height - bottomBorder⟩)
  onTopLine : ∀ i a, view.graphPoints[i]? = some a → view.graphPoints.max? = some a →
    y i = topBorder
  onBottomLine : ∀ i, view.graphPoints[i]? = some 0 → y i = view.frame.height - bottomBorder
  circles : drawing.circles = (List.range view.graphPoints.length).map fun i =>
    ⟨some (x i - circleDiameter / 2), some (y i - circleDiameter / 2)⟩
  circleInside : ∀ i < view.graphPoints.length,
    view.CircleInside ⟨x i - circleDiameter / 2, y i - circleDiameter / 2⟩

variable (view : ChartView)

/-- The gap between two columns. -/
def spacer : CGFloat :=
  (view.frame.width - margin * 2 - 4) / ((view.graphPoints.length : CGFloat) - 1)

/-- The x coordinate of a column. -/
def vertexX : ℕ → CGFloat := grid (margin + 2) view.spacer

/-- The y coordinate of the number in a column. -/
def vertexY (maxValue : ℤ) (i : ℕ) : CGFloat :=
  flipped topBorder view.graphHeight (maxValue : CGFloat) (view.graphPoints.getD i 0 : ℤ)

variable {view : ChartView} {maxValue : ℤ}

theorem columnXPoint_eq (h : 2 ≤ view.graphPoints.length) (i : ℕ) :
    view.columnXPoint i = some (view.vertexX i) := by
  have hne : (((view.graphPoints.length : ℤ) - 1 : ℤ) : CGFloat) ≠ 0 := by
    rw [Int.cast_ne_zero]
    omega
  rw [columnXPoint, divide_of_ne_zero _ hne, Option.map_some, vertexX, grid, spacer]
  push_cast
  rfl

theorem columnYPoint_eq (h : maxValue ≠ 0) (i : ℕ) :
    view.columnYPoint maxValue (view.graphPoints.getD i 0) = some (view.vertexY maxValue i) := by
  rw [columnYPoint, divide_of_ne_zero _ (Int.cast_ne_zero.mpr h), Option.map_some]
  rfl

theorem vertexY_of_getElem? {i : ℕ} {a : ℤ} (h : view.graphPoints[i]? = some a) :
    view.vertexY maxValue i =
      flipped topBorder view.graphHeight (maxValue : CGFloat) (a : CGFloat) := by
  rw [vertexY, List.getD_eq_getElem?_getD, h, Option.getD_some]

theorem graphHeight_pos (h : 20 < view.frame.height) : 0 < view.graphHeight := by
  unfold graphHeight topBorder bottomBorder
  linarith

/-- The bottom line is at the height of the zero. -/
theorem graphHeight_add : view.graphHeight + topBorder = view.frame.height - bottomBorder := by
  unfold graphHeight
  ring

theorem Chartable.spacer_pos (h : Chartable view.graphPoints maxValue)
    (hwidth : 24 < view.frame.width) : 0 < view.spacer := by
  have hlength : (1 : CGFloat) < view.graphPoints.length := by exact_mod_cast h.two_le
  refine div_pos ?_ (sub_pos.mpr hlength)
  unfold margin
  linarith

/-- The last column is at the right margin. -/
theorem Chartable.vertexX_last (h : Chartable view.graphPoints maxValue) :
    view.vertexX (view.graphPoints.length - 1) = view.frame.width - margin - 2 := by
  rw [vertexX, spacer, grid_last h.two_le]
  ring

/-- All columns are between the margins. -/
theorem Chartable.vertexX_mem (h : Chartable view.graphPoints maxValue)
    (hwidth : 24 < view.frame.width) {i : ℕ} (hi : i < view.graphPoints.length) :
    margin + 2 ≤ view.vertexX i ∧ view.vertexX i ≤ view.frame.width - margin - 2 := by
  have hmono : Monotone view.vertexX := (grid_strictMono (h.spacer_pos hwidth)).monotone
  constructor
  · calc margin + 2
      _ = view.vertexX 0 := grid_zero.symm
      _ ≤ view.vertexX i := hmono (Nat.zero_le i)
  · rw [← h.vertexX_last]
    exact hmono (Nat.le_sub_one_of_lt hi)

theorem Chartable.strictAnti (h : Chartable view.graphPoints maxValue)
    (hheight : 20 < view.frame.height) :
    StrictAnti (flipped topBorder view.graphHeight (maxValue : CGFloat)) :=
  flipped_strictAnti (graphHeight_pos hheight) (Int.cast_pos.mpr h.pos)

/-- All heights are between the borders. -/
theorem Chartable.vertexY_mem (h : Chartable view.graphPoints maxValue)
    (hheight : 20 < view.frame.height) {i : ℕ} (hi : i < view.graphPoints.length) :
    topBorder ≤ view.vertexY maxValue i ∧
      view.vertexY maxValue i ≤ view.frame.height - bottomBorder := by
  have hget := List.getElem?_eq_getElem hi
  have hmem : view.graphPoints[i] ∈ view.graphPoints := List.getElem_mem hi
  have hzero : (0 : CGFloat) ≤ (view.graphPoints[i] : ℤ) := by
    exact_mod_cast h.nonneg _ hmem
  have hle : ((view.graphPoints[i] : ℤ) : CGFloat) ≤ (maxValue : ℤ) :=
    Int.cast_le.mpr ((List.max?_eq_some_iff.mp h.max?).2 _ hmem)
  rw [vertexY_of_getElem? hget, ← graphHeight_add]
  exact flipped_mem_Icc (graphHeight_pos hheight) (Int.cast_pos.mpr h.pos) hzero hle

/-- What is between the margins and the borders has room for a circle. -/
theorem circleInside_of_mem {x y : CGFloat}
    (hx : margin + 2 ≤ x ∧ x ≤ view.frame.width - margin - 2)
    (hy : topBorder ≤ y ∧ y ≤ view.frame.height - bottomBorder) :
    view.CircleInside ⟨x - circleDiameter / 2, y - circleDiameter / 2⟩ := by
  obtain ⟨hleft, hright⟩ := hx
  obtain ⟨htop, hbottom⟩ := hy
  unfold margin at hleft hright
  unfold topBorder at htop
  unfold bottomBorder at hbottom
  constructor <;> simp only [circleDiameter, circleLineWidth] <;> linarith

theorem Chartable.graphPath_plot (h : Chartable view.graphPoints maxValue) :
    (view.plot maxValue).graphPath = (List.range view.graphPoints.length).map fun i =>
      ⟨some (view.vertexX i), some (view.vertexY maxValue i)⟩ := by
  refine List.map_congr_left fun i _ => ?_
  rw [vertexAt, columnXPoint_eq h.two_le, columnYPoint_eq h.pos.ne']

/-- A plot is faithful. -/
theorem Chartable.plotsFaithfully (h : Chartable view.graphPoints maxValue)
    (hwidth : 24 < view.frame.width) (hheight : 20 < view.frame.height) :
    PlotsFaithfully view (view.plot maxValue) view.vertexX (view.vertexY maxValue) where
  graphPath := h.graphPath_plot
  first := grid_zero
  last := h.vertexX_last
  increasing := grid_strictMono (h.spacer_pos hwidth)
  spaced := by
    intro i j
    have hgap (i : ℕ) : view.vertexX (i + 1) - view.vertexX i = view.spacer := by
      rw [vertexX, grid_succ, add_sub_cancel_left]
    rw [hgap, hgap]
  inside := fun i hi => h.vertexY_mem hheight hi
  higher := by
    intro i j a b ha hb hab
    rw [vertexY_of_getElem? ha, vertexY_of_getElem? hb]
    exact h.strictAnti hheight (Int.cast_lt.mpr hab)
  level := by
    intro i j a hi hj
    rw [vertexY_of_getElem? hi, vertexY_of_getElem? hj]
  topLine := rfl
  bottomLine := rfl
  onTopLine := by
    intro i a hi hmax
    obtain rfl : maxValue = a := Option.some.inj (h.max?.symm.trans hmax)
    rw [vertexY_of_getElem? hi, flipped_self (Int.cast_ne_zero.mpr h.pos.ne')]
  onBottomLine := by
    intro i hi
    rw [vertexY_of_getElem? hi, Int.cast_zero, flipped_zero, graphHeight_add]
  circles := by
    show ((view.plot maxValue).graphPath).map circleOrigin = _
    rw [h.graphPath_plot, List.map_map]
    rfl
  circleInside := fun i hi => circleInside_of_mem (h.vertexX_mem hwidth hi)
    (h.vertexY_mem hheight hi)

/-- **The trend chart plots faithfully inside its frame**: the columns are at equal gaps from
margin to margin, greater numbers are higher, the lines at the borders are drawn, with a
maximum on the top one and a zero on the bottom one, and every vertex and every circle is
inside the view. -/
theorem draw_plotsFaithfully (h : Chartable view.graphPoints maxValue)
    (hwidth : 24 < view.frame.width) (hheight : 20 < view.frame.height) :
    ∃ drawing after x y, draw.run view = .ok drawing after ∧
      PlotsFaithfully view drawing x y :=
  ⟨_, _, _, _, run_draw h.max?, h.plotsFaithfully hwidth hheight⟩

/-- A chart of three numbers. -/
theorem draw_plotsFaithfully_three : ∃ drawing after x y,
    draw.run ⟨⟨100, 50⟩, [0, 2, 1], []⟩ = .ok drawing after ∧
      PlotsFaithfully ⟨⟨100, 50⟩, [0, 2, 1], []⟩ drawing x y := by
  have hchartable : Chartable [0, 2, 1] 2 := ⟨by decide, by decide, rfl, by decide⟩
  exact draw_plotsFaithfully hchartable (by norm_num) (by norm_num)

end ChartView

end FeelBetter
