import FeelBetter.Firebase
import FeelBetter.WordCloud.CoreGraphics

/-!
# The trend chart

`ChartView.draw` plots a list of numbers as a line from the left margin to the right
one, scaled so that the maximum is on the top line. The gap between two points is
a division by their number less one, and the height of a point one by the maximum,
so a single point and a maximum of zero have no place on the chart; no points at all
have no maximum, and the drawing traps.
-/

namespace FeelBetter

/-- A point of a path. A coordinate that was divided by zero is no number. -/
structure Vertex where
  x : Option CGFloat
  y : Option CGFloat
  deriving DecidableEq

/-- Both coordinates of a point are numbers. -/
def Vertex.Finite (point : Vertex) : Prop := point.x.isSome ∧ point.y.isSome

/-- A label that `draw` adds to the view. -/
structure ChartLabel where
  text : String
  frame : CGRect
  deriving DecidableEq

/-- `ChartView`. -/
structure ChartView where
  frame : CGSize
  graphPoints : List ℤ
  subviews : List ChartLabel
  deriving DecidableEq

/-- What a call of `draw` puts on the view. -/
structure Drawing where
  graphPath : List Vertex
  clippingPath : List Vertex
  /-- The origins of the circles around the points. -/
  circles : List Vertex
  /-- The ends of the horizontal lines. -/
  linePath : List (CGPoint × CGPoint)
  labels : List ChartLabel
  deriving DecidableEq

/-- All points of the paths of a drawing. -/
def Drawing.vertices (drawing : Drawing) : List Vertex :=
  drawing.graphPath ++ drawing.clippingPath ++ drawing.circles

namespace ChartView

/-- `Constants.margin`. -/
def margin : CGFloat := 10

/-- `Constants.topBorder`. -/
def topBorder : CGFloat := 10

/-- `Constants.bottomBorder`. -/
def bottomBorder : CGFloat := 10

/-- `Constants.circleDiameter`. -/
def circleDiameter : CGFloat := 12

variable (view : ChartView)

/-- `graphHeight` in `draw`. -/
def graphHeight : CGFloat := view.frame.height - topBorder - bottomBorder

/-- The closure `columnXPoint` in `draw`. -/
def columnXPoint (column : ℕ) : Option CGFloat :=
  (divide (view.frame.width - margin * 2 - 4) ((view.graphPoints.length : ℤ) - 1 : ℤ)).map
    fun spacer => column * spacer + (margin + 2)

/-- The closure `columnYPoint` in `draw`. -/
def columnYPoint (maxValue graphPoint : ℤ) : Option CGFloat :=
  (divide graphPoint maxValue).map
    fun y => view.graphHeight + topBorder - y * view.graphHeight

/-- The array subscript `graphPoints[i]`. -/
def graphPoint (i : ℕ) : Except Trap ℤ :=
  match view.graphPoints[i]? with
  | some graphPoint => .ok graphPoint
  | none => .error .indexOutOfRange

/-- The point of the path for an index. -/
def vertex (maxValue : ℤ) (i : ℕ) : Except Trap Vertex := do
  let graphPoint ← view.graphPoint i
  pure ⟨view.columnXPoint i, view.columnYPoint maxValue graphPoint⟩

/-- The origin of the circle around a point. -/
def circleOrigin (point : Vertex) : Vertex where
  x := point.x.map fun x => x - circleDiameter / 2
  y := point.y.map fun y => y - circleDiameter / 2

/-- The horizontal lines: top, center and bottom. -/
def horizontalLines : List (CGPoint × CGPoint) :=
  let line (y : CGFloat) : CGPoint × CGPoint := (⟨margin, y⟩, ⟨view.frame.width - margin, y⟩)
  [line topBorder, line (view.graphHeight / 2 + topBorder),
    line (view.frame.height - bottomBorder)]

/-- The labels of the values zero, half the maximum and the maximum. -/
def valueLabels (maxValue : ℤ) : List ChartLabel :=
  let label (text : String) (y : CGFloat) : ChartLabel :=
    ⟨text, ⟨⟨view.frame.width - margin / 2, y⟩, ⟨15, 20⟩⟩⟩
  [label "0" (topBorder / 2 + view.graphHeight),
    label (toString (maxValue.tdiv 2)) (view.graphHeight / 2 + topBorder),
    label (toString maxValue) topBorder]

/-- What `draw(_:)` puts on the view, in the order of its traps. -/
def drawing : Except Trap Drawing :=
  match view.graphPoints.max? with
  | none => .error .noMaximum
  | some maxValue => do
    let first ← view.vertex maxValue 0
    if view.graphPoints.length < 1 then throw .invalidRange
    let rest ← (List.range' 1 (view.graphPoints.length - 1)).mapM (view.vertex maxValue)
    let graphPath := first :: rest
    let points ← (List.range view.graphPoints.length).mapM (view.vertex maxValue)
    pure {
      graphPath
      clippingPath := graphPath ++
        [⟨view.columnXPoint (view.graphPoints.length - 1), some view.frame.height⟩,
          ⟨view.columnXPoint 0, some view.frame.height⟩]
      circles := points.map circleOrigin
      linePath := view.horizontalLines
      labels := view.valueLabels maxValue }

/-- `draw(_:)`: the labels are added to those of earlier calls. -/
def draw : EStateM Trap ChartView Drawing := do
  match (← get).drawing with
  | .ok drawing =>
    modify fun view : ChartView => { view with subviews := view.subviews ++ drawing.labels }
    pure drawing
  | .error trap => throw trap

/-! ### The vertices -/

/-- The point of the path for an index that is not out of range. -/
def vertexAt (maxValue : ℤ) (i : ℕ) : Vertex :=
  ⟨view.columnXPoint i, view.columnYPoint maxValue (view.graphPoints.getD i 0)⟩

/-- A drawing whose points all have their indices in range. -/
def plot (maxValue : ℤ) : Drawing :=
  let graphPath := (List.range view.graphPoints.length).map (view.vertexAt maxValue)
  { graphPath
    clippingPath := graphPath ++
      [⟨view.columnXPoint (view.graphPoints.length - 1), some view.frame.height⟩,
        ⟨view.columnXPoint 0, some view.frame.height⟩]
    circles := graphPath.map circleOrigin
    linePath := view.horizontalLines
    labels := view.valueLabels maxValue }

variable {view : ChartView} {maxValue : ℤ}

theorem vertex_eq_ok {i : ℕ} (h : i < view.graphPoints.length) :
    view.vertex maxValue i = .ok (view.vertexAt maxValue i) := by
  simp [vertex, graphPoint, vertexAt, h]

theorem mapM_vertex_eq_ok {indices : List ℕ} (h : ∀ i ∈ indices, i < view.graphPoints.length) :
    indices.mapM (view.vertex maxValue) = .ok (indices.map (view.vertexAt maxValue)) := by
  induction indices with
  | nil => rfl
  | cons i indices ih =>
    obtain ⟨hi, hindices⟩ := List.forall_mem_cons.mp h
    rw [List.mapM_cons, vertex_eq_ok hi, ih hindices]
    rfl

theorem length_pos_of_max? (h : view.graphPoints.max? = some maxValue) :
    0 < view.graphPoints.length :=
  List.length_pos_of_mem (List.max?_mem h)

/-- **What is drawn**: a chart with a maximum has no index out of range. -/
theorem drawing_eq_ok (h : view.graphPoints.max? = some maxValue) :
    view.drawing = .ok (view.plot maxValue) := by
  have hpos : 0 < view.graphPoints.length := length_pos_of_max? h
  have hrest : ∀ i ∈ List.range' 1 (view.graphPoints.length - 1),
      i < view.graphPoints.length := by
    intro i hi
    have := List.mem_range'_1.mp hi
    omega
  have hpoints : ∀ i ∈ List.range view.graphPoints.length, i < view.graphPoints.length :=
    fun i hi => List.mem_range.mp hi
  -- the first point and the loop from 1 are one pass from 0
  have hpath : List.range view.graphPoints.length =
      0 :: List.range' 1 (view.graphPoints.length - 1) := by
    obtain ⟨n, hn⟩ : ∃ n, view.graphPoints.length = n + 1 := ⟨_, (Nat.sub_add_cancel hpos).symm⟩
    rw [hn, List.range_eq_range', List.range'_succ, Nat.add_sub_cancel]
  have hcount : ¬view.graphPoints.length < 1 := by omega
  unfold drawing
  rw [h]
  simp only [vertex_eq_ok hpos, mapM_vertex_eq_ok hrest, mapM_vertex_eq_ok hpoints, if_neg hcount]
  simp only [plot, hpath, List.map_cons]
  rfl

/-- What a call of `draw` does to a view whose points have a maximum. -/
theorem run_draw (h : view.graphPoints.max? = some maxValue) :
    draw.run view = .ok (view.plot maxValue)
      { view with subviews := view.subviews ++ view.valueLabels maxValue } := by
  simp only [draw, EStateM.run_bind, EStateM.run_get, drawing_eq_ok h]
  rfl

theorem isSome_columnXPoint_iff {column : ℕ} :
    (view.columnXPoint column).isSome ↔ view.graphPoints.length ≠ 1 := by
  rw [columnXPoint, Option.isSome_map, isSome_divide_iff, Int.cast_ne_zero]
  omega

theorem isSome_columnYPoint_iff {graphPoint : ℤ} :
    (view.columnYPoint maxValue graphPoint).isSome ↔ maxValue ≠ 0 := by
  rw [columnYPoint, Option.isSome_map, isSome_divide_iff, Int.cast_ne_zero]

/-! ### Which charts are drawn -/

/-- The chart is drawn without a trap, and no coordinate was divided by zero. -/
def DrawsWell (view : ChartView) : Prop :=
  ∃ drawing, view.drawing = .ok drawing ∧ ∀ point ∈ drawing.vertices, point.Finite

/-- The points that have a place on a chart: two or more, with a maximum other than zero. -/
def Plottable (graphPoints : List ℤ) : Prop :=
  2 ≤ graphPoints.length ∧ graphPoints.max? ≠ some 0

instance : DecidablePred Plottable := fun _ => inferInstanceAs (Decidable (_ ∧ _))

theorem finite_circleOrigin_iff {point : Vertex} : (circleOrigin point).Finite ↔ point.Finite := by
  simp [circleOrigin, Vertex.Finite]

theorem finite_vertexAt_iff {i : ℕ} :
    (view.vertexAt maxValue i).Finite ↔ view.graphPoints.length ≠ 1 ∧ maxValue ≠ 0 :=
  and_congr isSome_columnXPoint_iff isSome_columnYPoint_iff

/-- The points of a plot are all finite where those of the path are. -/
theorem finite_vertices_plot_iff (h : view.graphPoints.max? = some maxValue) :
    (∀ point ∈ (view.plot maxValue).vertices, point.Finite) ↔
      view.graphPoints.length ≠ 1 ∧ maxValue ≠ 0 := by
  have hpos := length_pos_of_max? h
  constructor
  · intro hall
    refine finite_vertexAt_iff (i := 0).mp (hall _ ?_)
    simp only [Drawing.vertices, plot, List.mem_append, List.mem_map, List.mem_range]
    exact .inl (.inl ⟨0, hpos, rfl⟩)
  · intro hfinite point hpoint
    have hpath : ∀ point ∈ (view.plot maxValue).graphPath, point.Finite := by
      intro point hpoint
      obtain ⟨i, -, rfl⟩ := List.mem_map.mp hpoint
      exact finite_vertexAt_iff.mpr hfinite
    rcases List.mem_append.mp hpoint with hpoint | hcircle
    · rcases List.mem_append.mp hpoint with hgraph | hclip
      · exact hpath point hgraph
      · rcases List.mem_append.mp hclip with hgraph | hcorner
        · exact hpath point hgraph
        · have hcolumn (column : ℕ) : (view.columnXPoint column).isSome :=
            isSome_columnXPoint_iff.mpr hfinite.1
          rcases List.mem_pair.mp hcorner with rfl | rfl
          · exact ⟨hcolumn _, rfl⟩
          · exact ⟨hcolumn _, rfl⟩
    · obtain ⟨point, hgraph, rfl⟩ := List.mem_map.mp hcircle
      exact finite_circleOrigin_iff.mpr (hpath point hgraph)

/-- **Which charts are drawn**: those of two or more points whose maximum is not zero. -/
theorem drawsWell_iff_plottable : DrawsWell view ↔ Plottable view.graphPoints := by
  cases hmax : view.graphPoints.max? with
  | none =>
    have hnil : view.graphPoints = [] := List.max?_eq_none_iff.mp hmax
    constructor
    · rintro ⟨drawing, hdrawing, -⟩
      simp [ChartView.drawing, hmax] at hdrawing
    · rintro ⟨hlength, -⟩
      simp [hnil] at hlength
  | some maxValue =>
    have hpos := length_pos_of_max? hmax
    have hlength : 2 ≤ view.graphPoints.length ↔ view.graphPoints.length ≠ 1 := by omega
    calc DrawsWell view
      _ ↔ ∀ point ∈ (view.plot maxValue).vertices, point.Finite := by
        simp [DrawsWell, drawing_eq_ok hmax]
      _ ↔ view.graphPoints.length ≠ 1 ∧ maxValue ≠ 0 := finite_vertices_plot_iff hmax
      _ ↔ Plottable view.graphPoints := by
        rw [Plottable, hmax, hlength, ne_eq (some maxValue), Option.some.injEq]

end ChartView

end FeelBetter
