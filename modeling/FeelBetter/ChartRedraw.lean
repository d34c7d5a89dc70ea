import FeelBetter.ChartGeometry
import FeelBetter.Machine.Runs

/-!
# Drawing the trend chart again

The cell of the trends keeps its chart, and the chart is drawn again whenever its points
change. Every drawing adds three labels to the view, and none removes those of the
one before.
-/

namespace FeelBetter

open Machine

/-- What happens to a chart: its points are assigned, or the system draws it. -/
inductive ChartEvent where
  | assign (graphPoints : List ℤ)
  | draw
  deriving DecidableEq

namespace ChartView

/-- A chart as it is loaded. -/
def start (frame : CGSize) : ChartView := ⟨frame, [0], []⟩

/-- One step of a chart: `none` where the drawing traps. -/
def step (view : ChartView) : ChartEvent → Option ChartView
  | .assign graphPoints => some { view with graphPoints }
  | .draw =>
    match draw.run view with
    | .ok _ after => some after
    | .error _ _ => none

/-- The labels in the view are three: zero, half the maximum of its points, and the maximum. -/
def LabelsOfPoints (view : ChartView) : Prop :=
  ∃ maxValue, view.graphPoints.max? = some maxValue ∧
    view.subviews.map ChartLabel.text = ["0", toString (maxValue.tdiv 2), toString maxValue]

/-- After a drawing the labels are those of the points. -/
def LabelledAfterDraw (_ : ChartView) (e : ChartEvent) (after : ChartView) : Prop :=
  e = .draw → after.LabelsOfPoints

/-- Every list that is assigned makes a chart. -/
def AllChartable (es : List ChartEvent) : Prop :=
  ∀ graphPoints, .assign graphPoints ∈ es → ∃ maxValue, Chartable graphPoints maxValue

variable {view : ChartView} {es : List ChartEvent}

theorem allChartable_cons {e : ChartEvent} (h : AllChartable (e :: es)) : AllChartable es :=
  fun graphPoints hmem => h graphPoints (List.mem_cons_of_mem e hmem)

/-- A drawing adds three labels to those that are there. -/
theorem step_draw {maxValue : ℤ} (h : view.graphPoints.max? = some maxValue) :
    view.step .draw =
      some { view with subviews := view.subviews ++ view.valueLabels maxValue } := by
  simp only [step, run_draw h]

/-- The labels after a drawing are those of the points only where there were none before. -/
theorem labelsOfPoints_draw_iff {maxValue : ℤ} (h : view.graphPoints.max? = some maxValue) :
    LabelsOfPoints { view with subviews := view.subviews ++ view.valueLabels maxValue } ↔
      view.subviews = [] := by
  constructor
  · rintro ⟨_, -, htexts⟩
    have hlength := congrArg List.length htexts
    simp only [List.map_append, List.length_append, List.length_map, valueLabels,
      List.length_cons, List.length_nil] at hlength
    exact List.eq_nil_of_length_eq_zero (by omega)
  · intro hnil
    refine ⟨maxValue, h, ?_⟩
    rw [hnil]
    rfl

/-- A view without labels may be drawn once, and one that has labels must not be drawn. -/
theorem always_labelled_iff {maxValue : ℤ} (hmax : view.graphPoints.max? = some maxValue)
    (hes : AllChartable es) :
    Always step LabelledAfterDraw view es ↔
      es.count .draw ≤ if view.subviews = [] then 1 else 0 := by
  induction es generalizing view maxValue with
  | nil => simp [Always]
  | cons e es ih =>
    have hrest := allChartable_cons hes
    cases e with
    | assign graphPoints =>
      obtain ⟨maxValue', hchartable⟩ := hes graphPoints List.mem_cons_self
      have htail : Always step LabelledAfterDraw { view with graphPoints } es ↔
          es.count .draw ≤ if view.subviews = [] then 1 else 0 := ih hchartable.max? hrest
      have hhead : LabelledAfterDraw view (.assign graphPoints) { view with graphPoints } := by
        rintro ⟨⟩
      rw [always_cons rfl, List.count_cons_of_ne (by simp), htail]
      exact and_iff_right hhead
    | draw =>
      have hlabels : view.subviews ++ view.valueLabels maxValue ≠ [] := by simp [valueLabels]
      have htail : Always step LabelledAfterDraw
          { view with subviews := view.subviews ++ view.valueLabels maxValue } es ↔
            es.count .draw ≤ if view.subviews ++ view.valueLabels maxValue = [] then 1 else 0 :=
        ih hmax hrest
      have hhead : LabelledAfterDraw view .draw
          { view with subviews := view.subviews ++ view.valueLabels maxValue } ↔
            view.subviews = [] := by
        rw [LabelledAfterDraw, labelsOfPoints_draw_iff hmax]
        simp
      rw [always_cons (step_draw hmax), List.count_cons_self, htail, hhead, if_neg hlabels]
      split_ifs with hnil <;> simp [hnil]

/-- **The labels in the view are those of the last points** after every drawing exactly where
the view is drawn once at most. -/
theorem labelled_iff (frame : CGSize) (hes : AllChartable es) :
    Always step LabelledAfterDraw (start frame) es ↔ es.count .draw ≤ 1 := by
  have hmax : (start frame).graphPoints.max? = some 0 := rfl
  exact always_labelled_iff hmax hes

theorem allChartable_three {es : List ChartEvent}
    (h : ∀ graphPoints, .assign graphPoints ∈ es → graphPoints = [0, 2, 1]) : AllChartable es := by
  intro graphPoints hmem
  obtain rfl := h graphPoints hmem
  exact ⟨2, by decide, by decide, rfl, by decide⟩

/-- A chart of three numbers that is drawn once. -/
theorem labelled_once :
    Always step LabelledAfterDraw (start ⟨100, 50⟩) [.assign [0, 2, 1], .draw] :=
  (labelled_iff ⟨100, 50⟩ (allChartable_three (by simp))).mpr (by decide)

/-- A chart that is drawn twice with the same points has every label twice. -/
theorem labels_twice :
    run step (start ⟨100, 50⟩) [.assign [0, 2, 1], .draw, .draw] ≠
        run step (start ⟨100, 50⟩) [.assign [0, 2, 1], .draw] ∧
      ¬∀ (frame : CGSize) (es : List ChartEvent), AllChartable es →
        Always step LabelledAfterDraw (start frame) es := by
  have hmax : (start ⟨100, 50⟩).graphPoints.max? = some 0 := rfl
  constructor
  · decide +kernel
  · intro h
    have hes : AllChartable [.assign [0, 2, 1], .draw, .draw] := allChartable_three (by simp)
    have halways := h ⟨100, 50⟩ _ hes
    rw [always_labelled_iff hmax hes] at halways
    exact absurd halways (by decide)

end ChartView

end FeelBetter
