import FeelBetter.ChartView
import FeelBetter.Home

/-!
# Drawing the trends

The system draws the chart that the table of the home screen shows, whenever it
likes. The chart has the trends of the last reload, so what the table was told to
reload for decides which lists are drawn.
-/

namespace FeelBetter

open Machine

/-- The points of a cell with a chart. -/
def HomeCell.graphPoints : HomeCell → Option (List ℤ)
  | .trends graphPoints => some graphPoints
  | .getSupport => none
  | .keywords _ => none

/-- The points of the chart that the table shows. -/
def Home.chart (s : Home) : Option (List ℤ) := s.cells.findSome? HomeCell.graphPoints

/-- The home screen while it is drawn. -/
structure DrawnHome where
  home : Home
  trap : Option Trap

/-- What can happen to the home screen while it is drawn. -/
inductive DrawnHomeEvent where
  | home (e : HomeEvent)
  /-- The chart is drawn in a view of some size, with the subviews it has by then. -/
  | draw (frame : CGSize) (subviews : List ChartLabel)

namespace DrawnHome

/-- One step: `none` where the event cannot happen. After a trap nothing happens. -/
def step (s : DrawnHome) (e : DrawnHomeEvent) : Option DrawnHome :=
  if s.trap.isSome then none else
  match e with
  | .home e => (s.home.step e).map fun home => { s with home }
  | .draw frame subviews =>
    s.home.chart.map fun graphPoints =>
      match ChartView.draw.run ⟨frame, graphPoints, subviews⟩ with
      | .ok _ _ => s
      | .error trap _ => { s with trap := some trap }

/-- The initial home screen. -/
def start : DrawnHome := ⟨Home.start, none⟩

/-! ### The chart of the table -/

/-- The table shows one chart, whatever the order of its sections. -/
theorem chart_of_cells_eq {s : Home} {trends : List ℤ} {keywordDictionary : KeywordDictionary}
    (h : s.cells = homeCells trends keywordDictionary) : s.chart = some trends := by
  unfold Home.chart
  rw [h]
  cases hflag : isNegative trends with
  | true =>
    rw [homeCells_of_negative hflag]
    rfl
  | false =>
    rw [homeCells_of_not_negative hflag]
    rfl

/-- The trends and the chart are among the lists that satisfy `T`. -/
def ShowsOneOf (T : List ℤ → Prop) (s : DrawnHome) : Prop :=
  T s.home.trends ∧ ∃ graphPoints, s.home.chart = some graphPoints ∧ T graphPoints

/-- The sentiments of the event, if it delivers any, satisfy `T`. -/
def Delivers (T : List ℤ → Prop) (e : DrawnHomeEvent) : Prop :=
  ∀ trends, e = .home (.sentiments (.ok trends)) → T trends

theorem showsOneOf_step {T : List ℤ → Prop} {s t : DrawnHome} {e : DrawnHomeEvent}
    (h : ShowsOneOf T s) (hstep : s.step e = some t) (hT : Delivers T e) : ShowsOneOf T t := by
  unfold step at hstep
  split at hstep
  · cases hstep
  · cases e with
    | home e =>
      obtain ⟨home, hhome, rfl⟩ := Option.map_eq_some_iff.mp hstep
      obtain ⟨htrends, hcells⟩ := Home.step_cases hhome
      have hTtrends : T home.trends := by
        rcases htrends with htrends | rfl
        · rw [htrends]
          exact h.1
        · exact hT _ rfl
      refine ⟨hTtrends, ?_⟩
      rcases hcells with hcells | hcells
      · obtain ⟨graphPoints, hchart, hpoints⟩ := h.2
        refine ⟨graphPoints, ?_, hpoints⟩
        rw [Home.chart, hcells]
        exact hchart
      · exact ⟨home.trends, chart_of_cells_eq hcells, hTtrends⟩
    | draw frame subviews =>
      obtain ⟨graphPoints, -, rfl⟩ := Option.map_eq_some_iff.mp hstep
      split <;> exact h

/-- **The chart of a run** has the initial trends or a list that a query of the sentiments
delivered. -/
theorem chart_of_run {es : List DrawnHomeEvent} {s : DrawnHome}
    (hrun : run step start es = some s) : ∃ graphPoints, s.home.chart = some graphPoints ∧
      (graphPoints = [0] ∨ .home (.sentiments (.ok graphPoints)) ∈ es) := by
  let T (trends : List ℤ) : Prop := trends = [0] ∨ .home (.sentiments (.ok trends)) ∈ es
  have hstart : ShowsOneOf T start := ⟨.inl rfl, [0], rfl, .inl rfl⟩
  have hdelivers : Always step (fun _ e _ => Delivers T e) start es := by
    refine always_of_forall_mem ?_ start
    rintro e he trends rfl
    exact .inr he
  have hend := hdelivers.invariant (fun s e t h hstep hT => showsOneOf_step h hstep hT) hstart hrun
  exact hend.2

/-! ### Drawing it -/

/-- A view in which a chart has room. -/
def Roomy (frame : CGSize) : Prop := 24 < frame.width ∧ 20 < frame.height

/-- A drawing of the table's chart in a view with room satisfies `P`, where the event is one. -/
def OnDraw (P : ChartView → Prop) (s : DrawnHome) (e : DrawnHomeEvent) : Prop :=
  match e with
  | .home _ => True
  | .draw frame subviews =>
    Roomy frame → ∃ graphPoints, s.home.chart = some graphPoints ∧ P ⟨frame, graphPoints, subviews⟩

/-- A drawing succeeds where the points can be plotted. -/
theorem onDraw_drawsWell_iff {s : DrawnHome} {e : DrawnHomeEvent} :
    OnDraw ChartView.DrawsWell s e ↔
      OnDraw (fun view => ChartView.Plottable view.graphPoints) s e := by
  cases e with
  | home e => exact Iff.rfl
  | draw frame subviews => simp only [OnDraw, ChartView.drawsWell_iff_plottable]

/-- After a run the points that can be plotted were delivered by a query: the initial trends
cannot. -/
theorem onDraw_plottable_iff {es : List DrawnHomeEvent} {s : DrawnHome}
    (hrun : run step start es = some s) (e : DrawnHomeEvent) :
    OnDraw (fun view => ChartView.Plottable view.graphPoints) s e ↔
      OnDraw (fun view => .home (.sentiments (.ok view.graphPoints)) ∈ es ∧
        ChartView.Plottable view.graphPoints) s e := by
  cases e with
  | home e => exact Iff.rfl
  | draw frame subviews =>
    refine forall_congr' fun _ => exists_congr fun graphPoints => and_congr_right fun hchart => ?_
    refine (and_iff_right_of_imp fun hplottable => ?_).symm
    obtain ⟨graphPoints', hchart', hinitial | hdelivered⟩ := chart_of_run hrun
    · obtain rfl := Option.some.inj (hchart.symm.trans hchart')
      subst hinitial
      exact absurd hplottable.1 (by simp)
    · obtain rfl := Option.some.inj (hchart.symm.trans hchart')
      exact hdelivered

/-- **The chart can be drawn** throughout a run exactly when it has two or more points whose
maximum is not zero whenever it is drawn. After a run these are points that a query of the run
has delivered. -/
theorem drawsWell_iff (es : List DrawnHomeEvent) :
    (Always step (fun s e _ => OnDraw ChartView.DrawsWell s e) start es ↔
      Always step (fun s e _ => OnDraw (fun view => ChartView.Plottable view.graphPoints) s e)
        start es) ∧
    ∀ s, run step start es = some s → ∀ e, OnDraw ChartView.DrawsWell s e ↔
      OnDraw (fun view => .home (.sentiments (.ok view.graphPoints)) ∈ es ∧
        ChartView.Plottable view.graphPoints) s e := by
  constructor
  · constructor
    · exact Always.mono fun _ _ _ => onDraw_drawsWell_iff.mp
    · exact Always.mono fun _ _ _ => onDraw_drawsWell_iff.mpr
  · intro s hrun e
    exact onDraw_drawsWell_iff.trans (onDraw_plottable_iff hrun e)

/-- A user without memories has no maximum. -/
theorem no_trends_trap :
    ¬∀ es, Always step (fun s e _ => OnDraw ChartView.DrawsWell s e) start es := by
  intro h
  have hrun := h [.home (.viewWillAppear true), .home (.sentiments (.ok [])), .draw ⟨30, 30⟩ []]
  have hdraw := (((hrun _ rfl).2 _ rfl).2 _ rfl).1
  obtain ⟨graphPoints, hchart, hwell⟩ := hdraw ⟨by decide +kernel, by decide +kernel⟩
  have hnil : graphPoints = [] := by
    exact Option.some.inj (hchart.symm.trans (@chart_of_cells_eq _ [] Home.initialKeywords rfl))
  have hplottable := ChartView.drawsWell_iff_plottable.mp hwell
  rw [hnil] at hplottable
  exact absurd hplottable (by decide)

end DrawnHome

end FeelBetter
