import Mathlib.Data.List.AList
import FeelBetter.Lists
import FeelBetter.Machine.Runs
import FeelBetter.Memory

/-!
# The home screen

`HomeViewController` shows three cells in a table: the trend chart, the keywords
and the support numbers. The table keeps the cells it made until it is told to
reload. New keywords always reload it; new trends reload it only where they
change whether the trend is negative, so a chart of old trends may stay.
-/

namespace FeelBetter

open Machine

/-- `Array.isNegative`: the last value is below 30, or the last three do not rise. -/
def isNegative (trends : List ℤ) : Bool :=
  if trends.getLast?.any (· < 30) then true
  else
    decide (trends.length > 3) &&
    decide (trends.getD (trends.length - 1) 0 ≤ trends.getD (trends.length - 2) 0) &&
    decide (trends.getD (trends.length - 2) 0 ≤ trends.getD (trends.length - 3) 0)

/-- A dictionary from keywords to their numbers. -/
abbrev KeywordDictionary := AList fun _ : String => ℤ

/-- The cells of the home screen, with what they show. -/
inductive HomeCell where
  | getSupport
  /-- The chart, by its `graphPoints`. -/
  | trends (graphPoints : List ℤ)
  /-- The word cloud, by the words added to its canvas. -/
  | keywords (words : List String)
  deriving DecidableEq

/-- The words that `makeWordsCell` adds: `Array(keywordDictionary.keys)[i]` for each index. -/
def cloudWords (keywordDictionary : KeywordDictionary) : List String :=
  (List.range keywordDictionary.entries.length).filterMap fun i => keywordDictionary.keys[i]?

/-- `tableView(_:cellForRowAt:)` for a section. -/
def homeCellForRow (trends : List ℤ) (keywordDictionary : KeywordDictionary) (indexSection : ℕ) :
    HomeCell :=
  if isNegative trends then
    if indexSection = 0 then .getSupport
    else if indexSection = 1 then .trends trends
    else .keywords (cloudWords keywordDictionary)
  else
    if indexSection = 0 then .keywords (cloudWords keywordDictionary)
    else if indexSection = 1 then .trends trends
    else .getSupport

/-- What `reloadData` makes the table show: one cell for each of the three sections. -/
def homeCells (trends : List ℤ) (keywordDictionary : KeywordDictionary) : List HomeCell :=
  (List.range 3).map (homeCellForRow trends keywordDictionary)

/-- The home screen, with the queries of its appearances that are under way. -/
structure Home where
  trends : List ℤ
  keywordDictionary : KeywordDictionary
  /-- The cells that the table shows. -/
  cells : List HomeCell
  sentimentsQueries : ℕ
  keywordsQueries : ℕ

/-- What can happen to the home screen. -/
inductive HomeEvent where
  | viewWillAppear (signedIn : Bool)
  /-- A query of the sentiments completes. -/
  | sentiments (result : Result (List ℤ))
  /-- A query of the keywords completes. -/
  | keywords (result : Result KeywordDictionary)

namespace Home

/-- `homepageTableView.reloadData()`. -/
def reloadData (s : Home) : Home :=
  { s with cells := homeCells s.trends s.keywordDictionary }

/-- The assignment of `trends`, with its observer. -/
def setTrends (s : Home) (trends : List ℤ) : Home :=
  let t := { s with trends }
  if isNegative s.trends ≠ isNegative trends then t.reloadData else t

/-- The assignment of `keywordDictionary`, with its observer. -/
def setKeywordDictionary (s : Home) (keywordDictionary : KeywordDictionary) : Home :=
  { s with keywordDictionary }.reloadData

/-- One step of the home screen: `none` where the event cannot happen. -/
def step (s : Home) (e : HomeEvent) : Option Home :=
  match e with
  | .viewWillAppear signedIn =>
    if signedIn then
      some { s with
        sentimentsQueries := s.sentimentsQueries + 1
        keywordsQueries := s.keywordsQueries + 1 }
    else some s
  | .sentiments result =>
    if 0 < s.sentimentsQueries then
      let t := { s with sentimentsQueries := s.sentimentsQueries - 1 }
      match result with
      | .ok trends => some (t.setTrends trends)
      | .error _ => some t
    else none
  | .keywords result =>
    if 0 < s.keywordsQueries then
      let t := { s with keywordsQueries := s.keywordsQueries - 1 }
      match result with
      | .ok keywordDictionary => some (t.setKeywordDictionary keywordDictionary)
      | .error _ => some t
    else none

/-- The dictionary that the property is initialised with. -/
def initialKeywords : KeywordDictionary :=
  [⟨"Lost", 5⟩, ⟨"Hello", 3⟩, ⟨"Happy", 10⟩, ⟨"Chicken", 1⟩, ⟨"Food", 8⟩, ⟨"WOW", 50⟩].toAList

/-- The home screen with its initial values, rendered once. -/
def start : Home where
  trends := [0]
  keywordDictionary := initialKeywords
  cells := homeCells [0] initialKeywords
  sentimentsQueries := 0
  keywordsQueries := 0

end Home

/-! ### What the cells show -/

/-- The words of the cloud are the keys of the dictionary. -/
theorem cloudWords_eq_keys (keywordDictionary : KeywordDictionary) :
    cloudWords keywordDictionary = keywordDictionary.keys := by
  have hlength : keywordDictionary.entries.length = keywordDictionary.keys.length := by
    simp [AList.keys, List.keys]
  unfold cloudWords
  rw [hlength]
  exact Lists.filterMap_range_getElem? keywordDictionary.keys

variable {trends : List ℤ} {keywordDictionary : KeywordDictionary}

theorem homeCells_of_negative (h : isNegative trends = true) :
    homeCells trends keywordDictionary =
      [.getSupport, .trends trends, .keywords (cloudWords keywordDictionary)] := by
  simp [homeCells, homeCellForRow, h, List.range_succ]

theorem homeCells_of_not_negative (h : isNegative trends = false) :
    homeCells trends keywordDictionary =
      [.keywords (cloudWords keywordDictionary), .trends trends, .getSupport] := by
  simp [homeCells, homeCellForRow, h, List.range_succ]

/-- Whatever the order of the sections, the chart is one of the cells. -/
theorem trends_mem_homeCells_iff {graphPoints : List ℤ} :
    .trends graphPoints ∈ homeCells trends keywordDictionary ↔ graphPoints = trends := by
  cases h : isNegative trends with
  | true => simp [homeCells_of_negative h]
  | false => simp [homeCells_of_not_negative h]

/-- Whatever the order of the sections, the word cloud is one of the cells. -/
theorem keywords_mem_homeCells_iff {words : List String} :
    .keywords words ∈ homeCells trends keywordDictionary ↔ words = keywordDictionary.keys := by
  rw [← cloudWords_eq_keys]
  cases h : isNegative trends with
  | true => simp [homeCells_of_negative h]
  | false => simp [homeCells_of_not_negative h]

/-- The support numbers come first exactly where the trend is negative. -/
theorem head?_homeCells_iff :
    (homeCells trends keywordDictionary).head? = some .getSupport ↔ isNegative trends = true := by
  cases h : isNegative trends with
  | true => simp [homeCells_of_negative h]
  | false => simp [homeCells_of_not_negative h]

namespace Home

@[simp] theorem trends_setTrends (s : Home) (trends : List ℤ) :
    (s.setTrends trends).trends = trends := by
  unfold setTrends
  split <;> rfl

/-- An answer brings the trends. -/
theorem trends_of_step {s t : Home} {trends : List ℤ}
    (hstep : s.step (.sentiments (.ok trends)) = some t) : t.trends = trends := by
  simp only [step] at hstep
  split at hstep
  · cases hstep
    exact trends_setTrends _ trends
  · cases hstep

/-- What a step does: the trends stay or are the ones a query brings, and the table stays or
shows the data by then. -/
theorem step_cases {s t : Home} {e : HomeEvent} (hstep : s.step e = some t) :
    (t.trends = s.trends ∨ e = .sentiments (.ok t.trends)) ∧
      (t.cells = s.cells ∨ t.cells = homeCells t.trends t.keywordDictionary) := by
  cases e with
  | viewWillAppear signedIn =>
    cases signedIn with
    | true =>
      cases hstep
      exact ⟨.inl rfl, .inl rfl⟩
    | false =>
      cases hstep
      exact ⟨.inl rfl, .inl rfl⟩
  | sentiments result =>
    simp only [step] at hstep
    split at hstep
    · cases result with
      | ok trends =>
        cases hstep
        unfold setTrends
        split
        · exact ⟨.inr rfl, .inr rfl⟩
        · exact ⟨.inr rfl, .inl rfl⟩
      | error error =>
        cases hstep
        exact ⟨.inl rfl, .inl rfl⟩
    · cases hstep
  | keywords result =>
    simp only [step] at hstep
    split at hstep
    · cases result with
      | ok keywordDictionary =>
        cases hstep
        exact ⟨.inl rfl, .inr rfl⟩
      | error error =>
        cases hstep
        exact ⟨.inl rfl, .inl rfl⟩
    · cases hstep

/-- The table shows the current data: the chart has the trends, the word cloud has the keys
of the dictionary, each once, and the support numbers come first exactly where the
trend is negative. -/
structure Current (s : Home) : Prop where
  cells_eq : s.cells = homeCells s.trends s.keywordDictionary
  graphPoints_eq : ∀ graphPoints, .trends graphPoints ∈ s.cells → graphPoints = s.trends
  words_eq : ∀ words, .keywords words ∈ s.cells →
    words.Nodup ∧ ∀ word, word ∈ words ↔ word ∈ s.keywordDictionary
  head_iff : s.cells.head? = some .getSupport ↔ isNegative s.trends = true

/-- A table that shows the cells of the current data shows the current data. -/
theorem current_of_cells_eq {s : Home} (h : s.cells = homeCells s.trends s.keywordDictionary) :
    Current s where
  cells_eq := h
  graphPoints_eq := by
    intro graphPoints hmem
    rw [h] at hmem
    exact trends_mem_homeCells_iff.mp hmem
  words_eq := by
    intro words hmem
    rw [h] at hmem
    have hwords : words = s.keywordDictionary.keys := keywords_mem_homeCells_iff.mp hmem
    rw [hwords]
    exact ⟨s.keywordDictionary.nodupKeys, fun word => AList.mem_keys.symm⟩
  head_iff := by
    rw [h]
    exact head?_homeCells_iff

theorem current_reloadData (s : Home) : Current s.reloadData :=
  current_of_cells_eq rfl

/-- The trends that a completion brings change whether the trend is negative, or nothing. -/
def Refreshed (s : Home) (e : HomeEvent) : Prop :=
  match e with
  | .sentiments (.ok trends) => isNegative s.trends ≠ isNegative trends ∨ s.trends = trends
  | _ => True

/-- New trends are shown exactly where they reload the table or are the old ones. -/
theorem current_setTrends_iff {s : Home} (h : Current s) (trends : List ℤ) :
    Current (s.setTrends trends) ↔ isNegative s.trends ≠ isNegative trends ∨ s.trends = trends := by
  unfold setTrends
  by_cases hflag : isNegative s.trends ≠ isNegative trends
  · rw [if_pos hflag]
    exact iff_of_true (current_reloadData _) (.inl hflag)
  · rw [if_neg hflag]
    constructor
    · intro hcurrent
      -- the chart is still the one of the old trends
      have hchart : HomeCell.trends s.trends ∈ s.cells := by
        rw [h.cells_eq]
        exact trends_mem_homeCells_iff.mpr rfl
      exact .inr (hcurrent.graphPoints_eq s.trends hchart)
    · rintro (hflag' | rfl)
      · exact absurd hflag' hflag
      · exact h

/-- A step from a table that shows the current data leads to one exactly where it is
refreshed. -/
theorem current_step_iff {s t : Home} {e : HomeEvent} (h : Current s)
    (hstep : s.step e = some t) : Refreshed s e ↔ Current t := by
  cases e with
  | viewWillAppear signedIn =>
    cases signedIn with
    | true =>
      cases hstep
      exact iff_of_true trivial (current_of_cells_eq h.cells_eq)
    | false =>
      cases hstep
      exact iff_of_true trivial h
  | sentiments result =>
    simp only [step] at hstep
    split at hstep
    · cases result with
      | ok trends =>
        cases hstep
        have hpending : Current { s with sentimentsQueries := s.sentimentsQueries - 1 } :=
          current_of_cells_eq h.cells_eq
        exact (current_setTrends_iff hpending trends).symm
      | error error =>
        cases hstep
        exact iff_of_true trivial (current_of_cells_eq h.cells_eq)
    · cases hstep
  | keywords result =>
    simp only [step] at hstep
    split at hstep
    · cases result with
      | ok keywordDictionary =>
        cases hstep
        exact iff_of_true trivial (current_reloadData _)
      | error error =>
        cases hstep
        exact iff_of_true trivial (current_of_cells_eq h.cells_eq)
    · cases hstep

/-- **The table shows the current data** throughout a run exactly when all new trends change
whether the trend is negative, or are the ones shown. -/
theorem current_iff_refreshed (es : List HomeEvent) :
    Always step (fun _ _ t => Current t) start es ↔
      Always step (fun s e _ => Refreshed s e) start es := by
  have hstart : Current start := current_of_cells_eq rfl
  refine (always_iff_of_invariant (I := Current) ?_ ?_ hstart es).symm
  · intro s e t h hstep
    exact current_step_iff h hstep
  · intro s e t h hstep hrefreshed
    exact (current_step_iff h hstep).mp hrefreshed

/-- The first trends of a user are as negative as the initial ones: the chart stays as it was. -/
theorem stale_chart : ¬∀ es, Always step (fun _ _ t => Current t) start es := by
  intro h
  have hrun := h [.viewWillAppear true, .sentiments (.ok [10, 20])]
  have hlast := ((hrun _ rfl).2 _ rfl).1
  exact absurd hlast.cells_eq (by decide)

end Home

end FeelBetter
