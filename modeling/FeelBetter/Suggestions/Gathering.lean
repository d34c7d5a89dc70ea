import FeelBetter.Suggestions.Pieces

/-!
# Gathering the images

The group is left once for each asset, on whichever path its closures end, and the
images that were appended by then are those of the assets whose closures are past
`addImage`. So the search ends, with one entry for each photo that matches.
-/

namespace FeelBetter

open Machine

namespace Search

variable {services : PhotoServices}

/-- What a piece of the closures for an asset counts. -/
theorem Piece.counts {s : Search} {asset : LocalIdentifier} {stage stage' : Stage}
    {memory : UserDefaults} {images : List ImageSuggestion} {left : ℕ}
    (h : Piece services s asset stage stage' memory images left) :
    stage ≠ .waiting ∧ stage ≠ .settled ∧ stage' ≠ .waiting ∧ stage'.rank < stage.rank ∧
      left + stage.left = s.left + stage'.left := by
  cases h <;> simp [Stage.rank, Stage.left]

/-! ### The group -/

/-- The group was entered for the assets that the loop has reached and left for those whose
closures have ended, and `process` is called at the end. -/
structure Balanced (s : Search) : Prop where
  entered_le : s.entered ≤ s.tasks.length
  waiting_iff : ∀ i task, s.tasks[i]? = some task → (task.stage = .waiting ↔ s.entered ≤ i)
  left_eq : s.left = (s.tasks.map fun task => task.stage.left).sum
  calls_eq : s.calls = [] ∨
    s.calls = [s.images] ∧ ∀ task ∈ s.tasks, task.stage = .settled

/-- The group was left as often as there are assets only where all closures have ended. -/
theorem Balanced.left_eq_length_iff {s : Search} (h : Balanced s) :
    s.left = s.tasks.length ↔ ∀ task ∈ s.tasks, task.stage = .settled := by
  rw [h.left_eq, sum_map_eq_length_iff fun task _ => task.stage.left_le]
  simp only [Stage.left_eq_one_iff]

/-- Where all closures have ended the loop has reached all assets. -/
theorem Balanced.entered_eq {s : Search} (h : Balanced s)
    (hsettled : ∀ task ∈ s.tasks, task.stage = .settled) : s.entered = s.tasks.length := by
  by_contra hne
  have hlt : s.entered < s.tasks.length := lt_of_le_of_ne h.entered_le hne
  have hwaiting := (h.waiting_iff s.entered _ (List.getElem?_eq_getElem hlt)).mpr le_rfl
  rw [hsettled _ (List.getElem_mem hlt)] at hwaiting
  cases hwaiting

/-- The group is never left more often than it was entered. -/
theorem Balanced.left_le {s : Search} (h : Balanced s) : s.left ≤ s.entered := by
  have hsplit : s.left = ((s.tasks.take s.entered).map fun task => task.stage.left).sum +
      ((s.tasks.drop s.entered).map fun task => task.stage.left).sum := by
    rw [h.left_eq, ← List.sum_append, ← List.map_append, List.take_append_drop]
  have hreached : ((s.tasks.take s.entered).map fun task => task.stage.left).sum ≤
      (s.tasks.take s.entered).length := sum_map_le_length fun task _ => task.stage.left_le
  have hwaiting : ((s.tasks.drop s.entered).map fun task => task.stage.left).sum = 0 := by
    apply List.sum_eq_zero
    intro n hn
    obtain ⟨task, htask, rfl⟩ := List.mem_map.mp hn
    obtain ⟨i, hi⟩ := List.mem_iff_getElem?.mp htask
    rw [List.getElem?_drop] at hi
    have hstage := (h.waiting_iff _ task hi).mpr (Nat.le_add_right _ _)
    rw [hstage]
    rfl
  have hlength := List.length_take_le s.entered s.tasks
  omega

theorem balanced_image (keyPhrases : Finset String) (assets : List LocalIdentifier)
    (memory : UserDefaults) : Balanced (image keyPhrases assets memory) where
  entered_le := Nat.zero_le _
  waiting_iff := by
    intro i task htask
    have hmem : task ∈ assets.map fun asset => SearchTask.mk asset .waiting :=
      List.mem_of_getElem? htask
    obtain ⟨asset, -, rfl⟩ := List.mem_map.mp hmem
    exact iff_of_true rfl (Nat.zero_le _)
  left_eq := by
    have hzero : ∀ n ∈ (image keyPhrases assets memory).tasks.map fun task => task.stage.left,
        n = 0 := by
      simp [image, Stage.left]
    exact (List.sum_eq_zero hzero).symm
  calls_eq := by
    cases assets with
    | nil => exact .inr ⟨rfl, by simp [image]⟩
    | cons asset assets => exact .inl rfl

/-- The loop goes on: the next asset is no longer waiting. -/
theorem Balanced.enter {s : Search} (h : Balanced s) {task : SearchTask}
    (htask : s.tasks[s.entered]? = some task) :
    Balanced { s with
      entered := s.entered + 1
      tasks := s.tasks.set s.entered ⟨task.asset, .requested⟩ } := by
  have hlt : s.entered < s.tasks.length := (List.getElem?_eq_some_iff.mp htask).1
  have hwaiting : task.stage = .waiting := (h.waiting_iff _ _ htask).mpr le_rfl
  refine ⟨?_, ?_, ?_, ?_⟩
  · show s.entered + 1 ≤ (s.tasks.set _ _).length
    rw [List.length_set]
    exact hlt
  · intro j task' htask'
    rcases of_getElem?_set htask' with ⟨rfl, rfl⟩ | ⟨hne, hold⟩
    · simp
    · rw [h.waiting_iff j task' hold]
      show s.entered ≤ j ↔ s.entered + 1 ≤ j
      omega
  · have hsum := sum_map_set htask (fun task => task.stage.left) ⟨task.asset, .requested⟩
    simp only [hwaiting, Stage.left] at hsum
    show s.left = _
    rw [h.left_eq]
    simpa [Stage.left] using hsum.symm
  · left
    rcases h.calls_eq with hnone | ⟨-, hsettled⟩
    · exact hnone
    · have hended := hsettled task (List.mem_of_getElem? htask)
      rw [hwaiting] at hended
      cases hended

/-- A closure runs: the count of leaves goes up where it was the last one for its asset. -/
theorem Balanced.proceed {s t : Search} {i : ℕ} {asset : LocalIdentifier} {stage stage' : Stage}
    (h : Balanced s) (htask : s.tasks[i]? = some ⟨asset, stage⟩)
    (htasks : t.tasks = s.tasks.set i ⟨asset, stage'⟩) (hentered : t.entered = s.entered)
    (hcalls : t.calls = s.calls)
    (hpiece : Piece services s asset stage stage' t.memory t.images t.left) : Balanced t := by
  obtain ⟨hwaiting, hsettled, hwaiting', -, hleft⟩ := hpiece.counts
  refine ⟨by simpa [htasks, hentered] using h.entered_le, ?_, ?_, ?_⟩
  · intro j task' htask'
    rw [htasks] at htask'
    rw [hentered]
    rcases of_getElem?_set htask' with ⟨rfl, rfl⟩ | ⟨-, hold⟩
    · have hreached := (h.waiting_iff _ _ htask).not.mp hwaiting
      exact iff_of_false hwaiting' hreached
    · exact h.waiting_iff j task' hold
  · have hsum := sum_map_set htask (fun task => task.stage.left) ⟨asset, stage'⟩
    have hold := h.left_eq
    rw [htasks]
    dsimp only at hsum
    omega
  · left
    rcases h.calls_eq with hnone | ⟨-, hall⟩
    · rw [hcalls, hnone]
    · exact absurd (hall _ (List.mem_of_getElem? htask)) hsettled

theorem Balanced.step {s t : Search} {e : SearchEvent} (h : Balanced s)
    (hstep : s.step services e = some t) : Balanced t := by
  rcases step_cases hstep with ⟨-, task, htask, rfl⟩ |
    ⟨i, asset, stage, stage', -, htask, htasks, hentered, hcalls, -, hpiece⟩ |
    ⟨-, -, hentered, hleft, rfl⟩
  · exact h.enter htask
  · exact h.proceed htask htasks hentered hcalls hpiece
  · refine ⟨h.entered_le, h.waiting_iff, h.left_eq, .inr ⟨rfl, ?_⟩⟩
    exact h.left_eq_length_iff.mp (hleft.trans hentered)

/-! ### The end of a search -/

/-- How much is left of a search. -/
def rank (s : Search) : ℕ :=
  (s.tasks.map fun task => task.stage.rank).sum + if s.calls = [] then 1 else 0

theorem rank_image_le (keyPhrases : Finset String) (assets : List LocalIdentifier)
    (memory : UserDefaults) :
    (image keyPhrases assets memory).rank ≤ 6 * assets.length + 1 := by
  have hsum : ((image keyPhrases assets memory).tasks.map fun task => task.stage.rank).sum =
      6 * assets.length := by
    simp only [image, List.map_map, Function.comp_def, Stage.rank, List.map_const',
      List.sum_replicate]
    exact Nat.mul_comm assets.length 6
  rw [rank, hsum]
  split <;> omega

/-- Every step takes something from what is left. -/
theorem Balanced.rank_lt {s t : Search} {e : SearchEvent} (h : Balanced s)
    (hstep : s.step services e = some t) : t.rank < s.rank := by
  rcases step_cases hstep with ⟨-, task, htask, rfl⟩ |
    ⟨i, asset, stage, stage', -, htask, htasks, -, hcalls, -, hpiece⟩ | ⟨-, hcalls, -, -, rfl⟩
  · have hwaiting : task.stage = .waiting := (h.waiting_iff _ _ htask).mpr le_rfl
    have hsum := sum_map_set htask (fun task => task.stage.rank) ⟨task.asset, .requested⟩
    have hold : task.stage.rank = 6 := by rw [hwaiting, Stage.rank]
    have hnew : Stage.requested.rank = 5 := rfl
    unfold rank
    dsimp only at hsum ⊢
    omega
  · obtain ⟨-, -, -, hlt, -⟩ := hpiece.counts
    have hsum := sum_map_set htask (fun task => task.stage.rank) ⟨asset, stage'⟩
    dsimp only at hsum
    unfold rank
    rw [htasks, hcalls]
    omega
  · unfold rank
    simp [hcalls]

/-- Nothing can happen exactly where `process` was called: what the group waits for comes. -/
theorem Balanced.stuck_iff {s : Search} (h : Balanced s) :
    Stuck (Search.step services) s ↔ s.calls ≠ [] := by
  constructor
  · intro hstuck hnone
    by_cases hall : ∀ task ∈ s.tasks, task.stage = .settled
    · -- the group can let the thread pass
      have hleft := h.left_eq_length_iff.mpr hall
      have hentered := h.entered_eq hall
      have hwait := hstuck .wait
      simp [Search.step, hnone, hentered, hleft] at hwait
    · -- a closure is due, or the loop goes on
      push Not at hall
      obtain ⟨task, htask, hsettled⟩ := hall
      obtain ⟨i, hi⟩ := List.mem_iff_getElem?.mp htask
      by_cases hwaiting : task.stage = .waiting
      · have hle := (h.waiting_iff i task hi).mp hwaiting
        have hlt : i < s.tasks.length := (List.getElem?_eq_some_iff.mp hi).1
        have henter := hstuck .enter
        simp [Search.step, List.getElem?_eq_getElem (lt_of_le_of_lt hle hlt)] at henter
      · obtain ⟨t, ht⟩ := exists_proceed services s i task.asset hwaiting hsettled
        have hproceed := hstuck (.proceed i)
        simp [Search.step, hi, ht] at hproceed
  · intro hcalled e
    obtain ⟨-, hall⟩ := h.calls_eq.resolve_left hcalled
    by_contra hsome
    obtain ⟨t, ht⟩ := Option.ne_none_iff_exists'.mp hsome
    rcases step_cases ht with ⟨-, task, htask, -⟩ |
      ⟨i, asset, stage, stage', -, htask, -, -, -, -, hpiece⟩ | ⟨-, hnone, -⟩
    · have hwaiting := (h.waiting_iff _ _ htask).mpr le_rfl
      rw [hall _ (List.mem_of_getElem? htask)] at hwaiting
      cases hwaiting
    · obtain ⟨-, hsettled, -⟩ := hpiece.counts
      exact hsettled (hall _ (List.mem_of_getElem? htask))
    · exact hcalled hnone

end Search

end FeelBetter
