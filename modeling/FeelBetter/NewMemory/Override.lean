import FeelBetter.NewMemory.Screen

/-!
# The sentiment of a composed memory

The field `newMemorySentiment` is written by every analysis that completes, by the
override actions and by `prepare(for:)`, which trusts it where the tapped button
is enlarged. This file says what each step does to the field and to the
enlarged button, and from it which sentiment a tap saves in the end.
-/

namespace FeelBetter

open Machine TextAnalyzer

namespace OverrideButton

/-- The action of a button and `prepare(for:)` assign the same sentiment. -/
theorem preparedSentiment_eq (button : OverrideButton) :
    button.preparedSentiment = button.actionSentiment := by
  cases button <;> rfl

/-- A button stands for the sentiment that it assigns. -/
theorem sentimentEmoji_actionSentiment (button : OverrideButton) :
    sentimentEmoji button.actionSentiment = button.emoji := by
  cases button <;> rfl

/-- Below 100 a score enlarges the button of its emoji. -/
theorem exists_highlighted {n : ℤ} (hlo : 0 ≤ n) (hhi : n < 100) :
    ∃ button, highlighted n = some button ∧ button.emoji = sentimentEmoji n := by
  unfold highlighted sentimentEmoji
  split_ifs <;> first | exact ⟨_, rfl, rfl⟩ | omega

/-- From 100 on a score enlarges no button. -/
theorem highlighted_eq_none {n : ℤ} (h : 100 ≤ n) : highlighted n = none := by
  unfold highlighted
  split_ifs <;> first | rfl | omega

end OverrideButton

namespace NewMemory

/-! ### Touches and blocks -/

/-- What each touch does, and where it can reach its view. -/
inductive Touched (s : NewMemory) : NewMemoryTouch → NewMemory → Prop
  | save (henabled : s.saveEnabled = true) : Touched s .save s.bringUpSavePopUpView
  | touchesEnded {onOverlay : Bool} (hreach : onOverlay = true → s.overlays ≠ 0) :
    Touched s (.touchesEnded onOverlay) (s.touchesEnded onOverlay)
  | textFieldDidBeginEditing (hediting : s.editingTitle = false) :
    Touched s .textFieldDidBeginEditing { s with editingTitle := true, saveEnabled := false }
  | editTitle (text : String) (hediting : s.editingTitle = true) :
    Touched s (.editTitle text) { s with newMemoryTitle := some text }
  | textFieldDidEndEditing (hediting : s.editingTitle = true) :
    Touched s .textFieldDidEndEditing s.textFieldDidEndEditing
  | textViewDidBeginEditing (hediting : s.editingContent = false) :
    Touched s .textViewDidBeginEditing s.textViewDidBeginEditing
  | edit (text : String) (hediting : s.editingContent = true) :
    Touched s (.edit text) { s with newMemoryContent := text }
  | textViewDidEndEditing (hediting : s.editingContent = true) :
    Touched s .textViewDidEndEditing s.textViewDidEndEditing
  | cancelled : Touched s (.didFinishPicking none) s
  | picked (pickedImage : UIImage) : Touched s (.didFinishPicking (some pickedImage))
      { s with newMemoryImage := some pickedImage }
  | suggestionTapped (i : ℕ) (hshown : s.imageSuggestionHidden = false)
    (hslot : i < s.imageSuggestionViews.length) :
    Touched s (.suggestionTapped i) (s.suggestionTapped i)
  | tap (button : OverrideButton) (hshown : s.newMemorySavePopUpView.isHidden = false)
    (halpha : s.newMemorySavePopUpView.alpha ≠ 0) : Touched s (.tap button) (s.override button)

theorem touched_of_touch {s t : NewMemory} {touch : NewMemoryTouch} (h : s.touch touch = some t) :
    Touched s touch t := by
  cases touch with
  | didFinishPicking originalImage =>
    cases originalImage with
    | none =>
      cases h
      exact .cancelled
    | some pickedImage =>
      cases h
      exact .picked pickedImage
  | save | touchesEnded | textFieldDidBeginEditing | editTitle | textFieldDidEndEditing
  | textViewDidBeginEditing | edit | textViewDidEndEditing | suggestionTapped | tap =>
    simp only [NewMemory.touch] at h
    split at h <;> cases h
    rename_i hguard
    constructor <;> simp_all

/-- What each block does, and where there is something to do. -/
inductive Blocked (s : NewMemory) : NewMemoryBlock → NewMemory → Prop
  | viewDidAppear : Blocked s .viewDidAppear { s with
      newMemorySavePopUpView := { s.newMemorySavePopUpView with isHidden := true } }
  | animationCompleted {hidden : Bool} {completions : List Bool}
    (hcompletions : s.newMemorySavePopUpView.completions = hidden :: completions) :
    Blocked s .animationCompleted { s with
      newMemorySavePopUpView :=
        { s.newMemorySavePopUpView with isHidden := hidden, completions } }
  | highlight (hpending : 0 < s.highlights) :
    Blocked s .highlight { s.highlight with highlights := s.highlights - 1 }
  | processImageSuggestions (suggestions : List ImageSuggestion) :
    Blocked s (.processImageSuggestions suggestions) (s.processImageSuggestions suggestions)

theorem blocked_of_block {s t : NewMemory} {block : NewMemoryBlock} (h : s.block block = some t) :
    Blocked s block t := by
  cases block with
  | viewDidAppear =>
    cases h
    exact .viewDidAppear
  | processImageSuggestions suggestions =>
    cases h
    exact .processImageSuggestions suggestions
  | animationCompleted =>
    simp only [NewMemory.block] at h
    split at h <;> cases h
    exact .animationCompleted (by assumption)
  | highlight =>
    simp only [NewMemory.block] at h
    split at h <;> cases h
    exact .highlight (by assumption)

/-! ### What a step does to the sentiment -/

/-- The sentiment, the enlarged button and the tap are as they were. -/
structure SameOverride (s t : NewMemory) : Prop where
  newMemorySentiment : t.newMemorySentiment = s.newMemorySentiment
  fontSize : t.fontSize = s.fontSize
  highlights : t.highlights = s.highlights
  tapped : t.tapped = s.tapped
  memoryToSave : t.memoryToSave = s.memoryToSave
  trap : t.trap = s.trap

theorem sameOverride_touch {s t : NewMemory} {touch : NewMemoryTouch}
    (hnot : ∀ button, touch ≠ .tap button) (h : s.touch touch = some t) : SameOverride s t := by
  cases touched_of_touch h with
  | tap button => exact absurd rfl (hnot button)
  | save | touchesEnded | textFieldDidBeginEditing | editTitle | textFieldDidEndEditing
  | textViewDidBeginEditing | edit | textViewDidEndEditing | cancelled | picked
  | suggestionTapped => exact ⟨rfl, rfl, rfl, rfl, rfl, rfl⟩

theorem sameOverride_block {s t : NewMemory} {block : NewMemoryBlock} (hnot : block ≠ .highlight)
    (h : s.block block = some t) : SameOverride s t := by
  cases blocked_of_block h with
  | highlight => exact absurd rfl hnot
  | viewDidAppear | animationCompleted | processImageSuggestions =>
    exact ⟨rfl, rfl, rfl, rfl, rfl, rfl⟩

/-- After a highlight the enlarged button is the one of the sentiment. -/
theorem fontSize_highlight_iff {s : NewMemory} {button : OverrideButton} :
    s.highlight.fontSize button = 65 ↔
      OverrideButton.highlighted s.newMemorySentiment = some button := by
  simp only [highlight]
  split <;> simp_all

/-- The score that a completion assigns; `none` where it traps. -/
def scoreOf (result : Result SentimentAnalysisResult) : Option ℤ :=
  result.toOption.bind SentimentAnalysisResult.score

/-- The completion of an analysis assigns the score and asks for a highlight. -/
theorem run_sentimentCompletion_of_some {result : Result SentimentAnalysisResult} {n : ℤ}
    (h : scoreOf result = some n) (s : NewMemory) :
    (sentimentCompletion result).run s =
      .ok () { s with newMemorySentiment := n, highlights := s.highlights + 1 } := by
  cases result with
  | error error => cases h
  | ok sentiment =>
    have hscore : sentiment.score = some n := h
    simp [sentimentCompletion, hscore]

/-- Without a score the completion of an analysis traps at once. -/
theorem run_sentimentCompletion_of_none {result : Result SentimentAnalysisResult}
    (h : scoreOf result = none) (s : NewMemory) :
    ∃ trap, (sentimentCompletion result).run s = .error trap s := by
  cases result with
  | error error => exact ⟨.failedTry, rfl⟩
  | ok sentiment =>
    have hscore : sentiment.score = none := h
    refine ⟨.notANumber, ?_⟩
    simp only [sentimentCompletion, hscore]
    rfl

theorem perform_sentimentCompletion_of_some {result : Result SentimentAnalysisResult} {n : ℤ}
    (h : scoreOf result = some n) (s : NewMemory) : s.perform (sentimentCompletion result) =
      { s with newMemorySentiment := n, highlights := s.highlights + 1 } := by
  rw [perform, run_sentimentCompletion_of_some h]

theorem perform_sentimentCompletion_of_none {result : Result SentimentAnalysisResult}
    (h : scoreOf result = none) (s : NewMemory) :
    ∃ trap, s.perform (sentimentCompletion result) = { s with trap := some trap } := by
  obtain ⟨trap, hrun⟩ := run_sentimentCompletion_of_none h s
  exact ⟨trap, by rw [perform, hrun]⟩

variable {placeholder : Option UIImage}

/-- The steps of the compose screen, by what they do to the sentiment. -/
inductive Transition (placeholder : Option UIImage) (s : NewMemory) :
    NewMemoryEvent → NewMemory → Prop where
  | touched {touch : NewMemoryTouch} {t : NewMemory} (hidle : s.tapped = none)
    (hopen : s.memoryToSave = none) (hnot : ∀ button, touch ≠ .tap button)
    (hsame : SameOverride s t) : Transition placeholder s (.touch touch) t
  | overridden (button : OverrideButton) (hidle : s.tapped = none)
    (hopen : s.memoryToSave = none) :
    Transition placeholder s (.touch (.tap button)) (s.override button)
  | blocked {block : NewMemoryBlock} {t : NewMemory} (hidle : s.tapped = none)
    (hnot : block ≠ .highlight) (hsame : SameOverride s t) :
    Transition placeholder s (.block block) t
  | highlighted (hidle : s.tapped = none) (hpending : 0 < s.highlights) :
    Transition placeholder s (.block .highlight)
      { s.highlight with highlights := s.highlights - 1 }
  | analyzed {result : Result SentimentAnalysisResult} {n : ℤ} (hscore : scoreOf result = some n) :
    Transition placeholder s (.analyzed result) { s with
      analyses := s.analyses - 1
      newMemorySentiment := n
      highlights := s.highlights + 1 }
  | failed {result : Result SentimentAnalysisResult} (trap : Trap)
    (hscore : scoreOf result = none) :
    Transition placeholder s (.analyzed result)
      { s with analyses := s.analyses - 1, trap := some trap }
  | prepared {button : OverrideButton} (date : Date) (htapped : s.tapped = some button) :
    Transition placeholder s (.prepare date) (s.prepare placeholder button date)

/-- Nothing happens after a trap. -/
theorem trap_eq_none_of_step {s t : NewMemory} {e : NewMemoryEvent}
    (h : step placeholder s e = some t) : s.trap = none := by
  unfold step at h
  split at h
  · cases h
  · rename_i htrap
    simpa using htrap

/-- Every step is one of the transitions. -/
theorem transition_of_step {s t : NewMemory} {e : NewMemoryEvent}
    (h : step placeholder s e = some t) : Transition placeholder s e t := by
  have htrap := trap_eq_none_of_step h
  unfold step at h
  rw [if_neg (by simp [htrap])] at h
  cases e with
  | touch touch =>
    simp only at h
    split at h
    · cases h
    · rename_i hfree
      obtain ⟨hidle, hopen⟩ : s.tapped = none ∧ s.memoryToSave = none := by simpa using hfree
      by_cases htap : ∃ button, touch = .tap button
      · obtain ⟨button, rfl⟩ := htap
        cases touched_of_touch h with
        | tap => exact .overridden button hidle hopen
      · have hnot (button : OverrideButton) : touch ≠ .tap button := fun heq => htap ⟨button, heq⟩
        exact .touched hidle hopen hnot (sameOverride_touch hnot h)
  | block block =>
    simp only at h
    split at h
    · cases h
    · rename_i hfree
      have hidle : s.tapped = none := by simpa using hfree
      by_cases hhighlight : block = .highlight
      · subst hhighlight
        cases blocked_of_block h with
        | highlight hpending => exact .highlighted hidle hpending
      · exact .blocked hidle hhighlight (sameOverride_block hhighlight h)
  | analyzed result =>
    simp only at h
    split at h
    · cases hscore : scoreOf result with
      | some n =>
        rw [perform_sentimentCompletion_of_some hscore] at h
        cases h
        exact .analyzed hscore
      | none =>
        obtain ⟨trap, hperform⟩ := perform_sentimentCompletion_of_none hscore
          { s with analyses := s.analyses - 1 }
        rw [hperform] at h
        cases h
        exact .failed trap hscore
    · cases h
  | prepare date =>
    obtain ⟨button, htapped, rfl⟩ := Option.map_eq_some_iff.mp h
    exact .prepared date htapped

/-- A run that ends with a segue ends with `prepare(for:)` for the button that is tapped. -/
theorem exists_tapped_of_run {s u : NewMemory} {es : List NewMemoryEvent} {date : Date}
    (hrun : run (step placeholder) s (es ++ [.prepare date]) = some u) :
    ∃ t button, run (step placeholder) s es = some t ∧ t.tapped = some button ∧
      u = t.prepare placeholder button date := by
  obtain ⟨t, ht, hstep⟩ := exists_step_of_run_concat hrun
  cases transition_of_step hstep with
  | prepared _ htapped => exact ⟨t, _, ht, htapped, rfl⟩

end NewMemory

end FeelBetter
