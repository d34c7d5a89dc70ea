import FeelBetter.NewMemory.Form
import FeelBetter.NewMemory.Taps
import Mathlib.Data.List.Induction

/-!
# The memory that is saved

The memory that `prepare(for:)` builds is put together from what the user did to the form and
from what the analyses assigned meanwhile. This file says what it is after any run, field by
field, and that its sentiment is one that the home screen can show.
-/

namespace FeelBetter

open Machine TextAnalyzer

namespace NewMemory

variable {placeholder : Option UIImage}

/-! ### The title -/

/-- The title after an event. -/
def titleAfter (title : String) : NewMemoryEvent → String
  | .touch (.editTitle text) => text
  | _ => title

/-- The title that the user typed last. -/
def titleOf (es : List NewMemoryEvent) : String := es.foldl titleAfter ""

theorem newMemoryTitle_of_step {s t : NewMemory} {title : String} {e : NewMemoryEvent}
    (h : s.newMemoryTitle = some title) (hstep : step placeholder s e = some t) :
    t.newMemoryTitle = some (titleAfter title e) := by
  cases e with
  | touch touch =>
    cases formStep_of_step hstep with
    | touched htouch =>
      cases htouch with
      | editTitle text => rfl
      | save | touchesEnded | textFieldDidBeginEditing | textFieldDidEndEditing
      | textViewDidBeginEditing | edit | textViewDidEndEditing | cancelled | picked
      | suggestionTapped | tap => exact h
  | block block =>
    cases formStep_of_step hstep with
    | blocked hblock =>
      cases hblock with
      | viewDidAppear | animationCompleted | highlight | processImageSuggestions => exact h
  | analyzed result =>
    cases transition_of_step hstep with
    | analyzed | failed => exact h
  | prepare date =>
    cases transition_of_step hstep with
    | prepared => exact h

theorem newMemoryTitle_of_run {es : List NewMemoryEvent} {t : NewMemory}
    (hrun : run (step placeholder) (start placeholder) es = some t) :
    t.newMemoryTitle = some (titleOf es) :=
  run_record (J := fun s title => s.newMemoryTitle = some title)
    (fun _ _ _ _ h hstep => newMemoryTitle_of_step h hstep) rfl hrun

/-! ### The sentiment -/

/-- The button that was tapped last, and the scores that came in since. -/
structure LastTap where
  button : Option OverrideButton
  scores : List ℤ
  deriving DecidableEq

/-- The last tap after an event. -/
def LastTap.after (last : LastTap) : NewMemoryEvent → LastTap
  | .touch (.tap button) => ⟨some button, []⟩
  | .analyzed result => { last with scores := last.scores ++ (scoreOf result).toList }
  | .touch _ | .block _ | .prepare _ => last

/-- The last tap of some events. -/
def LastTap.ofEvents (es : List NewMemoryEvent) : LastTap := es.foldl after ⟨none, []⟩

/-- The sentiment is the one of the last tap: what its action assigned, or the last score that
came in since. -/
def LastTap.Assigns (last : LastTap) (sentiment : ℤ) : Prop :=
  ∃ button, last.button = some button ∧
    (sentiment = button.actionSentiment ∨ sentiment ∈ last.scores.getLast?)

/-- While a tap is under way it is the last one, and the sentiment is the last score since, or
the one of the action. -/
def LastTap.Describes (last : LastTap) (s : NewMemory) : Prop :=
  ∀ button, s.tapped = some button → last.button = some button ∧
    s.newMemorySentiment = last.scores.getLast?.getD button.actionSentiment

theorem LastTap.Describes.step {last : LastTap} {s t : NewMemory} {e : NewMemoryEvent}
    (h : last.Describes s) (hstep : step placeholder s e = some t) :
    (last.after e).Describes t := by
  intro button htapped
  cases transition_of_step hstep with
  | touched hidle _ _ hsame =>
    rw [hsame.tapped, hidle] at htapped
    cases htapped
  | overridden tapped =>
    cases htapped
    exact ⟨rfl, rfl⟩
  | blocked hidle _ hsame =>
    rw [hsame.tapped, hidle] at htapped
    cases htapped
  | highlighted hidle =>
    cases hidle.symm.trans htapped
  | analyzed hscore =>
    refine ⟨(h button htapped).1, ?_⟩
    simp only [LastTap.after, hscore, Option.toList_some, List.getLast?_concat, Option.getD_some]
  | failed _ hscore =>
    simp only [LastTap.after, hscore, Option.toList_none, List.append_nil]
    exact h button htapped
  | prepared => cases htapped

theorem LastTap.describes_of_run {es : List NewMemoryEvent} {t : NewMemory}
    (hrun : run (NewMemory.step placeholder) (start placeholder) es = some t) :
    (LastTap.ofEvents es).Describes t := by
  have hstart : LastTap.Describes ⟨none, []⟩ (start placeholder) := by
    intro button htapped
    cases htapped
  have hstep (s : NewMemory) (last : LastTap) (e : NewMemoryEvent) (t : NewMemory)
      (h : last.Describes s) (hstep : NewMemory.step placeholder s e = some t) :
      (last.after e).Describes t := h.step hstep
  exact run_record hstep hstart hrun

/-- Every score since the last tap is a score of the run. -/
theorem mem_scores_of_lastTap {es : List NewMemoryEvent} {n : ℤ}
    (h : n ∈ (LastTap.ofEvents es).scores) : n ∈ scores es := by
  induction es using List.reverseRecOn with
  | nil => cases h
  | append_singleton es e ih =>
    have hscores : scores (es ++ [e]) = scores es ++ e.score.toList := by
      rw [scores, scores, List.filterMap_append]
      cases hscore : e.score <;> simp [hscore]
    have hlast : LastTap.ofEvents (es ++ [e]) = (LastTap.ofEvents es).after e :=
      List.foldl_concat ..
    rw [hlast] at h
    rw [hscores]
    cases e with
    | analyzed result =>
      rcases List.mem_append.mp h with hold | hnew
      · exact List.mem_append_left _ (ih hold)
      · exact List.mem_append_right _ hnew
    | touch touch =>
      cases touch with
      | tap button => cases h
      | _ => exact List.mem_append_left _ (ih h)
    | block | prepare => exact List.mem_append_left _ (ih h)

/-! ### The memory -/

/-- A segue saves the sentiment of the last tap. -/
theorem LastTap.Describes.sentimentToSave {last : LastTap} {s : NewMemory}
    (h : last.Describes s) {button : OverrideButton} (htapped : s.tapped = some button) :
    last.Assigns (s.sentimentToSave button) := by
  obtain ⟨hbutton, hsentiment⟩ := h button htapped
  refine ⟨button, hbutton, ?_⟩
  unfold NewMemory.sentimentToSave
  split
  · exact .inl button.preparedSentiment_eq
  · rw [hsentiment]
    cases last.scores.getLast? with
    | none => exact .inl rfl
    | some n => exact .inr rfl

/-- The scores of documented analyses are between 0 and 100. -/
theorem score_mem_of_documented {es : List NewMemoryEvent} {n : ℤ} (hn : n ∈ scores es)
    (hdocumented : ∀ result, .analyzed (.ok result) ∈ es →
      ∀ sentence ∈ result.sentences, sentence.sentenceScores.InUnit) : 0 ≤ n ∧ n ≤ 100 := by
  obtain ⟨e, he, hscore⟩ := List.mem_filterMap.mp hn
  cases e with
  | analyzed result =>
    cases result with
    | error error => cases hscore
    | ok result => exact SentimentAnalysisResult.score_mem hscore (hdocumented result he)
  | touch | block | prepare => cases hscore

theorem actionSentiment_mem (button : OverrideButton) :
    0 ≤ button.actionSentiment ∧ button.actionSentiment ≤ 100 := by
  cases button
  all_goals decide

/-- The image with which a memory is saved after the choices: the last one that was made, unless
it has the data of the placeholder. -/
def Choices.imageToSave (placeholder : Option UIImage) (c : Choices) : Option UIImage :=
  let shown := c.made.getLast?.getD placeholder
  if placeholder.bind UIImage.pngData = shown.bind UIImage.pngData then none else shown

/-- The memory is the one that the events compose: the title that was typed last, the text that the
text view shows for the draft, the date of the segue, the picture that was chosen last, and the
sentiment of the last tap. -/
structure ComposedBy (placeholder : Option UIImage) (es : List NewMemoryEvent) (date : Date)
    (memory : LocalMemory) : Prop where
  title : memory.title = titleOf es
  content : memory.content = (Draft.ofEvents es).shown
  saveDate : memory.saveDate = date
  image : memory.image = (Choices.ofEvents es).imageToSave placeholder
  sentiment : (LastTap.ofEvents es).Assigns memory.sentiment

/-- A run that ends with a segue composes a memory. -/
theorem composedBy_of_run {es : List NewMemoryEvent} {date : Date} {t : NewMemory}
    (hrun : run (step placeholder) (start placeholder) (es ++ [.prepare date]) = some t) :
    ∃ memory, t.memoryToSave = some memory ∧ ComposedBy placeholder es date memory := by
  obtain ⟨s, button, hs, htapped, rfl⟩ := exists_tapped_of_run hrun
  have hchoices := Choices.describes_of_run hs
  refine ⟨_, rfl, ?_, (Draft.describes_of_run hs).content, rfl, ?_,
    (LastTap.describes_of_run hs).sentimentToSave htapped⟩
  · rw [newMemoryTitle_of_run hs, Option.getD_some]
  · rw [NewMemory.imageToSave, hchoices.image]
    rfl

/-- **The memory that is saved**, after any run of the compose screen: the title that was typed
last, the text that the text view shows for the draft, the date of the segue, the picture that
was chosen last, and the sentiment of the emoji that was tapped last, or the last score that an
analysis gave since that tap. With scores as the service documents them the sentiment is between
0 and 100. -/
theorem memoryToSave_of_run {es : List NewMemoryEvent} {date : Date} {t : NewMemory}
    (hrun : run (step placeholder) (start placeholder) (es ++ [.prepare date]) = some t) :
    ∃ memory, t.memoryToSave = some memory ∧ memory.title = titleOf es ∧
      memory.content = (Draft.ofEvents es).shown ∧ memory.saveDate = date ∧
      memory.image = (Choices.ofEvents es).imageToSave placeholder ∧
      (LastTap.ofEvents es).Assigns memory.sentiment ∧
      ((∀ result, .analyzed (.ok result) ∈ es →
          ∀ sentence ∈ result.sentences, sentence.sentenceScores.InUnit) →
        0 ≤ memory.sentiment ∧ memory.sentiment ≤ 100) := by
  obtain ⟨memory, hmemory, hcomposed⟩ := composedBy_of_run hrun
  refine ⟨memory, hmemory, hcomposed.title, hcomposed.content, hcomposed.saveDate,
    hcomposed.image, hcomposed.sentiment, fun hdocumented => ?_⟩
  obtain ⟨button, -, hbutton | hscore⟩ := hcomposed.sentiment
  · rw [hbutton]
    exact actionSentiment_mem button
  · exact score_mem_of_documented (mem_scores_of_lastTap (List.mem_of_getLast? hscore)) hdocumented

/-- The text is analysed, and the user taps the button that was suggested. -/
def agreeing : List NewMemoryEvent := suggesting 65 ++ [.touch (.tap .override60To80)]

theorem memoryToSave_agreeing : ∃ t, run (step none) (start none) (agreeing ++ [.prepare 1]) =
    some t ∧ ∃ memory, t.memoryToSave = some memory ∧ memory.title = "Good day" ∧
      memory.content = placeholderText ∧ memory.saveDate = 1 ∧ memory.image = none ∧
      memory.sentiment = 70 ∧ 0 ≤ memory.sentiment ∧ memory.sentiment ≤ 100 := by
  obtain ⟨t, ht⟩ : ∃ t, run (step none) (start none) (agreeing ++ [.prepare 1]) = some t := ⟨_, rfl⟩
  obtain ⟨memory, hmemory, htitle, hcontent, hdate, himage, ⟨button, hbutton, hsentiment⟩,
    hrange⟩ := memoryToSave_of_run ht
  have hlast : LastTap.ofEvents agreeing = ⟨some .override60To80, []⟩ := by decide +kernel
  rw [hlast] at hbutton hsentiment
  cases hbutton
  refine ⟨t, ht, memory, hmemory, htitle, hcontent, hdate, himage, hsentiment.resolve_right nofun,
    hrange fun result hmem => ?_⟩
  obtain rfl : result = .ofScore 65 := by simpa [agreeing, suggesting] using hmem
  exact SentimentAnalysisResult.inUnit_ofScore (by decide) (by decide)

end NewMemory

end FeelBetter
