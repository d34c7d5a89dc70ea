import FeelBetter.NewMemory.Override
import Mathlib.Data.List.ReduceOption

/-!
# The text and the picture of a composed memory

The text view and the image view of the compose screen show a placeholder where the
user has entered nothing, and `prepare(for:)` reads the memory from what they show.
This file keeps a record of what the user typed and chose, which is made of the
events alone, and says how the views follow it.
-/

namespace FeelBetter

open Machine TextAnalyzer

namespace NewMemory

variable {placeholder : Option UIImage}

/-! ### What a step does to the form -/

/-- The views of the form are as they were. -/
structure SameForm (s t : NewMemory) : Prop where
  newMemoryContent : t.newMemoryContent = s.newMemoryContent
  editingContent : t.editingContent = s.editingContent
  newMemoryImage : t.newMemoryImage = s.newMemoryImage
  imageSuggestionViews : t.imageSuggestionViews = s.imageSuggestionViews
  newMemorySavePopUpView : t.newMemorySavePopUpView = s.newMemorySavePopUpView
  overlays : t.overlays = s.overlays
  saveEnabled : t.saveEnabled = s.saveEnabled

/-- The steps of the compose screen, by what they do to the form. -/
inductive FormStep (placeholder : Option UIImage) (s : NewMemory) :
    NewMemoryEvent → NewMemory → Prop where
  | touched {touch : NewMemoryTouch} {t : NewMemory} (h : Touched s touch t) :
    FormStep placeholder s (.touch touch) t
  | blocked {block : NewMemoryBlock} {t : NewMemory} (h : Blocked s block t) :
    FormStep placeholder s (.block block) t
  | analyzed {result : Result SentimentAnalysisResult} {t : NewMemory} (hsame : SameForm s t) :
    FormStep placeholder s (.analyzed result) t
  | prepared {date : Date} (button : OverrideButton) :
    FormStep placeholder s (.prepare date) (s.prepare placeholder button date)

/-- Analyses and `prepare(for:)` leave the form as it is. -/
theorem formStep_of_step {s t : NewMemory} {e : NewMemoryEvent}
    (h : step placeholder s e = some t) : FormStep placeholder s e t := by
  have htrap := trap_eq_none_of_step h
  cases e with
  | touch touch =>
    rw [step, if_neg (by simp [htrap])] at h
    split at h
    · cases h
    · exact .touched (touched_of_touch h)
  | block block =>
    rw [step, if_neg (by simp [htrap])] at h
    split at h
    · cases h
    · exact .blocked (blocked_of_block h)
  | analyzed result =>
    cases transition_of_step h with
    | analyzed | failed => exact .analyzed ⟨rfl, rfl, rfl, rfl, rfl, rfl, rfl⟩
  | prepare date =>
    cases transition_of_step h with
    | @prepared button => exact .prepared button

/-! ### The text -/

/-- Where the user is with the text: out of the text view, in it without a change so far, or
in it after a change. -/
inductive DraftPhase where
  | blurred
  | focused
  | edited
  deriving DecidableEq

/-- The text that the user left in the text view last. -/
structure Draft where
  typed : String
  phase : DraftPhase
  deriving DecidableEq

namespace Draft

/-- The draft after an event. -/
def after (d : Draft) : NewMemoryEvent → Draft
  | .touch .textViewDidBeginEditing => { d with phase := .focused }
  | .touch (.edit text) => ⟨text, .edited⟩
  | .touch .textViewDidEndEditing => { d with phase := .blurred }
  | _ => d

/-- The draft after all of the events. Nothing is typed at first. -/
def ofEvents (es : List NewMemoryEvent) : Draft := es.foldl after ⟨"", .blurred⟩

/-- What the text view shows for a draft. A draft that reads like the placeholder is taken
for one. -/
def shown (d : Draft) : String :=
  match d.phase with
  | .blurred => if d.typed = "" ∨ d.typed = placeholderText then placeholderText else d.typed
  | .focused => if d.typed = "" ∨ d.typed = placeholderText then "" else d.typed
  | .edited => d.typed

/-- The text view shows the draft, and it is edited where the draft says so. -/
structure Describes (d : Draft) (s : NewMemory) : Prop where
  content : s.newMemoryContent = d.shown
  editing : s.editingContent = true ↔ d.phase ≠ .blurred

theorem placeholderText_ne : placeholderText ≠ "" := by decide +kernel

variable {d : Draft} {s t : NewMemory}

theorem Describes.of_same (h : d.Describes s) (hcontent : t.newMemoryContent = s.newMemoryContent)
    (hediting : t.editingContent = s.editingContent) : d.Describes t where
  content := hcontent.trans h.content
  editing := hediting ▸ h.editing

/-- Entering the text view removes a placeholder. -/
theorem Describes.textViewDidBeginEditing (h : d.Describes s)
    (hediting : s.editingContent = false) :
    (d.after (.touch .textViewDidBeginEditing)).Describes s.textViewDidBeginEditing where
  content := by
    have hphase : d.phase = .blurred := by
      by_contra hne
      rw [h.editing.mpr hne] at hediting
      cases hediting
    have hcontent := h.content
    simp only [shown, hphase] at hcontent
    simp only [NewMemory.textViewDidBeginEditing, after, shown, hcontent]
    split_ifs <;> simp_all
  editing := by simp [NewMemory.textViewDidBeginEditing, after]

/-- Leaving the text view puts the placeholder into an empty one. -/
theorem Describes.textViewDidEndEditing (h : d.Describes s) (hediting : s.editingContent = true) :
    (d.after (.touch .textViewDidEndEditing)).Describes s.textViewDidEndEditing where
  content := by
    have hphase := h.editing.mp hediting
    have hcontent := h.content
    simp only [NewMemory.textViewDidEndEditing, after, shown, hcontent]
    cases hcase : d.phase with
    | blurred => exact absurd hcase hphase
    | focused | edited => split_ifs <;> simp_all
  editing := by simp [NewMemory.textViewDidEndEditing, after]

theorem Describes.touch {touch : NewMemoryTouch} (h : d.Describes s) (htouch : Touched s touch t) :
    (d.after (.touch touch)).Describes t := by
  cases htouch with
  | textViewDidBeginEditing hediting => exact h.textViewDidBeginEditing hediting
  | edit text hediting => exact ⟨rfl, by simpa [after] using hediting⟩
  | textViewDidEndEditing hediting => exact h.textViewDidEndEditing hediting
  | save | touchesEnded | textFieldDidBeginEditing | editTitle | textFieldDidEndEditing | cancelled
  | picked | suggestionTapped | tap => exact h.of_same rfl rfl

theorem Describes.block {block : NewMemoryBlock} (h : d.Describes s)
    (hblock : Blocked s block t) : d.Describes t := by
  cases hblock with
  | viewDidAppear | animationCompleted | highlight | processImageSuggestions =>
    exact h.of_same rfl rfl

/-- The text view follows the draft. -/
theorem Describes.step {e : NewMemoryEvent} (h : d.Describes s)
    (hstep : step placeholder s e = some t) : (d.after e).Describes t := by
  cases formStep_of_step hstep with
  | touched htouch => exact h.touch htouch
  | blocked hblock => exact h.block hblock
  | analyzed hsame => exact h.of_same hsame.newMemoryContent hsame.editingContent
  | prepared => exact h.of_same rfl rfl

theorem describes_of_run {es : List NewMemoryEvent}
    (hrun : run (NewMemory.step placeholder) (start placeholder) es = some t) :
    (ofEvents es).Describes t := by
  have hstart : (⟨"", .blurred⟩ : Draft).Describes (start placeholder) :=
    ⟨rfl, by simp [start]⟩
  have hstep (s : NewMemory) (d : Draft) (e : NewMemoryEvent) (t : NewMemory)
      (h : d.Describes s) (hstep : NewMemory.step placeholder s e = some t) :
      (d.after e).Describes t := h.step hstep
  exact run_record hstep hstart hrun

/-- The text view shows what was typed: it still has the focus and holds an edit or a text
that no placeholder can be taken for, or it was left with a text. -/
def Kept (d : Draft) : Prop :=
  match d.phase with
  | .blurred => d.typed ≠ ""
  | .focused => d.typed ≠ placeholderText
  | .edited => True

theorem shown_eq_typed_iff (d : Draft) : d.shown = d.typed ↔ d.Kept := by
  obtain ⟨typed, phase⟩ := d
  have hne := placeholderText_ne
  cases phase with
  | blurred =>
    simp only [shown, Kept]
    split_ifs with h
    · rcases h with rfl | rfl <;> simp [hne]
    · simp [(not_or.mp h).1]
  | focused =>
    simp only [shown, Kept]
    split_ifs with h
    · rcases h with rfl | rfl <;> simp [hne.symm]
    · simp [(not_or.mp h).2]
  | edited => simp [shown, Kept]

end Draft

/-- **The text saved is the text typed** exactly where the text view was not left empty, and
was not entered again over a text that reads like the placeholder. -/
theorem savedText_iff {es : List NewMemoryEvent} {date : Date} {t : NewMemory}
    (hrun : run (step placeholder) (start placeholder) (es ++ [.prepare date]) = some t) :
    ∃ memory, t.memoryToSave = some memory ∧
      (memory.content = (Draft.ofEvents es).typed ↔ (Draft.ofEvents es).Kept) := by
  obtain ⟨s, button, hs, -, rfl⟩ := exists_tapped_of_run hrun
  refine ⟨_, rfl, ?_⟩
  rw [← Draft.shown_eq_typed_iff, ← (Draft.describes_of_run hs).content]

/-- The user does this, enters a title, and saves the memory with an emoji. -/
def thenSave (es : List NewMemoryEvent) : List NewMemoryEvent :=
  es ++ [.touch .textFieldDidBeginEditing, .touch (.editTitle "Good day"),
    .touch .textFieldDidEndEditing, .touch .save, .touch (.tap .override60To80)]

/-- A text is typed. -/
def typing : List NewMemoryEvent :=
  [.touch .textViewDidBeginEditing, .touch (.edit "sunny"), .touch .textViewDidEndEditing]

theorem savedText_typing : ∃ s,
    run (step none) (start none) (thenSave typing ++ [.prepare 1]) = some s ∧
      ∃ memory, s.memoryToSave = some memory ∧ memory.content = "sunny" := by
  refine ⟨_, rfl, ?_⟩
  have hrun : run (step none) (start none) (thenSave typing ++ [.prepare 1]) = some _ := rfl
  obtain ⟨memory, hmemory, hiff⟩ := savedText_iff hrun
  have hkept : "sunny" ≠ "" := by decide +kernel
  exact ⟨memory, hmemory, hiff.mpr hkept⟩

/-- Where nothing is typed the placeholder is saved. -/
theorem placeholder_saved :
    ¬∀ (placeholder : Option UIImage) (es : List NewMemoryEvent) (date : Date) (s : NewMemory)
      (memory : LocalMemory),
      run (step placeholder) (start placeholder) (es ++ [.prepare date]) = some s →
      s.memoryToSave = some memory → memory.content = (Draft.ofEvents es).typed := by
  intro h
  have hcontent := h none (thenSave []) 1 _ _ rfl rfl
  exact Draft.placeholderText_ne hcontent

/-! ### The picture -/

/-- The images in the slots, and what the user chose so far: pictures and empty slots. -/
structure Choices where
  slots : List (Option UIImage)
  made : List (Option UIImage)
  deriving DecidableEq

namespace Choices

/-- The choices after an event. A new list of suggestions empties the slots beyond it. -/
def after (c : Choices) : NewMemoryEvent → Choices
  | .touch (.didFinishPicking (some pickedImage)) =>
    { c with made := c.made ++ [some pickedImage] }
  | .touch (.suggestionTapped i) => { c with made := c.made ++ [c.slots.getD i none] }
  | .block (.processImageSuggestions suggestions) =>
    { c with slots := (List.range 6).map fun i => (suggestions.map ImageSuggestion.image)[i]? }
  | _ => c

/-- The choices after all of the events. The slots are empty at first. -/
def ofEvents (es : List NewMemoryEvent) : Choices :=
  es.foldl after ⟨List.replicate 6 none, []⟩

/-- The picture that was picked or tapped last. -/
def lastPicture (c : Choices) : Option UIImage := c.made.reduceOption.getLast?

/-- The last choice was an empty slot. -/
def Emptied (c : Choices) : Prop := c.made.getLast? = some none

/-- The views follow the choices: the slots hold the same images, and the image view shows
what was chosen last. -/
structure Describes (placeholder : Option UIImage) (c : Choices) (s : NewMemory) : Prop where
  slots : s.imageSuggestionViews = c.slots
  length : c.slots.length = 6
  image : s.newMemoryImage = c.made.getLast?.getD placeholder

variable {c : Choices} {s t : NewMemory}

theorem Describes.of_same (h : c.Describes placeholder s)
    (hslots : t.imageSuggestionViews = s.imageSuggestionViews)
    (himage : t.newMemoryImage = s.newMemoryImage) : c.Describes placeholder t where
  slots := hslots.trans h.slots
  length := h.length
  image := himage.trans h.image

/-- The image view shows a choice when it is made. -/
theorem Describes.chosen (h : c.Describes placeholder s) (choice : Option UIImage)
    (hslots : t.imageSuggestionViews = s.imageSuggestionViews)
    (himage : t.newMemoryImage = choice) :
    Describes placeholder { c with made := c.made ++ [choice] } t where
  slots := hslots.trans h.slots
  length := h.length
  image := by rw [himage, List.getLast?_concat, Option.getD_some]

theorem Describes.touch {touch : NewMemoryTouch} (h : c.Describes placeholder s)
    (htouch : Touched s touch t) : (c.after (.touch touch)).Describes placeholder t := by
  cases htouch with
  | picked pickedImage => exact h.chosen (some pickedImage) rfl rfl
  | suggestionTapped i => exact h.chosen _ rfl (by rw [suggestionTapped, h.slots])
  | save | touchesEnded | textFieldDidBeginEditing | editTitle | textFieldDidEndEditing
  | textViewDidBeginEditing | edit | textViewDidEndEditing | cancelled | tap =>
    exact h.of_same rfl rfl

theorem Describes.processImageSuggestions (h : c.Describes placeholder s)
    (suggestions : List ImageSuggestion) :
    (c.after (.block (.processImageSuggestions suggestions))).Describes placeholder
      (s.processImageSuggestions suggestions) where
  slots := by
    simp only [NewMemory.processImageSuggestions, after, h.slots, h.length]
    refine List.map_congr_left fun i hi => ?_
    rw [List.map_take, List.getElem?_take_of_lt (List.mem_range.mp hi)]
  length := by simp [after]
  image := h.image

theorem Describes.block {block : NewMemoryBlock} (h : c.Describes placeholder s)
    (hblock : Blocked s block t) : (c.after (.block block)).Describes placeholder t := by
  cases hblock with
  | processImageSuggestions suggestions => exact h.processImageSuggestions suggestions
  | viewDidAppear | animationCompleted | highlight => exact h.of_same rfl rfl

/-- The views follow the choices. -/
theorem Describes.step {e : NewMemoryEvent} (h : c.Describes placeholder s)
    (hstep : step placeholder s e = some t) : (c.after e).Describes placeholder t := by
  cases formStep_of_step hstep with
  | touched htouch => exact h.touch htouch
  | blocked hblock => exact h.block hblock
  | analyzed hsame => exact h.of_same hsame.imageSuggestionViews hsame.newMemoryImage
  | prepared => exact h.of_same rfl rfl

theorem describes_of_run {es : List NewMemoryEvent}
    (hrun : run (NewMemory.step placeholder) (start placeholder) es = some t) :
    (ofEvents es).Describes placeholder t := by
  have hstart : (⟨List.replicate 6 none, []⟩ : Choices).Describes placeholder
      (start placeholder) := ⟨rfl, rfl, rfl⟩
  have hstep (s : NewMemory) (c : Choices) (e : NewMemoryEvent) (t : NewMemory)
      (h : c.Describes placeholder s) (hstep : NewMemory.step placeholder s e = some t) :
      (c.after e).Describes placeholder t := h.step hstep
  exact run_record hstep hstart hrun

/-- A picture that was chosen last is the last picture. -/
theorem lastPicture_of_getLast? {image : UIImage} (h : c.made.getLast? = some (some image)) :
    c.lastPicture = some image := by
  obtain ⟨made, hmade⟩ := List.getLast?_eq_some_iff.mp h
  rw [lastPicture, hmade, List.reduceOption_append, List.reduceOption_singleton,
    Option.toList_some, List.getLast?_concat]

/-- What `prepare(for:)` saves of the choices: the last one, where it is a picture that is
not taken for the placeholder. -/
theorem imageToSave_eq (h : c.Describes placeholder s)
    (hdata : ∀ image, c.lastPicture = some image →
      image.pngData ≠ placeholder.bind UIImage.pngData) :
    s.imageToSave placeholder = c.made.getLast?.join := by
  rw [imageToSave, h.image]
  cases hlast : c.made.getLast? with
  | none => simp
  | some choice =>
    cases choice with
    | none => simp
    | some image =>
      have hne := hdata image (lastPicture_of_getLast? hlast)
      simp [hne.symm]

theorem join_eq_lastPicture_iff (c : Choices) :
    c.made.getLast?.join = c.lastPicture ↔ (c.Emptied → c.lastPicture = none) := by
  cases hlast : c.made.getLast? with
  | none =>
    have hnil : c.made = [] := List.getLast?_eq_none_iff.mp hlast
    simp [lastPicture, hnil]
  | some choice =>
    cases choice with
    | none => simp [Emptied, hlast, eq_comm]
    | some image => simp [Emptied, hlast, lastPicture_of_getLast? hlast]

end Choices

/-- **The picture saved is the picture chosen** exactly where no empty slot was tapped after
it. The picture is assumed to have other data than the placeholder. -/
theorem savedPicture_iff {es : List NewMemoryEvent} {date : Date} {t : NewMemory}
    (hdata : ∀ image, (Choices.ofEvents es).lastPicture = some image →
      image.pngData ≠ placeholder.bind UIImage.pngData)
    (hrun : run (step placeholder) (start placeholder) (es ++ [.prepare date]) = some t) :
    ∃ memory, t.memoryToSave = some memory ∧
      (memory.image = (Choices.ofEvents es).lastPicture ↔
        ((Choices.ofEvents es).Emptied → (Choices.ofEvents es).lastPicture = none)) := by
  obtain ⟨s, button, hs, -, rfl⟩ := exists_tapped_of_run hrun
  refine ⟨_, rfl, ?_⟩
  rw [← Choices.join_eq_lastPicture_iff,
    ← Choices.imageToSave_eq (Choices.describes_of_run hs) hdata]

/-- A photo is picked, one image is suggested, and a slot is tapped. -/
def choosing (i : ℕ) : List NewMemoryEvent :=
  [.touch (.didFinishPicking (some ⟨some [1]⟩)),
    .block (.processImageSuggestions [⟨⟨some [2]⟩, "a dog"⟩]), .touch (.suggestionTapped i)]

theorem savedPicture_choosing : ∃ s,
    run (step none) (start none) (thenSave (choosing 0) ++ [.prepare 1]) = some s ∧
      ∃ memory, s.memoryToSave = some memory ∧ memory.image = some ⟨some [2]⟩ := by
  refine ⟨_, rfl, ?_⟩
  have hrun : run (step none) (start none) (thenSave (choosing 0) ++ [.prepare 1]) = some _ :=
    rfl
  have hlast : (Choices.ofEvents (thenSave (choosing 0))).lastPicture = some ⟨some [2]⟩ := by
    decide +kernel
  have hdata (image : UIImage)
      (himage : (Choices.ofEvents (thenSave (choosing 0))).lastPicture = some image) :
      image.pngData ≠ (none : Option UIImage).bind UIImage.pngData := by
    obtain rfl := Option.some.inj (hlast.symm.trans himage)
    decide +kernel
  obtain ⟨memory, hmemory, hiff⟩ := savedPicture_iff hdata hrun
  have hnot : ¬(Choices.ofEvents (thenSave (choosing 0))).Emptied := by
    unfold Choices.Emptied
    decide +kernel
  exact ⟨memory, hmemory, (hiff.mpr (absurd · hnot)).trans hlast⟩

/-- Where an empty slot is tapped no picture is saved, although one was picked. -/
theorem picture_lost :
    ¬∀ (placeholder : Option UIImage) (es : List NewMemoryEvent) (date : Date) (s : NewMemory)
      (memory : LocalMemory),
      (∀ image, some image ∈ (Choices.ofEvents es).made →
        image.pngData ≠ placeholder.bind UIImage.pngData) →
      run (step placeholder) (start placeholder) (es ++ [.prepare date]) = some s →
      s.memoryToSave = some memory → memory.image = (Choices.ofEvents es).lastPicture := by
  intro h
  have hmade : (Choices.ofEvents (thenSave (choosing 1))).made = [some ⟨some [1]⟩, none] := by
    decide +kernel
  have hdata (image : UIImage)
      (hmem : some image ∈ (Choices.ofEvents (thenSave (choosing 1))).made) :
      image.pngData ≠ (none : Option UIImage).bind UIImage.pngData := by
    rw [hmade] at hmem
    obtain rfl : image = ⟨some [1]⟩ := by simpa using hmem
    decide +kernel
  have himage := h none (thenSave (choosing 1)) 1 _ _ hdata rfl rfl
  revert himage
  decide +kernel

end NewMemory

end FeelBetter
