import FeelBetter.Machine.Runs
import FeelBetter.SentimentAnalyzer

/-!
# The compose screen

`NewMemoryViewController` composes a memory. Save starts an analysis of the text
and brings up a popup of five emoji buttons; when the analysis completes in the
background, its score is assigned to `newMemorySentiment`, and a block in the
main queue later enlarges the button of that score. A tap on a button runs its
override action and then `prepare(for:)`, which builds the memory. Both run on
the main thread, so only background steps can fall between them.
-/

namespace FeelBetter

open Machine TextAnalyzer

/-- The emoji buttons of the save popup. -/
inductive OverrideButton where
  | override0To20
  | override20To40
  | override40To60
  | override60To80
  | override80To100
  deriving DecidableEq

namespace OverrideButton

/-- The title of a button in the storyboard. -/
def emoji : OverrideButton → String
  | override0To20 => "😭"
  | override20To40 => "☹️"
  | override40To60 => "😐"
  | override60To80 => "🙂"
  | override80To100 => "😄"

/-- `to20Override` to `to100Override`: the sentiment that the action of a button assigns. -/
def actionSentiment : OverrideButton → ℤ
  | override0To20 => 10
  | override20To40 => 30
  | override40To60 => 50
  | override60To80 => 70
  | override80To100 => 90

/-- The sentiment that `prepare(for:)` assigns for a button. -/
def preparedSentiment : OverrideButton → ℤ
  | override0To20 => 10
  | override20To40 => 30
  | override40To60 => 50
  | override60To80 => 70
  | override80To100 => 90

/-- The button that the main queue block of `bringUpSavePopUpView` enlarges. -/
def highlighted (sentiment : ℤ) : Option OverrideButton :=
  if 0 ≤ sentiment ∧ sentiment < 20 then some override0To20
  else if 20 ≤ sentiment ∧ sentiment < 40 then some override20To40
  else if 40 ≤ sentiment ∧ sentiment < 60 then some override40To60
  else if 60 ≤ sentiment ∧ sentiment < 80 then some override60To80
  else if 80 ≤ sentiment ∧ sentiment < 100 then some override80To100
  else none

end OverrideButton

/-- A view that `setIsHidden(_:animated:)` fades in and out. -/
structure FadingView where
  isHidden : Bool
  alpha : ℕ
  /-- What the completions of the animations under way will assign to `isHidden`. -/
  completions : List Bool
  deriving DecidableEq

/-- `UIView.setIsHidden(_:animated:)`. -/
def FadingView.setIsHidden (view : FadingView) (hidden animated : Bool) : FadingView :=
  if animated then
    let view := if view.isHidden && !hidden then { view with alpha := 0, isHidden := false }
      else view
    { view with
      alpha := if hidden then 0 else 1
      completions := view.completions ++ [hidden] }
  else { view with isHidden := hidden }

/-- The compose screen. -/
structure NewMemory where
  newMemoryTitle : Option String
  newMemoryContent : String
  newMemoryImage : Option UIImage
  /-- The images in the six slots for suggestions. -/
  imageSuggestionViews : List (Option UIImage)
  imageSuggestionHidden : Bool
  newMemorySavePopUpView : FadingView
  /-- The subviews of `baseView` with the tag 1, which blur it. -/
  overlays : ℕ
  saveEnabled : Bool
  editingTitle : Bool
  editingContent : Bool
  newMemorySentiment : ℤ
  /-- The point size of the title of each button. -/
  fontSize : OverrideButton → ℕ
  /-- The number of analyses under way. -/
  analyses : ℕ
  /-- The number of blocks in the main queue that will enlarge a button. -/
  highlights : ℕ
  /-- The button whose action has run and whose segue has not been prepared. -/
  tapped : Option OverrideButton
  memoryToSave : Option LocalMemory
  trap : Option Trap

/-- What the user can do on the compose screen. -/
inductive NewMemoryTouch where
  | save
  /-- A touch ends that no other view consumes. -/
  | touchesEnded (onOverlay : Bool)
  | textFieldDidBeginEditing
  /-- The title field is left with a text while it is edited. -/
  | editTitle (text : String)
  | textFieldDidEndEditing
  | textViewDidBeginEditing
  /-- The text view is left with a text while it is edited. -/
  | edit (text : String)
  | textViewDidEndEditing
  | didFinishPicking (originalImage : Option UIImage)
  | suggestionTapped (i : ℕ)
  /-- A touch on a button: its override action runs. -/
  | tap (button : OverrideButton)
  deriving DecidableEq

/-- What the main queue can do. -/
inductive NewMemoryBlock where
  | viewDidAppear
  /-- The completion of the first animation under way. -/
  | animationCompleted
  | highlight
  | processImageSuggestions (suggestions : List ImageSuggestion)
  deriving DecidableEq

/-- What can happen on the compose screen. -/
inductive NewMemoryEvent where
  | touch (touch : NewMemoryTouch)
  | block (block : NewMemoryBlock)
  /-- The completion of an analysis runs in the background. -/
  | analyzed (result : Result SentimentAnalysisResult)
  /-- `prepare(for:)` runs for the tapped button, at a date. -/
  | prepare (date : Date)
  deriving DecidableEq

namespace NewMemory

/-- The text that stands for an empty text view. -/
def placeholderText : String := "I feel......"

/-- The storyboard's screen after `viewDidLoad`. The image view shows the image
"Tap to Select Image". -/
def start (placeholder : Option UIImage) : NewMemory where
  newMemoryTitle := some ""
  newMemoryContent := placeholderText
  newMemoryImage := placeholder
  imageSuggestionViews := List.replicate 6 none
  imageSuggestionHidden := true
  newMemorySavePopUpView := ⟨true, 1, []⟩
  overlays := 0
  saveEnabled := false
  editingTitle := false
  editingContent := false
  newMemorySentiment := -5
  fontSize := fun _ => 40
  analyses := 0
  highlights := 0
  tapped := none
  memoryToSave := none
  trap := none

/-! ### The text and the images -/

/-- `textFieldDidEndEditing(_:)`. -/
def textFieldDidEndEditing (s : NewMemory) : NewMemory :=
  { s with editingTitle := false, saveEnabled := true }

/-- `textViewDidBeginEditing(_:)`. -/
def textViewDidBeginEditing (s : NewMemory) : NewMemory :=
  { s with
    editingContent := true
    newMemoryContent := if s.newMemoryContent = placeholderText then "" else s.newMemoryContent }

/-- `textViewDidEndEditing(_:)`, up to the search for images that it starts. -/
def textViewDidEndEditing (s : NewMemory) : NewMemory :=
  { s with
    editingContent := false
    newMemoryContent := if s.newMemoryContent = "" then placeholderText else s.newMemoryContent }

/-- `imagePickerController(_:didFinishPickingMediaWithInfo:)`. -/
def didFinishPicking (s : NewMemory) (originalImage : Option UIImage) : NewMemory :=
  match originalImage with
  | some pickedImage => { s with newMemoryImage := some pickedImage }
  | none => s

/-- `suggestion1Tapped` to `suggestion6Tapped`. -/
def suggestionTapped (s : NewMemory) (i : ℕ) : NewMemory :=
  { s with newMemoryImage := s.imageSuggestionViews.getD i none, imageSuggestionHidden := true }

/-- `processImageSuggestions(suggestions:)`: the first six images go into the slots, and the
slots beyond are emptied. -/
def processImageSuggestions (s : NewMemory) (suggestions : List ImageSuggestion) : NewMemory :=
  let images := (suggestions.take 6).map ImageSuggestion.image
  { s with
    imageSuggestionHidden := images.isEmpty
    imageSuggestionViews := (List.range s.imageSuggestionViews.length).map fun i => images[i]? }

/-! ### The popup and the sentiment -/

/-- `bringUpSavePopUpView(_:)`. -/
def bringUpSavePopUpView (s : NewMemory) : NewMemory :=
  { s with
    analyses := s.analyses + 1
    newMemorySavePopUpView := s.newMemorySavePopUpView.setIsHidden false true
    overlays := s.overlays + 1
    saveEnabled := false }

/-- `touchesEnded(_:with:)`. -/
def touchesEnded (s : NewMemory) (onOverlay : Bool) : NewMemory :=
  { s with
    newMemorySavePopUpView :=
      if onOverlay then s.newMemorySavePopUpView.setIsHidden true true
      else s.newMemorySavePopUpView
    overlays := 0
    saveEnabled := true }

/-- The completion that `bringUpSavePopUpView` hands to `analyzeSentiment`. -/
def sentimentCompletion (result : Result SentimentAnalysisResult) : EStateM Trap NewMemory Unit :=
  match result with
  | .error _ => throw .failedTry
  | .ok sentiment =>
    match sentiment.score with
    | none => throw .notANumber
    | some score => modify fun s : NewMemory => { s with
        newMemorySentiment := score
        highlights := s.highlights + 1 }

/-- The main queue block of that completion. -/
def highlight (s : NewMemory) : NewMemory :=
  { s with fontSize := fun button =>
      if OverrideButton.highlighted s.newMemorySentiment = some button then 65 else 40 }

/-- The override action of a button. -/
def override (s : NewMemory) (button : OverrideButton) : NewMemory :=
  { s with newMemorySentiment := button.actionSentiment, tapped := some button }

/-- The sentiment with which `prepare(for:)` builds the memory: an enlarged button leaves it
as it is. -/
def sentimentToSave (s : NewMemory) (sender : OverrideButton) : ℤ :=
  if s.fontSize sender ≠ 65 then sender.preparedSentiment else s.newMemorySentiment

/-- The image with which `prepare(for:)` builds the memory: none where the image view still
shows the placeholder. -/
def imageToSave (placeholder : Option UIImage) (s : NewMemory) : Option UIImage :=
  if placeholder.bind UIImage.pngData = s.newMemoryImage.bind UIImage.pngData then none
  else s.newMemoryImage

/-- `prepare(for:sender:)`. -/
def prepare (placeholder : Option UIImage) (s : NewMemory) (sender : OverrideButton)
    (date : Date) : NewMemory :=
  { s with
    tapped := none
    newMemorySentiment := s.sentimentToSave sender
    memoryToSave := some {
      title := s.newMemoryTitle.getD ""
      content := s.newMemoryContent
      sentiment := s.sentimentToSave sender
      saveDate := date
      image := s.imageToSave placeholder } }

/-! ### Steps -/

/-- What a touch does; `none` where it cannot reach its view. -/
def touch (s : NewMemory) : NewMemoryTouch → Option NewMemory
  | .save => if s.saveEnabled then some s.bringUpSavePopUpView else none
  | .touchesEnded onOverlay =>
    if onOverlay ∧ s.overlays = 0 then none else some (s.touchesEnded onOverlay)
  | .textFieldDidBeginEditing =>
    if s.editingTitle then none else some { s with editingTitle := true, saveEnabled := false }
  | .editTitle text => if s.editingTitle then some { s with newMemoryTitle := some text } else none
  | .textFieldDidEndEditing => if s.editingTitle then some s.textFieldDidEndEditing else none
  | .textViewDidBeginEditing => if s.editingContent then none else some s.textViewDidBeginEditing
  | .edit text => if s.editingContent then some { s with newMemoryContent := text } else none
  | .textViewDidEndEditing => if s.editingContent then some s.textViewDidEndEditing else none
  | .didFinishPicking originalImage => some (s.didFinishPicking originalImage)
  | .suggestionTapped i =>
    if s.imageSuggestionHidden ∨ s.imageSuggestionViews.length ≤ i then none
    else some (s.suggestionTapped i)
  | .tap button =>
    if s.newMemorySavePopUpView.isHidden ∨ s.newMemorySavePopUpView.alpha = 0 then none
    else some (s.override button)

/-- What the main queue does; `none` where there is nothing to do. -/
def block (s : NewMemory) : NewMemoryBlock → Option NewMemory
  | .viewDidAppear => some { s with
      newMemorySavePopUpView := { s.newMemorySavePopUpView with isHidden := true } }
  | .animationCompleted =>
    match s.newMemorySavePopUpView.completions with
    | hidden :: completions => some { s with
        newMemorySavePopUpView :=
          { s.newMemorySavePopUpView with isHidden := hidden, completions } }
    | [] => none
  | .highlight =>
    if 0 < s.highlights then some { s.highlight with highlights := s.highlights - 1 } else none
  | .processImageSuggestions suggestions => some (s.processImageSuggestions suggestions)

/-- Perform an action; a trap ends the application and keeps what was done before. -/
def perform (s : NewMemory) (action : EStateM Trap NewMemory Unit) : NewMemory :=
  match action.run s with
  | .ok _ t => t
  | .error trap t => { t with trap := some trap }

/-- One step of the compose screen: `none` where the event cannot happen. After a trap
nothing happens. The main thread is taken between an override action and the segue, and
the user has left the screen after it. -/
def step (placeholder : Option UIImage) (s : NewMemory) (e : NewMemoryEvent) :
    Option NewMemory :=
  if s.trap.isSome then none else
  match e with
  | .touch touch => if s.tapped.isSome ∨ s.memoryToSave.isSome then none else s.touch touch
  | .block block => if s.tapped.isSome then none else s.block block
  | .analyzed result =>
    if 0 < s.analyses then
      some ({ s with analyses := s.analyses - 1 }.perform (sentimentCompletion result))
    else none
  | .prepare date => s.tapped.map fun button => s.prepare placeholder button date

end NewMemory

end FeelBetter
