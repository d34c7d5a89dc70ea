import FeelBetter.ComputerVision
import FeelBetter.Listing
import FeelBetter.Machine.Runs

/-!
# The search for images

`ImageSuggestionProvider` asks the photo manager for the data of every photo of a
period, has the photos tagged that were not tagged before, and hands those whose
tags meet the key phrases of a text to `process`. Each photo has a chain of
closures of its own, which run on several queues: only the pieces of one chain
run in order. A dispatch group counts the chains that have not ended, and the
thread of the search waits for it. One search runs at a time.
-/

namespace FeelBetter

open Machine

/-- `PHAssetMediaType`. -/
inductive PHAssetMediaType where
  | unknown
  | image
  | video
  | audio
  deriving DecidableEq

/-- `PHAsset`, but for its identifier. -/
structure PHAsset where
  mediaType : PHAssetMediaType
  creationDate : Option Date
  deriving DecidableEq

/-- The photo library. -/
abbrev PhotoLibrary := AList fun _ : LocalIdentifier => PHAsset

/-- What the fetch options sort an asset by: the creation date of an image between two dates. -/
def PHAsset.sortDate (startDate endDate : Date) (asset : PHAsset) : Option Date :=
  asset.creationDate.filter fun creationDate =>
    asset.mediaType = .image ∧ startDate < creationDate ∧ creationDate < endDate

/-- `PHAsset.fetchAssets(with:options:)`: the images between two dates, the latest first. -/
def fetchAssets (library : PhotoLibrary) (startDate endDate : Date) : List LocalIdentifier :=
  Listing.orderBy (PHAsset.sortDate startDate endDate) library

/-- What a search relies on. -/
structure PhotoServices where
  /-- `String.lowercased()`, which leaves lower case as it is. It may bring a string into its
  canonical form, too, so that `=` on what it returns is the `==` of Swift. -/
  lowercased : String → String
  lowercased_lowercased : ∀ s, lowercased (lowercased s) = lowercased s
  /-- The image that the photo manager loads for an asset, unless it has no data. Data are taken
  to be those of an image: `UIImage(data: data)!` traps on others. -/
  loaded : LocalIdentifier → Option UIImage
  /-- The decoding of the analysis of an image. -/
  decode : Data → Except RequestError ImageAnalysisResult
  /-- What the request for the analysis of an asset reports. -/
  outcome : LocalIdentifier → DataTaskOutcome
  /-- The request calls back. -/
  answered : ∀ asset, (ComputerVision.answer decode (outcome asset)).isSome
  /-- `description` in `addImage`, which is that of the provider. -/
  description : String

/-- Where the closures for an asset are. -/
inductive Stage where
  /-- The loop has not reached the asset. -/
  | waiting
  /-- The data are requested. -/
  | requested
  /-- The analysis is requested. -/
  | tagging (uiImage : UIImage)
  /-- The block that records the tags is in the concurrent queue. -/
  | recording (uiImage : UIImage) (tag : ImageTag)
  /-- `addImage` runs. -/
  | adding (uiImage : UIImage) (tags : Finset String)
  /-- The group is about to be left. -/
  | leaving
  | settled
  deriving DecidableEq

/-- The closures for one asset. -/
structure SearchTask where
  asset : LocalIdentifier
  stage : Stage
  deriving DecidableEq

/-- A search, with the memory of image tags that it uses. -/
structure Search where
  keyPhrases : Finset String
  /-- The assets in the order of the loop. -/
  tasks : List SearchTask
  memory : UserDefaults
  /-- How often the group was entered, which is the index of the loop. -/
  entered : ℕ
  /-- How often the group was left. -/
  left : ℕ
  images : List ImageSuggestion
  /-- What `process` was called with. -/
  calls : List (List ImageSuggestion)

/-- What can happen to a search. -/
inductive SearchEvent where
  /-- The loop enters the group and requests the data of the next asset. -/
  | enter
  /-- The next piece of the closures for an asset runs. -/
  | proceed (i : ℕ)
  /-- `group.wait()` returns, and `process` is called. -/
  | wait
  deriving DecidableEq

namespace Search

variable (services : PhotoServices)

/-- `image(matching:between:and:then:)`, up to the loop. -/
def image (keyPhrases : Finset String) (assets : List LocalIdentifier) (memory : UserDefaults) :
    Search where
  keyPhrases
  tasks := assets.map fun asset => ⟨asset, .waiting⟩
  memory
  entered := 0
  left := 0
  images := []
  calls := if assets.length > 0 then [] else [[]]

/-- The completion that `relevantImage` hands to `keyPhrases`. -/
def relevantImage (library : PhotoLibrary) (startDate endDate : Date) (memory : UserDefaults)
    (result : Result (List String)) : Search :=
  match result with
  | .ok keyPhrases =>
    image (keyPhrases.map services.lowercased).toFinset (fetchAssets library startDate endDate)
      memory
  | .error _ =>
    { keyPhrases := ∅, tasks := [], memory, entered := 0, left := 0, images := [], calls := [[]] }

/-- The closures for an asset go on to a stage. -/
def move (s : Search) (i : ℕ) (asset : LocalIdentifier) (stage : Stage) : Search :=
  { s with tasks := s.tasks.set i ⟨asset, stage⟩ }

/-- The closure `removeDuplicateTags`. -/
def removeDuplicateTags (tags : List String) : Finset String :=
  (tags.map services.lowercased).toFinset

/-- The completion of the request for the data of an asset. -/
def dataCompletion (s : Search) (asset : LocalIdentifier) : Stage :=
  match services.loaded asset with
  | none => .leaving
  | some uiImage =>
    match ImageTagMemory.tag s.memory asset with
    | some assetRecord => .adding uiImage assetRecord.tags
    | none => .tagging uiImage

/-- The completion of the analysis of an asset. -/
def tagCompletion (i : ℕ) (asset : LocalIdentifier) (uiImage : UIImage) (result : Result ImageTag) :
    EStateM Trap Search Unit :=
  match result with
  | .ok tag => modify fun s => s.move i asset (.recording uiImage tag)
  | .error _ => modify fun s => s.move i asset .leaving

/-- What `addImage` appends. -/
def addImage (s : Search) (uiImage : UIImage) (tags : Finset String) : List ImageSuggestion :=
  if s.keyPhrases ∩ tags = ∅ then [] else [⟨uiImage, services.description⟩]

/-- The next piece of the closures for an asset. -/
def proceed (s : Search) (i : ℕ) (asset : LocalIdentifier) (stage : Stage) : Option Search :=
  match stage with
  | .waiting => none
  | .requested => some (s.move i asset (s.dataCompletion services asset))
  | .tagging uiImage =>
    match (ComputerVision.tag services.decode (services.outcome asset)
      (removeDuplicateTags services) (tagCompletion i asset uiImage)).run s with
    | .ok _ t => some t
    | .error _ _ => none
  | .recording uiImage tag =>
    some ({ s with memory := ImageTagMemory.setTag s.memory (some tag) asset }.move i asset
      (.adding uiImage tag.tags))
  | .adding uiImage tags =>
    some ({ s with images := s.images ++ s.addImage services uiImage tags }.move i asset .leaving)
  | .leaving => some ({ s with left := s.left + 1 }.move i asset .settled)
  | .settled => none

/-- One step of a search: `none` where the event cannot happen. The group lets a thread pass
that waits for it when it was left as often as it was entered. -/
def step (s : Search) (e : SearchEvent) : Option Search :=
  match e with
  | .enter =>
    match s.tasks[s.entered]? with
    | some task => some ({ s with entered := s.entered + 1 }.move s.entered task.asset .requested)
    | none => none
  | .proceed i =>
    match s.tasks[i]? with
    | some task => s.proceed services i task.asset task.stage
    | none => none
  | .wait =>
    if s.calls = [] ∧ s.entered = s.tasks.length ∧ s.left = s.entered then
      some { s with calls := s.calls ++ [s.images] }
    else none

end Search

end FeelBetter
