import FeelBetter.ImageTagMemory
import FeelBetter.TextAnalyzer
import Mathlib.Data.Rat.Defs

/-!
# The image analysis service

`ComputerVision.tag` posts an image and hands the tags of the response to
`process`, with the first caption as the description. A body that is no text
traps, and the decoding of the others is a parameter. Confidences are rational, and
a name counts where its confidence is above one half.
-/

namespace FeelBetter

/-- A name that the service found, with its confidence. -/
structure NamedMLResult where
  name : String
  confidence : ℚ
  deriving DecidableEq

/-- `Array.allNames(withConfidence:)`. -/
def allNames (results : List NamedMLResult) (minConfidence : ℚ) : List String :=
  (results.filter fun result => result.confidence > minConfidence).map NamedMLResult.name

namespace ImageAnalysisResult

/-- `ImageAnalysisResult.Category.Detail`. -/
structure Detail where
  celebrities : Option (List NamedMLResult)
  landmarks : Option (List NamedMLResult)
  deriving DecidableEq

/-- `ImageAnalysisResult.Category`, by what is read of it. -/
structure Category where
  detail : Option Detail
  deriving DecidableEq

/-- `ImageAnalysisResult.Description.Caption`, by what is read of it. -/
structure Caption where
  text : String
  deriving DecidableEq

/-- `ImageAnalysisResult.Description`. -/
structure Description where
  tags : List String
  captions : List Caption
  deriving DecidableEq

/-- `ImageAnalysisResult.Brand`, by what is read of it. -/
structure Brand where
  name : String
  deriving DecidableEq

end ImageAnalysisResult

/-- `ImageAnalysisResult`. -/
structure ImageAnalysisResult where
  categories : List ImageAnalysisResult.Category
  tags : List NamedMLResult
  description : ImageAnalysisResult.Description
  brands : List ImageAnalysisResult.Brand
  deriving DecidableEq

namespace ImageAnalysisResult

variable (result : ImageAnalysisResult)

/-- `detailTags` in `ComputerVision.tag`. -/
def detailTags : List String :=
  (result.categories.filterMap Category.detail).flatMap fun detail =>
    let allCelebrities := (detail.celebrities.map (allNames · (1 / 2))).getD []
    let allLandmarks := (detail.landmarks.map (allNames · (1 / 2))).getD []
    allCelebrities ++ allLandmarks

/-- All tags of the result, in the order in which `ComputerVision.tag` joins them. -/
def joinedTags : List String :=
  result.detailTags ++ result.description.tags ++ allNames result.tags (1 / 2) ++
    result.brands.map Brand.name

/-- What `ComputerVision.tag` makes of the result. -/
def imageTag (removeDuplicateTags : List String → Finset String) : ImageTag where
  tags := removeDuplicateTags result.joinedTags
  description := result.description.captions.head?.map Caption.text

/-- The name is that of a celebrity, a landmark or a tag with a confidence above one half, of
a description tag or of a brand. -/
def Names (name : String) : Prop :=
  (∃ category ∈ result.categories, ∃ detail, category.detail = some detail ∧
    ((∃ celebrities, detail.celebrities = some celebrities ∧
        ∃ celebrity ∈ celebrities, 1 / 2 < celebrity.confidence ∧ celebrity.name = name) ∨
      ∃ landmarks, detail.landmarks = some landmarks ∧
        ∃ landmark ∈ landmarks, 1 / 2 < landmark.confidence ∧ landmark.name = name)) ∨
  (∃ tag ∈ result.tags, 1 / 2 < tag.confidence ∧ tag.name = name) ∨
  name ∈ result.description.tags ∨
  ∃ brand ∈ result.brands, brand.name = name

end ImageAnalysisResult

theorem mem_allNames_iff {results : List NamedMLResult} {minConfidence : ℚ} {name : String} :
    name ∈ allNames results minConfidence ↔
      ∃ result ∈ results, minConfidence < result.confidence ∧ result.name = name := by
  simp [allNames, and_assoc]

/-- The names of a list that may be missing. -/
theorem mem_getD_allNames_iff {results : Option (List NamedMLResult)} {minConfidence : ℚ}
    {name : String} :
    name ∈ (results.map (allNames · minConfidence)).getD [] ↔ ∃ l, results = some l ∧
      ∃ result ∈ l, minConfidence < result.confidence ∧ result.name = name := by
  cases results with
  | none => simp
  | some l => simp [mem_allNames_iff]

/-- The tags of a result are exactly these names. -/
theorem ImageAnalysisResult.mem_joinedTags_iff {result : ImageAnalysisResult} {name : String} :
    name ∈ result.joinedTags ↔ result.Names name := by
  simp only [joinedTags, detailTags, Names, List.mem_append, List.mem_flatMap, List.mem_filterMap,
    List.mem_map, mem_allNames_iff, mem_getD_allNames_iff]
  constructor
  · rintro (((⟨detail, ⟨category, hcategory, hdetail⟩, hname⟩ | hname) | hname) | hname)
    · exact .inl ⟨category, hcategory, detail, hdetail, hname⟩
    · exact .inr (.inr (.inl hname))
    · exact .inr (.inl hname)
    · exact .inr (.inr (.inr hname))
  · rintro (⟨category, hcategory, detail, hdetail, hname⟩ | hname | hname | hname)
    · exact .inl (.inl (.inl ⟨detail, ⟨category, hcategory, hdetail⟩, hname⟩))
    · exact .inl (.inr hname)
    · exact .inl (.inl (.inr hname))
    · exact .inr hname

namespace ComputerVision

variable {σ : Type} (decode : Data → Except RequestError ImageAnalysisResult)

/-- The completion handler of `ComputerVision.tag`. -/
def tag (outcome : DataTaskOutcome) (removeDuplicateTags : List String → Finset String)
    (process : Result ImageTag → EStateM Trap σ Unit) : EStateM Trap σ Unit :=
  match outcome.data with
  | none =>
    match outcome.error with
    | some error => process (.error error)
    | none => throw .noError
  | some data =>
    -- the body is printed
    match String.fromUTF8? ⟨data.toArray⟩ with
    | some _ => process ((decode data).map fun result => result.imageTag removeDuplicateTags)
    | none => throw .notUTF8

/-- What a request makes of an outcome; `none` where it traps. -/
def answer (outcome : DataTaskOutcome) : Option (Result ImageAnalysisResult) :=
  match outcome.data with
  | none => outcome.error.map .error
  | some data => (String.fromUTF8? ⟨data.toArray⟩).map fun _ => decode data

/-- Where there is an answer, a request is one call of `process` with its tags. -/
theorem tag_eq_process {outcome : DataTaskOutcome} {result : Result ImageAnalysisResult}
    (h : answer decode outcome = some result) (removeDuplicateTags : List String → Finset String)
    (process : Result ImageTag → EStateM Trap σ Unit) :
    tag decode outcome removeDuplicateTags process =
      process (result.map fun result => result.imageTag removeDuplicateTags) := by
  rw [answer] at h
  rw [tag]
  cases hdata : outcome.data with
  | none =>
    rw [hdata] at h
    obtain ⟨error, herror, rfl⟩ := Option.map_eq_some_iff.mp h
    simp only [herror]
    rfl
  | some data =>
    rw [hdata] at h
    obtain ⟨text, htext, rfl⟩ := Option.map_eq_some_iff.mp h
    simp only [htext]

end ComputerVision

end FeelBetter
