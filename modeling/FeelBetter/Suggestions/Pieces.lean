import FeelBetter.Machine.Termination
import FeelBetter.Suggestions.Search

/-!
# The pieces of a search

What one step of a search can do, and that a search comes to an end: every
closure runs once for its asset, and while there is something to wait for,
something can happen.
-/

namespace FeelBetter

open Machine

/-- What the request for the analysis of an asset answers. -/
def PhotoServices.analysis (services : PhotoServices) (asset : LocalIdentifier) :
    Result ImageAnalysisResult :=
  (ComputerVision.answer services.decode (services.outcome asset)).get (services.answered asset)

/-- How many pieces of the closures for an asset are left. -/
def Stage.rank : Stage → ℕ
  | .waiting => 6
  | .requested => 5
  | .tagging _ => 4
  | .recording _ _ => 3
  | .adding _ _ => 2
  | .leaving => 1
  | .settled => 0

/-- How often the group was left for an asset. -/
def Stage.left : Stage → ℕ
  | .settled => 1
  | _ => 0

theorem Stage.left_le (stage : Stage) : stage.left ≤ 1 := by
  cases stage <;> simp [Stage.left]

theorem Stage.left_eq_one_iff {stage : Stage} : stage.left = 1 ↔ stage = .settled := by
  cases stage <;> simp [Stage.left]

namespace Search

variable {services : PhotoServices}

/-- The pieces of the closures for an asset: from which stage they go on to which one, and the
memory, the images and the count of leaves after them. -/
inductive Piece (services : PhotoServices) (s : Search) (asset : LocalIdentifier) :
    Stage → Stage → UserDefaults → List ImageSuggestion → ℕ → Prop
  | noData (hdata : services.loaded asset = none) :
    Piece services s asset .requested .leaving s.memory s.images s.left
  | cached {uiImage : UIImage} {assetRecord : ImageTag}
      (hdata : services.loaded asset = some uiImage)
      (hrecord : ImageTagMemory.tag s.memory asset = some assetRecord) :
    Piece services s asset .requested (.adding uiImage assetRecord.tags) s.memory s.images s.left
  | fresh {uiImage : UIImage} (hdata : services.loaded asset = some uiImage)
      (hrecord : ImageTagMemory.tag s.memory asset = none) :
    Piece services s asset .requested (.tagging uiImage) s.memory s.images s.left
  | tagged {uiImage : UIImage} {result : ImageAnalysisResult}
      (hanalysis : services.analysis asset = .ok result) :
    Piece services s asset (.tagging uiImage)
      (.recording uiImage (result.imageTag (removeDuplicateTags services))) s.memory s.images s.left
  | failed {uiImage : UIImage} {error : RequestError}
      (hanalysis : services.analysis asset = .error error) :
    Piece services s asset (.tagging uiImage) .leaving s.memory s.images s.left
  | recorded {uiImage : UIImage} {tag : ImageTag} :
    Piece services s asset (.recording uiImage tag) (.adding uiImage tag.tags)
      (ImageTagMemory.setTag s.memory (some tag) asset) s.images s.left
  | added {uiImage : UIImage} {tags : Finset String} :
    Piece services s asset (.adding uiImage tags) .leaving s.memory
      (s.images ++ s.addImage services uiImage tags) s.left
  | left : Piece services s asset .leaving .settled s.memory s.images (s.left + 1)

/-- The request for the analysis of an asset hands its tags to the completion. -/
theorem tag_eq_tagCompletion (i : ℕ) (asset : LocalIdentifier) (uiImage : UIImage) :
    ComputerVision.tag services.decode (services.outcome asset) (removeDuplicateTags services)
        (tagCompletion i asset uiImage) =
      tagCompletion i asset uiImage ((services.analysis asset).map fun result =>
        result.imageTag (removeDuplicateTags services)) :=
  ComputerVision.tag_eq_process services.decode (Option.some_get _).symm _ _

/-- What the next closure for an asset does is one of the pieces. -/
theorem piece_of_proceed {s t : Search} {i : ℕ} {asset : LocalIdentifier} {stage : Stage}
    (h : s.proceed services i asset stage = some t) :
    ∃ stage', t.tasks = s.tasks.set i ⟨asset, stage'⟩ ∧ t.entered = s.entered ∧
      t.calls = s.calls ∧ t.keyPhrases = s.keyPhrases ∧
      Piece services s asset stage stage' t.memory t.images t.left := by
  cases stage with
  | waiting => cases h
  | requested =>
    cases h
    refine ⟨_, rfl, rfl, rfl, rfl, ?_⟩
    unfold dataCompletion
    cases hdata : services.loaded asset with
    | none => exact .noData hdata
    | some uiImage =>
      cases hrecord : ImageTagMemory.tag s.memory asset with
      | none => exact .fresh hdata hrecord
      | some assetRecord => exact .cached hdata hrecord
  | tagging uiImage =>
    rw [proceed, tag_eq_tagCompletion] at h
    cases hanalysis : services.analysis asset with
    | error error =>
      rw [hanalysis] at h
      cases h
      exact ⟨_, rfl, rfl, rfl, rfl, .failed hanalysis⟩
    | ok result =>
      rw [hanalysis] at h
      cases h
      exact ⟨_, rfl, rfl, rfl, rfl, .tagged hanalysis⟩
  | recording uiImage tag =>
    cases h
    exact ⟨_, rfl, rfl, rfl, rfl, .recorded⟩
  | adding uiImage tags =>
    cases h
    exact ⟨_, rfl, rfl, rfl, rfl, .added⟩
  | leaving =>
    cases h
    exact ⟨_, rfl, rfl, rfl, rfl, .left⟩
  | settled => cases h

/-- A closure that is due can run. -/
theorem exists_proceed (services : PhotoServices) (s : Search) (i : ℕ)
    (asset : LocalIdentifier) {stage : Stage}
    (hwaiting : stage ≠ .waiting) (hsettled : stage ≠ .settled) :
    ∃ t, s.proceed services i asset stage = some t := by
  cases stage with
  | waiting => exact absurd rfl hwaiting
  | requested => exact ⟨_, rfl⟩
  | tagging uiImage =>
    rw [proceed, tag_eq_tagCompletion]
    cases services.analysis asset with
    | error error => exact ⟨_, rfl⟩
    | ok result => exact ⟨_, rfl⟩
  | recording uiImage tag => exact ⟨_, rfl⟩
  | adding uiImage tags => exact ⟨_, rfl⟩
  | leaving => exact ⟨_, rfl⟩
  | settled => exact absurd rfl hsettled

/-- What one step of a search does: the loop goes on, a closure runs, or the search ends. -/
theorem step_cases {s t : Search} {e : SearchEvent} (h : s.step services e = some t) :
    (e = .enter ∧ ∃ task, s.tasks[s.entered]? = some task ∧
      t = { s with
        entered := s.entered + 1
        tasks := s.tasks.set s.entered ⟨task.asset, .requested⟩ }) ∨
    (∃ i asset stage stage', e = .proceed i ∧ s.tasks[i]? = some ⟨asset, stage⟩ ∧
      t.tasks = s.tasks.set i ⟨asset, stage'⟩ ∧ t.entered = s.entered ∧ t.calls = s.calls ∧
      t.keyPhrases = s.keyPhrases ∧
      Piece services s asset stage stage' t.memory t.images t.left) ∨
    (e = .wait ∧ s.calls = [] ∧ s.entered = s.tasks.length ∧ s.left = s.entered ∧
      t = { s with calls := [s.images] }) := by
  cases e with
  | enter =>
    left
    simp only [step] at h
    split at h
    · rename_i task htask
      cases h
      exact ⟨rfl, task, htask, rfl⟩
    · cases h
  | proceed i =>
    right; left
    simp only [step] at h
    split at h
    · rename_i task htask
      obtain ⟨asset, stage⟩ := task
      obtain ⟨stage', hmoved⟩ := piece_of_proceed h
      exact ⟨i, asset, stage, stage', rfl, htask, hmoved⟩
    · cases h
  | wait =>
    right; right
    simp only [step] at h
    split at h
    · rename_i hwait
      obtain ⟨hcalls, hentered, hleft⟩ := hwait
      cases h
      exact ⟨rfl, hcalls, hentered, hleft, by rw [hcalls]; rfl⟩
    · cases h

end Search

end FeelBetter
