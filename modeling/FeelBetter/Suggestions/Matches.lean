import FeelBetter.Suggestions.Gathering

/-!
# The images that match

A photo matches where a key phrase and one of its tags agree ignoring case. The tags
are those that the memory holds, or those of the analysis, and in both cases they were
put in lower case when the photo was analysed.
-/

namespace FeelBetter

open Machine

namespace PhotoServices

variable (services : PhotoServices)

/-- The tags of an asset that a search compares: those of the memory it began with, or those
of the analysis. -/
def assetTags (memory : UserDefaults) (asset : LocalIdentifier) : Option (Finset String) :=
  match ImageTagMemory.tag memory asset with
  | some assetRecord => some assetRecord.tags
  | none =>
    match services.analysis asset with
    | .ok result => some (result.imageTag (Search.removeDuplicateTags services)).tags
    | .error _ => none

/-- What a search appends for an asset. -/
def suggestion (keyPhrases : Finset String) (memory : UserDefaults) (asset : LocalIdentifier) :
    Option ImageSuggestion :=
  (services.loaded asset).bind fun uiImage =>
    (services.assetTags memory asset).bind fun tags =>
      if keyPhrases ∩ tags = ∅ then none else some ⟨uiImage, services.description⟩

/-- The asset has a tag: in the memory, or else in the analysis. -/
def Tagged (memory : UserDefaults) (asset : LocalIdentifier) (tag : String) : Prop :=
  match ImageTagMemory.tag memory asset with
  | some assetRecord => tag ∈ assetRecord.tags
  | none => ∃ result, services.analysis asset = .ok result ∧ result.Names tag

/-- The asset has data, and a key phrase and one of its tags agree ignoring case. -/
def Matches (keyPhrases : List String) (memory : UserDefaults) (asset : LocalIdentifier) : Prop :=
  (services.loaded asset).isSome ∧ ∃ keyPhrase ∈ keyPhrases, ∃ tag,
    services.Tagged memory asset tag ∧ services.lowercased keyPhrase = services.lowercased tag

end PhotoServices

/-- The tags of all records are in lower case. -/
def ImageTagMemory.LowerCase (lowercased : String → String) (memory : UserDefaults) : Prop :=
  ∀ asset assetRecord, tag memory asset = some assetRecord →
    ∀ t ∈ assetRecord.tags, lowercased t = t

namespace PhotoServices

variable {services : PhotoServices}

/-- The tags of an analysis are its names in lower case. -/
theorem mem_imageTag_iff {result : ImageAnalysisResult} {tag : String} :
    tag ∈ (result.imageTag (Search.removeDuplicateTags services)).tags ↔
      ∃ name, result.Names name ∧ services.lowercased name = tag := by
  simp [ImageAnalysisResult.imageTag, Search.removeDuplicateTags,
    ImageAnalysisResult.mem_joinedTags_iff]

/-- The tags that are compared are the tags of the asset in lower case. -/
theorem exists_assetTags_iff {memory : UserDefaults}
    (hmemory : ImageTagMemory.LowerCase services.lowercased memory) {asset : LocalIdentifier}
    {s : String} :
    (∃ tags, services.assetTags memory asset = some tags ∧ s ∈ tags) ↔
      ∃ tag, services.Tagged memory asset tag ∧ services.lowercased tag = s := by
  unfold assetTags Tagged
  cases hrecord : ImageTagMemory.tag memory asset with
  | some assetRecord =>
    have hlower := hmemory asset assetRecord hrecord
    constructor
    · rintro ⟨tags, htags, hs⟩
      cases htags
      exact ⟨s, hs, hlower s hs⟩
    · rintro ⟨tag, htag, rfl⟩
      exact ⟨_, rfl, (hlower tag htag).symm ▸ htag⟩
  | none =>
    cases hanalysis : services.analysis asset with
    | error error => simp
    | ok result =>
      simp only [Option.some.injEq, exists_eq_left', mem_imageTag_iff, Except.ok.injEq]

/-- Key phrases in lower case and tags meet where the tags have one of the key phrases. -/
theorem inter_ne_empty_iff (services : PhotoServices) (keyPhrases : List String)
    (tags : Finset String) :
    (keyPhrases.map services.lowercased).toFinset ∩ tags ≠ ∅ ↔
      ∃ keyPhrase ∈ keyPhrases, services.lowercased keyPhrase ∈ tags := by
  rw [← Finset.nonempty_iff_ne_empty, Finset.Nonempty]
  simp

/-- What a search appends are the photos that match. -/
theorem suggestion_eq_some_iff {keyPhrases : List String} {memory : UserDefaults}
    (hmemory : ImageTagMemory.LowerCase services.lowercased memory) {asset : LocalIdentifier}
    {suggestion : ImageSuggestion} :
    services.suggestion (keyPhrases.map services.lowercased).toFinset memory asset =
        some suggestion ↔
      services.Matches keyPhrases memory asset ∧
        services.loaded asset = some suggestion.image ∧
        suggestion.description = services.description := by
  have htags : (∃ tags, services.assetTags memory asset = some tags ∧
      (keyPhrases.map services.lowercased).toFinset ∩ tags ≠ ∅) ↔
      ∃ keyPhrase ∈ keyPhrases, ∃ tag, services.Tagged memory asset tag ∧
        services.lowercased keyPhrase = services.lowercased tag := by
    simp only [inter_ne_empty_iff]
    constructor
    · rintro ⟨tags, hasset, keyPhrase, hphrase, hmem⟩
      obtain ⟨tag, htag, heq⟩ := (exists_assetTags_iff hmemory).mp ⟨tags, hasset, hmem⟩
      exact ⟨keyPhrase, hphrase, tag, htag, heq.symm⟩
    · rintro ⟨keyPhrase, hphrase, tag, htag, heq⟩
      obtain ⟨tags, hasset, hmem⟩ := (exists_assetTags_iff hmemory).mpr ⟨tag, htag, heq.symm⟩
      exact ⟨tags, hasset, keyPhrase, hphrase, hmem⟩
  unfold Matches
  rw [← htags]
  unfold PhotoServices.suggestion
  obtain ⟨image, description⟩ := suggestion
  simp only [Option.bind_eq_some_iff, Option.ite_none_left_eq_some, Option.some.injEq,
    ImageSuggestion.mk.injEq]
  constructor
  · rintro ⟨uiImage, hdata, tags, hasset, hne, rfl, rfl⟩
    exact ⟨⟨by rw [hdata]; rfl, tags, hasset, hne⟩, hdata, rfl⟩
  · rintro ⟨⟨-, tags, hasset, hne⟩, hdata, rfl⟩
    exact ⟨image, hdata, tags, hasset, hne, rfl, rfl⟩

end PhotoServices

/-- What the closures for an asset carry is right, for the memory with which the search began
and the memory by now. -/
def Stage.Sound (services : PhotoServices) (memory now : UserDefaults) (asset : LocalIdentifier)
    (stage : Stage) : Prop :=
  match stage with
  | .waiting => ImageTagMemory.tag now asset = ImageTagMemory.tag memory asset
  | .requested => ImageTagMemory.tag now asset = ImageTagMemory.tag memory asset
  | .tagging uiImage =>
    services.loaded asset = some uiImage ∧ ImageTagMemory.tag memory asset = none
  | .recording uiImage tag =>
    services.loaded asset = some uiImage ∧ services.assetTags memory asset = some tag.tags
  | .adding uiImage tags =>
    services.loaded asset = some uiImage ∧ services.assetTags memory asset = some tags
  | .leaving => True
  | .settled => True

/-- The closures for an asset are past `addImage`. -/
def Stage.Past (stage : Stage) : Prop := stage = .leaving ∨ stage = .settled

instance (stage : Stage) : Decidable stage.Past := inferInstanceAs (Decidable (_ ∨ _))

namespace Search

variable {services : PhotoServices} {keyPhrases : Finset String} {memory : UserDefaults}

/-- The images are what the assets contribute whose closures are past `addImage`, in the order
in which they arrived there. -/
structure Collected (services : PhotoServices) (keyPhrases : Finset String)
    (memory : UserDefaults) (s : Search) (arrived : List LocalIdentifier) : Prop where
  keyPhrases_eq : s.keyPhrases = keyPhrases
  sound : ∀ task ∈ s.tasks, task.stage.Sound services memory s.memory task.asset
  nodup : arrived.Nodup
  mem_arrived_iff : ∀ task ∈ s.tasks, task.asset ∈ arrived ↔ task.stage.Past
  arrived_subset : arrived ⊆ s.tasks.map SearchTask.asset
  images_eq : s.images = arrived.filterMap (services.suggestion keyPhrases memory)

theorem collected_image (assets : List LocalIdentifier) :
    Collected services keyPhrases memory (image keyPhrases assets memory) [] where
  keyPhrases_eq := rfl
  sound := by
    intro task htask
    obtain ⟨asset, -, rfl⟩ := List.mem_map.mp htask
    rfl
  nodup := List.nodup_nil
  mem_arrived_iff := by
    intro task htask
    obtain ⟨asset, -, rfl⟩ := List.mem_map.mp htask
    simp [Stage.Past]
  arrived_subset := List.nil_subset _
  images_eq := rfl

/-- What is carried for an asset stays right while the record of another one is written. -/
theorem sound_setTag {now : UserDefaults} {asset asset' : LocalIdentifier} {stage : Stage}
    (h : stage.Sound services memory now asset) (record : Option ImageTag) (hne : asset ≠ asset') :
    stage.Sound services memory (ImageTagMemory.setTag now record asset') asset := by
  have htag := ImageTagMemory.tag_setTag_of_ne now record hne
  cases stage with
  | waiting => exact htag.trans h
  | requested => exact htag.trans h
  | tagging uiImage => exact h
  | recording uiImage tag => exact h
  | adding uiImage tags => exact h
  | leaving => exact h
  | settled => exact h

/-- A piece of the closures for one asset leaves right what is carried for another one. -/
theorem Piece.sound_of_ne {s : Search} {asset asset' : LocalIdentifier}
    {stage stage' stage'' : Stage} {now : UserDefaults} {images : List ImageSuggestion} {left : ℕ}
    (hpiece : Piece services s asset stage stage' now images left)
    (h : stage''.Sound services memory s.memory asset') (hne : asset' ≠ asset) :
    stage''.Sound services memory now asset' := by
  cases hpiece with
  | recorded => exact sound_setTag h _ hne
  | noData _ => exact h
  | cached _ _ => exact h
  | fresh _ _ => exact h
  | tagged _ => exact h
  | failed _ => exact h
  | added => exact h
  | left => exact h

/-- A piece of the closures for an asset carries on what is right. -/
theorem Piece.sound {s : Search} {asset : LocalIdentifier} {stage stage' : Stage}
    {now : UserDefaults} {images : List ImageSuggestion} {left : ℕ}
    (hpiece : Piece services s asset stage stage' now images left)
    (h : stage.Sound services memory s.memory asset) :
    stage'.Sound services memory now asset := by
  cases hpiece with
  | noData _ => trivial
  | @cached uiImage assetRecord hdata hrecord =>
    have hmemory : ImageTagMemory.tag memory asset = some assetRecord := by
      rw [← hrecord]
      exact h.symm
    exact ⟨hdata, by rw [PhotoServices.assetTags, hmemory]⟩
  | fresh hdata hrecord =>
    refine ⟨hdata, ?_⟩
    rw [← hrecord]
    exact h.symm
  | tagged hanalysis =>
    refine ⟨h.1, ?_⟩
    rw [PhotoServices.assetTags, h.2]
    simp only [hanalysis]
  | failed _ => trivial
  | recorded => exact h
  | added => trivial
  | left => trivial

/-- What a piece of the closures for an asset appends is what the asset contributes, when it
takes them past `addImage`. -/
theorem Piece.images_eq {s : Search} {asset : LocalIdentifier} {stage stage' : Stage}
    {now : UserDefaults} {images : List ImageSuggestion} {left : ℕ}
    (hpiece : Piece services s asset stage stage' now images left)
    (h : stage.Sound services memory s.memory asset) :
    images = if stage' = .leaving then
      s.images ++ (services.suggestion s.keyPhrases memory asset).toList else s.images := by
  cases hpiece with
  | noData hdata => simp [PhotoServices.suggestion, hdata]
  | cached _ _ => simp
  | fresh _ _ => simp
  | tagged _ => simp
  | failed hanalysis =>
    obtain ⟨hdata, hrecord⟩ := h
    simp [PhotoServices.suggestion, PhotoServices.assetTags, hdata, hrecord, hanalysis]
  | recorded => simp
  | added =>
    obtain ⟨hdata, htags⟩ := h
    rw [if_pos rfl, PhotoServices.suggestion, hdata, Option.bind_some, htags, Option.bind_some,
      addImage]
    split <;> rfl
  | left => simp

/-- Two tasks are for two assets. -/
theorem asset_ne {tasks : List SearchTask} (hnodup : (tasks.map SearchTask.asset).Nodup) {i j : ℕ}
    {task task' : SearchTask} (hi : tasks[i]? = some task) (hj : tasks[j]? = some task')
    (hne : j ≠ i) : task'.asset ≠ task.asset := by
  intro heq
  apply hne
  have hi' : (tasks.map SearchTask.asset)[i]? = some task.asset := by
    rw [List.getElem?_map, hi, Option.map_some]
  have hj' : (tasks.map SearchTask.asset)[j]? = some task.asset := by
    rw [List.getElem?_map, hj, Option.map_some, heq]
  have hlt := (List.getElem?_eq_some_iff.mp hj').1
  exact (List.getElem?_inj hlt hnodup).mp (hj'.trans hi'.symm)

/-- After a task is replaced, the others are the old ones, and for other assets. -/
theorem of_mem_set {tasks : List SearchTask} (hnodup : (tasks.map SearchTask.asset).Nodup) {i : ℕ}
    {task task' other : SearchTask} (hi : tasks[i]? = some task) (h : other ∈ tasks.set i task') :
    other = task' ∨ (other ∈ tasks ∧ other.asset ≠ task.asset) := by
  obtain ⟨j, hj⟩ := List.mem_iff_getElem?.mp h
  rcases of_getElem?_set hj with ⟨-, rfl⟩ | ⟨hne, hold⟩
  · exact .inl rfl
  · exact .inr ⟨List.mem_of_getElem? hold, asset_ne hnodup hi hold hne⟩

/-- A piece takes the closures for an asset past `addImage` at most once. -/
theorem Piece.past_iff {s : Search} {asset : LocalIdentifier} {stage stage' : Stage}
    {now : UserDefaults} {images : List ImageSuggestion} {left : ℕ}
    (hpiece : Piece services s asset stage stage' now images left) :
    (stage'.Past ↔ stage' = .leaving ∨ stage.Past) ∧ (stage' = .leaving → ¬stage.Past) := by
  cases hpiece <;> simp [Stage.Past]

/-- The images after a piece of the closures for an asset. -/
theorem Collected.proceed {s t : Search} {arrived : List LocalIdentifier} {i : ℕ}
    {asset : LocalIdentifier} {stage stage' : Stage}
    (h : Collected services keyPhrases memory s arrived)
    (hnodup : (s.tasks.map SearchTask.asset).Nodup) (htask : s.tasks[i]? = some ⟨asset, stage⟩)
    (htasks : t.tasks = s.tasks.set i ⟨asset, stage'⟩) (hphrases : t.keyPhrases = s.keyPhrases)
    (hpiece : Piece services s asset stage stage' t.memory t.images t.left) :
    Collected services keyPhrases memory t
      (if stage' = .leaving then arrived ++ [asset] else arrived) := by
  have hmem : ⟨asset, stage⟩ ∈ s.tasks := List.mem_of_getElem? htask
  have hsound := h.sound _ hmem
  obtain ⟨hpast, hnew⟩ := hpiece.past_iff
  have hassets : t.tasks.map SearchTask.asset = s.tasks.map SearchTask.asset := by
    rw [htasks]
    exact map_set_of_eq htask rfl
  refine ⟨hphrases.trans h.keyPhrases_eq, ?_, ?_, ?_, ?_, ?_⟩
  · intro task htask'
    rw [htasks] at htask'
    rcases of_mem_set hnodup htask htask' with rfl | ⟨hold, hne⟩
    · exact hpiece.sound hsound
    · exact hpiece.sound_of_ne (h.sound _ hold) hne
  · split
    · rename_i hleaving
      have hnotin : asset ∉ arrived := (h.mem_arrived_iff _ hmem).not.mpr (hnew hleaving)
      exact List.nodup_append'.mpr ⟨h.nodup, List.nodup_singleton _, by simpa using hnotin⟩
    · exact h.nodup
  · intro task htask'
    rw [htasks] at htask'
    rcases of_mem_set hnodup htask htask' with rfl | ⟨hold, hne⟩
    · rw [hpast, ← h.mem_arrived_iff _ hmem]
      split
      · rename_i hleaving
        simp [hleaving]
      · rename_i hleaving
        simp [hleaving]
    · rw [← h.mem_arrived_iff _ hold]
      split
      · simp [hne]
      · exact Iff.rfl
  · rw [hassets]
    split
    · intro asset' hasset'
      rcases List.mem_append.mp hasset' with harrived | hlast
      · exact h.arrived_subset harrived
      · rw [List.mem_singleton.mp hlast]
        exact List.mem_map_of_mem hmem
    · exact h.arrived_subset
  · rw [hpiece.images_eq hsound, h.keyPhrases_eq, h.images_eq]
    split
    · rw [List.filterMap_append]
      cases hs : services.suggestion keyPhrases memory asset <;> simp [hs]
    · rfl

/-- A step leaves the assets of a search as they are. -/
theorem assets_step {s t : Search} {e : SearchEvent} (hstep : s.step services e = some t) :
    t.tasks.map SearchTask.asset = s.tasks.map SearchTask.asset := by
  rcases step_cases hstep with ⟨-, task, htask, rfl⟩ |
    ⟨i, asset, stage, stage', -, htask, htasks, -⟩ | ⟨-, -, -, -, rfl⟩
  · exact map_set_of_eq htask rfl
  · rw [htasks]
    exact map_set_of_eq htask rfl
  · rfl

/-- The loop appends nothing. -/
theorem Collected.enter {s : Search} {arrived : List LocalIdentifier} {task : SearchTask}
    (h : Collected services keyPhrases memory s arrived)
    (htask : s.tasks[s.entered]? = some task) (hwaiting : task.stage = .waiting) :
    Collected services keyPhrases memory { s with
      entered := s.entered + 1
      tasks := s.tasks.set s.entered ⟨task.asset, .requested⟩ } arrived := by
  have hmem := List.mem_of_getElem? htask
  refine ⟨h.keyPhrases_eq, ?_, h.nodup, ?_, ?_, h.images_eq⟩
  · intro task' htask'
    rcases List.mem_or_eq_of_mem_set htask' with hold | rfl
    · exact h.sound _ hold
    · have hsound := h.sound task hmem
      rw [hwaiting] at hsound
      exact hsound
  · intro task' htask'
    rcases List.mem_or_eq_of_mem_set htask' with hold | rfl
    · exact h.mem_arrived_iff _ hold
    · rw [h.mem_arrived_iff task hmem, hwaiting]
      simp [Stage.Past]
  · have hassets : (s.tasks.set s.entered ⟨task.asset, .requested⟩).map SearchTask.asset =
        s.tasks.map SearchTask.asset := map_set_of_eq htask rfl
    exact hassets.symm ▸ h.arrived_subset

/-- A step of a search appends at most what one asset contributes. -/
theorem Collected.step {s t : Search} {e : SearchEvent} {arrived : List LocalIdentifier}
    (h : Collected services keyPhrases memory s arrived) (hbalanced : Balanced s)
    (hnodup : (s.tasks.map SearchTask.asset).Nodup) (hstep : s.step services e = some t) :
    ∃ arrived', Collected services keyPhrases memory t arrived' := by
  rcases step_cases hstep with ⟨-, task, htask, rfl⟩ |
    ⟨i, asset, stage, stage', -, htask, htasks, -, -, hphrases, hpiece⟩ | ⟨-, -, -, -, rfl⟩
  · have hwaiting : task.stage = .waiting := (hbalanced.waiting_iff _ _ htask).mpr le_rfl
    exact ⟨arrived, h.enter htask hwaiting⟩
  · exact ⟨_, h.proceed hnodup htask htasks hphrases hpiece⟩
  · exact ⟨arrived, h.keyPhrases_eq, h.sound, h.nodup, h.mem_arrived_iff, h.arrived_subset,
      h.images_eq⟩

/-- When the closures for all assets have ended, all assets have arrived. -/
theorem Collected.perm {s : Search} {arrived : List LocalIdentifier}
    (h : Collected services keyPhrases memory s arrived)
    (hnodup : (s.tasks.map SearchTask.asset).Nodup)
    (hsettled : ∀ task ∈ s.tasks, task.stage = .settled) :
    arrived.Perm (s.tasks.map SearchTask.asset) := by
  rw [List.perm_ext_iff_of_nodup h.nodup hnodup]
  intro asset
  constructor
  · intro harrived
    exact h.arrived_subset harrived
  · intro hasset
    obtain ⟨task, htask, rfl⟩ := List.mem_map.mp hasset
    exact (h.mem_arrived_iff task htask).mpr (.inr (hsettled task htask))

end Search

end FeelBetter
