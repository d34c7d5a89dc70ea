import FeelBetter.Suggestions.Order

/-!
# The cached path and the fresh path

A photo that was tagged by an earlier search is compared by the tags of its record, any other
photo by those of its analysis. What is recorded is what the analysis answered, so a search
gives the same for a photo on both paths. The record holds the first caption as well, but
`addImage` is not handed it.
-/

namespace FeelBetter

open Machine

/-- What a block that records tags has to record: what the analysis answered, for an asset that
had no record when the search began. -/
def Stage.Records (services : PhotoServices) (memory : UserDefaults) (asset : LocalIdentifier) :
    Stage → Prop
  | .recording _ tag => ImageTagMemory.tag memory asset = none ∧
    ∃ result, services.analysis asset = .ok result ∧
      tag = result.imageTag (Search.removeDuplicateTags services)
  | _ => True

namespace Search

variable {services : PhotoServices} {keyPhrases : Finset String} {memory : UserDefaults}
  {assets : List LocalIdentifier} {asset : LocalIdentifier}

/-! ### What a search records -/

/-- A record is as it was when the search began, or there was none and it is what the analysis
answered. -/
def RecordOf (services : PhotoServices) (memory now : UserDefaults) (asset : LocalIdentifier) :
    Prop :=
  ImageTagMemory.tag now asset = ImageTagMemory.tag memory asset ∨
    ImageTagMemory.tag memory asset = none ∧
      ∃ result, services.analysis asset = .ok result ∧
        ImageTagMemory.tag now asset =
          some (result.imageTag (Search.removeDuplicateTags services))

/-- A search under way records what the analyses answer. -/
structure Recording (services : PhotoServices) (keyPhrases : Finset String)
    (memory : UserDefaults) (assets : List LocalIdentifier) (s : Search) : Prop where
  underway : Underway services keyPhrases memory assets s
  records : ∀ task ∈ s.tasks, task.stage.Records services memory task.asset
  recordOf : ∀ asset, RecordOf services memory s.memory asset

theorem recording_image :
    Recording services keyPhrases memory assets (image keyPhrases assets memory) where
  underway := underway_image
  records := by
    intro task htask
    obtain ⟨asset, -, rfl⟩ := List.mem_map.mp htask
    trivial
  recordOf := fun _ => .inl rfl

/-- What a piece of the closures for an asset goes on to record. -/
theorem Piece.records {s : Search} {stage stage' : Stage} {now : UserDefaults}
    {images : List ImageSuggestion} {left : ℕ}
    (hpiece : Piece services s asset stage stage' now images left)
    (hsound : stage.Sound services memory s.memory asset) :
    stage'.Records services memory asset := by
  cases hpiece with
  | @tagged uiImage result hanalysis => exact ⟨hsound.2, result, hanalysis, rfl⟩
  | noData _ | cached _ _ | fresh _ _ | failed _ | recorded | added | left => trivial

/-- What a piece of the closures for an asset has recorded. -/
theorem Piece.recordOf {s : Search} {stage stage' : Stage} {now : UserDefaults}
    {images : List ImageSuggestion} {left : ℕ}
    (hpiece : Piece services s asset stage stage' now images left)
    (hrecords : stage.Records services memory asset)
    (hold : ∀ asset', RecordOf services memory s.memory asset') (asset' : LocalIdentifier) :
    RecordOf services memory now asset' := by
  cases hpiece with
  | @recorded uiImage tag =>
    by_cases heq : asset' = asset
    · subst heq
      obtain ⟨hnone, result, hanalysis, rfl⟩ := hrecords
      exact .inr ⟨hnone, result, hanalysis, ImageTagMemory.tag_setTag_self _ _ _⟩
    · unfold RecordOf
      rw [ImageTagMemory.tag_setTag_of_ne _ _ heq]
      exact hold asset'
  | noData _ | cached _ _ | fresh _ _ | tagged _ | failed _ | added | left => exact hold asset'

theorem Recording.step (hnodup : assets.Nodup) {s t : Search} {e : SearchEvent}
    (h : Recording services keyPhrases memory assets s) (hstep : s.step services e = some t) :
    Recording services keyPhrases memory assets t := by
  have hunderway := h.underway.step hnodup hstep
  rcases step_cases hstep with ⟨-, task, htask, rfl⟩ |
    ⟨i, asset, stage, stage', -, htask, htasks, -, -, -, hpiece⟩ | ⟨-, -, -, -, rfl⟩
  · refine ⟨hunderway, ?_, h.recordOf⟩
    intro task' htask'
    rcases List.mem_or_eq_of_mem_set htask' with hold | rfl
    · exact h.records _ hold
    · trivial
  · have hmem := List.mem_of_getElem? htask
    obtain ⟨arrived, hcollected⟩ := h.underway.collected
    refine ⟨hunderway, ?_, hpiece.recordOf (h.records _ hmem) h.recordOf⟩
    intro task' htask'
    rw [htasks] at htask'
    rcases List.mem_or_eq_of_mem_set htask' with hold | rfl
    · exact h.records _ hold
    · exact hpiece.records (hcollected.sound _ hmem)
  · exact ⟨hunderway, h.records, h.recordOf⟩

/-- After a search a record is as before, or it is the answer of the analysis. -/
theorem recordOf_of_run {library : PhotoLibrary} {startDate endDate : Date}
    {phrases : Result (List String)} {es : List SearchEvent} {s : Search}
    (hrun : run (Search.step services)
      (relevantImage services library startDate endDate memory phrases) es = some s)
    (asset : LocalIdentifier) : RecordOf services memory s.memory asset := by
  obtain ⟨keyPhrases, assets, hnodup, himage⟩ :=
    exists_image_eq services library startDate endDate memory phrases
  rw [himage] at hrun
  have hend : Recording services keyPhrases memory assets s :=
    run_invariant (fun _ _ _ h hstep => h.step hnodup hstep) recording_image hrun
  exact hend.recordOf asset

/-! ### What a search gives for an asset -/

/-- What a transition appends to the images, if it is a closure for the asset that runs. -/
def appendedFor (asset : LocalIdentifier) (s : Search) (e : SearchEvent) (t : Search) :
    List ImageSuggestion :=
  match e with
  | .proceed i =>
    if s.tasks[i]?.map SearchTask.asset = some asset then t.images.drop s.images.length else []
  | _ => []

/-- What the closures for an asset append to the images in a run. -/
def given (services : PhotoServices) (asset : LocalIdentifier) (s : Search)
    (es : List SearchEvent) : List ImageSuggestion :=
  outputs (Search.step services) (appendedFor asset) s es

/-- A search under way has given for an asset what that contributes, once its closures are past
`addImage`. -/
structure Giving (services : PhotoServices) (keyPhrases : Finset String)
    (memory : UserDefaults) (assets : List LocalIdentifier) (asset : LocalIdentifier) (s : Search)
    (suggestions : List ImageSuggestion) : Prop where
  underway : Underway services keyPhrases memory assets s
  given_eq : ∀ task ∈ s.tasks, task.asset = asset → suggestions =
    if task.stage.Past then (services.suggestion keyPhrases memory asset).toList else []

theorem giving_image :
    Giving services keyPhrases memory assets asset (image keyPhrases assets memory) [] where
  underway := underway_image
  given_eq := by
    intro task htask _
    obtain ⟨asset, -, rfl⟩ := List.mem_map.mp htask
    rfl

/-- What the piece that takes the closures for an asset past `addImage` appends is what the
asset contributes, and the other pieces append nothing. -/
theorem Piece.drop_images {s : Search} {stage stage' : Stage} {now : UserDefaults}
    {images : List ImageSuggestion} {left : ℕ}
    (hpiece : Piece services s asset stage stage' now images left)
    (hsound : stage.Sound services memory s.memory asset) :
    images.drop s.images.length = if stage' = .leaving then
      (services.suggestion s.keyPhrases memory asset).toList else [] := by
  rw [hpiece.images_eq hsound]
  split
  · exact List.drop_left
  · exact List.drop_length

/-- A closure for the asset runs. -/
theorem Giving.proceed_self {s t : Search} {suggestions : List ImageSuggestion} {i : ℕ}
    {stage stage' : Stage} (h : Giving services keyPhrases memory assets asset s suggestions)
    (hnodup : assets.Nodup) (htask : s.tasks[i]? = some ⟨asset, stage⟩)
    (htasks : t.tasks = s.tasks.set i ⟨asset, stage'⟩)
    (hpiece : Piece services s asset stage stage' t.memory t.images t.left)
    {task : SearchTask} (hmem : task ∈ t.tasks) (hasset : task.asset = asset) :
    suggestions ++ t.images.drop s.images.length =
      if task.stage.Past then (services.suggestion keyPhrases memory asset).toList else [] := by
  obtain ⟨arrived, hcollected⟩ := h.underway.collected
  have hold := h.given_eq _ (List.mem_of_getElem? htask) rfl
  have hdrop := hpiece.drop_images (hcollected.sound _ (List.mem_of_getElem? htask))
  obtain ⟨hpast, hnew⟩ := hpiece.past_iff
  have hnodup' : (s.tasks.map SearchTask.asset).Nodup := h.underway.assets_eq ▸ hnodup
  rw [htasks] at hmem
  rcases of_mem_set hnodup' htask hmem with rfl | ⟨-, hne⟩
  · rw [hold, hdrop, hcollected.keyPhrases_eq]
    by_cases hleaving : stage' = .leaving
    · rw [if_neg (hnew hleaving), if_pos hleaving, if_pos (hpast.mpr (.inl hleaving)),
        List.nil_append]
    · have hsame : stage'.Past ↔ stage.Past := by
        rw [hpast]
        exact or_iff_right hleaving
      rw [if_neg hleaving, List.append_nil]
      simp only [hsame]
  · exact absurd hasset hne

theorem Giving.step (hnodup : assets.Nodup) {s t : Search} {e : SearchEvent}
    {suggestions : List ImageSuggestion}
    (h : Giving services keyPhrases memory assets asset s suggestions)
    (hstep : s.step services e = some t) :
    Giving services keyPhrases memory assets asset t (suggestions ++ appendedFor asset s e t) := by
  refine ⟨h.underway.step hnodup hstep, ?_⟩
  rcases step_cases hstep with ⟨rfl, task, htask, rfl⟩ |
    ⟨i, asset', stage, stage', rfl, htask, htasks, -, -, -, hpiece⟩ | ⟨rfl, -, -, -, rfl⟩
  · intro task' htask' hasset
    show suggestions ++ [] = _
    rw [List.append_nil]
    rcases List.mem_or_eq_of_mem_set htask' with hold | rfl
    · exact h.given_eq _ hold hasset
    · have hwaiting : task.stage = .waiting :=
        (h.underway.balanced.waiting_iff _ _ htask).mpr le_rfl
      have hgiven := h.given_eq task (List.mem_of_getElem? htask) hasset
      rwa [hwaiting] at hgiven
  · intro task' htask' hasset
    simp only [appendedFor, htask, Option.map_some, Option.some.injEq]
    by_cases heq : asset' = asset
    · subst heq
      rw [if_pos rfl]
      exact h.proceed_self hnodup htask htasks hpiece htask' hasset
    · rw [if_neg heq, List.append_nil]
      rw [htasks] at htask'
      rcases List.mem_or_eq_of_mem_set htask' with hold | rfl
      · exact h.given_eq _ hold hasset
      · exact absurd hasset heq
  · intro task' htask' hasset
    show suggestions ++ [] = _
    rw [List.append_nil]
    exact h.given_eq task' htask' hasset

/-- **What a search gives for an asset** when it has come to its end is what the asset
contributes. -/
theorem given_eq_suggestion (hnodup : assets.Nodup) (hasset : asset ∈ assets) {s : Search}
    {es : List SearchEvent}
    (hrun : run (Search.step services) (image keyPhrases assets memory) es = some s)
    (hcalled : s.calls ≠ []) :
    given services asset (image keyPhrases assets memory) es =
      (services.suggestion keyPhrases memory asset).toList := by
  have hstep (s : Search) (l : List ImageSuggestion) (e : SearchEvent) (t : Search)
      (h : Giving services keyPhrases memory assets asset s l)
      (hstep : s.step services e = some t) :
      Giving services keyPhrases memory assets asset t (l ++ appendedFor asset s e t) :=
    h.step hnodup hstep
  have hend := run_outputs hstep giving_image hrun
  obtain ⟨-, hsettled⟩ := hend.underway.balanced.calls_eq.resolve_left hcalled
  rw [← hend.underway.assets_eq] at hasset
  obtain ⟨task, htask, rfl⟩ := List.mem_map.mp hasset
  have hgiven := hend.given_eq task htask rfl
  rw [hsettled task htask, if_pos (.inr rfl), List.nil_append] at hgiven
  exact hgiven

/-- A search gives nothing for an asset that is none of its own. -/
theorem given_eq_nil (hasset : asset ∉ assets) {s : Search} {es : List SearchEvent}
    (hrun : run (Search.step services) (image keyPhrases assets memory) es = some s) :
    given services asset (image keyPhrases assets memory) es = [] := by
  have hstep (s : Search) (l : List ImageSuggestion) (e : SearchEvent) (t : Search)
      (h : s.tasks.map SearchTask.asset = assets ∧ l = []) (hstep : s.step services e = some t) :
      t.tasks.map SearchTask.asset = assets ∧ l ++ appendedFor asset s e t = [] := by
    obtain ⟨hassets, rfl⟩ := h
    refine ⟨(assets_step hstep).trans hassets, ?_⟩
    rcases step_cases hstep with ⟨rfl, -⟩ | ⟨i, asset', stage, -, rfl, htask, -⟩ | ⟨rfl, -⟩
    · rfl
    · have hmem : asset' ∈ s.tasks.map SearchTask.asset :=
        List.mem_map_of_mem (List.mem_of_getElem? htask)
      have hne : asset' ≠ asset := by
        rintro rfl
        exact hasset (hassets ▸ hmem)
      simp [appendedFor, htask, hne]
    · rfl
  exact (run_outputs hstep ⟨assets_image, rfl⟩ hrun).2

/-! ### Both paths -/

/-- The memories of a device on which a search has analysed an asset, with this result, and has
recorded its tags, and that other searches may have used since. -/
inductive TaggedEarlier (lowercased : String → String) (asset : LocalIdentifier)
    (result : ImageAnalysisResult) : UserDefaults → Prop
  | tagged {services : PhotoServices} {library : PhotoLibrary} {startDate endDate : Date}
      {memory : UserDefaults} {phrases : Result (List String)} {es : List SearchEvent} {s : Search}
      (hlower : services.lowercased = lowercased)
      (hnone : ImageTagMemory.tag memory asset = none)
      (hanalysis : services.analysis asset = .ok result)
      (hrun : run (Search.step services)
        (relevantImage services library startDate endDate memory phrases) es = some s)
      (hrecord : (ImageTagMemory.tag s.memory asset).isSome) :
    TaggedEarlier lowercased asset result s.memory
  | search {services : PhotoServices} {library : PhotoLibrary} {startDate endDate : Date}
      {memory : UserDefaults} {phrases : Result (List String)} {es : List SearchEvent} {s : Search}
      (hearlier : TaggedEarlier lowercased asset result memory)
      (hrun : run (Search.step services)
        (relevantImage services library startDate endDate memory phrases) es = some s) :
    TaggedEarlier lowercased asset result s.memory

/-- The record of an asset that was tagged is what the analysis answered, with the description. -/
theorem TaggedEarlier.tag_eq {lowercased : String → String} {result : ImageAnalysisResult}
    (h : TaggedEarlier lowercased asset result memory) : ImageTagMemory.tag memory asset =
      some (result.imageTag fun tags => (tags.map lowercased).toFinset) := by
  induction h with
  | @tagged services library startDate endDate memory phrases es s hlower hnone hanalysis hrun
      hrecord =>
    subst hlower
    rcases recordOf_of_run hrun asset with hsame | ⟨-, result', hanalysis', hnow⟩
    · rw [hsame, hnone] at hrecord
      cases hrecord
    · rw [hanalysis] at hanalysis'
      cases hanalysis'
      exact hnow
  | search hearlier hrun ih =>
    rcases recordOf_of_run hrun asset with hsame | ⟨hnone, -⟩
    · exact hsame.trans ih
    · rw [ih] at hnone
      cases hnone

/-- A search that finds the record of an asset and one that tags it afresh give the same for it,
or both nothing, and what they give has the first caption as its description. -/
def CachedAgrees (services : PhotoServices) (library : PhotoLibrary) (startDate endDate : Date)
    (keyPhrases : List String) (cached fresh : UserDefaults) (asset : LocalIdentifier)
    (result : ImageAnalysisResult) : Prop :=
  ∀ es s es' s',
    run (Search.step services)
      (relevantImage services library startDate endDate cached (.ok keyPhrases)) es = some s →
    s.calls ≠ [] →
    run (Search.step services)
      (relevantImage services library startDate endDate fresh (.ok keyPhrases)) es' = some s' →
    s'.calls ≠ [] →
    given services asset
        (relevantImage services library startDate endDate cached (.ok keyPhrases)) es =
      given services asset
        (relevantImage services library startDate endDate fresh (.ok keyPhrases)) es' ∧
    ∀ suggestion ∈ given services asset
        (relevantImage services library startDate endDate cached (.ok keyPhrases)) es,
      (result.imageTag (removeDuplicateTags services)).description = some suggestion.description

/-- The asset has data, and a key phrase and a name of its analysis agree ignoring case. -/
def MatchesResult (services : PhotoServices) (keyPhrases : List String) (asset : LocalIdentifier)
    (result : ImageAnalysisResult) : Prop :=
  (services.loaded asset).isSome ∧ ∃ keyPhrase ∈ keyPhrases, ∃ name,
    result.Names name ∧ services.lowercased keyPhrase = services.lowercased name

/-- What an asset contributes depends on its tags, wherever these are from. -/
theorem suggestion_congr (keyPhrases : Finset String) {cached fresh : UserDefaults}
    (h : services.assetTags cached asset = services.assetTags fresh asset) :
    services.suggestion keyPhrases cached asset = services.suggestion keyPhrases fresh asset := by
  rw [PhotoServices.suggestion, PhotoServices.suggestion, h]

/-- An asset with the tags of an analysis contributes something exactly where it matches. -/
theorem isSome_suggestion_iff {result : ImageAnalysisResult} {phrases : List String}
    (htags : services.assetTags memory asset =
      some (result.imageTag (removeDuplicateTags services)).tags) :
    (services.suggestion (phrases.map services.lowercased).toFinset memory asset).isSome ↔
      MatchesResult services phrases asset result := by
  have hmeets : (phrases.map services.lowercased).toFinset ∩
      (result.imageTag (removeDuplicateTags services)).tags ≠ ∅ ↔
        ∃ keyPhrase ∈ phrases, ∃ name, result.Names name ∧
          services.lowercased keyPhrase = services.lowercased name := by
    simp only [PhotoServices.inter_ne_empty_iff, PhotoServices.mem_imageTag_iff, eq_comm]
  rw [PhotoServices.suggestion, MatchesResult, htags, ← hmeets]
  cases services.loaded asset with
  | none => simp
  | some uiImage =>
    simp only [Option.bind_some, Option.isSome_some, true_and]
    split_ifs with hmeet <;> simp [hmeet]

theorem description_of_suggestion {suggestion : ImageSuggestion}
    (h : services.suggestion keyPhrases memory asset = some suggestion) :
    suggestion.description = services.description := by
  simp only [PhotoServices.suggestion, Option.bind_eq_some_iff, Option.ite_none_left_eq_some,
    Option.some.injEq] at h
  obtain ⟨uiImage, -, tags, -, -, rfl⟩ := h
  rfl

/-- The tags of an asset are those of its analysis, on the cached path and on the fresh one. -/
theorem TaggedEarlier.assetTags_eq {result : ImageAnalysisResult}
    (h : TaggedEarlier services.lowercased asset result memory) :
    services.assetTags memory asset =
      some (result.imageTag (removeDuplicateTags services)).tags := by
  rw [PhotoServices.assetTags, h.tag_eq]
  rfl

theorem assetTags_fresh {result : ImageAnalysisResult}
    (hfresh : ImageTagMemory.tag memory asset = none)
    (hanalysis : services.analysis asset = .ok result) : services.assetTags memory asset =
      some (result.imageTag (removeDuplicateTags services)).tags := by
  rw [PhotoServices.assetTags, hfresh]
  simp only [hanalysis]

/-- Where the paths agree and describe a photo that matches by its first caption, that is the
description of the provider. -/
theorem caption_of_cachedAgrees {library : PhotoLibrary} {startDate endDate : Date}
    {phrases : List String} {cached fresh : UserDefaults} {result : ImageAnalysisResult}
    (hearlier : TaggedEarlier services.lowercased asset result cached)
    (hasset : asset ∈ fetchAssets library startDate endDate)
    (hmatches : MatchesResult services phrases asset result)
    (h : CachedAgrees services library startDate endDate phrases cached fresh asset result) :
    (result.imageTag (removeDuplicateTags services)).description = some services.description := by
  have hnodup := fetchAssets_nodup library startDate endDate
  -- some run comes to its end on either path
  obtain ⟨es, s, hrun, hcalls⟩ := exists_run_of_perm services
    (phrases.map services.lowercased).toFinset cached hnodup (List.Perm.refl _)
  obtain ⟨es', s', hrun', hcalls'⟩ := exists_run_of_perm services
    (phrases.map services.lowercased).toFinset fresh hnodup (List.Perm.refl _)
  have hcalled : s.calls ≠ [] := by simp [hcalls]
  have hcalled' : s'.calls ≠ [] := by simp [hcalls']
  have hgiven := given_eq_suggestion hnodup hasset hrun hcalled
  obtain ⟨suggestion, hsome⟩ :=
    Option.isSome_iff_exists.mp ((isSome_suggestion_iff hearlier.assetTags_eq).mpr hmatches)
  rw [hsome, Option.toList_some] at hgiven
  have hcaption := (h es s es' s' hrun hcalled hrun' hcalled').2 suggestion
    (hgiven ▸ List.mem_singleton_self _)
  rw [hcaption, description_of_suggestion hsome]

/-- Whatever is suggested, both paths give the same. -/
theorem given_cached_eq_given_fresh {library : PhotoLibrary} {startDate endDate : Date}
    {phrases : List String} {cached fresh : UserDefaults} {result : ImageAnalysisResult}
    {es es' : List SearchEvent} {s s' : Search}
    (hearlier : TaggedEarlier services.lowercased asset result cached)
    (hfresh : ImageTagMemory.tag fresh asset = none)
    (hanalysis : services.analysis asset = .ok result)
    (hrun : run (Search.step services)
      (relevantImage services library startDate endDate cached (.ok phrases)) es = some s)
    (hcalled : s.calls ≠ [])
    (hrun' : run (Search.step services)
      (relevantImage services library startDate endDate fresh (.ok phrases)) es' = some s')
    (hcalled' : s'.calls ≠ []) :
    given services asset
        (relevantImage services library startDate endDate cached (.ok phrases)) es =
      given services asset
        (relevantImage services library startDate endDate fresh (.ok phrases)) es' := by
  have hnodup := fetchAssets_nodup library startDate endDate
  by_cases hasset : asset ∈ fetchAssets library startDate endDate
  · have htags : services.assetTags cached asset = services.assetTags fresh asset :=
      hearlier.assetTags_eq.trans (assetTags_fresh hfresh hanalysis).symm
    have hsame := congrArg Option.toList
      (suggestion_congr (phrases.map services.lowercased).toFinset htags)
    have hgiven := given_eq_suggestion hnodup hasset hrun hcalled
    have hgiven' := given_eq_suggestion hnodup hasset hrun' hcalled'
    exact hgiven.trans (hsame.trans hgiven'.symm)
  · exact (given_eq_nil hasset hrun).trans (given_eq_nil hasset hrun').symm

/-- Only a photo of the period that matches is suggested, and described by the provider. -/
theorem of_mem_given {library : PhotoLibrary} {startDate endDate : Date}
    {phrases : List String} {result : ImageAnalysisResult} {es : List SearchEvent} {s : Search}
    (htags : services.assetTags memory asset =
      some (result.imageTag (removeDuplicateTags services)).tags)
    (hrun : run (Search.step services)
      (relevantImage services library startDate endDate memory (.ok phrases)) es = some s)
    (hcalled : s.calls ≠ []) {suggestion : ImageSuggestion}
    (hmem : suggestion ∈ given services asset
      (relevantImage services library startDate endDate memory (.ok phrases)) es) :
    asset ∈ fetchAssets library startDate endDate ∧
      MatchesResult services phrases asset result ∧
      suggestion.description = services.description := by
  by_cases hasset : asset ∈ fetchAssets library startDate endDate
  · have hgiven := given_eq_suggestion (fetchAssets_nodup library startDate endDate) hasset hrun
      hcalled
    have hsome := Option.mem_toList.mp (hgiven ▸ hmem)
    exact ⟨hasset, (isSome_suggestion_iff htags).mp (Option.isSome_of_mem hsome),
      description_of_suggestion hsome⟩
  · have hnone : suggestion ∈ ([] : List ImageSuggestion) := given_eq_nil hasset hrun ▸ hmem
    cases hnone

/-- **The cached path agrees with the fresh path**, and both describe the photo by the first
caption of its analysis, exactly where nothing is suggested for the photo or the first caption
is the description of the provider. -/
theorem cachedAgrees_iff {library : PhotoLibrary} {startDate endDate : Date}
    {phrases : List String} {cached fresh : UserDefaults} {result : ImageAnalysisResult}
    (hearlier : TaggedEarlier services.lowercased asset result cached)
    (hfresh : ImageTagMemory.tag fresh asset = none)
    (hanalysis : services.analysis asset = .ok result) :
    CachedAgrees services library startDate endDate phrases cached fresh asset result ↔
      (asset ∈ fetchAssets library startDate endDate →
        MatchesResult services phrases asset result →
        (result.imageTag (removeDuplicateTags services)).description =
          some services.description) := by
  constructor
  · intro h hasset hmatches
    exact caption_of_cachedAgrees hearlier hasset hmatches h
  · intro hcaption es s es' s' hrun hcalled hrun' hcalled'
    refine ⟨given_cached_eq_given_fresh hearlier hfresh hanalysis hrun hcalled hrun' hcalled', ?_⟩
    intro suggestion hmem
    obtain ⟨hasset, hmatches, hdescription⟩ :=
      of_mem_given hearlier.assetTags_eq hrun hcalled hmem
    rw [hdescription]
    exact hcaption hasset hmatches

/-- What the analysis of a photo of a dog answers. -/
def dogResult : ImageAnalysisResult :=
  ⟨[], [⟨"dog", 9 / 10⟩, ⟨"cat", 1 / 10⟩], ⟨["grass"], [⟨"a dog"⟩]⟩, []⟩

/-- A search of the photos of dogs leaves their records behind. -/
theorem exists_taggedEarlier_dog : ∃ memory, TaggedEarlier id "a" dogResult memory := by
  have hrun : (run (Search.step dogServices)
      (relevantImage dogServices dogPhotos 0 9 (fun _ => none) (.ok ["dog"])) reversedSearch).map
        (fun s => (ImageTagMemory.tag s.memory "a").isSome) = some true := by decide +kernel
  obtain ⟨s, hrun, hrecord⟩ := Option.map_eq_some_iff.mp hrun
  have hanalysis : dogServices.analysis "a" = .ok dogResult := by decide +kernel
  exact ⟨s.memory, .tagged rfl rfl hanalysis hrun hrecord⟩

/-- A provider that happens to be described by the caption. -/
theorem cachedAgrees_caption : ∃ memory, CachedAgrees { dogServices with description := "a dog" }
    dogPhotos 0 9 ["dog"] memory (fun _ => none) "a" dogResult := by
  obtain ⟨memory, hearlier⟩ := exists_taggedEarlier_dog
  have hanalysis : PhotoServices.analysis { dogServices with description := "a dog" } "a" =
      .ok dogResult := by decide +kernel
  exact ⟨memory, (cachedAgrees_iff hearlier rfl hanalysis).mpr fun _ _ => rfl⟩

/-- The suggestion is described by the provider and not by the caption. -/
theorem caption_not_given :
    ¬∀ (services : PhotoServices) (library : PhotoLibrary) (startDate endDate : Date)
      (phrases : List String) (cached fresh : UserDefaults) (asset : LocalIdentifier)
      (result : ImageAnalysisResult), TaggedEarlier services.lowercased asset result cached →
      ImageTagMemory.tag fresh asset = none → services.analysis asset = .ok result →
      CachedAgrees services library startDate endDate phrases cached fresh asset result := by
  intro h
  obtain ⟨memory, hearlier⟩ := exists_taggedEarlier_dog
  have hanalysis : dogServices.analysis "a" = .ok dogResult := by decide +kernel
  have hagrees := h dogServices dogPhotos 0 9 ["dog"] memory (fun _ => none) "a" dogResult
    hearlier rfl hanalysis
  have hasset : "a" ∈ fetchAssets dogPhotos 0 9 := by decide +kernel
  have hnames : dogResult.Names "dog" :=
    .inr (.inl ⟨⟨"dog", 9 / 10⟩, by decide +kernel, by norm_num, rfl⟩)
  have hmatches : MatchesResult dogServices ["dog"] "a" dogResult :=
    ⟨rfl, "dog", List.mem_singleton_self _, "dog", hnames, rfl⟩
  exact absurd (caption_of_cachedAgrees hearlier hasset hmatches hagrees) (by decide +kernel)

end Search

end FeelBetter
