import FeelBetter.Lists
import FeelBetter.Suggestions.Matches

/-!
# The result of a search

A search hands the photos that match to `process`, once and at the end, whatever
order its closures run in and whatever the requests report. The memory that it
finds is one that earlier searches have left behind.
-/

namespace FeelBetter

open Machine

namespace Search

variable {services : PhotoServices} {keyPhrases : Finset String} {memory : UserDefaults}
  {assets : List LocalIdentifier}

/-! ### A search under way -/

/-- The state of a search for some assets that began with a memory. -/
structure Underway (services : PhotoServices) (keyPhrases : Finset String)
    (memory : UserDefaults) (assets : List LocalIdentifier) (s : Search) : Prop where
  balanced : Balanced s
  assets_eq : s.tasks.map SearchTask.asset = assets
  collected : ∃ arrived, Collected services keyPhrases memory s arrived

theorem assets_image : (image keyPhrases assets memory).tasks.map SearchTask.asset = assets := by
  simp [image, Function.comp_def]

theorem underway_image :
    Underway services keyPhrases memory assets (image keyPhrases assets memory) where
  balanced := balanced_image keyPhrases assets memory
  assets_eq := assets_image
  collected := ⟨[], collected_image assets⟩

theorem Underway.step (hnodup : assets.Nodup) {s t : Search} {e : SearchEvent}
    (h : Underway services keyPhrases memory assets s) (hstep : s.step services e = some t) :
    Underway services keyPhrases memory assets t := by
  obtain ⟨arrived, hcollected⟩ := h.collected
  have hnodup' : (s.tasks.map SearchTask.asset).Nodup := h.assets_eq ▸ hnodup
  exact ⟨h.balanced.step hstep, (assets_step hstep).trans h.assets_eq,
    hcollected.step h.balanced hnodup' hstep⟩

theorem Underway.of_run (hnodup : assets.Nodup) {s : Search} {es : List SearchEvent}
    (hrun : run (Search.step services) (image keyPhrases assets memory) es = some s) :
    Underway services keyPhrases memory assets s :=
  run_invariant (fun _ _ _ h hstep => h.step hnodup hstep) underway_image hrun

/-- Every step of a search takes something from what is left of it. -/
theorem Underway.step_rank (hnodup : assets.Nodup) (s : Search) (e : SearchEvent) (t : Search)
    (h : Underway services keyPhrases memory assets s) (hstep : s.step services e = some t) :
    Underway services keyPhrases memory assets t ∧ t.rank < s.rank :=
  ⟨h.step hnodup hstep, h.balanced.rank_lt hstep⟩

/-- A search under way can go on until `process` was called. -/
theorem Underway.exists_run_called (hnodup : assets.Nodup) {s : Search}
    (h : Underway services keyPhrases memory assets s) :
    ∃ es t, run (Search.step services) s es = some t ∧ t.calls ≠ [] := by
  obtain ⟨es, t, hrun, hstuck⟩ := exists_run_stuck (Underway.step_rank hnodup) h
  have hend := run_invariant (fun _ _ _ h hstep => h.step hnodup hstep) h hrun
  exact ⟨es, t, hrun, hend.balanced.stuck_iff.mp hstuck⟩

/-- The images of a search that has come to its end are the contributions of all assets, in
the order in which these arrived. -/
theorem Underway.images_of_call (hnodup : assets.Nodup) {s : Search}
    (h : Underway services keyPhrases memory assets s) {images : List ImageSuggestion}
    (hcall : images ∈ s.calls) :
    ∃ arrived : List LocalIdentifier, arrived.Perm assets ∧
      images = arrived.filterMap (services.suggestion keyPhrases memory) := by
  obtain ⟨hcalls, hsettled⟩ := h.balanced.calls_eq.resolve_left (List.ne_nil_of_mem hcall)
  obtain ⟨arrived, hcollected⟩ := h.collected
  have hperm := hcollected.perm (h.assets_eq ▸ hnodup) hsettled
  rw [h.assets_eq] at hperm
  rw [hcalls, List.mem_singleton] at hcall
  exact ⟨arrived, hperm, hcall.trans hcollected.images_eq⟩

/-! ### The memory of earlier searches -/

/-- The memories that the searches of a device leave behind, each with its own answers. -/
inductive Reached (lowercased : String → String) : UserDefaults → Prop
  | empty : Reached lowercased fun _ => none
  | search {services : PhotoServices} {library : PhotoLibrary} {startDate endDate : Date}
      {memory : UserDefaults} {result : Result (List String)} {es : List SearchEvent} {s : Search}
      (hlower : services.lowercased = lowercased) (hmemory : Reached lowercased memory)
      (hrun : run (Search.step services)
        (relevantImage services library startDate endDate memory result) es = some s) :
    Reached lowercased s.memory

theorem fetchAssets_nodup (library : PhotoLibrary) (startDate endDate : Date) :
    (fetchAssets library startDate endDate).Nodup :=
  Listing.orderBy_nodup _ library

/-- A search starts with assets that are all different; without key phrases it has none. -/
theorem exists_image_eq (services : PhotoServices) (library : PhotoLibrary)
    (startDate endDate : Date) (memory : UserDefaults) (result : Result (List String)) :
    ∃ keyPhrases assets, assets.Nodup ∧
      relevantImage services library startDate endDate memory result =
        image keyPhrases assets memory := by
  cases result with
  | ok keyPhrases => exact ⟨_, _, fetchAssets_nodup library startDate endDate, rfl⟩
  | error error => exact ⟨∅, [], List.nodup_nil, rfl⟩

/-- The tags that a search compares are in lower case. -/
theorem lowercased_of_mem_assetTags
    (hmemory : ImageTagMemory.LowerCase services.lowercased memory) {asset : LocalIdentifier}
    {tags : Finset String} (htags : services.assetTags memory asset = some tags) {t : String}
    (ht : t ∈ tags) : services.lowercased t = t := by
  obtain ⟨tag, -, rfl⟩ := (PhotoServices.exists_assetTags_iff hmemory).mp ⟨tags, htags, ht⟩
  exact services.lowercased_lowercased tag

/-- A piece of the closures for an asset leaves tags in lower case. -/
theorem Piece.lowerCase (hmemory : ImageTagMemory.LowerCase services.lowercased memory)
    {s : Search} {asset : LocalIdentifier} {stage stage' : Stage} {now : UserDefaults}
    {images : List ImageSuggestion} {left : ℕ}
    (hpiece : Piece services s asset stage stage' now images left)
    (hsound : stage.Sound services memory s.memory asset)
    (hlower : ImageTagMemory.LowerCase services.lowercased s.memory) :
    ImageTagMemory.LowerCase services.lowercased now := by
  cases hpiece with
  | @recorded uiImage tag =>
    intro asset' assetRecord hrecord s' hs'
    by_cases heq : asset' = asset
    · subst heq
      rw [ImageTagMemory.tag_setTag_self, Option.some.injEq] at hrecord
      subst hrecord
      exact lowercased_of_mem_assetTags hmemory hsound.2 hs'
    · rw [ImageTagMemory.tag_setTag_of_ne _ _ heq] at hrecord
      exact hlower asset' assetRecord hrecord s' hs'
  | noData _ => exact hlower
  | cached _ _ => exact hlower
  | fresh _ _ => exact hlower
  | tagged _ => exact hlower
  | failed _ => exact hlower
  | added => exact hlower
  | left => exact hlower

/-- A search that finds tags in lower case leaves tags in lower case. -/
theorem Underway.lowerCase_step (hmemory : ImageTagMemory.LowerCase services.lowercased memory)
    {s t : Search} {e : SearchEvent} (h : Underway services keyPhrases memory assets s)
    (hlower : ImageTagMemory.LowerCase services.lowercased s.memory)
    (hstep : s.step services e = some t) :
    ImageTagMemory.LowerCase services.lowercased t.memory := by
  rcases step_cases hstep with ⟨-, task, -, rfl⟩ |
    ⟨i, asset, stage, stage', -, htask, -, -, -, -, hpiece⟩ | ⟨-, -, -, -, rfl⟩
  · exact hlower
  · obtain ⟨arrived, hcollected⟩ := h.collected
    exact hpiece.lowerCase hmemory (hcollected.sound _ (List.mem_of_getElem? htask)) hlower
  · exact hlower

/-- The tags of all records that searches leave behind are in lower case. -/
theorem Reached.lowerCase {lowercased : String → String} (h : Reached lowercased memory) :
    ImageTagMemory.LowerCase lowercased memory := by
  induction h with
  | empty =>
    intro asset assetRecord hrecord
    cases hrecord
  | @search services library startDate endDate memory result es s hlower hmemory hrun ih =>
    subst hlower
    obtain ⟨keyPhrases, assets, hnodup, himage⟩ :=
      exists_image_eq services library startDate endDate memory result
    rw [himage] at hrun
    have hend := run_invariant
      (I := fun s => Underway services keyPhrases memory assets s ∧
        ImageTagMemory.LowerCase services.lowercased s.memory)
      (fun s e t h hstep => ⟨h.1.step hnodup hstep, h.1.lowerCase_step ih h.2 hstep⟩)
      ⟨underway_image, ih⟩ hrun
    exact hend.2

/-! ### What is handed to `process` -/

/-- What a search has done: the group was left no more often than it was entered, `process` was
called at most once, and only after all closures had ended, with one entry for each
photo that matches. -/
structure Gathered (services : PhotoServices) (keyPhrases : List String) (memory : UserDefaults)
    (assets : List LocalIdentifier) (s : Search) : Prop where
  left_le : s.left ≤ s.entered
  length_calls_le : s.calls.length ≤ 1
  settled : s.calls ≠ [] → s.entered = assets.length ∧ s.left = s.entered ∧
    ∀ task ∈ s.tasks, task.stage = .settled
  matching : ∀ images ∈ s.calls, ∃ matching : List LocalIdentifier, matching.Nodup ∧
    (∀ asset, asset ∈ matching ↔ asset ∈ assets ∧ services.Matches keyPhrases memory asset) ∧
    List.Forall₂ (fun asset suggestion => services.loaded asset = some suggestion.image ∧
      suggestion.description = services.description) matching images

theorem Underway.gathered (hnodup : assets.Nodup) {keyPhrases : List String}
    (hmemory : ImageTagMemory.LowerCase services.lowercased memory) {s : Search}
    (h : Underway services (keyPhrases.map services.lowercased).toFinset memory assets s) :
    Gathered services keyPhrases memory assets s where
  left_le := h.balanced.left_le
  length_calls_le := by
    rcases h.balanced.calls_eq with hnone | ⟨hone, -⟩
    · simp [hnone]
    · simp [hone]
  settled := by
    intro hcalled
    obtain ⟨-, hsettled⟩ := h.balanced.calls_eq.resolve_left hcalled
    have hlength : s.tasks.length = assets.length := by rw [← h.assets_eq, List.length_map]
    have hentered := h.balanced.entered_eq hsettled
    have hleft := h.balanced.left_eq_length_iff.mpr hsettled
    exact ⟨hentered.trans hlength, hleft.trans hentered.symm, hsettled⟩
  matching := by
    intro images hcall
    obtain ⟨arrived, hperm, rfl⟩ := h.images_of_call hnodup hcall
    have hentries := Lists.forall₂_filterMap
      (services.suggestion (keyPhrases.map services.lowercased).toFinset memory) arrived
    refine ⟨_, (hperm.nodup_iff.mpr hnodup).filter _, ?_, hentries.imp fun asset suggestion hsome =>
      ((PhotoServices.suggestion_eq_some_iff hmemory).mp hsome).2⟩
    intro asset
    rw [List.mem_filter, hperm.mem_iff, Option.isSome_iff_exists]
    refine and_congr_right fun _ => ?_
    simp only [PhotoServices.suggestion_eq_some_iff hmemory]
    constructor
    · rintro ⟨suggestion, hmatches, -⟩
      exact hmatches
    · intro hmatches
      obtain ⟨image, hdata⟩ := Option.isSome_iff_exists.mp hmatches.1
      exact ⟨⟨image, services.description⟩, hmatches, hdata, rfl⟩

/-- **A search gathers every match once and ends.** In every run of a search, from a memory that
earlier searches have left behind, the group is left at most as often as it was entered;
`process` is called at most once, after all closures have ended and the group was left as
often as it was entered, with one entry for each photo that matches. The run has
no more than six steps for each photo and one for the end, and it can go on until
`process` was called. The tags of a photo that is analysed are the names of its analysis
in lower case. -/
theorem gathered_of_run (hmemory : Reached services.lowercased memory) {library : PhotoLibrary}
    {startDate endDate : Date} {keyPhrases : List String} {es : List SearchEvent} {s : Search}
    (hrun : run (Search.step services)
      (relevantImage services library startDate endDate memory (.ok keyPhrases)) es = some s) :
    Gathered services keyPhrases memory (fetchAssets library startDate endDate) s ∧
    es.length ≤ 6 * (fetchAssets library startDate endDate).length + 1 ∧
    (Stuck (Search.step services) s ↔ s.calls ≠ []) ∧
    ∀ (result : ImageAnalysisResult) (tag : String),
      tag ∈ (result.imageTag (removeDuplicateTags services)).tags ↔
        ∃ name, result.Names name ∧ services.lowercased name = tag := by
  have hnodup := fetchAssets_nodup library startDate endDate
  have hend := Underway.of_run hnodup hrun
  refine ⟨hend.gathered hnodup hmemory.lowerCase, ?_, hend.balanced.stuck_iff, fun _ _ =>
    PhotoServices.mem_imageTag_iff⟩
  have hlength := length_add_le_of_run (Underway.step_rank hnodup) underway_image hrun
  have hrank := rank_image_le (keyPhrases.map services.lowercased).toFinset
    (fetchAssets library startDate endDate) memory
  omega

/-- Two photos of a dog. -/
def dogPhotos : PhotoLibrary := [⟨"a", .image, some 5⟩, ⟨"b", .image, some 7⟩].toAList

/-- Services that find a dog on every photo. -/
def dogServices : PhotoServices where
  lowercased := id
  lowercased_lowercased := fun _ => rfl
  loaded := fun asset => some ⟨some [if asset = "a" then 1 else 2]⟩
  decode := fun _ => .ok ⟨[], [⟨"dog", 9 / 10⟩, ⟨"cat", 1 / 10⟩], ⟨["grass"], [⟨"a dog"⟩]⟩, []⟩
  outcome := fun _ => ⟨some [], none⟩
  answered := fun _ => rfl
  description := "<ImageSuggestionProvider>"

/-- A search in which the closures of the older photo run before those of the newer one. -/
def reversedSearch : List SearchEvent :=
  [.enter, .enter] ++ List.replicate 5 (.proceed 1) ++ List.replicate 5 (.proceed 0) ++ [.wait]

theorem gathered_reversedSearch :
    ∃ s, run (Search.step dogServices)
        (relevantImage dogServices dogPhotos 0 9 (fun _ => none) (.ok ["dog"])) reversedSearch =
          some s ∧ s.calls.length = 1 ∧
      Gathered dogServices ["dog"] (fun _ => none) (fetchAssets dogPhotos 0 9) s := by
  have hrun : (run (Search.step dogServices)
      (relevantImage dogServices dogPhotos 0 9 (fun _ => none) (.ok ["dog"])) reversedSearch).map
        (fun s => s.calls.length) = some 1 := by decide +kernel
  obtain ⟨s, hrun, hcalls⟩ := Option.map_eq_some_iff.mp hrun
  exact ⟨s, hrun, hcalls, (gathered_of_run .empty hrun).1⟩

end Search

end FeelBetter
