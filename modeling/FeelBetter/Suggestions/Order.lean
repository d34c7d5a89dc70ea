import FeelBetter.Machine.Arrivals
import FeelBetter.NewMemory.Screen
import FeelBetter.Suggestions.Results

/-!
# The order of the suggestions

The images of a search are in the order in which the closures for the photos arrived
at `addImage`, and every order of the photos is the order of some run. The six slots
take the first six. So the slots follow the order of the photos only where all
photos that match show the same image.
-/

namespace FeelBetter

open Machine

namespace Search

variable {services : PhotoServices} {keyPhrases : Finset String} {memory : UserDefaults}
  {assets : List LocalIdentifier}

/-! ### Every order is the order of a run -/

theorem assets_run {s t : Search} {es : List SearchEvent}
    (hrun : run (Search.step services) s es = some t) :
    t.tasks.map SearchTask.asset = s.tasks.map SearchTask.asset :=
  run_invariant (I := fun t => t.tasks.map SearchTask.asset = s.tasks.map SearchTask.asset)
    (fun _ _ _ h hstep => (assets_step hstep).trans h) rfl hrun

/-- The closures for an asset that the loop has reached can run to their end on their own. The
asset arrives on the way, unless it has arrived before. -/
theorem exists_run_settled {s : Search} {arrived : List LocalIdentifier} {i : ℕ}
    {asset : LocalIdentifier} {stage : Stage}
    (h : Collected services keyPhrases memory s arrived)
    (hnodup : (s.tasks.map SearchTask.asset).Nodup) (htask : s.tasks[i]? = some ⟨asset, stage⟩)
    (hwaiting : stage ≠ .waiting) :
    ∃ es t, run (Search.step services) s es = some t ∧ t.calls = s.calls ∧
      t.tasks = s.tasks.set i ⟨asset, .settled⟩ ∧
      Collected services keyPhrases memory t
        (if stage.Past then arrived else arrived ++ [asset]) := by
  induction hrank : stage.rank using Nat.strongRecOn generalizing s stage arrived with
  | _ n ih =>
    by_cases hsettled : stage = .settled
    · subst hsettled
      exact ⟨[], s, rfl, rfl, (set_of_getElem? htask).symm, by rwa [if_pos (.inr rfl)]⟩
    · obtain ⟨t, ht⟩ := exists_proceed services s i asset hwaiting hsettled
      have hstep : s.step services (.proceed i) = some t := by
        simp only [Search.step, htask, ht]
      obtain ⟨stage', htasks, -, hcalls, hphrases, hpiece⟩ := piece_of_proceed ht
      obtain ⟨-, -, hwaiting', hlt, -⟩ := hpiece.counts
      obtain ⟨hpast, hnew⟩ := hpiece.past_iff
      have hcollected := h.proceed hnodup htask htasks hphrases hpiece
      have htask' : t.tasks[i]? = some ⟨asset, stage'⟩ := by
        rw [htasks, List.getElem?_set_self (List.getElem?_eq_some_iff.mp htask).1]
      obtain ⟨es, u, hrun, hcallsu, htasksu, hcollectedu⟩ :=
        ih stage'.rank (hrank ▸ hlt) hcollected (assets_step hstep ▸ hnodup) htask' hwaiting' rfl
      refine ⟨.proceed i :: es, u, (run_cons es hstep).trans hrun, hcallsu.trans hcalls, ?_, ?_⟩
      · rw [htasksu, htasks, List.set_set]
      · have harrived : (if stage'.Past then
              if stage' = .leaving then arrived ++ [asset] else arrived
            else (if stage' = .leaving then arrived ++ [asset] else arrived) ++ [asset]) =
            if stage.Past then arrived else arrived ++ [asset] := by
          by_cases hleaving : stage' = .leaving
          · rw [if_pos (hpast.mpr (.inl hleaving)), if_pos hleaving, if_neg (hnew hleaving)]
          · have hsame : stage'.Past ↔ stage.Past := hpast.trans (or_iff_right hleaving)
            simp only [hsame, if_neg hleaving]
        rw [← harrived]
        exact hcollectedu

/-- The closures for several assets can run one after the other, in any order. -/
theorem exists_run_arrivals {s : Search} {arrived todo : List LocalIdentifier}
    (h : Collected services keyPhrases memory s arrived)
    (hnodup : (s.tasks.map SearchTask.asset).Nodup) (htodo : todo.Nodup)
    (hrequested : ∀ asset ∈ todo, ⟨asset, .requested⟩ ∈ s.tasks)
    (hsettled : ∀ task ∈ s.tasks, task.asset ∉ todo → task.stage = .settled) :
    ∃ es t, run (Search.step services) s es = some t ∧ t.calls = s.calls ∧
      Collected services keyPhrases memory t (arrived ++ todo) ∧
      ∀ task ∈ t.tasks, task.stage = .settled := by
  induction todo generalizing s arrived with
  | nil =>
    refine ⟨[], s, rfl, rfl, by rwa [List.append_nil], ?_⟩
    intro task htask
    exact hsettled task htask List.not_mem_nil
  | cons asset todo ih =>
    obtain ⟨hnotin, htodo⟩ := List.nodup_cons.mp htodo
    obtain ⟨i, hi⟩ := List.mem_iff_getElem?.mp (hrequested asset List.mem_cons_self)
    obtain ⟨es, t, hrun, hcalls, htasks, hcollected⟩ :=
      exists_run_settled h hnodup hi (by decide)
    rw [if_neg (by decide)] at hcollected
    have hrequested' : ∀ asset' ∈ todo, ⟨asset', .requested⟩ ∈ t.tasks := by
      intro asset' hasset'
      obtain ⟨j, hj⟩ := List.mem_iff_getElem?.mp
        (hrequested asset' (List.mem_cons_of_mem asset hasset'))
      have hne : i ≠ j := by
        rintro rfl
        rw [hi, Option.some.injEq, SearchTask.mk.injEq] at hj
        exact hnotin (hj.1 ▸ hasset')
      rw [htasks]
      exact List.mem_of_getElem? ((List.getElem?_set_ne hne).trans hj)
    have hsettled' : ∀ task ∈ t.tasks, task.asset ∉ todo → task.stage = .settled := by
      intro task htask htask'
      rw [htasks] at htask
      rcases of_mem_set hnodup hi htask with rfl | ⟨hold, hne⟩
      · rfl
      · refine hsettled task hold ?_
        rw [List.mem_cons, not_or]
        exact ⟨hne, htask'⟩
    obtain ⟨fs, u, hrunu, hcallsu, hcollectedu, hsettledu⟩ :=
      ih hcollected (assets_run hrun ▸ hnodup) htodo hrequested' hsettled'
    rw [List.append_assoc] at hcollectedu
    exact ⟨es ++ fs, u, run_trans hrun hrunu, hcallsu.trans hcalls, hcollectedu, hsettledu⟩

/-- The loop can run before any closure. -/
theorem exists_run_enter (services : PhotoServices) (keyPhrases : Finset String)
    (memory : UserDefaults) {k : ℕ} (hk : k ≤ assets.length) :
    ∃ s, run (Search.step services) (image keyPhrases assets memory) (List.replicate k .enter) =
        some s ∧ s.entered = k ∧ s.calls = (image keyPhrases assets memory).calls ∧
      ∀ task ∈ s.tasks, task.stage = .waiting ∨ task.stage = .requested := by
  induction k with
  | zero =>
    refine ⟨_, rfl, rfl, rfl, ?_⟩
    intro task htask
    obtain ⟨asset, -, rfl⟩ := List.mem_map.mp htask
    exact .inl rfl
  | succ k ih =>
    obtain ⟨s, hrun, hentered, hcalls, hstages⟩ := ih (Nat.le_of_succ_le hk)
    have hlength : s.tasks.length = assets.length := by
      have hassets := (assets_run hrun).trans assets_image
      rw [← hassets, List.length_map]
    have hlt : s.entered < s.tasks.length := by omega
    obtain ⟨t, ht⟩ : ∃ t, s.step services .enter = some t := by
      simp [Search.step, List.getElem?_eq_getElem hlt]
    obtain ⟨-, task, htask, heq⟩ | ⟨i, _, _, _, he, -⟩ | ⟨he, -⟩ := step_cases ht
    · refine ⟨t, ?_, ?_, ?_, ?_⟩
      · rw [List.replicate_succ']
        exact run_concat hrun ht
      · rw [heq, ← hentered]
      · rw [heq, ← hcalls]
      · intro task' htask'
        rw [heq] at htask'
        rcases List.mem_or_eq_of_mem_set htask' with hold | rfl
        · exact hstages task' hold
        · exact .inr rfl
    · cases he
    · cases he

/-- Where the loop has run and no closure has, the data of all assets are requested and none has
arrived. -/
theorem Underway.requested {s : Search} (h : Underway services keyPhrases memory assets s)
    (hentered : s.entered = assets.length)
    (hstages : ∀ task ∈ s.tasks, task.stage = .waiting ∨ task.stage = .requested) :
    (∀ task ∈ s.tasks, task.stage = .requested) ∧ Collected services keyPhrases memory s [] := by
  have hlength : s.tasks.length = assets.length := by rw [← h.assets_eq, List.length_map]
  have hrequested : ∀ task ∈ s.tasks, task.stage = .requested := by
    intro task htask
    obtain ⟨i, hi⟩ := List.mem_iff_getElem?.mp htask
    have hlt := (List.getElem?_eq_some_iff.mp hi).1
    refine (hstages task htask).resolve_left fun hwaiting => ?_
    have hle := (h.balanced.waiting_iff i task hi).mp hwaiting
    omega
  obtain ⟨arrived, hcollected⟩ := h.collected
  have hnone : arrived = [] := by
    rw [List.eq_nil_iff_forall_not_mem]
    intro asset hasset
    obtain ⟨task, htask, rfl⟩ := List.mem_map.mp (hcollected.arrived_subset hasset)
    have hpast := (hcollected.mem_arrived_iff task htask).mp hasset
    rw [hrequested task htask] at hpast
    exact absurd hpast (by decide)
  exact ⟨hrequested, hnone ▸ hcollected⟩

/-- Where all closures have ended `process` is called next. -/
theorem Underway.step_wait {s : Search} (h : Underway services keyPhrases memory assets s)
    (hnone : s.calls = []) (hsettled : ∀ task ∈ s.tasks, task.stage = .settled) :
    s.step services .wait = some { s with calls := [s.images] } := by
  have hentered := h.balanced.entered_eq hsettled
  have hleft := h.balanced.left_eq_length_iff.mpr hsettled
  simp [Search.step, hnone, hentered, hleft]

/-- **Every order is the order of a run**: the images that are handed to `process` may be in any
order of the photos. -/
theorem exists_run_of_perm (services : PhotoServices) (keyPhrases : Finset String)
    (memory : UserDefaults) (hnodup : assets.Nodup) {arrived : List LocalIdentifier}
    (hperm : arrived.Perm assets) :
    ∃ es s, run (Search.step services) (image keyPhrases assets memory) es = some s ∧
      s.calls = [arrived.filterMap (services.suggestion keyPhrases memory)] := by
  by_cases hempty : assets = []
  · subst hempty
    rw [List.perm_nil.mp hperm]
    exact ⟨[], _, rfl, rfl⟩
  · -- first the loop, then the closures asset by asset, then the call
    obtain ⟨s, hrun, hentered, hcalls, hstages⟩ :=
      exists_run_enter services keyPhrases memory (le_refl assets.length)
    have hunderway := Underway.of_run hnodup hrun
    obtain ⟨hrequested, hcollected⟩ := hunderway.requested hentered hstages
    have hnodup' : (s.tasks.map SearchTask.asset).Nodup := hunderway.assets_eq ▸ hnodup
    have hmem (asset : LocalIdentifier) :
        asset ∈ arrived ↔ ∃ task ∈ s.tasks, task.asset = asset := by
      rw [hperm.mem_iff, ← hunderway.assets_eq, List.mem_map]
    have htodo : ∀ asset ∈ arrived, ⟨asset, .requested⟩ ∈ s.tasks := by
      intro asset hasset
      obtain ⟨task, htask, rfl⟩ := (hmem asset).mp hasset
      rw [← hrequested task htask]
      exact htask
    have hrest : ∀ task ∈ s.tasks, task.asset ∉ arrived → task.stage = .settled := by
      intro task htask hnotin
      exact absurd ((hmem task.asset).mpr ⟨task, htask, rfl⟩) hnotin
    obtain ⟨fs, t, hrunt, hcallst, hcollectedt, hsettled⟩ :=
      exists_run_arrivals hcollected hnodup' (hperm.nodup_iff.mpr hnodup) htodo hrest
    have hrun' : run (Search.step services) (image keyPhrases assets memory)
        (List.replicate assets.length .enter ++ fs) = some t := run_trans hrun hrunt
    have hnone : t.calls = [] := by
      rw [hcallst, hcalls, image]
      exact if_pos (List.length_pos_of_ne_nil hempty)
    have hwait := (Underway.of_run hnodup hrun').step_wait hnone hsettled
    refine ⟨List.replicate assets.length .enter ++ fs ++ [.wait], { t with calls := [t.images] },
      run_concat hrun' hwait, ?_⟩
    rw [hcollectedt.images_eq, List.nil_append]

/-! ### The slots -/

/-- Six slots for images, filled from the first one on. -/
def slots (images : List UIImage) : List (Option UIImage) :=
  (List.range 6).map fun i => images[i]?

theorem imageSuggestionViews_eq_slots {screen : NewMemory}
    (hsix : screen.imageSuggestionViews.length = 6) (suggestions : List ImageSuggestion) :
    (screen.processImageSuggestions suggestions).imageSuggestionViews =
      slots (suggestions.map ImageSuggestion.image) := by
  simp only [NewMemory.processImageSuggestions, hsix, slots]
  refine List.map_congr_left fun i hi => ?_
  rw [List.map_take, List.getElem?_take_of_lt (List.mem_range.mp hi)]

/-- The slots show the first image. -/
theorem head?_eq_of_slots_eq {images images' : List UIImage} (h : slots images = slots images') :
    images.head? = images'.head? := by
  have hfirst := congrArg List.head? h
  simp only [slots, List.head?_map, List.head?_range] at hfirst
  rw [List.head?_eq_getElem?, List.head?_eq_getElem?]
  simpa using hfirst

/-- The images of the photos that match, in the order of the photos. -/
def matchingImages (services : PhotoServices) (library : PhotoLibrary) (startDate endDate : Date)
    (memory : UserDefaults) (keyPhrases : List String) : List UIImage :=
  (fetchAssets library startDate endDate).filterMap fun asset =>
    (services.suggestion (keyPhrases.map services.lowercased).toFinset memory asset).map
      ImageSuggestion.image

/-- Whatever the order of its closures, a search fills the slots in the order of the photos. -/
def SlotsInFetchOrder (services : PhotoServices) (library : PhotoLibrary) (startDate endDate : Date)
    (memory : UserDefaults) (keyPhrases : List String) : Prop :=
  ∀ es s, run (Search.step services)
      (relevantImage services library startDate endDate memory (.ok keyPhrases)) es = some s →
    ∀ suggestions ∈ s.calls, ∀ screen : NewMemory, screen.imageSuggestionViews.length = 6 →
      (screen.processImageSuggestions suggestions).imageSuggestionViews =
        slots (matchingImages services library startDate endDate memory keyPhrases)

/-- **The slots are in the order of the photos** in all runs of a search exactly where all
photos that match show the same image. -/
theorem slotsInFetchOrder_iff {library : PhotoLibrary} {startDate endDate : Date}
    {keyPhrases : List String} :
    SlotsInFetchOrder services library startDate endDate memory keyPhrases ↔
      ∀ x ∈ matchingImages services library startDate endDate memory keyPhrases,
      ∀ y ∈ matchingImages services library startDate endDate memory keyPhrases, x = y := by
  have hnodup := fetchAssets_nodup library startDate endDate
  rw [matchingImages, ← orderIndependent_iff slots fun _ _ => head?_eq_of_slots_eq]
  constructor
  · intro h arrived hperm
    obtain ⟨es, s, hrun, hcalls⟩ := exists_run_of_perm services
      (keyPhrases.map services.lowercased).toFinset memory hnodup hperm
    have hslots := h es s hrun _ (hcalls ▸ List.mem_singleton_self _) (.start none) rfl
    rw [imageSuggestionViews_eq_slots rfl, List.map_filterMap] at hslots
    exact hslots
  · intro h es s hrun suggestions hcall screen hsix
    obtain ⟨arrived, hperm, rfl⟩ := (Underway.of_run hnodup hrun).images_of_call hnodup hcall
    rw [imageSuggestionViews_eq_slots hsix, List.map_filterMap]
    exact h arrived hperm

/-- The older photo arrives first and is shown first. -/
theorem not_slotsInFetchOrder_reversed :
    ¬∀ services library startDate endDate memory keyPhrases,
      SlotsInFetchOrder services library startDate endDate memory keyPhrases := by
  intro h
  have hrun : (run (Search.step dogServices)
      (relevantImage dogServices dogPhotos 0 9 (fun _ => none) (.ok ["dog"])) reversedSearch).map
        Search.calls = some [[⟨⟨some [1]⟩, "<ImageSuggestionProvider>"⟩,
          ⟨⟨some [2]⟩, "<ImageSuggestionProvider>"⟩]] := by decide +kernel
  obtain ⟨s, hrun, hcalls⟩ := Option.map_eq_some_iff.mp hrun
  have hslots := h dogServices dogPhotos 0 9 (fun _ => none) ["dog"] reversedSearch s hrun _
    (hcalls ▸ List.mem_singleton_self _) (.start none) rfl
  exact absurd hslots (by decide +kernel)

end Search

end FeelBetter
