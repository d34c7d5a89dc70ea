import FeelBetter.Suggestions.Provider

/-!
# The analyses of a photo

A photo is sent away to be analysed, and what the analysis answers is recorded so that no later
search has to ask again. Whether this holds over all the searches of the provider is seen
from the events of the analyses of one photo: requests and failures take turns, and after a
success there is no further request.
-/

namespace FeelBetter

open Machine

/-- What can become of the analysis of a photo. -/
inductive AnalysisEvent where
  | requested
  | succeeded
  | failed
  deriving DecidableEq

/-- What is known of a photo. -/
inductive AnalysisPhase where
  /-- There is no record. -/
  | missing
  /-- The analysis is requested. -/
  | underway
  /-- There is a record, or it is about to be written. -/
  | known
  deriving DecidableEq

namespace AnalysisPhase

/-- The order in which the events may come. -/
def step : AnalysisPhase → AnalysisEvent → Option AnalysisPhase
  | .missing, .requested => some .underway
  | .underway, .succeeded => some .known
  | .underway, .failed => some .missing
  | _, _ => none

/-- The phase while nothing is under way, by the record. -/
def ofRecord (record : Option ImageTag) : AnalysisPhase :=
  if record.isSome then .known else .missing

/-- One for a phase in which a photo is. -/
def indicator (phase phase' : AnalysisPhase) : ℕ := if phase = phase' then 1 else 0

/-- Every request fails, succeeds or is under way, and a success is known from then on. -/
theorem counts_of_run {phase phase' : AnalysisPhase} {l : List AnalysisEvent}
    (h : run step phase l = some phase') :
    l.count .requested + phase.indicator .underway =
        l.count .failed + l.count .succeeded + phase'.indicator .underway ∧
      l.count .succeeded + phase.indicator .known = phase'.indicator .known := by
  induction l generalizing phase with
  | nil =>
    cases h
    simp
  | cons e l ih =>
    obtain ⟨next, hstep, hrun⟩ := exists_step_of_run_cons h
    obtain ⟨hrequested, hsucceeded⟩ := ih hrun
    cases phase <;> cases e <;> cases hstep <;> simp_all [indicator] <;> omega

/-- Of a photo that is known there are no events. -/
theorem eq_nil_of_run_known {phase' : AnalysisPhase} {l : List AnalysisEvent}
    (h : run step .known l = some phase') : l = [] := by
  cases l with
  | nil => rfl
  | cons e l =>
    obtain ⟨next, hstep, -⟩ := exists_step_of_run_cons h
    cases e <;> cases hstep

end AnalysisPhase

namespace Stage

/-- What the closures for a photo do about its analysis when they go on to a stage. -/
def analysis : Stage → Stage → List AnalysisEvent
  | .requested, .tagging _ => [.requested]
  | .tagging _, .recording _ _ => [.succeeded]
  | .tagging _, .leaving => [.failed]
  | _, _ => []

/-- The phase of a photo, by its record and by the stage of its closures. -/
def phase (record : Option ImageTag) : Stage → AnalysisPhase
  | .tagging _ => .underway
  | .recording _ _ => .known
  | _ => .ofRecord record

/-- While the analysis of a photo is requested there is no record. -/
def Unrecorded (record : Option ImageTag) : Stage → Prop
  | .tagging _ => record = none
  | _ => True

end Stage

namespace Search

/-- What a step of a search does about the analysis of a photo. -/
def analyses (asset : LocalIdentifier) (s : Search) (e : SearchEvent) (t : Search) :
    List AnalysisEvent :=
  match e with
  | .proceed i =>
    match s.tasks[i]?, t.tasks[i]? with
    | some before, some after =>
      if before.asset = asset then before.stage.analysis after.stage else []
    | _, _ => []
  | _ => []

/-- A search meets a photo in a phase. -/
structure InPhase (asset : LocalIdentifier) (s : Search) (phase : AnalysisPhase) : Prop where
  phase_eq : ∀ task ∈ s.tasks, task.asset = asset →
    phase = task.stage.phase (ImageTagMemory.tag s.memory asset)
  unrecorded : ∀ task ∈ s.tasks, task.asset = asset →
    task.stage.Unrecorded (ImageTagMemory.tag s.memory asset)
  other : asset ∉ s.tasks.map SearchTask.asset →
    phase = .ofRecord (ImageTagMemory.tag s.memory asset)

variable {services : PhotoServices} {asset : LocalIdentifier} {s t : Search}
  {phase : AnalysisPhase}

theorem inPhase_image (keyPhrases : Finset String) (assets : List LocalIdentifier)
    (memory : UserDefaults) (asset : LocalIdentifier) :
    InPhase asset (image keyPhrases assets memory)
      (.ofRecord (ImageTagMemory.tag memory asset)) where
  phase_eq := by
    intro task htask _
    obtain ⟨asset', -, rfl⟩ := List.mem_map.mp htask
    rfl
  unrecorded := by
    intro task htask _
    obtain ⟨asset', -, rfl⟩ := List.mem_map.mp htask
    trivial
  other := fun _ => rfl

/-- When the closures for all photos have ended, the phase is that of the record. -/
theorem InPhase.of_settled (h : InPhase asset s phase)
    (hsettled : ∀ task ∈ s.tasks, task.stage = .settled) :
    phase = .ofRecord (ImageTagMemory.tag s.memory asset) := by
  by_cases hasset : asset ∈ s.tasks.map SearchTask.asset
  · obtain ⟨task, htask, hasset⟩ := List.mem_map.mp hasset
    rw [h.phase_eq task htask hasset, hsettled task htask]
    rfl
  · exact h.other hasset

/-- The next closure for the photo runs. -/
theorem Piece.analysis_self {stage stage' : Stage} {now : UserDefaults}
    {images : List ImageSuggestion} {left : ℕ}
    (hpiece : Piece services s asset stage stage' now images left)
    (hunrecorded : stage.Unrecorded (ImageTagMemory.tag s.memory asset)) :
    run AnalysisPhase.step (stage.phase (ImageTagMemory.tag s.memory asset))
        (stage.analysis stage') = some (stage'.phase (ImageTagMemory.tag now asset)) ∧
      stage'.Unrecorded (ImageTagMemory.tag now asset) := by
  cases hpiece with
  | noData hdata => exact ⟨rfl, trivial⟩
  | cached hdata hrecord => exact ⟨rfl, trivial⟩
  | fresh hdata hrecord =>
    refine ⟨?_, hrecord⟩
    rw [hrecord]
    rfl
  | tagged hanalysis => exact ⟨rfl, trivial⟩
  | failed hanalysis =>
    have hnone : ImageTagMemory.tag s.memory asset = none := hunrecorded
    refine ⟨?_, trivial⟩
    rw [hnone]
    rfl
  | recorded =>
    refine ⟨?_, trivial⟩
    rw [ImageTagMemory.tag_setTag_self]
    rfl
  | added => exact ⟨rfl, trivial⟩
  | left => exact ⟨rfl, trivial⟩

/-- The next closure for another photo runs. -/
theorem Piece.tag_of_ne {asset' : LocalIdentifier} {stage stage' : Stage} {now : UserDefaults}
    {images : List ImageSuggestion} {left : ℕ}
    (hpiece : Piece services s asset' stage stage' now images left) (hne : asset ≠ asset') :
    ImageTagMemory.tag now asset = ImageTagMemory.tag s.memory asset := by
  cases hpiece with
  | recorded => exact ImageTagMemory.tag_setTag_of_ne _ _ hne
  | noData _ | cached _ _ | fresh _ _ | tagged _ | failed _ | added | left => rfl

/-- A step of a search takes a photo from its phase to the next one. -/
theorem InPhase.step (h : InPhase asset s phase) (hbalanced : Balanced s)
    (hnodup : (s.tasks.map SearchTask.asset).Nodup) {e : SearchEvent}
    (hstep : s.step services e = some t) :
    ∃ phase', run AnalysisPhase.step phase (analyses asset s e t) = some phase' ∧
      InPhase asset t phase' := by
  have hassets := assets_step hstep
  rcases step_cases hstep with ⟨rfl, task, htask, rfl⟩ |
    ⟨i, asset', stage, stage', rfl, htask, htasks, -, -, -, hpiece⟩ | ⟨rfl, -, -, -, rfl⟩
  · have hwaiting : task.stage = .waiting := (hbalanced.waiting_iff _ _ htask).mpr le_rfl
    refine ⟨phase, rfl, ?_, ?_, fun hasset => h.other (hassets ▸ hasset)⟩
    · intro task' htask' hasset
      rcases List.mem_or_eq_of_mem_set htask' with hold | rfl
      · exact h.phase_eq task' hold hasset
      · have hphase := h.phase_eq task (List.mem_of_getElem? htask) hasset
        rwa [hwaiting] at hphase
    · intro task' htask' hasset
      rcases List.mem_or_eq_of_mem_set htask' with hold | rfl
      · exact h.unrecorded task' hold hasset
      · trivial
  · have hmem := List.mem_of_getElem? htask
    have hafter : t.tasks[i]? = some ⟨asset', stage'⟩ := by
      rw [htasks, List.getElem?_set_self (List.getElem?_eq_some_iff.mp htask).1]
    simp only [analyses, htask, hafter]
    by_cases heq : asset' = asset
    · subst heq
      obtain ⟨hrun, hunrecorded⟩ := hpiece.analysis_self (h.unrecorded _ hmem rfl)
      refine ⟨stage'.phase (ImageTagMemory.tag t.memory asset'), ?_, ?_, ?_, ?_⟩
      · rw [if_pos rfl, h.phase_eq _ hmem rfl]
        exact hrun
      · intro task htask' hasset
        rw [htasks] at htask'
        rcases of_mem_set hnodup htask htask' with rfl | ⟨-, hne⟩
        · rfl
        · exact absurd hasset hne
      · intro task htask' hasset
        rw [htasks] at htask'
        rcases of_mem_set hnodup htask htask' with rfl | ⟨-, hne⟩
        · exact hunrecorded
        · exact absurd hasset hne
      · intro hasset
        exact absurd (hassets ▸ List.mem_map_of_mem hmem) hasset
    · have htag := hpiece.tag_of_ne (Ne.symm heq)
      refine ⟨phase, by rw [if_neg heq]; rfl, ?_, ?_, ?_⟩
      · intro task htask' hasset
        rw [htasks] at htask'
        rw [htag]
        rcases List.mem_or_eq_of_mem_set htask' with hold | rfl
        · exact h.phase_eq task hold hasset
        · exact absurd hasset heq
      · intro task htask' hasset
        rw [htasks] at htask'
        rw [htag]
        rcases List.mem_or_eq_of_mem_set htask' with hold | rfl
        · exact h.unrecorded task hold hasset
        · exact absurd hasset heq
      · intro hasset
        rw [htag]
        exact h.other (hassets ▸ hasset)
  · exact ⟨phase, rfl, h.phase_eq, h.unrecorded, h.other⟩

end Search

namespace Provider

/-- What a step of the blocked queue does about the analysis of a photo. -/
def queueAnalyses (asset : LocalIdentifier)
    (queue : SerialQueue SearchJob UserDefaults Search (List ImageSuggestion))
    (e : QueueEvent SearchJob SearchEvent)
    (queue' : SerialQueue SearchJob UserDefaults Search (List ImageSuggestion)) :
    List AnalysisEvent :=
  match e, queue.current, queue'.current with
  | .work e, some (_, s), some (_, t) => Search.analyses asset s e t
  | _, _, _ => []

/-- What a step of the provider does about the analysis of a photo. -/
def analyses (asset : LocalIdentifier) (p : Provider) (e : ProviderEvent) (q : Provider) :
    List AnalysisEvent :=
  match e with
  | .search e => queueAnalyses asset p.blockedQueue (.work e) q.blockedQueue
  | _ => []

/-- What a run does about the analysis of a photo. -/
def analysisEvents (services : ℕ → PhotoServices) (library : ℕ → PhotoLibrary)
    (memory : UserDefaults) (asset : LocalIdentifier) (es : List ProviderEvent) :
    List AnalysisEvent :=
  outputs (step services library) (analyses asset) (initial memory) es

/-- The provider meets a photo in a phase: the phase is that of the search that runs, or else
that of the record. -/
structure InPhase (services : ℕ → PhotoServices) (library : ℕ → PhotoLibrary)
    (asset : LocalIdentifier) (p : Provider) (phase : AnalysisPhase) : Prop where
  sound : p.blockedQueue.Sound (SearchUnderway services library)
  running : ∀ job s, p.blockedQueue.current = some (job, s) → s.InPhase asset phase
  idle : p.blockedQueue.current = none →
    phase = .ofRecord (ImageTagMemory.tag p.blockedQueue.shared asset)

variable {services : ℕ → PhotoServices} {library : ℕ → PhotoLibrary} {p q : Provider}
  {asset : LocalIdentifier} {phase : AnalysisPhase} {memory : UserDefaults}

theorem inPhase_initial (asset : LocalIdentifier) (memory : UserDefaults) :
    InPhase services library asset (initial memory)
      (.ofRecord (ImageTagMemory.tag memory asset)) :=
  ⟨nofun, nofun, fun _ => rfl⟩

/-- The blocked queue takes a step. -/
theorem InPhase.queue_step (h : InPhase services library asset p phase)
    {e : QueueEvent SearchJob SearchEvent}
    {queue : SerialQueue SearchJob UserDefaults Search (List ImageSuggestion)}
    (hqueue : p.blockedQueue.step (searchService services library) e = some queue) :
    ∃ phase', run AnalysisPhase.step phase (queueAnalyses asset p.blockedQueue e queue) =
        some phase' ∧
      ∀ requests failures keyPhraseRequests, InPhase services library asset
        ⟨requests, keyPhraseRequests, queue, failures⟩ phase' := by
  have hsound := (h.sound.step (ends_searchService services library) hqueue).1
  rcases SerialQueue.step_cases hqueue with ⟨job, rfl, rfl⟩ |
    ⟨job, waiting, rfl, hcurrent, hwaiting, rfl⟩ | ⟨job, s, e', s', rfl, hcurrent, hs', rfl⟩ |
    ⟨job, s, images, rfl, hcurrent, hanswer, rfl⟩
  · exact ⟨phase, rfl, fun _ _ _ => ⟨hsound, h.running, h.idle⟩⟩
  · refine ⟨phase, rfl, fun _ _ _ => ⟨hsound, ?_, nofun⟩⟩
    rintro job' s' ⟨⟩
    rw [h.idle hcurrent]
    exact Search.inPhase_image _ _ _ asset
  · obtain ⟨memory, hunderway⟩ := h.sound job s hcurrent
    have hnodup : (s.tasks.map SearchTask.asset).Nodup :=
      hunderway.assets_eq ▸ Search.fetchAssets_nodup _ _ _
    obtain ⟨phase', hrun, hphase'⟩ :=
      (h.running job s hcurrent).step hunderway.balanced hnodup hs'
    refine ⟨phase', ?_, fun _ _ _ => ⟨hsound, ?_, nofun⟩⟩
    · simp only [queueAnalyses, hcurrent]
      exact hrun
    · rintro job' s'' ⟨⟩
      exact hphase'
  · obtain ⟨memory, hunderway⟩ := h.sound job s hcurrent
    have hcalled : s.calls ≠ [] :=
      List.ne_nil_of_mem (List.mem_of_mem_head? (l := s.calls) hanswer)
    obtain ⟨-, hsettled⟩ := hunderway.balanced.calls_eq.resolve_left hcalled
    refine ⟨phase, rfl, fun _ _ _ => ⟨hsound, nofun, fun _ => ?_⟩⟩
    exact (h.running job s hcurrent).of_settled hsettled

/-- A step of the provider takes a photo from its phase to the next one. -/
theorem InPhase.step (h : InPhase services library asset p phase) {e : ProviderEvent}
    (hstep : p.step services library e = some q) :
    ∃ phase', run AnalysisPhase.step phase (analyses asset p e q) = some phase' ∧
      InPhase services library asset q phase' := by
  rcases step_cases hstep with ⟨startDate, endDate, rfl, rfl⟩ |
    ⟨i, error, request, rfl, -, rfl⟩ | ⟨i, keyPhrases, request, queue, rfl, -, hqueue, rfl⟩ |
    ⟨e', queue, he, hqueue, rfl⟩
  · exact ⟨phase, rfl, h.sound, h.running, h.idle⟩
  · exact ⟨phase, rfl, h.sound, h.running, h.idle⟩
  · obtain ⟨phase', hrun, hphase'⟩ := h.queue_step hqueue
    exact ⟨phase', hrun, hphase' _ _ _⟩
  · obtain ⟨phase', hrun, hphase'⟩ := h.queue_step hqueue
    refine ⟨phase', ?_, hphase' _ _ _⟩
    rcases he with ⟨rfl, rfl⟩ | ⟨e'', rfl, rfl⟩ | ⟨rfl, rfl⟩
    · exact hrun
    · exact hrun
    · exact hrun

/-- The events of the analyses of a photo come in their order. -/
theorem inPhase_of_run {es : List ProviderEvent} (asset : LocalIdentifier)
    (hrun : run (step services library) (initial memory) es = some p) :
    ∃ phase, run AnalysisPhase.step (.ofRecord (ImageTagMemory.tag memory asset))
        (analysisEvents services library memory asset es) = some phase ∧
      InPhase services library asset p phase := by
  let J (p : Provider) (l : List AnalysisEvent) : Prop := ∃ phase,
    run AnalysisPhase.step (.ofRecord (ImageTagMemory.tag memory asset)) l = some phase ∧
      InPhase services library asset p phase
  have hinitial : J (initial memory) [] := ⟨_, rfl, inPhase_initial asset memory⟩
  have hstep (p : Provider) (l : List AnalysisEvent) (e : ProviderEvent) (q : Provider)
      (h : J p l) (hstep : p.step services library e = some q) :
      J q (l ++ analyses asset p e q) := by
    obtain ⟨phase, hl, hphase⟩ := h
    obtain ⟨phase', hnew, hphase'⟩ := hphase.step hstep
    exact ⟨phase', run_trans hl hnew, hphase'⟩
  exact run_outputs hstep hinitial hrun

/-- **A photo is analysed successfully at most once**, over all searches of a device: in every
run of the provider there is no request for the analysis of a photo that has a record, and
no more than one request beyond those that failed. Between the searches the photo has a record
exactly where it had one at first or its analysis has succeeded. -/
theorem analyses_of_run {es : List ProviderEvent} (asset : LocalIdentifier)
    (hrun : run (step services library) (initial memory) es = some p) :
    ((ImageTagMemory.tag memory asset).isSome →
      analysisEvents services library memory asset es = []) ∧
    (analysisEvents services library memory asset es).count .requested ≤
      (analysisEvents services library memory asset es).count .failed + 1 ∧
    (analysisEvents services library memory asset es).count .succeeded ≤ 1 ∧
    (p.blockedQueue.current = none →
      ((ImageTagMemory.tag p.blockedQueue.shared asset).isSome ↔
        (ImageTagMemory.tag memory asset).isSome ∨
          .succeeded ∈ analysisEvents services library memory asset es)) := by
  obtain ⟨phase, hevents, hphase⟩ := inPhase_of_run asset hrun
  obtain ⟨hrequested, hsucceeded⟩ := AnalysisPhase.counts_of_run hevents
  have hone : phase.indicator .underway + phase.indicator .known ≤ 1 := by
    cases phase <;> simp [AnalysisPhase.indicator]
  refine ⟨fun hrecord => ?_, by omega, by omega, fun hcurrent => ?_⟩
  · rw [AnalysisPhase.ofRecord, if_pos hrecord] at hevents
    exact AnalysisPhase.eq_nil_of_run_known hevents
  · have hindicator (record : Option ImageTag) :
        (AnalysisPhase.ofRecord record).indicator .known = if record.isSome then 1 else 0 := by
      cases record <;> rfl
    rw [hphase.idle hcurrent, hindicator, hindicator] at hsucceeded
    rw [← List.count_pos_iff]
    split_ifs at hsucceeded with hfirst hlast hlast
    · exact iff_of_true hlast (.inl hfirst)
    · exact iff_of_true hlast (.inr (by omega))
    · refine iff_of_false hlast ?_
      rintro (hrecord | hpos)
      · exact hfirst hrecord
      · omega

/-- Two calls of which the second one finds what the first one has recorded. -/
def sameTwice : List ProviderEvent :=
  [.relevantImage 0 9, .relevantImage 0 9, .keyPhrases 0 (.ok ["dog"]),
    .keyPhrases 0 (.ok ["grass"]), .start] ++ Search.reversedSearch.map .search ++
    [.finish, .start, .search .enter, .search (.proceed 0), .search (.proceed 0)]

/-- The analysis of a photo in two searches. -/
theorem analyses_sameTwice : ∃ p, run (step (fun _ => Search.dogServices) fun _ => Search.dogPhotos)
    (initial fun _ => none) sameTwice = some p ∧
      (analysisEvents (fun _ => Search.dogServices) (fun _ => Search.dogPhotos) (fun _ => none) "b"
        sameTwice).count .requested ≤
      (analysisEvents (fun _ => Search.dogServices) (fun _ => Search.dogPhotos) (fun _ => none) "b"
        sameTwice).count .failed + 1 := by
  have hrun : (run (step (fun _ => Search.dogServices) fun _ => Search.dogPhotos)
      (initial fun _ => none) sameTwice).isSome = true := by decide +kernel
  obtain ⟨p, hrun⟩ := Option.isSome_iff_exists.mp hrun
  exact ⟨p, hrun, (analyses_of_run "b" hrun).2.1⟩

end Provider

end FeelBetter
