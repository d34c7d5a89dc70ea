import FeelBetter.Machine.SerialQueue
import FeelBetter.Suggestions.Results

/-!
# The provider of image suggestions

Every call of `relevantImage` has the key phrases of its text extracted first. These requests
are under way side by side and complete in any order. A success puts a search in the blocked
queue, a serial one, where it waits until the searches before it have ended; a failure hands
no images to `process` at once. All searches use one memory of image tags. A request is taken to
call back with key phrases or an error: on a reply without documents `TextAnalzyer.request` traps.
-/

namespace FeelBetter

open Machine

/-- A call of `relevantImage`. -/
structure SuggestionRequest where
  /-- How many calls there were before. -/
  number : ℕ
  startDate : Date
  endDate : Date
  deriving DecidableEq

/-- A block in the blocked queue: a call, with the key phrases of its text. -/
structure SearchJob extends SuggestionRequest where
  keyPhrases : List String
  deriving DecidableEq

/-- The provider. -/
structure Provider where
  /-- How often `relevantImage` was called. -/
  requests : ℕ
  /-- The calls whose key phrases are being extracted. -/
  keyPhraseRequests : List SuggestionRequest
  blockedQueue : SerialQueue SearchJob UserDefaults Search (List ImageSuggestion)
  /-- The calls whose key phrases could not be extracted. -/
  failures : List ℕ

/-- What can happen to the provider. -/
inductive ProviderEvent where
  | relevantImage (startDate endDate : Date)
  /-- The `i`-th request for key phrases under way calls back. -/
  | keyPhrases (i : ℕ) (result : Result (List String))
  /-- The blocked queue starts its next block. -/
  | start
  /-- The search that runs takes a step. -/
  | search (e : SearchEvent)
  /-- `process` returns, and the block with it. -/
  | finish

/-- `relevantImage` is called. -/
def ProviderEvent.IsCall : ProviderEvent → Prop
  | .relevantImage _ _ => True
  | _ => False

namespace Provider

/-- How a search is served: the services and the photo library are those that the search of a
call meets. -/
def searchService (services : ℕ → PhotoServices) (library : ℕ → PhotoLibrary) :
    Service SearchJob UserDefaults Search SearchEvent (List ImageSuggestion) where
  start job memory := Search.relevantImage (services job.number) (library job.number)
    job.startDate job.endDate memory (.ok job.keyPhrases)
  step job := Search.step (services job.number)
  shared := Search.memory
  answer s := s.calls.head?

/-- The provider before the first call. -/
def initial (memory : UserDefaults) : Provider := ⟨0, [], .empty memory, []⟩

/-- What `process` was called with, for each call that was answered. -/
def answers (p : Provider) : List (ℕ × List ImageSuggestion) :=
  p.failures.map (fun number => (number, [])) ++
    p.blockedQueue.answers.map fun answer => (answer.1.number, answer.2)

variable (services : ℕ → PhotoServices) (library : ℕ → PhotoLibrary)

/-- The blocked queue takes a step. -/
def queueStep (p : Provider) (e : QueueEvent SearchJob SearchEvent) : Option Provider :=
  (p.blockedQueue.step (searchService services library) e).map fun blockedQueue =>
    { p with blockedQueue }

/-- One step of the provider: `none` where the event cannot happen. -/
def step (p : Provider) : ProviderEvent → Option Provider
  | .relevantImage startDate endDate => some { p with
      requests := p.requests + 1
      keyPhraseRequests := p.keyPhraseRequests ++ [⟨p.requests, startDate, endDate⟩] }
  | .keyPhrases i result =>
    match p.keyPhraseRequests[i]? with
    | some request =>
      let p := { p with keyPhraseRequests := p.keyPhraseRequests.eraseIdx i }
      match result with
      | .ok keyPhrases => p.queueStep services library (.add ⟨request, keyPhrases⟩)
      | .error _ => some { p with failures := p.failures ++ [request.number] }
    | none => none
  | .start => p.queueStep services library .start
  | .search e => p.queueStep services library (.work e)
  | .finish => p.queueStep services library .finish

variable {services library} {p q : Provider} {e : ProviderEvent} {memory : UserDefaults}

/-- What one step of the provider does. -/
theorem step_cases (hstep : p.step services library e = some q) :
    (∃ startDate endDate, e = .relevantImage startDate endDate ∧ q = { p with
      requests := p.requests + 1
      keyPhraseRequests := p.keyPhraseRequests ++ [⟨p.requests, startDate, endDate⟩] }) ∨
    (∃ i error request, e = .keyPhrases i (.error error) ∧
      p.keyPhraseRequests[i]? = some request ∧ q = { p with
        keyPhraseRequests := p.keyPhraseRequests.eraseIdx i
        failures := p.failures ++ [request.number] }) ∨
    (∃ i keyPhrases request queue, e = .keyPhrases i (.ok keyPhrases) ∧
      p.keyPhraseRequests[i]? = some request ∧
      p.blockedQueue.step (searchService services library) (.add ⟨request, keyPhrases⟩) =
        some queue ∧
      q = { p with
        keyPhraseRequests := p.keyPhraseRequests.eraseIdx i
        blockedQueue := queue }) ∨
    (∃ e' queue, (e = .start ∧ e' = .start ∨ (∃ e'', e = .search e'' ∧ e' = .work e'') ∨
        e = .finish ∧ e' = .finish) ∧
      p.blockedQueue.step (searchService services library) e' = some queue ∧
      q = { p with blockedQueue := queue }) := by
  cases e with
  | relevantImage startDate endDate =>
    cases hstep
    exact .inl ⟨startDate, endDate, rfl, rfl⟩
  | keyPhrases i result =>
    simp only [step] at hstep
    split at hstep
    · rename_i request hrequest
      cases result with
      | error error =>
        cases hstep
        exact .inr (.inl ⟨i, error, request, rfl, hrequest, rfl⟩)
      | ok keyPhrases =>
        obtain ⟨queue, hqueue, rfl⟩ := Option.map_eq_some_iff.mp hstep
        exact .inr (.inr (.inl ⟨i, keyPhrases, request, queue, rfl, hrequest, hqueue, rfl⟩))
    · cases hstep
  | start =>
    obtain ⟨queue, hqueue, rfl⟩ := Option.map_eq_some_iff.mp hstep
    exact .inr (.inr (.inr ⟨_, queue, .inl ⟨rfl, rfl⟩, hqueue, rfl⟩))
  | search e' =>
    obtain ⟨queue, hqueue, rfl⟩ := Option.map_eq_some_iff.mp hstep
    exact .inr (.inr (.inr ⟨_, queue, .inr (.inl ⟨e', rfl, rfl⟩), hqueue, rfl⟩))
  | finish =>
    obtain ⟨queue, hqueue, rfl⟩ := Option.map_eq_some_iff.mp hstep
    exact .inr (.inr (.inr ⟨_, queue, .inr (.inr ⟨rfl, rfl⟩), hqueue, rfl⟩))

/-! ### Every call is answered once -/

/-- The calls by where they are. -/
def numbers (p : Provider) : List ℕ :=
  p.keyPhraseRequests.map SuggestionRequest.number ++
    (p.failures ++ p.blockedQueue.jobs.map fun job => job.number)

/-- No call is lost, and none is in two places. -/
def Accounted (p : Provider) : Prop := p.numbers.Perm (List.range p.requests)

theorem accounted_initial : Accounted (initial memory) := List.Perm.refl []

/-- A request that completes is taken out of those under way. -/
theorem perm_eraseIdx {i : ℕ} {requests : List SuggestionRequest} {request : SuggestionRequest}
    (h : requests[i]? = some request) : (requests.map SuggestionRequest.number).Perm
      (request.number :: (requests.eraseIdx i).map SuggestionRequest.number) := by
  obtain ⟨hlt, rfl⟩ := List.getElem?_eq_some_iff.mp h
  exact ((List.getElem_cons_eraseIdx_perm hlt).map SuggestionRequest.number).symm

theorem Accounted.step (h : Accounted p) (hstep : p.step services library e = some q) :
    Accounted q := by
  rcases step_cases hstep with ⟨startDate, endDate, -, rfl⟩ | ⟨i, error, request, -, hi, rfl⟩ |
    ⟨i, keyPhrases, request, queue, -, hi, hqueue, rfl⟩ | ⟨e', queue, he, hqueue, rfl⟩
  · refine List.perm_iff_count.mpr fun n => ?_
    have hcount := List.perm_iff_count.mp h n
    simp only [numbers, List.count_append, List.map_append, List.map_cons, List.map_nil,
      List.range_succ] at hcount ⊢
    omega
  · refine List.perm_iff_count.mpr fun n => ?_
    have hcount := List.perm_iff_count.mp h n
    have herase := List.perm_iff_count.mp (perm_eraseIdx hi) n
    rw [← List.singleton_append, List.count_append] at herase
    simp only [numbers, List.count_append] at hcount ⊢
    omega
  · refine List.perm_iff_count.mpr fun n => ?_
    have hcount := List.perm_iff_count.mp h n
    have herase := List.perm_iff_count.mp (perm_eraseIdx hi) n
    rw [← List.singleton_append, List.count_append] at herase
    simp only [numbers, SerialQueue.jobs_step hqueue, QueueEvent.added, List.count_append,
      List.map_append, List.map_cons, List.map_nil] at hcount ⊢
    omega
  · have hjobs : queue.jobs = p.blockedQueue.jobs := by
      rw [SerialQueue.jobs_step hqueue]
      rcases he with ⟨-, rfl⟩ | ⟨e'', -, rfl⟩ | ⟨-, rfl⟩
      · exact List.append_nil _
      · exact List.append_nil _
      · exact List.append_nil _
    simp only [Accounted, numbers, hjobs]
    exact h

/-! ### The calls come to an end -/

/-- How many steps the search of a call can take. -/
def searchBound (library : ℕ → PhotoLibrary) (request : SuggestionRequest) : ℕ :=
  6 * (fetchAssets (library request.number) request.startDate request.endDate).length + 1

/-- A search of the blocked queue is under way. -/
def SearchUnderway (services : ℕ → PhotoServices) (library : ℕ → PhotoLibrary) (job : SearchJob)
    (s : Search) : Prop :=
  ∃ memory, Search.Underway (services job.number)
    (job.keyPhrases.map (services job.number).lowercased).toFinset memory
    (fetchAssets (library job.number) job.startDate job.endDate) s

/-- The searches of the blocked queue come to an end. -/
theorem ends_searchService (services : ℕ → PhotoServices) (library : ℕ → PhotoLibrary) :
    SerialQueue.Ends (searchService services library) (SearchUnderway services library) Search.rank
      fun job => searchBound library job.toSuggestionRequest where
  start := fun job memory => ⟨⟨memory, Search.underway_image⟩, Search.rank_image_le _ _ memory⟩
  step := by
    rintro job s e t ⟨memory, hunderway⟩ hstep
    obtain ⟨hnext, hlt⟩ :=
      Search.Underway.step_rank (Search.fetchAssets_nodup _ _ _) s e t hunderway hstep
    exact ⟨⟨memory, hnext⟩, hlt⟩
  answered := by
    rintro job s ⟨memory, hunderway⟩ hstuck
    exact List.isSome_head?.mpr (hunderway.balanced.stuck_iff.mp hstuck)

/-- How much is left to do for the calls. -/
def rank (library : ℕ → PhotoLibrary) (p : Provider) : ℕ :=
  (p.keyPhraseRequests.map fun request => searchBound library request + 3).sum +
    p.blockedQueue.rank Search.rank fun job => searchBound library job.toSuggestionRequest

/-- What is left to do for a request that completes is no longer to do for the others. -/
theorem sum_eraseIdx {i : ℕ} {requests : List SuggestionRequest} {request : SuggestionRequest}
    (h : requests[i]? = some request) (f : SuggestionRequest → ℕ) :
    (requests.map f).sum = f request + ((requests.eraseIdx i).map f).sum := by
  obtain ⟨hlt, rfl⟩ := List.getElem?_eq_some_iff.mp h
  exact ((List.getElem_cons_eraseIdx_perm hlt).map f).sum_eq.symm

/-- The calls are accounted for, and a search that runs is under way. -/
structure Sound (services : ℕ → PhotoServices) (library : ℕ → PhotoLibrary) (p : Provider) :
    Prop where
  accounted : Accounted p
  queue : p.blockedQueue.Sound (SearchUnderway services library)

theorem sound_initial : Sound services library (initial memory) :=
  ⟨accounted_initial, nofun⟩

theorem Sound.step (h : Sound services library p) (hstep : p.step services library e = some q) :
    Sound services library q := by
  refine ⟨h.accounted.step hstep, ?_⟩
  rcases step_cases hstep with ⟨startDate, endDate, -, rfl⟩ | ⟨i, error, request, -, -, rfl⟩ |
    ⟨i, keyPhrases, request, queue, -, -, hqueue, rfl⟩ | ⟨e', queue, -, hqueue, rfl⟩
  · exact h.queue
  · exact h.queue
  · exact (h.queue.step (ends_searchService services library) hqueue).1
  · exact (h.queue.step (ends_searchService services library) hqueue).1

/-- Every step but a call takes something from what is left to do. -/
theorem Sound.rank_lt (h : Sound services library p) (he : ¬e.IsCall)
    (hstep : p.step services library e = some q) :
    q.requests = p.requests ∧ q.rank library < p.rank library := by
  rcases step_cases hstep with ⟨startDate, endDate, rfl, -⟩ | ⟨i, error, request, -, hi, rfl⟩ |
    ⟨i, keyPhrases, request, queue, -, hi, hqueue, rfl⟩ | ⟨e', queue, he', hqueue, rfl⟩
  · exact absurd trivial he
  · refine ⟨rfl, ?_⟩
    simp only [rank, sum_eraseIdx hi]
    omega
  · have hle := (h.queue.step (ends_searchService services library) hqueue).2
    refine ⟨rfl, ?_⟩
    simp only [QueueEvent.added, List.map_cons, List.map_nil, List.sum_cons, List.sum_nil,
      List.cons_ne_nil, if_false] at hle
    simp only [rank, sum_eraseIdx hi]
    omega
  · have hle := (h.queue.step (ends_searchService services library) hqueue).2
    have hadded : e'.added = [] := by
      rcases he' with ⟨-, rfl⟩ | ⟨e'', -, rfl⟩ | ⟨-, rfl⟩
      · rfl
      · rfl
      · rfl
    refine ⟨rfl, ?_⟩
    simp only [hadded, List.map_nil, List.sum_nil, if_true] at hle
    simp only [rank]
    omega

/-- Nothing but a call can happen. -/
def Idle (services : ℕ → PhotoServices) (library : ℕ → PhotoLibrary) (p : Provider) : Prop :=
  ∀ e, ¬e.IsCall → p.step services library e = none

/-- Where nothing but a call can happen, nothing is left of any call. -/
theorem Sound.idle_iff (h : Sound services library p) : Idle services library p ↔
    p.keyPhraseRequests = [] ∧ p.blockedQueue.current = none ∧ p.blockedQueue.waiting = [] := by
  constructor
  · intro hidle
    have hrequests : p.keyPhraseRequests = [] := by
      cases hlist : p.keyPhraseRequests with
      | nil => rfl
      | cons request requests =>
        have hfail := hidle (.keyPhrases 0 (.error "offline")) id
        simp [Provider.step, hlist] at hfail
    refine ⟨hrequests, h.queue.idle (ends_searchService services library) fun e he => ?_⟩
    cases e with
    | add job => cases he
    | start => exact Option.map_eq_none_iff.mp (hidle .start id)
    | work e => exact Option.map_eq_none_iff.mp (hidle (.search e) id)
    | finish => exact Option.map_eq_none_iff.mp (hidle .finish id)
  · rintro ⟨hrequests, hcurrent, hwaiting⟩ e he
    cases e with
    | relevantImage startDate endDate => exact absurd trivial he
    | keyPhrases i result => simp [Provider.step, hrequests]
    | start => simp [Provider.step, queueStep, SerialQueue.step, hcurrent, hwaiting]
    | search e => simp [Provider.step, queueStep, SerialQueue.step, hcurrent]
    | finish => simp [Provider.step, queueStep, SerialQueue.step, hcurrent]

/-- Every run leaves the provider sound. -/
theorem sound_of_run {es : List ProviderEvent}
    (hrun : run (step services library) (initial memory) es = some p) :
    Sound services library p :=
  run_invariant (fun _ _ _ h hstep => h.step hstep) sound_initial hrun

/-- Two calls: the key phrases of the second one come first, and those of the first one not at
all. -/
def twoCalls : List ProviderEvent :=
  [.relevantImage 0 9, .relevantImage 0 9, .keyPhrases 1 (.ok ["dog"]),
    .keyPhrases 0 (.error "offline"), .start] ++ Search.reversedSearch.map .search ++ [.finish]

/-- The photos that are suggested for the second one, in the order in which they were found. -/
def dogImages : List ImageSuggestion :=
  [⟨⟨some [1]⟩, "<ImageSuggestionProvider>"⟩, ⟨⟨some [2]⟩, "<ImageSuggestionProvider>"⟩]

theorem exists_run_twoCalls : ∃ p,
    run (step (fun _ => Search.dogServices) fun _ => Search.dogPhotos) (initial fun _ => none)
        twoCalls = some p ∧
      p.answers = [(0, []), (1, dogImages)] ∧
      p.blockedQueue.answers = [(⟨⟨1, 0, 9⟩, ["dog"]⟩, dogImages)] := by
  have hrun : (run (step (fun _ => Search.dogServices) fun _ => Search.dogPhotos)
      (initial fun _ => none) twoCalls).map (fun p => (p.answers, p.blockedQueue.answers)) =
      some ([(0, []), (1, dogImages)], [(⟨⟨1, 0, 9⟩, ["dog"]⟩, dogImages)]) := by decide +kernel
  obtain ⟨p, hrun, hanswers⟩ := Option.map_eq_some_iff.mp hrun
  exact ⟨p, hrun, congrArg Prod.fst hanswers, congrArg Prod.snd hanswers⟩

/-- The block that a transition puts in the blocked queue. -/
def accepted (p : Provider) (e : ProviderEvent) (_ : Provider) : List SearchJob :=
  match e with
  | .keyPhrases i (.ok keyPhrases) =>
    (p.keyPhraseRequests[i]?).toList.map fun request => ⟨request, keyPhrases⟩
  | _ => []

/-- The blocked queue serves the blocks that were put in it. -/
structure Serial (services : ℕ → PhotoServices) (library : ℕ → PhotoLibrary)
    (memory : UserDefaults) (p : Provider) (blocks : List SearchJob) : Prop where
  jobs_eq : p.blockedQueue.jobs = blocks
  serialized : p.blockedQueue.Serialized (searchService services library) memory

theorem serial_initial : Serial services library memory (initial memory) [] :=
  ⟨rfl, SerialQueue.serialized_empty⟩

theorem Serial.step {blocks : List SearchJob} (h : Serial services library memory p blocks)
    (hstep : p.step services library e = some q) :
    Serial services library memory q (blocks ++ accepted p e q) := by
  rcases step_cases hstep with ⟨startDate, endDate, rfl, rfl⟩ |
    ⟨i, error, request, rfl, -, rfl⟩ | ⟨i, keyPhrases, request, queue, rfl, hi, hqueue, rfl⟩ |
    ⟨e', queue, he, hqueue, rfl⟩
  · exact ⟨h.jobs_eq.trans (List.append_nil _).symm, h.serialized⟩
  · exact ⟨h.jobs_eq.trans (List.append_nil _).symm, h.serialized⟩
  · refine ⟨?_, h.serialized.step hqueue⟩
    rw [SerialQueue.jobs_step hqueue, h.jobs_eq, accepted, hi]
    rfl
  · refine ⟨?_, h.serialized.step hqueue⟩
    rw [SerialQueue.jobs_step hqueue, h.jobs_eq]
    rcases he with ⟨rfl, rfl⟩ | ⟨e'', rfl, rfl⟩ | ⟨rfl, rfl⟩
    · rfl
    · rfl
    · rfl

theorem serial_of_steps {es : List ProviderEvent}
    (hrun : run (step services library) (initial memory) es = some p) :
    Serial services library memory p
      (outputs (step services library) accepted (initial memory) es) := by
  have hstep (p : Provider) (blocks : List SearchJob) (e : ProviderEvent) (q : Provider)
      (h : Serial services library memory p blocks) (hstep : p.step services library e = some q) :
      Serial services library memory q (blocks ++ accepted p e q) := h.step hstep
  exact run_outputs hstep serial_initial hrun

/-- **The searches run one after another**, in the order in which their key phrases arrived:
in every run the answers are those of the searches each of which has run to its end on
the memory of image tags that the one before it has left, although the requests of a search
complete in any order and key phrases arrive meanwhile. -/
theorem serial_of_run {es : List ProviderEvent}
    (hrun : run (step services library) (initial memory) es = some p) :
    p.blockedQueue.answers.map Prod.fst <+:
        outputs (step services library) accepted (initial memory) es ∧
      SerialQueue.Served (searchService services library) memory p.blockedQueue.answers
        p.blockedQueue.shared := by
  have hserial := serial_of_steps hrun
  refine ⟨?_, hserial.serialized.served⟩
  rw [← hserial.jobs_eq, SerialQueue.jobs, List.append_assoc]
  exact List.prefix_append _ _

/-- The search of the second call. -/
theorem serial_twoCalls : ∃ p, run (step (fun _ => Search.dogServices) fun _ => Search.dogPhotos)
    (initial fun _ => none) twoCalls = some p ∧
      p.blockedQueue.answers.map Prod.fst <+:
        outputs (step (fun _ => Search.dogServices) fun _ => Search.dogPhotos) accepted
          (initial fun _ => none) twoCalls ∧
      SerialQueue.Served (searchService (fun _ => Search.dogServices) fun _ => Search.dogPhotos)
        (fun _ => none) p.blockedQueue.answers p.blockedQueue.shared := by
  obtain ⟨p, hrun, -⟩ := exists_run_twoCalls
  exact ⟨p, hrun, serial_of_run hrun⟩

/-- A search that has run to its end has gathered the photos that match, and leaves tags in
lower case where it has found them so. -/
theorem gathered_of_answer {job : SearchJob} {images : List ImageSuggestion}
    {es : List SearchEvent} {s : Search}
    (hmemory : ImageTagMemory.LowerCase (services job.number).lowercased memory)
    (hrun : run ((searchService services library).step job)
      ((searchService services library).start job memory) es = some s)
    (hanswer : (searchService services library).answer s = some images) :
    ImageTagMemory.LowerCase (services job.number).lowercased s.memory ∧
      ∃ matching : List LocalIdentifier, matching.Nodup ∧
        (∀ asset, asset ∈ matching ↔
          asset ∈ fetchAssets (library job.number) job.startDate job.endDate ∧
            (services job.number).Matches job.keyPhrases memory asset) ∧
        List.Forall₂ (fun asset suggestion =>
          (services job.number).loaded asset = some suggestion.image ∧
            suggestion.description = (services job.number).description) matching images := by
  have hnodup := Search.fetchAssets_nodup (library job.number) job.startDate job.endDate
  obtain ⟨hunderway, hlower⟩ := run_invariant
    (I := fun s => Search.Underway (services job.number)
      (job.keyPhrases.map (services job.number).lowercased).toFinset memory
      (fetchAssets (library job.number) job.startDate job.endDate) s ∧
      ImageTagMemory.LowerCase (services job.number).lowercased s.memory)
    (fun s e t h hstep => ⟨h.1.step hnodup hstep, h.1.lowerCase_step hmemory h.2 hstep⟩)
    ⟨Search.underway_image, hmemory⟩ hrun
  exact ⟨hlower, (hunderway.gathered hnodup hmemory).matching images
    (List.mem_of_mem_head? hanswer)⟩

/-- **The suggestions for a call are the photos of its period that match its text**, each once,
by the tags that the searches before it have recorded, and the analysis of the others. -/
theorem suggestions_of_run {lowercased : String → String}
    (hlower : ∀ number, (services number).lowercased = lowercased)
    (hmemory : Search.Reached lowercased memory) {es : List ProviderEvent}
    (hrun : run (step services library) (initial memory) es = some p) {i : ℕ} {job : SearchJob}
    {images : List ImageSuggestion} (hi : p.blockedQueue.answers[i]? = some (job, images)) :
    ∃ before, SerialQueue.Served (searchService services library) memory
        (p.blockedQueue.answers.take i) before ∧
      ∃ matching : List LocalIdentifier, matching.Nodup ∧
        (∀ asset, asset ∈ matching ↔
          asset ∈ fetchAssets (library job.number) job.startDate job.endDate ∧
            (services job.number).Matches job.keyPhrases before asset) ∧
        List.Forall₂ (fun asset suggestion =>
          (services job.number).loaded asset = some suggestion.image ∧
            suggestion.description = (services job.number).description) matching images := by
  obtain ⟨before, es', s, hbefore, hsearch, hanswer⟩ :=
    (serial_of_steps hrun).serialized.served.getElem? hi
  have hfound : ImageTagMemory.LowerCase lowercased before := by
    refine (hbefore.invariant (P := fun _ _ => True) ?_ hmemory.lowerCase).1
    intro job k es s images hk hrun hanswer
    rw [← hlower job.number] at hk ⊢
    exact ⟨(gathered_of_answer hk hrun hanswer).1, trivial⟩
  rw [← hlower job.number] at hfound
  exact ⟨before, hbefore, (gathered_of_answer hfound hsearch hanswer).2⟩

/-- The photos of dogs for the second call, before which no tags were recorded. -/
theorem suggestions_twoCalls : ∃ matching : List LocalIdentifier, matching.Nodup ∧
    (∀ asset, asset ∈ matching ↔ asset ∈ fetchAssets Search.dogPhotos 0 9 ∧
      Search.dogServices.Matches ["dog"] (fun _ => none) asset) ∧
    List.Forall₂ (fun asset suggestion =>
      Search.dogServices.loaded asset = some suggestion.image ∧
        suggestion.description = Search.dogServices.description) matching dogImages := by
  obtain ⟨p, hrun, -, hanswers⟩ := exists_run_twoCalls
  have hfirst : p.blockedQueue.answers[0]? = some (⟨⟨1, 0, 9⟩, ["dog"]⟩, dogImages) := by
    rw [hanswers]
    rfl
  have hlower : ∀ _ : ℕ, Search.dogServices.lowercased = id := fun _ => rfl
  obtain ⟨before, hbefore, hmatching⟩ := suggestions_of_run hlower .empty hrun hfirst
  rw [List.take_zero] at hbefore
  obtain rfl := hbefore.eq_of_nil
  exact hmatching

end Provider

end FeelBetter
