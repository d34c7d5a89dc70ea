import FeelBetter.NewMemory.Form
import FeelBetter.Suggestions.Order
import FeelBetter.Suggestions.Provider

/-!
# The strip of suggestions

Whenever the text view of the compose screen is left, the screen asks the provider for images,
and whatever the provider hands over goes through the main queue into the six slots of a strip.
The provider is one for the application, so it may still work for an earlier screen. The
answers for one screen come in the order in which they are ready, which need not be that of
the calls: the strip may end up with the images for an older text. As for the provider, the
requests for key phrases are taken to call back.
-/

namespace FeelBetter

open Machine

namespace Provider

variable (services : ℕ → PhotoServices) (library : ℕ → PhotoLibrary)

/-! ### What the provider hands over -/

/-- What `process` is called with between two states, for each call: no images where the key
phrases could not be extracted, and the images of a search when it has gathered them. -/
def handed (p q : Provider) : List (ℕ × List ImageSuggestion) :=
  (q.failures.drop p.failures.length).map (fun number => (number, [])) ++
    (p.blockedQueue.readied (searchService services library) q.blockedQueue).map fun answer =>
      (answer.1.number, answer.2)

/-- The calls for which `process` was not called: those whose searches wait or run, then those
whose key phrases are being extracted. -/
def pending (p : Provider) : List ℕ :=
  (p.blockedQueue.unready (searchService services library)).map (fun job => job.number) ++
    p.keyPhraseRequests.map SuggestionRequest.number

/-- The call that an event is. -/
def called (p : Provider) : ProviderEvent → List ℕ
  | .relevantImage _ _ => [p.requests]
  | _ => []

/-- The key phrases arrive in the order of the calls, and they fail only where no search of
an earlier call waits or runs. -/
def InOrder (p : Provider) : ProviderEvent → Prop
  | .keyPhrases i (.ok _) => i = 0
  | .keyPhrases i (.error _) =>
    i = 0 ∧ p.blockedQueue.unready (searchService services library) = []
  | _ => True

instance (p : Provider) : ∀ e, Decidable (p.InOrder services library e)
  | .keyPhrases _ (.ok _) => inferInstanceAs (Decidable (_ = _))
  | .keyPhrases _ (.error _) => inferInstanceAs (Decidable (_ ∧ _))
  | .relevantImage _ _ | .start | .search _ | .finish => isTrue trivial

variable {services library} {p q : Provider} {e : ProviderEvent} {memory : UserDefaults}

/-- A search calls `process` once. -/
theorem steady_searchService :
    SerialQueue.Steady (searchService services library) := by
  intro job s e t images hstep hanswer
  have hcalls : s.calls ≠ [] := List.ne_nil_of_mem (List.mem_of_mem_head? hanswer)
  rcases Search.step_cases hstep with ⟨-, task, -, rfl⟩ |
    ⟨i, asset, stage, stage', -, -, -, -, hsame, -⟩ | ⟨-, hnone, -⟩
  · exact hanswer
  · exact (congrArg List.head? hsame).trans hanswer
  · exact absurd hnone hcalls

/-- What is handed over and what is pending after a step. Only the key phrases of a call can
change the order of the calls. -/
theorem handed_append_pending (hstep : p.step services library e = some q) :
    (handed services library p q).map Prod.fst ++ q.pending services library =
        p.pending services library ++ p.called e ∨
    ∃ i request, p.keyPhraseRequests[i]? = some request ∧ p.called e = [] ∧
      ((∃ error, e = .keyPhrases i (.error error) ∧
        (handed services library p q).map Prod.fst ++ q.pending services library =
          request.number :: ((p.blockedQueue.unready (searchService services library)).map
            (fun job => job.number) ++
              (p.keyPhraseRequests.eraseIdx i).map SuggestionRequest.number)) ∨
      ∃ keyPhrases, e = .keyPhrases i (.ok keyPhrases) ∧
        (handed services library p q).map Prod.fst ++ q.pending services library =
          (p.blockedQueue.unready (searchService services library)).map (fun job => job.number) ++
            request.number :: (p.keyPhraseRequests.eraseIdx i).map SuggestionRequest.number) := by
  have hsearch {e' : QueueEvent SearchJob SearchEvent}
      {queue : SerialQueue SearchJob UserDefaults Search (List ImageSuggestion)}
      (hqueue : p.blockedQueue.step (searchService services library) e' = some queue) :
      (handed services library p { p with blockedQueue := queue }).map Prod.fst ++
          (queue.unready (searchService services library)).map (fun job => job.number) =
        (p.blockedQueue.unready (searchService services library) ++ e'.added).map
          fun job => job.number := by
    rw [SerialQueue.unready_step steady_searchService hqueue]
    simp [handed, Function.comp_def]
  rcases step_cases hstep with ⟨startDate, endDate, rfl, rfl⟩ |
    ⟨i, error, request, rfl, hi, rfl⟩ | ⟨i, keyPhrases, request, queue, rfl, hi, hqueue, rfl⟩ |
    ⟨e', queue, he, hqueue, rfl⟩
  · left
    simp [handed, pending, called, SerialQueue.readied_self]
  · refine .inr ⟨i, request, hi, rfl, .inl ⟨error, rfl, ?_⟩⟩
    simp [handed, pending, SerialQueue.readied_self]
  · refine .inr ⟨i, request, hi, rfl, .inr ⟨keyPhrases, rfl, ?_⟩⟩
    rw [pending, ← List.append_assoc]
    refine (congrArg (· ++ _) (hsearch hqueue)).trans ?_
    simp [QueueEvent.added]
  · left
    have hadded : e'.added = [] ∧ p.called e = [] := by
      rcases he with ⟨rfl, rfl⟩ | ⟨e'', rfl, rfl⟩ | ⟨rfl, rfl⟩
      · exact ⟨rfl, rfl⟩
      · exact ⟨rfl, rfl⟩
      · exact ⟨rfl, rfl⟩
    rw [pending, ← List.append_assoc]
    refine (congrArg (· ++ _) (hsearch hqueue)).trans ?_
    rw [hadded.1, hadded.2, List.append_nil, List.append_nil]
    rfl

/-- No call is lost on the way to `process`, and none is made up. -/
theorem perm_handed_append_pending (hstep : p.step services library e = some q) :
    ((handed services library p q).map Prod.fst ++ q.pending services library).Perm
      (p.pending services library ++ p.called e) := by
  rcases handed_append_pending hstep with heq | ⟨i, request, hi, hcalled, hkeyPhrases⟩
  · rw [heq]
  · have herase := (perm_eraseIdx hi).symm
    rw [hcalled, List.append_nil]
    rcases hkeyPhrases with ⟨error, -, heq⟩ | ⟨keyPhrases, -, heq⟩
    · rw [heq]
      exact List.perm_middle.symm.trans (herase.append_left _)
    · rw [heq]
      exact herase.append_left _

/-- The calls stay in order where the key phrases arrive in order. -/
theorem handed_append_pending_of_inOrder (hstep : p.step services library e = some q)
    (horder : p.InOrder services library e) :
    (handed services library p q).map Prod.fst ++ q.pending services library =
      p.pending services library ++ p.called e := by
  rcases handed_append_pending hstep with heq | ⟨i, request, hi, hcalled, hkeyPhrases⟩
  · exact heq
  · have hfirst (hzero : i = 0) : p.keyPhraseRequests.map SuggestionRequest.number =
        request.number :: (p.keyPhraseRequests.eraseIdx i).map SuggestionRequest.number := by
      subst hzero
      cases hrequests : p.keyPhraseRequests with
      | nil =>
        rw [hrequests] at hi
        cases hi
      | cons first requests =>
        rw [hrequests] at hi
        cases hi
        rfl
    rw [hcalled, List.append_nil]
    rcases hkeyPhrases with ⟨error, rfl, heq⟩ | ⟨keyPhrases, rfl, heq⟩
    · obtain ⟨hzero, hnone⟩ := horder
      rw [heq, pending, hfirst hzero, hnone]
      rfl
    · rw [heq, pending, hfirst horder]

/-- Nothing is handed over where no search goes on and no key phrases fail. -/
theorem handed_eq_nil (hfailures : q.failures = p.failures)
    (hqueue : q.blockedQueue = p.blockedQueue) : handed services library p q = [] := by
  simp [handed, hfailures, hqueue, SerialQueue.readied_self]

/-- The calls from some number on, after a step. -/
theorem range'_requests {first : ℕ} (hfirst : first ≤ p.requests)
    (hstep : p.step services library e = some q) : first ≤ q.requests ∧
      List.range' first (q.requests - first) =
        List.range' first (p.requests - first) ++ (p.called e).filter (first ≤ ·) := by
  have hrequests : q.requests = p.requests + (p.called e).length := by
    rcases step_cases hstep with ⟨startDate, endDate, rfl, rfl⟩ | ⟨i, error, request, rfl, -, rfl⟩ |
      ⟨i, keyPhrases, request, queue, rfl, -, -, rfl⟩ | ⟨e', queue, he, -, rfl⟩
    · rfl
    · rfl
    · rfl
    · rcases he with ⟨rfl, -⟩ | ⟨e'', rfl, -⟩ | ⟨rfl, -⟩
      · rfl
      · rfl
      · rfl
  refine ⟨by omega, ?_⟩
  cases e with
  | relevantImage startDate endDate =>
    have hlast : first + (p.requests - first) = p.requests := by omega
    have hcount : q.requests - first = p.requests - first + 1 := by
      rw [hrequests]
      simp only [called, List.length_singleton]
      omega
    rw [hcount, List.range'_1_concat, hlast, called, List.filter_singleton, decide_eq_true hfirst]
    rfl
  | keyPhrases | start | search | finish => simp [hrequests, called]

/-- The calls that are pending were made, each once. -/
theorem Accounted.pending (h : Accounted p) :
    ∀ number ∈ p.pending services library, number < p.requests := by
  intro number hnumber
  have hsub : number ∈ p.numbers := by
    rcases List.mem_append.mp hnumber with hjob | hrequest
    · obtain ⟨job, hunready, rfl⟩ := List.mem_map.mp hjob
      have hjobs := SerialQueue.mem_jobs_of_mem_unready hunready
      exact List.mem_append_right _ (List.mem_append_right _ (List.mem_map_of_mem hjobs))
    · exact List.mem_append_left _ hrequest
  exact List.mem_range.mp (h.subset hsub)

/-- Where nothing but a call can happen, no call is pending. -/
theorem Sound.pending_eq_nil (h : Sound services library p) (hidle : Idle services library p) :
    p.pending services library = [] := by
  obtain ⟨hrequests, hcurrent, hwaiting⟩ := h.idle_iff.mp hidle
  simp [Provider.pending, SerialQueue.unready, hrequests, hcurrent, hwaiting]

end Provider

/-! ### The strip -/

/-- A compose screen, the provider, and the main queue between them. -/
structure SuggestionStrip where
  /-- How often `relevantImage` was called before the screen was loaded. -/
  first : ℕ
  screen : NewMemory
  provider : Provider
  /-- The blocks in the main queue with suggestions for the screen, by the call that they
  answer. -/
  blocks : List (ℕ × List ImageSuggestion)

/-- What can happen to the screen and the provider. -/
inductive SuggestionStripEvent where
  /-- The screen does what has nothing to do with the provider. -/
  | screen (e : NewMemoryEvent)
  /-- The text view is left, and the provider is asked for the images of a period. -/
  | textViewDidEndEditing (startDate endDate : Date)
  | provider (e : ProviderEvent)
  /-- The first of the blocks runs. -/
  | processImageSuggestions

namespace SuggestionStrip

variable (placeholder : Option UIImage) (services : ℕ → PhotoServices)
  (library : ℕ → PhotoLibrary)

/-- What is handed over to the screen between two states. The answers to earlier calls go to
earlier screens. -/
def handed (s : SuggestionStrip) (_ : SuggestionStripEvent) (t : SuggestionStrip) :
    List (ℕ × List ImageSuggestion) :=
  (Provider.handed services library s.provider t.provider).filter fun answer => s.first ≤ answer.1

/-- One step: `none` where the event cannot happen. What the screen and the provider do together
has events of its own. -/
def step (s : SuggestionStrip) : SuggestionStripEvent → Option SuggestionStrip
  | .screen (.touch .textViewDidEndEditing) => none
  | .screen (.block (.processImageSuggestions _)) => none
  | .screen e => (s.screen.step placeholder e).map fun screen => { s with screen }
  | .textViewDidEndEditing startDate endDate => do
    let screen ← s.screen.step placeholder (.touch .textViewDidEndEditing)
    let provider ← s.provider.step services library (.relevantImage startDate endDate)
    some { s with screen, provider }
  | .provider (.relevantImage _ _) => none
  | .provider e =>
    (s.provider.step services library e).map fun provider =>
      let t := { s with provider }
      { t with blocks := s.blocks ++ handed services library s (.provider e) t }
  | .processImageSuggestions =>
    match s.blocks with
    | [] => none
    | answer :: blocks =>
      (s.screen.step placeholder (.block (.processImageSuggestions answer.2))).map fun screen =>
        { s with screen, blocks }

/-- A new screen, whatever the provider does. -/
def start (provider : Provider) : SuggestionStrip where
  first := provider.requests
  screen := .start placeholder
  provider
  blocks := []

/-- What one step can do. -/
inductive Transition (s : SuggestionStrip) : SuggestionStripEvent → SuggestionStrip → Prop where
  | screen {e : NewMemoryEvent} {screen : NewMemory}
    (hstep : s.screen.step placeholder e = some screen)
    (hblock : ∀ suggestions, e ≠ .block (.processImageSuggestions suggestions)) :
    Transition s (.screen e) { s with screen }
  | called {startDate endDate : Date} {screen : NewMemory} {provider : Provider}
    (hscreen : s.screen.step placeholder (.touch .textViewDidEndEditing) = some screen)
    (hstep : s.provider.step services library (.relevantImage startDate endDate) =
      some provider) :
    Transition s (.textViewDidEndEditing startDate endDate) { s with screen, provider }
  | provided {e : ProviderEvent} {provider : Provider}
    (hcall : ∀ startDate endDate, e ≠ .relevantImage startDate endDate)
    (hstep : s.provider.step services library e = some provider) :
    Transition s (.provider e) { s with
      provider
      blocks := s.blocks ++ handed services library s (.provider e) { s with provider } }
  | processed {answer : ℕ × List ImageSuggestion} {blocks : List (ℕ × List ImageSuggestion)}
    {screen : NewMemory} (hblocks : s.blocks = answer :: blocks)
    (hstep : s.screen.step placeholder (.block (.processImageSuggestions answer.2)) =
      some screen) :
    Transition s .processImageSuggestions { s with screen, blocks }

variable {placeholder services library} {s t : SuggestionStrip} {e : SuggestionStripEvent}

/-- Every step is one of the transitions. -/
theorem transition_of_step (h : s.step placeholder services library e = some t) :
    Transition placeholder services library s e t := by
  unfold step at h
  split at h
  · cases h
  · cases h
  · rename_i e _ hblock
    obtain ⟨screen, hscreen, rfl⟩ := Option.map_eq_some_iff.mp h
    exact .screen hscreen hblock
  · simp only [Option.bind_eq_bind, Option.bind_eq_some_iff, Option.some.injEq] at h
    obtain ⟨screen, hscreen, provider, hprovider, rfl⟩ := h
    exact .called hscreen hprovider
  · cases h
  · rename_i e hcall
    obtain ⟨provider, hprovider, rfl⟩ := Option.map_eq_some_iff.mp h
    exact .provided hcall hprovider
  · split at h
    · cases h
    · rename_i answer blocks hblocks
      obtain ⟨screen, hscreen, rfl⟩ := Option.map_eq_some_iff.mp h
      exact .processed hblocks hscreen

/-! ### What the strip shows -/

/-- The images with which a list of answers leaves the strip. -/
def lastImages (shown : List (ℕ × List ImageSuggestion)) : List UIImage :=
  (shown.getLast?.elim [] Prod.snd).map ImageSuggestion.image

/-- The strip shows the last of the answers that were shown, and the others wait. It is up only
with images. -/
def Shows (s : SuggestionStrip) (answers : List (ℕ × List ImageSuggestion)) : Prop :=
  ∃ shown, answers = shown ++ s.blocks ∧
    s.screen.imageSuggestionViews = Search.slots (lastImages shown) ∧
    (s.screen.imageSuggestionHidden = false → lastImages shown ≠ [])

/-- What has nothing to do with suggestions leaves the slots as they are, and does not bring
the strip up. -/
theorem slots_of_step {screen screen' : NewMemory} {e : NewMemoryEvent}
    (hstep : screen.step placeholder e = some screen')
    (hblock : ∀ suggestions, e ≠ .block (.processImageSuggestions suggestions)) :
    screen'.imageSuggestionViews = screen.imageSuggestionViews ∧
      (screen'.imageSuggestionHidden = false → screen.imageSuggestionHidden = false) := by
  cases e with
  | touch touch =>
    cases NewMemory.formStep_of_step hstep with
    | touched htouch =>
      cases htouch with
      | suggestionTapped i => exact ⟨rfl, nofun⟩
      | save | touchesEnded | textFieldDidBeginEditing | editTitle | textFieldDidEndEditing
      | textViewDidBeginEditing | edit | textViewDidEndEditing | cancelled | picked | tap =>
        exact ⟨rfl, id⟩
  | block block =>
    cases NewMemory.formStep_of_step hstep with
    | blocked hblocked =>
      cases hblocked with
      | processImageSuggestions suggestions => exact absurd rfl (hblock suggestions)
      | viewDidAppear | animationCompleted | highlight => exact ⟨rfl, id⟩
  | analyzed result =>
    cases NewMemory.transition_of_step hstep with
    | analyzed | failed => exact ⟨rfl, id⟩
  | prepare date =>
    cases NewMemory.transition_of_step hstep with
    | prepared => exact ⟨rfl, id⟩

theorem shows_start (provider : Provider) : (start placeholder provider).Shows [] :=
  ⟨[], rfl, rfl, nofun⟩

theorem Shows.step {answers : List (ℕ × List ImageSuggestion)} (h : s.Shows answers)
    (hstep : s.step placeholder services library e = some t) :
    t.Shows (answers ++ handed services library s e t) := by
  obtain ⟨shown, rfl, hslots, hhidden⟩ := h
  cases transition_of_step hstep with
  | screen hscreen hblock =>
    obtain ⟨hsame, hup⟩ := slots_of_step hscreen hblock
    rw [handed, Provider.handed_eq_nil rfl rfl, List.filter_nil, List.append_nil]
    exact ⟨shown, rfl, hsame.trans hslots, fun hshown => hhidden (hup hshown)⟩
  | @called _ _ _ provider hscreen hprovider =>
    obtain ⟨hsame, hup⟩ := slots_of_step hscreen nofun
    have hnone : Provider.handed services library s.provider provider = [] := by
      cases hprovider
      exact Provider.handed_eq_nil rfl rfl
    rw [handed, hnone, List.filter_nil, List.append_nil]
    exact ⟨shown, rfl, hsame.trans hslots, fun hshown => hhidden (hup hshown)⟩
  | provided hcall hprovider =>
    exact ⟨shown, List.append_assoc _ _ _, hslots, hhidden⟩
  | @processed answer blocks screen hblocks hscreen =>
    have hscreen' : screen = s.screen.processImageSuggestions answer.2 := by
      cases NewMemory.formStep_of_step hscreen with
      | blocked hblocked =>
        cases hblocked
        rfl
    have hlast : lastImages (shown ++ [answer]) = answer.2.map ImageSuggestion.image := by
      rw [lastImages, List.getLast?_concat, Option.elim_some]
    rw [handed, Provider.handed_eq_nil rfl rfl, List.filter_nil, List.append_nil, hblocks, hscreen']
    refine ⟨shown ++ [answer], by simp, ?_, fun hup => ?_⟩
    · have hsix : s.screen.imageSuggestionViews.length = 6 := by
        rw [hslots, Search.slots, List.length_map, List.length_range]
      rw [Search.imageSuggestionViews_eq_slots hsix, hlast]
    · rw [hlast]
      intro hempty
      have hnil : answer.2 = [] := List.map_eq_nil_iff.mp hempty
      simp [NewMemory.processImageSuggestions, hnil] at hup

theorem shows_of_run {provider : Provider} {es : List SuggestionStripEvent}
    (hrun : run (step placeholder services library) (start placeholder provider) es = some s) :
    s.Shows (outputs (step placeholder services library) (handed services library)
      (start placeholder provider) es) := by
  have hshows := run_outputs (fun _ _ _ _ h hstep => h.step hstep) (shows_start provider) hrun
  rwa [List.nil_append] at hshows

/-! ### Which calls are answered -/

/-- The answers to the calls of the screen, and the calls that are pending. -/
def numbers (services : ℕ → PhotoServices) (library : ℕ → PhotoLibrary) (s : SuggestionStrip)
    (answers : List (ℕ × List ImageSuggestion)) : List ℕ :=
  answers.map Prod.fst ++ (s.provider.pending services library).filter (s.first ≤ ·)

/-- The calls of the screen, in order. -/
def calls (s : SuggestionStrip) : List ℕ := List.range' s.first (s.provider.requests - s.first)

/-- The key phrases of the calls arrive in the order of the calls. -/
def InOrder (services : ℕ → PhotoServices) (library : ℕ → PhotoLibrary) (s : SuggestionStrip) :
    SuggestionStripEvent → Prop
  | .provider e => s.provider.InOrder services library e
  | _ => True

instance (services : ℕ → PhotoServices) (library : ℕ → PhotoLibrary) (s : SuggestionStrip) :
    ∀ e, Decidable (s.InOrder services library e)
  | .provider e => inferInstanceAs (Decidable (s.provider.InOrder services library e))
  | .screen _ | .textViewDidEndEditing _ _ | .processImageSuggestions => isTrue trivial

variable {answers : List (ℕ × List ImageSuggestion)}

/-- The provider stays as it is, or takes a step of its own. -/
theorem provider_step (hstep : s.step placeholder services library e = some t) :
    t.first = s.first ∧ (t.provider = s.provider ∨
      ∃ e', s.provider.step services library e' = some t.provider ∧
        (s.InOrder services library e → s.provider.InOrder services library e')) := by
  cases transition_of_step hstep with
  | screen | processed => exact ⟨rfl, .inl rfl⟩
  | called _ hprovider => exact ⟨rfl, .inr ⟨_, hprovider, fun _ => trivial⟩⟩
  | provided _ hprovider => exact ⟨rfl, .inr ⟨_, hprovider, id⟩⟩

/-- The answers of a step join those before it. -/
theorem numbers_append_handed (hfirst : t.first = s.first) :
    t.numbers services library (answers ++ handed services library s e t) =
      answers.map Prod.fst ++ ((Provider.handed services library s.provider t.provider).map
        Prod.fst ++ t.provider.pending services library).filter (s.first ≤ ·) := by
  rw [numbers, handed, hfirst, List.map_append, List.append_assoc, List.filter_append,
    List.filter_map]
  rfl

/-- What a step does to the calls and their answers. -/
theorem numbers_step (answers : List (ℕ × List ImageSuggestion))
    (hfirst : s.first ≤ s.provider.requests)
    (hstep : s.step placeholder services library e = some t) :
    t.first ≤ t.provider.requests ∧ ∃ called, t.calls = s.calls ++ called ∧
      (t.numbers services library (answers ++ handed services library s e t)).Perm
        (s.numbers services library answers ++ called) ∧
      (s.InOrder services library e →
        t.numbers services library (answers ++ handed services library s e t) =
          s.numbers services library answers ++ called) := by
  obtain ⟨hsame, hprovider⟩ := provider_step hstep
  rw [numbers_append_handed hsame, calls, hsame]
  rcases hprovider with hprovider | ⟨e', hprovider, horder⟩
  · rw [hprovider, Provider.handed_eq_nil rfl rfl]
    exact ⟨hfirst, [], (List.append_nil _).symm, by simp [numbers], fun _ => by simp [numbers]⟩
  · obtain ⟨hle, hcalls⟩ := Provider.range'_requests hfirst hprovider
    refine ⟨hle, _, hcalls, ?_, fun hinOrder => ?_⟩
    · rw [numbers, List.append_assoc, ← List.filter_append]
      exact ((Provider.perm_handed_append_pending hprovider).filter _).append_left _
    · rw [Provider.handed_append_pending_of_inOrder hprovider (horder hinOrder), numbers,
        List.filter_append, List.append_assoc]

/-- Every call of the screen is answered or pending. -/
structure Answering (services : ℕ → PhotoServices) (library : ℕ → PhotoLibrary)
    (s : SuggestionStrip) (answers : List (ℕ × List ImageSuggestion)) : Prop where
  first_le : s.first ≤ s.provider.requests
  numbers : (s.numbers services library answers).Perm s.calls

theorem Answering.step (h : Answering services library s answers)
    (hstep : s.step placeholder services library e = some t) :
    Answering services library t (answers ++ handed services library s e t) := by
  obtain ⟨hle, called, hcalls, hperm, -⟩ := numbers_step answers h.first_le hstep
  refine ⟨hle, hperm.trans ?_⟩
  rw [hcalls]
  exact h.numbers.append_right called

/-- The calls of the screen are answered in order. -/
structure AnsweringInOrder (services : ℕ → PhotoServices) (library : ℕ → PhotoLibrary)
    (s : SuggestionStrip) (answers : List (ℕ × List ImageSuggestion)) : Prop where
  first_le : s.first ≤ s.provider.requests
  numbers : s.numbers services library answers = s.calls

theorem AnsweringInOrder.step (h : AnsweringInOrder services library s answers)
    (hstep : s.step placeholder services library e = some t)
    (horder : s.InOrder services library e) :
    AnsweringInOrder services library t (answers ++ handed services library s e t) := by
  obtain ⟨hle, called, hcalls, -, heq⟩ := numbers_step answers h.first_le hstep
  refine ⟨hle, (heq horder).trans ?_⟩
  rw [hcalls, h.numbers]

variable {memory : UserDefaults} {before : List ProviderEvent} {p : Provider}
  {es : List SuggestionStripEvent}

/-- A new screen has made no calls. -/
theorem answeringInOrder_start (placeholder : Option UIImage) (services : ℕ → PhotoServices)
    (library : ℕ → PhotoLibrary) (h : p.Accounted) :
    AnsweringInOrder services library (start placeholder p) [] where
  first_le := le_rfl
  numbers := by
    have hnone : (p.pending services library).filter (p.requests ≤ ·) = [] := by
      refine List.filter_eq_nil_iff.mpr fun number hnumber => ?_
      have hlt := h.pending number hnumber
      simpa using hlt
    rw [calls, start, Nat.sub_self]
    exact hnone

theorem answering_of_run (h : p.Accounted)
    (hrun : run (step placeholder services library) (start placeholder p) es = some s) :
    Answering services library s (outputs (step placeholder services library)
      (handed services library) (start placeholder p) es) := by
  have hstart := answeringInOrder_start placeholder services library h
  have hstep (s : SuggestionStrip) (answers : List (ℕ × List ImageSuggestion))
      (e : SuggestionStripEvent) (t : SuggestionStrip) (h : Answering services library s answers)
      (hstep : s.step placeholder services library e = some t) :
      Answering services library t (answers ++ handed services library s e t) := h.step hstep
  have hanswering := run_outputs hstep ⟨hstart.first_le, .of_eq hstart.numbers⟩ hrun
  rwa [List.nil_append] at hanswering

theorem answeringInOrder_of_run (h : p.Accounted)
    (hrun : run (step placeholder services library) (start placeholder p) es = some s)
    (horder : Always (step placeholder services library)
      (fun s e _ => s.InOrder services library e) (start placeholder p) es) :
    AnsweringInOrder services library s (outputs (step placeholder services library)
      (handed services library) (start placeholder p) es) := by
  have hstart := answeringInOrder_start placeholder services library h
  have hstep (s : SuggestionStrip) (answers : List (ℕ × List ImageSuggestion))
      (e : SuggestionStripEvent) (t : SuggestionStrip)
      (h : AnsweringInOrder services library s answers)
      (hstep : s.step placeholder services library e = some t)
      (hinOrder : s.InOrder services library e) :
      AnsweringInOrder services library t (answers ++ handed services library s e t) :=
    h.step hstep hinOrder
  have hanswering := horder.outputs hstep hstart hrun
  rwa [List.nil_append] at hanswering

/-- The provider stays sound while it works for the screen. -/
theorem sound_of_run (h : Provider.Sound services library p)
    (hrun : run (step placeholder services library) (start placeholder p) es = some s) :
    Provider.Sound services library s.provider ∧ s.first = p.requests := by
  refine run_invariant (I := fun s : SuggestionStrip =>
    Provider.Sound services library s.provider ∧ s.first = p.requests) ?_ ⟨h, rfl⟩ hrun
  intro s e t ⟨h, hfirst⟩ hstep
  obtain ⟨hsame, hprovider | ⟨e', hprovider, -⟩⟩ := provider_step hstep
  · exact ⟨hprovider ▸ h, hsame.trans hfirst⟩
  · exact ⟨h.step hprovider, hsame.trans hfirst⟩

/-- Where the provider is idle, every call of the screen is answered. -/
theorem numbers_eq_of_idle (hsound : Provider.Sound services library s.provider)
    (hidle : Provider.Idle services library s.provider) :
    s.numbers services library answers = answers.map Prod.fst := by
  rw [numbers, hsound.pending_eq_nil hidle, List.filter_nil, List.append_nil]

/-- **The strip shows what was handed over last.** In every run of a compose screen and the
provider, which may still work for earlier screens, the slots hold the images of the last
answer whose block has run, and the strip is up only with images. There is at most one answer
for each call of the screen and none for other calls, and when nothing is left to do there is
one for each. -/
theorem strip_of_run (hbefore : run (Provider.step services library) (.initial memory) before =
      some p) (hrun : run (step placeholder services library) (start placeholder p) es = some s) :
    let answers := outputs (step placeholder services library) (handed services library)
      (start placeholder p) es
    s.Shows answers ∧
      s.calls = List.range' p.requests (s.provider.requests - p.requests) ∧
      (answers.map Prod.fst).Nodup ∧ answers.map Prod.fst ⊆ s.calls ∧
      (Provider.Idle services library s.provider → (answers.map Prod.fst).Perm s.calls) := by
  intro answers
  have hprovider := Provider.sound_of_run hbefore
  obtain ⟨hsound, hfirst⟩ := sound_of_run hprovider hrun
  have hanswering := answering_of_run hprovider.accounted hrun
  have hcalls : s.calls.Nodup := List.nodup_range'
  refine ⟨shows_of_run hrun, by rw [calls, hfirst], ?_, ?_, fun hidle => ?_⟩
  · exact (hanswering.numbers.nodup_iff.mpr hcalls).of_append_left
  · exact fun number hnumber => hanswering.numbers.subset (List.mem_append_left _ hnumber)
  · exact numbers_eq_of_idle hsound hidle ▸ hanswering.numbers

/-- The text view is left twice. The key phrases of the second text fail while the photos of the
first one are searched. -/
def overtaken : List SuggestionStripEvent :=
  [.screen (.touch .textViewDidBeginEditing), .textViewDidEndEditing 0 9,
    .screen (.touch .textViewDidBeginEditing), .textViewDidEndEditing 0 9,
    .provider (.keyPhrases 0 (.ok ["dog"])), .provider (.keyPhrases 0 (.error "offline")),
    .provider .start] ++ Search.reversedSearch.map (.provider ∘ .search) ++
      [.provider .finish, .processImageSuggestions, .processImageSuggestions]

/-- The strip is left with the photos of the first text. -/
theorem strip_overtaken :
    ∃ p, run (Provider.step (fun _ => Search.dogServices) fun _ => Search.dogPhotos)
        (.initial fun _ => none) [] = some p ∧
      ∃ s, run (step none (fun _ => Search.dogServices) fun _ => Search.dogPhotos)
          (start none p) overtaken = some s ∧
        let answers := outputs (step none (fun _ => Search.dogServices) fun _ => Search.dogPhotos)
          (handed (fun _ => Search.dogServices) fun _ => Search.dogPhotos) (start none p) overtaken
        s.Shows answers ∧
          s.calls = List.range' p.requests (s.provider.requests - p.requests) ∧
          (answers.map Prod.fst).Nodup ∧ answers.map Prod.fst ⊆ s.calls ∧
          (Provider.Idle (fun _ => Search.dogServices) (fun _ => Search.dogPhotos) s.provider →
            (answers.map Prod.fst).Perm s.calls) := by
  have hsome : (run (step none (fun _ => Search.dogServices) fun _ => Search.dogPhotos)
      (start none (.initial fun _ => none)) overtaken).isSome = true := by decide +kernel
  obtain ⟨s, hrun⟩ := Option.isSome_iff_exists.mp hsome
  have hbefore : run (Provider.step (fun _ => Search.dogServices) fun _ => Search.dogPhotos)
      (.initial fun _ => none) [] = some (.initial fun _ => none) := rfl
  exact ⟨_, rfl, s, hrun, strip_of_run hbefore hrun⟩

example : (run (step none (fun _ => Search.dogServices) fun _ => Search.dogPhotos)
      (start none (.initial fun _ => none)) overtaken).map (fun s =>
        (s.screen.imageSuggestionHidden, s.screen.imageSuggestionViews.take 3)) =
    some (false, [some ⟨some [1]⟩, some ⟨some [2]⟩, none]) := by decide +kernel

/-- **The strip is up to date where the key phrases arrive in order.** In a run of a compose
screen and the provider in which the key phrases of the calls arrive in the order of the calls,
and fail only where no search of an earlier call waits or runs, the answers come in the order
of the calls. When nothing is left to do the slots hold the images for the last call. -/
theorem upToDate_of_run (hbefore : run (Provider.step services library) (.initial memory) before =
      some p) (hrun : run (step placeholder services library) (start placeholder p) es = some s)
    (horder : Always (step placeholder services library)
      (fun s e _ => s.InOrder services library e) (start placeholder p) es) :
    let answers := outputs (step placeholder services library) (handed services library)
      (start placeholder p) es
    answers.map Prod.fst <+: List.range' p.requests (s.provider.requests - p.requests) ∧
      (Provider.Idle services library s.provider → s.blocks = [] →
        p.requests < s.provider.requests →
        ∃ images, (s.provider.requests - 1, images) ∈ answers ∧
          s.screen.imageSuggestionViews = Search.slots (images.map ImageSuggestion.image)) := by
  intro answers
  have hprovider := Provider.sound_of_run hbefore
  obtain ⟨hsound, hfirst⟩ := sound_of_run hprovider hrun
  have hnumbers := (answeringInOrder_of_run hprovider.accounted hrun horder).numbers
  rw [calls, hfirst] at hnumbers
  refine ⟨hnumbers ▸ List.prefix_append _ _, fun hidle hblocks hcall => ?_⟩
  rw [numbers_eq_of_idle hsound hidle] at hnumbers
  obtain ⟨shown, hshown, hslots, -⟩ := shows_of_run hrun
  rw [hblocks, List.append_nil] at hshown
  have hlast := congrArg List.getLast? hnumbers
  rw [List.getLast?_map, List.getLast?_range', if_neg (by omega)] at hlast
  obtain ⟨⟨number, images⟩, hanswer, hnumber⟩ := Option.map_eq_some_iff.mp hlast
  have heq : number = s.provider.requests - 1 := by
    simp only at hnumber
    omega
  refine ⟨images, heq ▸ List.mem_of_getLast? hanswer, ?_⟩
  rw [hslots, ← hshown, lastImages, hanswer]
  rfl

/-- The key phrases of the second text fail when the search for the first one has ended. -/
def inTurn : List SuggestionStripEvent :=
  [.screen (.touch .textViewDidBeginEditing), .textViewDidEndEditing 0 9,
    .screen (.touch .textViewDidBeginEditing), .textViewDidEndEditing 0 9,
    .provider (.keyPhrases 0 (.ok ["dog"])), .provider .start] ++
      Search.reversedSearch.map (.provider ∘ .search) ++
        [.provider .finish, .provider (.keyPhrases 0 (.error "offline")),
          .processImageSuggestions, .processImageSuggestions]

/-- The strip is left with no photos, as it should be for the second text. -/
theorem upToDate_inTurn :
    ∃ p, run (Provider.step (fun _ => Search.dogServices) fun _ => Search.dogPhotos)
        (.initial fun _ => none) [] = some p ∧
      ∃ s, run (step none (fun _ => Search.dogServices) fun _ => Search.dogPhotos)
          (start none p) inTurn = some s ∧
        let answers := outputs (step none (fun _ => Search.dogServices) fun _ => Search.dogPhotos)
          (handed (fun _ => Search.dogServices) fun _ => Search.dogPhotos) (start none p) inTurn
        answers.map Prod.fst <+: List.range' p.requests (s.provider.requests - p.requests) ∧
          (Provider.Idle (fun _ => Search.dogServices) (fun _ => Search.dogPhotos) s.provider →
            s.blocks = [] → p.requests < s.provider.requests →
            ∃ images, (s.provider.requests - 1, images) ∈ answers ∧
              s.screen.imageSuggestionViews =
                Search.slots (images.map ImageSuggestion.image)) := by
  have hsome : (run (step none (fun _ => Search.dogServices) fun _ => Search.dogPhotos)
      (start none (.initial fun _ => none)) inTurn).isSome = true := by decide +kernel
  obtain ⟨s, hrun⟩ := Option.isSome_iff_exists.mp hsome
  have horder : Always (step none (fun _ => Search.dogServices) fun _ => Search.dogPhotos)
      (fun s e _ => s.InOrder (fun _ => Search.dogServices) (fun _ => Search.dogPhotos) e)
      (start none (.initial fun _ => none)) inTurn := by decide +kernel
  have hbefore : run (Provider.step (fun _ => Search.dogServices) fun _ => Search.dogPhotos)
      (.initial fun _ => none) [] = some (.initial fun _ => none) := rfl
  exact ⟨_, rfl, s, hrun, upToDate_of_run hbefore hrun horder⟩

end SuggestionStrip

end FeelBetter
