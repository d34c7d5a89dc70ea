import FeelBetter.Memories.Transitions
import FeelBetter.TextAnalyzer

/-!
# Saving a new memory

A composed memory is written only when its key phrases request completes. The
completion falls back on no tags at all where the request fails, but a body
without documents does not fail: it traps, and the memory is lost.
-/

namespace FeelBetter

open MemoriesTable TextAnalyzer

variable (decode : Data → Except RequestError (Response KeyPhrases))

/-- The key phrases that the service returned for the text; none on every failure. -/
def returnedPhrases (outcome : DataTaskOutcome) : List String :=
  match outcome.data.map decode with
  | some (.ok ⟨document :: _⟩) => document.keyPhrases
  | _ => []

/-- One document has been written: the memory with its tags, in the diaries of the
signed-in user. -/
def Cloud.WrittenOnce (c c' : Cloud) (documentID : DocumentID) (memory : LocalMemory)
    (tags : List String) : Prop :=
  ∃ uid, c.currentUser = some uid ∧ c'.diaries = Function.update c.diaries uid
    ((c.diaries uid).insert documentID (Document.ofMemory memory tags))

/-- The request calls its `process` exactly once, whatever that is, and the completion
for a new memory then runs to its end and writes the memory with the returned key
phrases, exactly once. -/
def SavedOnce (outcome : DataTaskOutcome) (request : KeyPhrasesRequest) (newID : DocumentID)
    (s : App) : Prop :=
  ∃ result t,
    (∀ (σ : Type) (process : Result (List String) → EStateM Trap σ Unit),
      keyPhrases decode outcome process = process result) ∧
    (keyPhrases decode outcome fun result => keyPhrasesCompletion request result newID).run s =
      .ok () t ∧
    s.cloud.WrittenOnce t.cloud newID request.memory (returnedPhrases decode outcome)

/-- The completion for a new memory writes it where somebody is signed in. -/
theorem run_keyPhrasesCompletion_some {s : App} {request : KeyPhrasesRequest} {uid : Uid}
    (hnew : request.selectedRow = none) (huser : s.cloud.currentUser = some uid)
    (result : Result (List String)) (newID : DocumentID) :
    ∃ t, (keyPhrasesCompletion request result newID).run s = .ok () t ∧
      s.cloud.WrittenOnce t.cloud newID request.memory (tagsOf result) := by
  simp only [keyPhrasesCompletion, hnew, note, EStateM.run_bind, EStateM.run_modify,
    run_onCloud, Firebase.run_saveNewMemory_some huser]
  refine ⟨_, rfl, uid, huser, ?_⟩
  rw [Cloud.diaries_written]
  rfl

/-- The tags of a saved memory are the key phrases returned. -/
theorem tagsOf_answer {outcome : DataTaskOutcome} {result : Result KeyPhrases}
    (h : answer decode outcome = some result) :
    tagsOf (result.map KeyPhrases.keyPhrases) = returnedPhrases decode outcome := by
  rw [answer] at h
  rw [returnedPhrases]
  cases hdata : outcome.data with
  | none =>
    rw [hdata] at h
    obtain ⟨error, _, rfl⟩ := Option.map_eq_some_iff.mp h
    rfl
  | some data =>
    rw [hdata] at h
    rw [Option.map_some]
    cases hdecode : decode data with
    | error error =>
      simp only [hdecode, Option.some.injEq] at h
      rw [← h]
      rfl
    | ok response =>
      obtain ⟨documents⟩ := response
      simp only [hdecode] at h
      obtain ⟨document, hdocument, rfl⟩ := Option.map_eq_some_iff.mp h
      obtain ⟨rest, rfl⟩ := List.head?_eq_some_iff.mp hdocument
      rfl

/-- **A new memory is saved** whatever the service answers, except that a body without
documents traps; and nobody being signed in traps as well. -/
theorem savedOnce_iff (outcome : DataTaskOutcome) (submitted s : App) (memory : LocalMemory)
    (newID : DocumentID) :
    SavedOnce decode outcome (submitted.request memory none) newID s ↔
      Answered decode outcome ∧ s.cloud.currentUser.isSome := by
  have hnew : (submitted.request memory none).selectedRow = none := rfl
  cases hanswer : answer decode outcome with
  | none =>
    obtain ⟨trap, htrap⟩ := request_eq_trap decode hanswer
    constructor
    · rintro ⟨result, t, honce, _⟩
      -- a `process` that does nothing tells a call from a trap
      have hcall := honce Unit fun _ => pure ()
      rw [keyPhrases, htrap] at hcall
      cases congrFun hcall ()
    · rintro ⟨hanswered, _⟩
      obtain ⟨result, hresult⟩ := (answered_iff decode outcome).mp hanswered
      cases hanswer.symm.trans hresult
  | some result =>
    have honce (σ : Type) (process : Result (List String) → EStateM Trap σ Unit) :
        keyPhrases decode outcome process = process (result.map KeyPhrases.keyPhrases) :=
      request_eq_process decode hanswer _
    have hanswered : Answered decode outcome := (answered_iff decode outcome).mpr ⟨_, hanswer⟩
    constructor
    · rintro ⟨_, t, _, _, uid, huser, _⟩
      exact ⟨hanswered, by rw [huser]; rfl⟩
    · rintro ⟨_, huser⟩
      obtain ⟨uid, huser⟩ := Option.isSome_iff_exists.mp huser
      obtain ⟨t, hrun, hwritten⟩ := run_keyPhrasesCompletion_some hnew huser
        (result.map KeyPhrases.keyPhrases) newID
      rw [tagsOf_answer decode hanswer] at hwritten
      exact ⟨_, t, honce, by rw [honce, hrun], hwritten⟩

/-- The body with which the service rejects a text: no documents. -/
def rejection : Data := "\x7b\"documents\":[]\x7d".toUTF8.toList

/-- The rejection of a text ends the application before anything is written. -/
theorem not_savedOnce_rejection :
    ¬∀ (decode : Data → Except RequestError (Response KeyPhrases)) (outcome : DataTaskOutcome)
      (submitted s : App) (memory : LocalMemory) (newID : DocumentID),
      outcome.data.isSome ∨ outcome.error.isSome → s.cloud.currentUser.isSome →
      SavedOnce decode outcome (submitted.request memory none) newID s := by
  intro h
  have hsaved := h (fun data => if data = rejection then .ok ⟨[]⟩ else .error "dataCorrupted")
    ⟨some rejection, none⟩ (App.start sampleCloud) (App.start sampleCloud) (sampleMemory 1) "a"
    (.inl rfl) rfl
  obtain ⟨result, t, _, hrun, _⟩ := hsaved
  simp [keyPhrases, TextAnalyzer.request, firstDocument] at hrun

end FeelBetter
