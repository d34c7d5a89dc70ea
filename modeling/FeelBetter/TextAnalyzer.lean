import FeelBetter.Firebase

/-!
# The text analysis service

`TextAnalzyer.request` posts one text and hands the first document of the
response to `process`. The decoding of the body is a parameter; what becomes
of a decoded body is not. `process` may act on any state.
-/

namespace FeelBetter

/-- What the data task of a request reports when it completes. -/
structure DataTaskOutcome where
  data : Option Data
  error : Option RequestError
  deriving DecidableEq

namespace TextAnalyzer

/-- The response to a request, by the results for the texts that were posted. -/
structure Response (Content : Type) where
  documents : List Content
  deriving DecidableEq

/-- `TextAnalzyer.KeyPhrases`. -/
structure KeyPhrases where
  keyPhrases : List String
  deriving DecidableEq

variable {σ Content : Type} (decode : Data → Except RequestError (Response Content))

/-- `Result { try JSONDecoder().decode(…).documents.first! }`: an error that is thrown
becomes a failure, a trap does not. -/
def firstDocument (data : Data) : EStateM Trap σ (Result Content) :=
  match decode data with
  | .error error => pure (.error error)
  | .ok response =>
    match response.documents with
    | document :: _ => pure (.ok document)
    | [] => throw .noDocuments

/-- The completion handler of `TextAnalzyer.request`. -/
def request (outcome : DataTaskOutcome) (process : Result Content → EStateM Trap σ Unit) :
    EStateM Trap σ Unit :=
  match outcome.data with
  | none =>
    match outcome.error with
    | some error => process (.error error)
    | none => throw .noError
  | some data => do
    let result ← firstDocument decode data
    process result

/-- The completion handler of `TextAnalzyer.keyPhrases`. -/
def keyPhrases (decode : Data → Except RequestError (Response KeyPhrases))
    (outcome : DataTaskOutcome) (process : Result (List String) → EStateM Trap σ Unit) :
    EStateM Trap σ Unit :=
  request decode outcome fun result => process (result.map KeyPhrases.keyPhrases)

/-- What a request makes of an outcome; `none` where it traps. -/
def answer (outcome : DataTaskOutcome) : Option (Result Content) :=
  match outcome.data with
  | none => outcome.error.map .error
  | some data =>
    match decode data with
    | .error error => some (.error error)
    | .ok response => response.documents.head?.map .ok

/-- The outcome is an error or a body, and a body that decodes has a document. -/
def Answered (outcome : DataTaskOutcome) : Prop :=
  match outcome.data with
  | none => outcome.error.isSome
  | some data => ∀ response, decode data = .ok response → response.documents ≠ []

/-- A request has an answer for exactly these outcomes. -/
theorem answered_iff (outcome : DataTaskOutcome) :
    Answered decode outcome ↔ ∃ result, answer decode outcome = some result := by
  rw [← Option.isSome_iff_exists, Answered, answer]
  cases outcome.data with
  | none => simp
  | some data =>
    cases hdecode : decode data with
    | error error => simp [hdecode]
    | ok response => cases hdocuments : response.documents <;> simp [hdecode, hdocuments]

/-- The answer is a success exactly where the body decodes and has a first document. -/
theorem answer_eq_ok_iff {outcome : DataTaskOutcome} {document : Content} :
    answer decode outcome = some (.ok document) ↔ ∃ data documents,
      outcome.data = some data ∧ decode data = .ok ⟨document :: documents⟩ := by
  rw [answer]
  cases outcome.data with
  | none => simp
  | some data =>
    cases hdecode : decode data with
    | error error => simp [hdecode]
    | ok response =>
      obtain ⟨documents⟩ := response
      simp only [Option.map_eq_some_iff, List.head?_eq_some_iff, hdecode, Except.ok.injEq,
        exists_eq_right, Option.some.injEq]
      constructor
      · rintro ⟨rest, rfl⟩
        exact ⟨data, rest, rfl, hdecode⟩
      · rintro ⟨_, rest, rfl, hrest⟩
        rw [hdecode, Except.ok.injEq, Response.mk.injEq] at hrest
        exact ⟨rest, hrest⟩

/-- Where there is an answer, a request is one call of `process` with it. -/
theorem request_eq_process {outcome : DataTaskOutcome} {result : Result Content}
    (h : answer decode outcome = some result) (process : Result Content → EStateM Trap σ Unit) :
    request decode outcome process = process result := by
  rw [answer] at h
  rw [request]
  cases hdata : outcome.data with
  | none =>
    rw [hdata] at h
    obtain ⟨error, herror, rfl⟩ := Option.map_eq_some_iff.mp h
    simp only [herror]
  | some data =>
    rw [hdata] at h
    cases hdecode : decode data with
    | error error =>
      simp only [hdecode, Option.some.injEq] at h
      simp only [firstDocument, hdecode, ← h]
      rfl
    | ok response =>
      simp only [hdecode] at h
      obtain ⟨document, hdocument, rfl⟩ := Option.map_eq_some_iff.mp h
      obtain ⟨documents, hdocuments⟩ := List.head?_eq_some_iff.mp hdocument
      simp only [firstDocument, hdecode, hdocuments]
      rfl

/-- Where there is none, a request traps and does not call `process`. -/
theorem request_eq_trap {outcome : DataTaskOutcome} (h : answer decode outcome = none) :
    ∃ trap, ∀ (σ : Type) (process : Result Content → EStateM Trap σ Unit),
      request decode outcome process = throw trap := by
  rw [answer] at h
  cases hdata : outcome.data with
  | none =>
    rw [hdata] at h
    refine ⟨.noError, fun σ process => ?_⟩
    simp only [request, hdata, Option.map_eq_none_iff.mp h]
  | some data =>
    rw [hdata] at h
    cases hdecode : decode data with
    | error error => simp [hdecode] at h
    | ok response =>
      simp only [hdecode, Option.map_eq_none_iff, List.head?_eq_none_iff] at h
      refine ⟨.noDocuments, fun σ process => ?_⟩
      simp only [request, hdata, firstDocument, hdecode, h]
      rfl

end TextAnalyzer

end FeelBetter
