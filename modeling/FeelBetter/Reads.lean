import FeelBetter.Home
import FeelBetter.Queries
import FeelBetter.Tally

/-!
# The answers of the reads

Every read of `Firebase.swift` makes a request and hands its outcome to the callback of
the caller. A failed request is a failure for the caller, except in `getMemory`, which
returns without a word where there is no document to decode.
-/

namespace FeelBetter

/-- What a request hands to its completion. -/
structure RequestOutcome (α : Type) where
  value : Option α
  error : Option RequestError
  deriving DecidableEq

namespace RequestOutcome

variable {α β : Type}

/-- The request calls back with a value or with an error. -/
def Reported (outcome : RequestOutcome α) : Prop := outcome.value.isNone ↔ outcome.error.isSome

/-- The outcome as a result. -/
def toResult (outcome : RequestOutcome α) : Result α :=
  match outcome.value with
  | some value => .ok value
  | none => .error (outcome.error.getD "")

end RequestOutcome

/-- The callback of a caller. -/
abbrev Process (α : Type) := Result α → CloudAction Unit

/-- A document in the answer to a query. -/
structure QueryDocument where
  documentID : DocumentID
  data : Document
  deriving DecidableEq

namespace Firebase

/-- The completion that `getImage`, `fetchAll`, `keywords` and `sentiments` hand to their
requests, by what they make of the value. -/
def answer {α β : Type} (decode : α → β) (outcome : RequestOutcome α) (process : Process β) :
    CloudAction Unit :=
  match outcome.value with
  | some value => process (.ok (decode value))
  | none =>
    match outcome.error with
    | some error => process (.error error)
    | none => throw .noError

/-- `getImage(for:then:)`. -/
def getImageThen (outcome : RequestOutcome URL) (process : Process URL) : CloudAction Unit :=
  answer id outcome process

/-- `fetchAll(then:)`. -/
def fetchAllThen (outcome : RequestOutcome (List QueryDocument))
    (process : Process (List DocumentID)) : CloudAction Unit := do
  let _ ← diariesRef
  answer (List.map QueryDocument.documentID) outcome process

/-- The dictionary that `keywords` makes of the documents. Strings are equal in Swift, and one
key of a dictionary, exactly where they have the same `canonical` form; a key is known by this
form here. -/
def keywordDictionary (canonical : String → String) (documents : List QueryDocument) :
    KeywordDictionary :=
  Tally.tally ((documents.filterMap fun document =>
    document.data.tags.bind FieldValue.asStrings).flatten.map canonical)

/-- The subscript `dictionary[tag]`, which finds the key that is equal to `tag`. -/
def numberOf (canonical : String → String) (dictionary : KeywordDictionary) (tag : String) :
    Option ℤ :=
  dictionary.lookup (canonical tag)

/-- `keywords(between:and:then:)`. -/
def keywordsThen (canonical : String → String) (outcome : RequestOutcome (List QueryDocument))
    (process : Process KeywordDictionary) : CloudAction Unit := do
  let _ ← diariesRef
  answer (keywordDictionary canonical) outcome process

/-- The list that `sentiments` makes of the documents. -/
def sentimentList (documents : List QueryDocument) : List ℤ :=
  documents.filterMap fun document => document.data.sentiment.bind FieldValue.asInt

/-- `sentiments(between:and:then:)`. -/
def sentimentsThen (outcome : RequestOutcome (List QueryDocument))
    (process : Process (List ℤ)) : CloudAction Unit := do
  let _ ← diariesRef
  answer sentimentList outcome process

/-- `getMemory(withID:then:)`. A document that does not exist has no data. -/
def getMemoryThen (documentID : DocumentID) (document : RequestOutcome (Option Document))
    (imageURL : RequestOutcome URL) (process : Process CloudMemory) : CloudAction Unit := do
  let _ ← diariesRef
  match document.value.join with
  | none => pure ()
  | some data =>
    match castMemory documentID data with
    | none => pure ()
    | some memory => getImageThen imageURL fun result => process (.ok (memory result))

/-! ### One answer -/

variable {α β : Type} {c : Cloud}

/-- The caller is called back once, and with success exactly where the value that was asked for
could be decoded. -/
def AnswersOnce (c : Cloud) (read : Process α → CloudAction Unit) (decoded : Option α) : Prop :=
  ∃ result : Result α, (∀ process, (read process).run c = (process result).run c) ∧
    result.toOption = decoded

theorem answer_of_reported (decode : α → β) {outcome : RequestOutcome α}
    (h : outcome.Reported) (process : Process β) :
    answer decode outcome process = process (outcome.toResult.map decode) := by
  obtain ⟨value, error⟩ := outcome
  cases value with
  | some value => rfl
  | none =>
    obtain ⟨error, rfl⟩ := Option.isSome_iff_exists.mp (h.mp rfl)
    rfl

/-- A request that reports is answered once. -/
theorem answersOnce_answer (decode : α → β) {outcome : RequestOutcome α} (h : outcome.Reported) :
    AnswersOnce c (answer decode outcome) (outcome.value.map decode) := by
  refine ⟨outcome.toResult.map decode, fun process => ?_, ?_⟩
  · rw [answer_of_reported decode h]
  · unfold RequestOutcome.toResult
    cases outcome.value <;> rfl

/-- A read of the user's collection answers nobody while nobody is signed in, and otherwise as
the completion of its request does. -/
theorem answersOnce_diariesRef_iff {read : Process α → CloudAction Unit} {decoded : Option α} :
    AnswersOnce c (fun process => diariesRef >>= fun _ => read process) decoded ↔
      c.currentUser.isSome ∧ AnswersOnce c read decoded := by
  cases huser : c.currentUser with
  | none =>
    constructor
    · rintro ⟨result, hrun, -⟩
      have hpure := hrun fun _ => pure ()
      rw [EStateM.run_bind, run_diariesRef_none huser] at hpure
      cases hpure
    · rintro ⟨hsome, -⟩
      cases hsome
  | some uid =>
    have hread (process : Process α) :
        (diariesRef >>= fun _ => read process).run c = (read process).run c := by
      rw [EStateM.run_bind, run_diariesRef_some huser]
    simp only [AnswersOnce, hread, Option.isSome_some, true_and]

/-- A callback that is never called is not called back once. -/
theorem not_answersOnce_pure {decoded : Option α} :
    ¬AnswersOnce c (fun _ => pure ()) decoded := by
  rintro ⟨result, hrun, -⟩
  cases hrun fun _ => throw .noError

/-- The completion of `getMemory` calls back once exactly where it gets a document that can be
decoded. -/
theorem answersOnce_getMemory_iff {documentID : DocumentID}
    {document : RequestOutcome (Option Document)} {imageURL : RequestOutcome URL}
    (himage : imageURL.Reported) :
    AnswersOnce c (getMemoryThen documentID document imageURL)
        (getMemory documentID document.value.join imageURL.toResult) ↔
      c.currentUser.isSome ∧ ∃ data ∈ document.value.join, WellFormed data := by
  rw [← isSome_getMemory_iff documentID document.value.join imageURL.toResult]
  unfold getMemoryThen getMemory
  rw [answersOnce_diariesRef_iff]
  refine and_congr_right fun _ => ?_
  cases document.value.join with
  | none => exact iff_of_false not_answersOnce_pure (by simp)
  | some data =>
    simp only [Option.bind_eq_bind, Option.bind_some]
    cases castMemory documentID data with
    | none => exact iff_of_false not_answersOnce_pure (by simp)
    | some memory =>
      refine iff_of_true ⟨.ok (memory imageURL.toResult), fun process => ?_, rfl⟩ rfl
      have hid : imageURL.toResult.map id = imageURL.toResult := by
        cases imageURL.toResult <;> rfl
      simp only [getImageThen, answer_of_reported id himage, hid]

/-- **Every read answers its caller exactly once**, with success exactly where the value that
was asked for could be decoded, where a user is signed in and the document that `getMemory`
gets is there and has the format of a memory. -/
theorem reads_answerOnce_iff {canonical : String → String} {documentID : DocumentID}
    {document : RequestOutcome (Option Document)} {imageURL : RequestOutcome URL}
    {documents : RequestOutcome (List QueryDocument)} (himage : imageURL.Reported)
    (hdocuments : documents.Reported) :
    (AnswersOnce c (getMemoryThen documentID document imageURL)
        (getMemory documentID document.value.join imageURL.toResult) ∧
      AnswersOnce c (getImageThen imageURL) imageURL.value ∧
      AnswersOnce c (fetchAllThen documents)
        (documents.value.map (List.map QueryDocument.documentID)) ∧
      AnswersOnce c (keywordsThen canonical documents)
        (documents.value.map (keywordDictionary canonical)) ∧
      AnswersOnce c (sentimentsThen documents) (documents.value.map sentimentList)) ↔
    c.currentUser.isSome ∧ ∃ data ∈ document.value.join, WellFormed data := by
  rw [answersOnce_getMemory_iff himage]
  refine and_iff_left_of_imp ?_
  rintro ⟨huser, -⟩
  have hanswer {β : Type} (decode : List QueryDocument → β) :
      AnswersOnce c (fun process => diariesRef >>= fun _ => answer decode documents process)
        (documents.value.map decode) :=
    answersOnce_diariesRef_iff.mpr ⟨huser, answersOnce_answer decode hdocuments⟩
  have himage' : AnswersOnce c (getImageThen imageURL) (imageURL.value.map id) :=
    answersOnce_answer id himage
  rw [Option.map_id_apply] at himage'
  exact ⟨himage', hanswer _, hanswer _, hanswer _⟩

/-- A document with the format of a memory. -/
def goodDay : Document := .ofMemory ⟨"Good day", "sunny", 70, 1, none⟩ ["sun"]

/-- A memory without an image. -/
theorem reads_answerOnce_goodDay :
    AnswersOnce sampleCloud (getMemoryThen "d" ⟨some (some goodDay), none⟩ ⟨none, some "no image"⟩)
        (some ⟨"d", "Good day", "sunny", 70, ["sun"], 1, none⟩) ∧
      AnswersOnce sampleCloud (getImageThen ⟨none, some "no image"⟩) none ∧
      AnswersOnce sampleCloud (fetchAllThen ⟨some [⟨"d", goodDay⟩], none⟩) (some ["d"]) ∧
      AnswersOnce sampleCloud (keywordsThen id ⟨some [⟨"d", goodDay⟩], none⟩)
        (some (keywordDictionary id [⟨"d", goodDay⟩])) ∧
      AnswersOnce sampleCloud (sentimentsThen ⟨some [⟨"d", goodDay⟩], none⟩) (some [70]) := by
  have himage : RequestOutcome.Reported (⟨none, some "no image"⟩ : RequestOutcome URL) := by
    simp [RequestOutcome.Reported]
  have hdocuments : RequestOutcome.Reported
      (⟨some [⟨"d", goodDay⟩], none⟩ : RequestOutcome (List QueryDocument)) := by
    simp [RequestOutcome.Reported]
  have hformat : ∃ data ∈ (some (some goodDay)).join, WellFormed data :=
    ⟨goodDay, rfl, by decide⟩
  exact (reads_answerOnce_iff himage hdocuments).mpr ⟨rfl, hformat⟩

/-- A sentiment that was stored as a double is read where it is an integer. -/
example : WellFormed { goodDay with sentiment := some (.double (.finite 70)) } ∧
    ¬WellFormed { goodDay with sentiment := some (.double (.finite (141 / 2))) } := by
  decide +kernel

/-- Where there is no document, the caller of `getMemory` is not called back. -/
theorem missing_document_unanswered :
    ¬∀ (c : Cloud) (documentID : DocumentID) (document : RequestOutcome (Option Document))
      (imageURL : RequestOutcome URL), c.currentUser.isSome → document.Reported →
      imageURL.Reported →
      AnswersOnce c (getMemoryThen documentID document imageURL)
        (getMemory documentID document.value.join imageURL.toResult) := by
  intro h
  have hanswer := h sampleCloud "d" ⟨some none, none⟩ ⟨none, some "no image"⟩ rfl
    (by simp [RequestOutcome.Reported]) (by simp [RequestOutcome.Reported])
  rw [answersOnce_getMemory_iff (by simp [RequestOutcome.Reported])] at hanswer
  obtain ⟨-, data, hdata, -⟩ := hanswer
  cases hdata

end Firebase

end FeelBetter
