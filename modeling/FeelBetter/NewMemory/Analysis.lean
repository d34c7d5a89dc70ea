import FeelBetter.NewMemory.Override

/-!
# The analysis of a text and the suggested emoji

The completion of an analysis forces the result. Whatever keeps the service from
scoring the text therefore ends the application, the text included. A score
that there is lies between 0 and 100, and its button is enlarged, except that
100 is outside the ranges of all buttons.
-/

namespace FeelBetter

open TextAnalyzer

namespace NewMemory

variable (decode : Data → Except RequestError (Response SentimentAnalysisResult))

/-- The completion of an analysis runs to its end. A success assigns its score, which is
between 0 and 100; on a failure the sentiment is as before. -/
def Survives (outcome : DataTaskOutcome) (s : NewMemory) : Prop :=
  ∃ t, (analyzeSentiment decode outcome sentimentCompletion).run s = .ok () t ∧
    match answer decode outcome with
    | some (.ok result) => result.score = some t.newMemorySentiment ∧
        0 ≤ t.newMemorySentiment ∧ t.newMemorySentiment ≤ 100
    | _ => t.newMemorySentiment = s.newMemorySentiment

/-- The body decodes, and its first document has a sentence. -/
def HasSentence (outcome : DataTaskOutcome) : Prop :=
  ∃ data document documents, outcome.data = some data ∧
    decode data = .ok ⟨document :: documents⟩ ∧ document.sentences ≠ []

/-- The positive and negative scores of all sentences are fractions. -/
def InUnit (outcome : DataTaskOutcome) : Prop :=
  ∀ data response, outcome.data = some data → decode data = .ok response →
    ∀ document ∈ response.documents, ∀ sentence ∈ document.sentences,
      sentence.sentenceScores.InUnit

/-- **The popup survives an analysis** exactly where the body decodes and its first document
has a sentence. -/
theorem survives_iff {outcome : DataTaskOutcome} (hunit : InUnit decode outcome)
    (s : NewMemory) : Survives decode outcome s ↔ HasSentence decode outcome := by
  constructor
  · rintro ⟨t, hrun, _⟩
    cases hanswer : answer decode outcome with
    | none =>
      obtain ⟨trap, htrap⟩ := request_eq_trap decode hanswer
      rw [analyzeSentiment, htrap] at hrun
      cases hrun
    | some result =>
      rw [analyzeSentiment, request_eq_process decode hanswer] at hrun
      cases hscore : scoreOf result with
      | none =>
        obtain ⟨trap, htrap⟩ := run_sentimentCompletion_of_none hscore s
        rw [htrap] at hrun
        cases hrun
      | some n =>
        -- there is a score, so the answer is a success with sentences
        cases result with
        | error error => cases hscore
        | ok document =>
          obtain ⟨data, documents, hdata, hdecode⟩ := (answer_eq_ok_iff decode).mp hanswer
          have hsome : document.score.isSome := by
            rw [show document.score = some n from hscore]
            rfl
          have hne := SentimentAnalysisResult.isSome_score_iff.mp hsome
          exact ⟨data, document, documents, hdata, hdecode, hne⟩
  · rintro ⟨data, document, documents, hdata, hdecode, hne⟩
    have hanswer : answer decode outcome = some (.ok document) :=
      (answer_eq_ok_iff decode).mpr ⟨data, documents, hdata, hdecode⟩
    obtain ⟨n, hn⟩ := Option.isSome_iff_exists.mp (SentimentAnalysisResult.isSome_score_iff.mpr hne)
    have hscore : scoreOf (.ok document) = some n := hn
    have hmem := SentimentAnalysisResult.score_mem hn
      (hunit data _ hdata hdecode document List.mem_cons_self)
    refine ⟨{ s with newMemorySentiment := n, highlights := s.highlights + 1 }, ?_, ?_⟩
    · rw [analyzeSentiment, request_eq_process decode hanswer]
      exact run_sentimentCompletion_of_some hscore s
    · rw [hanswer]
      exact ⟨hn, hmem⟩

/-- A body that decodes to the analysis of one text. -/
theorem survives_seventy :
    Survives (fun _ => .ok ⟨[.ofScore 70]⟩) ⟨some [], none⟩ (start none) := by
  have hunit : InUnit (fun _ => .ok ⟨[.ofScore 70]⟩) ⟨some [], none⟩ := by
    intro data response hdata hdecode document hdocument
    obtain rfl := Except.ok.inj hdecode
    obtain rfl := List.mem_singleton.mp hdocument
    exact SentimentAnalysisResult.inUnit_ofScore (by decide) (by decide)
  exact (survives_iff _ hunit _).mpr ⟨[], .ofScore 70, [], rfl, rfl, by decide⟩

/-- Without a connection the application ends. -/
theorem not_survives_offline :
    ¬∀ (decode : Data → Except RequestError (Response SentimentAnalysisResult))
      (outcome : DataTaskOutcome) (s : NewMemory), outcome.data.isSome ∨ outcome.error.isSome →
      InUnit decode outcome → Survives decode outcome s := by
  intro h
  obtain ⟨t, hrun, _⟩ := h (fun _ => .error "dataCorrupted") ⟨none, some "notConnectedToInternet"⟩
    (start none) (.inr rfl) (by rintro _ _ ⟨⟩)
  cases hrun

/-! ### The suggested emoji -/

/-- After the highlight of a score one button is enlarged, the one of its emoji. -/
def Suggests (n : ℤ) : Prop :=
  ∀ s : NewMemory, s.newMemorySentiment = n → ∃ button : OverrideButton,
    button.emoji = sentimentEmoji n ∧ ∀ b, s.highlight.fontSize b = 65 ↔ b = button

/-- A score is suggested by its emoji exactly below 100. -/
theorem suggests_iff {n : ℤ} (hlo : 0 ≤ n) : Suggests n ↔ n < 100 := by
  constructor
  · intro h
    by_contra hhi
    obtain ⟨button, _, henlarged⟩ := h { start none with newMemorySentiment := n } rfl
    have hbutton := fontSize_highlight_iff.mp ((henlarged button).mpr rfl)
    rw [OverrideButton.highlighted_eq_none (not_lt.mp hhi)] at hbutton
    cases hbutton
  · rintro hhi s rfl
    obtain ⟨button, hhighlighted, hbutton⟩ := OverrideButton.exists_highlighted hlo hhi
    refine ⟨button, hbutton, fun b => ?_⟩
    rw [fontSize_highlight_iff, hhighlighted, Option.some.injEq, eq_comm]

/-- **The suggested emoji is the displayed emoji** of the score, which lies between the scores
of the sentences, exactly where some sentence is not positive throughout. -/
theorem suggestedEmoji_iff {result : SentimentAnalysisResult} (hne : result.sentences ≠ [])
    (hunit : ∀ sentence ∈ result.sentences, sentence.sentenceScores.InUnit) :
    (∃ n, result.score = some n ∧ (∃ sentence ∈ result.sentences, sentence.score ≤ n) ∧
      (∃ sentence ∈ result.sentences, n ≤ sentence.score) ∧ 0 ≤ n ∧ n ≤ 100 ∧ Suggests n) ↔
    ∃ sentence ∈ result.sentences,
      ¬(sentence.sentenceScores.positive = 1 ∧ sentence.sentenceScores.negative = 0) := by
  obtain ⟨n, hn⟩ := Option.isSome_iff_exists.mp (SentimentAnalysisResult.isSome_score_iff.mpr hne)
  obtain ⟨hlo, hhi⟩ := SentimentAnalysisResult.score_mem hn hunit
  obtain ⟨hleast, hgreatest⟩ := SentimentAnalysisResult.score_between hn
  rw [← SentimentAnalysisResult.score_lt_iff hn hunit, ← suggests_iff hlo]
  constructor
  · rintro ⟨m, hm, _, _, _, _, hsuggests⟩
    obtain rfl := Option.some.inj (hn.symm.trans hm)
    exact hsuggests
  · intro hsuggests
    exact ⟨n, hn, hleast, hgreatest, hlo, hhi, hsuggests⟩

/-- A sentence that is positive throughout, and one of two minds. -/
def twoSentences : SentimentAnalysisResult := ⟨[⟨⟨1, 0⟩⟩, ⟨⟨1 / 2, 1 / 2⟩⟩]⟩

/-- The score of the two sentences has a button and lies between theirs. -/
theorem suggestedEmoji_twoSentences : ∃ n, twoSentences.score = some n ∧
    (∃ sentence ∈ twoSentences.sentences, sentence.score ≤ n) ∧
    (∃ sentence ∈ twoSentences.sentences, n ≤ sentence.score) ∧ 0 ≤ n ∧ n ≤ 100 ∧
    Suggests n := by
  have hunit : ∀ sentence ∈ twoSentences.sentences, sentence.sentenceScores.InUnit := by
    intro sentence hmem
    simp only [twoSentences, List.mem_cons, List.not_mem_nil, or_false] at hmem
    rcases hmem with rfl | rfl
    · constructor <;> norm_num
    · constructor <;> norm_num
  exact (suggestedEmoji_iff (by decide) hunit).mpr
    ⟨_, List.mem_cons_of_mem _ List.mem_cons_self, by norm_num⟩

example : twoSentences.score = some 75 ∧ twoSentences.sentences.map Sentence.score = [100, 50] := by
  decide +kernel

/-- For a text that is positive throughout no button is enlarged. -/
theorem no_suggestion_at_hundred :
    ¬∀ (result : SentimentAnalysisResult) (n : ℤ), result.sentences ≠ [] →
      (∀ sentence ∈ result.sentences, sentence.sentenceScores.InUnit ∧
        sentence.sentenceScores.positive + sentence.sentenceScores.negative ≤ 1) →
      result.score = some n → Suggests n := by
  intro h
  have hunit := SentimentAnalysisResult.inUnit_ofScore (n := 100) (by decide) (by decide)
  have hsuggests := h (.ofScore 100) 100 (by decide) (fun sentence hmem => ⟨hunit sentence hmem, by
    obtain rfl := List.mem_singleton.mp hmem
    norm_num⟩) (SentimentAnalysisResult.score_ofScore 100)
  exact absurd ((suggests_iff (by decide)).mp hsuggests) (by decide)

end NewMemory

end FeelBetter
