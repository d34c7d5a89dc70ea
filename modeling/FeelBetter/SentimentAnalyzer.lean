import FeelBetter.Rounding
import FeelBetter.TextAnalyzer

/-!
# Sentiment scores

The service scores each sentence of a text. `SentimentAnalysisResult.score` averages
the scores of the sentences, truncated one by one before and as a whole after. The
average of no sentences has no value, and its conversion to an integer traps.
-/

namespace FeelBetter

namespace TextAnalyzer

/-- `SentimentAnalysisResult.Scores`, by what `mixed` reads. -/
structure Scores where
  positive : ℚ
  negative : ℚ
  deriving DecidableEq

/-- `Scores.mixed`. -/
def Scores.mixed (scores : Scores) : ℤ :=
  truncate ((scores.positive - scores.negative + 1) * 50)

/-- `SentimentAnalysisResult.Sentence`, by what its score is read from. -/
structure Sentence where
  sentenceScores : Scores
  deriving DecidableEq

/-- `Sentence.score`. -/
def Sentence.score (sentence : Sentence) : ℤ := sentence.sentenceScores.mixed

/-- `TextAnalzyer.SentimentAnalysisResult`, by what its score is read from. -/
structure SentimentAnalysisResult where
  sentences : List Sentence
  deriving DecidableEq

/-- `SentimentAnalysisResult.score`; `none` where `Int(_:)` traps. -/
def SentimentAnalysisResult.score (result : SentimentAnalysisResult) : Option ℤ :=
  (divide (result.sentences.foldl (fun total sentence => total + sentence.score) 0 : ℤ)
    result.sentences.length).map truncate

/-- The positive and negative scores are fractions, as the service documents them. -/
structure Scores.InUnit (scores : Scores) : Prop where
  positive_nonneg : 0 ≤ scores.positive
  positive_le : scores.positive ≤ 1
  negative_nonneg : 0 ≤ scores.negative
  negative_le : scores.negative ≤ 1

/-- The score of a sentence is between 0 and 100. -/
theorem Scores.InUnit.mixed_mem {scores : Scores} (h : scores.InUnit) :
    0 ≤ scores.mixed ∧ scores.mixed ≤ 100 := by
  obtain ⟨hp, hp', hn, hn'⟩ := h
  constructor
  · apply le_truncate
    push_cast
    linarith
  · apply truncate_le
    push_cast
    linarith

/-- A sentence scores 100 only where it is positive throughout. -/
theorem Scores.InUnit.mixed_lt_iff {scores : Scores} (h : scores.InUnit) :
    scores.mixed < 100 ↔ ¬(scores.positive = 1 ∧ scores.negative = 0) := by
  obtain ⟨hp, hp', hn, hn'⟩ := h
  have hnonneg : 0 ≤ (scores.positive - scores.negative + 1) * 50 := by linarith
  unfold mixed
  rw [truncate_of_nonneg hnonneg, Int.floor_lt]
  push_cast
  constructor
  · rintro hlt ⟨hpositive, hnegative⟩
    rw [hpositive, hnegative] at hlt
    norm_num at hlt
  · intro hmixed
    by_contra hge
    exact hmixed ⟨by linarith, by linarith⟩

namespace SentimentAnalysisResult

variable {result : SentimentAnalysisResult}

/-- There is a score exactly where there is a sentence. -/
theorem isSome_score_iff : result.score.isSome ↔ result.sentences ≠ [] := by
  rw [score, Option.isSome_map, isSome_divide_iff, Nat.cast_ne_zero, ← List.length_pos_iff,
    Nat.pos_iff_ne_zero]

/-- The score of a text with sentences is their truncated average. -/
theorem score_eq (h : result.sentences ≠ []) : result.score =
    some (truncate ((result.sentences.foldl (fun total sentence => total + sentence.score) 0 : ℤ) /
      (result.sentences.length : ℚ))) := by
  have hlength : (result.sentences.length : ℚ) ≠ 0 :=
    Nat.cast_ne_zero.mpr (List.length_pos_iff.mpr h).ne'
  rw [score, divide_of_ne_zero _ hlength, Option.map_some]

/-- The score of a text is not below what all of its sentences reach. -/
theorem le_score {n lo : ℤ} (hn : result.score = some n)
    (h : ∀ sentence ∈ result.sentences, lo ≤ sentence.score) : lo ≤ n := by
  have hne : result.sentences ≠ [] := isSome_score_iff.mp (by rw [hn]; rfl)
  rw [score_eq hne, Option.some.injEq] at hn
  rw [← hn]
  exact le_truncate_average hne h

/-- The score of a text is not above what none of its sentences exceeds. -/
theorem score_le {n hi : ℤ} (hn : result.score = some n)
    (h : ∀ sentence ∈ result.sentences, sentence.score ≤ hi) : n ≤ hi := by
  have hne : result.sentences ≠ [] := isSome_score_iff.mp (by rw [hn]; rfl)
  rw [score_eq hne, Option.some.injEq] at hn
  rw [← hn]
  exact truncate_average_le hne h

/-- The score of a text lies between the scores of two of its sentences. -/
theorem score_between {n : ℤ} (hn : result.score = some n) :
    (∃ sentence ∈ result.sentences, sentence.score ≤ n) ∧
      ∃ sentence ∈ result.sentences, n ≤ sentence.score := by
  constructor
  · by_contra hall
    push Not at hall
    exact absurd (le_score hn fun sentence h => Int.add_one_le_of_lt (hall sentence h)) (by omega)
  · by_contra hall
    push Not at hall
    exact absurd (score_le hn fun sentence h => Int.le_sub_one_of_lt (hall sentence h)) (by omega)

/-- The score of a text is between 0 and 100. -/
theorem score_mem {n : ℤ} (hn : result.score = some n)
    (h : ∀ sentence ∈ result.sentences, sentence.sentenceScores.InUnit) : 0 ≤ n ∧ n ≤ 100 :=
  ⟨le_score hn fun sentence hmem => (h sentence hmem).mixed_mem.1,
    score_le hn fun sentence hmem => (h sentence hmem).mixed_mem.2⟩

/-- A text scores 100 only where all of its sentences are positive throughout. -/
theorem score_lt_iff {n : ℤ} (hn : result.score = some n)
    (h : ∀ sentence ∈ result.sentences, sentence.sentenceScores.InUnit) :
    n < 100 ↔ ∃ sentence ∈ result.sentences,
      ¬(sentence.sentenceScores.positive = 1 ∧ sentence.sentenceScores.negative = 0) := by
  have hne : result.sentences ≠ [] := isSome_score_iff.mp (by rw [hn]; rfl)
  have hlo : ∀ sentence ∈ result.sentences, 0 ≤ sentence.score :=
    fun sentence hmem => (h sentence hmem).mixed_mem.1
  have hhi : ∀ sentence ∈ result.sentences, sentence.score ≤ 100 :=
    fun sentence hmem => (h sentence hmem).mixed_mem.2
  rw [score_eq hne, Option.some.injEq] at hn
  rw [← hn, truncate_average_lt_iff hne hlo hhi]
  refine exists_congr fun sentence => and_congr_right fun hmem => ?_
  exact (h sentence hmem).mixed_lt_iff

/-- The analysis of a text of one sentence with a given score. -/
def ofScore (n : ℤ) : SentimentAnalysisResult where
  sentences := [⟨⟨n / 100, 1 - n / 100⟩⟩]

/-- Every integer is the score of some text, and those from 0 to 100 of a text whose scores
are fractions. -/
theorem score_ofScore (n : ℤ) : (ofScore n).score = some n := by
  have hmixed : ((n / 100 : ℚ) - (1 - n / 100) + 1) * 50 = n := by ring
  simp [score, ofScore, Sentence.score, Scores.mixed, divide, hmixed]

theorem inUnit_ofScore {n : ℤ} (hlo : 0 ≤ n) (hhi : n ≤ 100) :
    ∀ sentence ∈ (ofScore n).sentences, sentence.sentenceScores.InUnit := by
  have hlo' : (0 : ℚ) ≤ n := by exact_mod_cast hlo
  have hhi' : (n : ℚ) ≤ 100 := by exact_mod_cast hhi
  intro sentence hmem
  obtain rfl := List.mem_singleton.mp hmem
  constructor
  · show (0 : ℚ) ≤ n / 100
    linarith
  · show (n : ℚ) / 100 ≤ 1
    linarith
  · show (0 : ℚ) ≤ 1 - n / 100
    linarith
  · show (1 : ℚ) - n / 100 ≤ 1
    linarith

end SentimentAnalysisResult

/-- The completion handler of `TextAnalzyer.analyzeSentiment`. -/
def analyzeSentiment {σ : Type}
    (decode : Data → Except RequestError (Response SentimentAnalysisResult))
    (outcome : DataTaskOutcome)
    (process : Result SentimentAnalysisResult → EStateM Trap σ Unit) : EStateM Trap σ Unit :=
  request decode outcome process

end TextAnalyzer

end FeelBetter
