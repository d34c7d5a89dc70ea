import FeelBetter.Home
import FeelBetter.WordCloud.Placement
import Mathlib.Data.List.Pairwise

/-!
# The word cloud of the home screen

`makeWordsCell` adds the keywords to a canvas one after the other, each in a size and at a
place that are drawn at random, and a keyword whose place is taken is left out. This file says
which ones are: the cloud is the greedy choice among the placed keywords, where a word gives
way to the words that were chosen before it and to no other.
-/

namespace FeelBetter

open Machine

/-- The word as `Canvas.add` would place it. -/
def Addition.placed (cg : CoreGraphics) (addition : Addition) : WordImage :=
  Canvas.place cg addition.word addition.startPixel

/-- What `makeWordsCell` and `Canvas.add` draw at random for a keyword. -/
structure WordDraw where
  /-- The size of the system font, `Int.random(in: 9...20)`. -/
  ofSize : ℕ
  startPixel : ℕ × ℕ

namespace WordCloud

open scoped Classical in
/-- Of the words, the latest first, those that share no pixel with a word chosen before. -/
noncomputable def chosen (words : List WordImage) : List WordImage :=
  words.pwFilter fun w v => Picture.Apart w.ink v.ink

variable {w : WordImage} {words : List WordImage}

open scoped Classical in
theorem chosen_cons_of_apart (h : ∀ v ∈ chosen words, Picture.Apart w.ink v.ink) :
    chosen (w :: words) = w :: chosen words :=
  List.pwFilter_cons_of_pos h

open scoped Classical in
theorem chosen_cons_of_meets (h : ¬∀ v ∈ chosen words, Picture.Apart w.ink v.ink) :
    chosen (w :: words) = chosen words :=
  List.pwFilter_cons_of_neg h

open scoped Classical in
theorem chosen_sublist (words : List WordImage) : (chosen words).Sublist words :=
  List.pwFilter_sublist words

variable {cg : CoreGraphics}

/-- The test of `add` is whether the word shares a pixel with an accepted word. -/
theorem Placed.intersected_eq_false_iff (hcg : cg.Documented) (hrows : cg.Unpadded)
    {width height : ℕ} {s : WordCloud} {addition : Addition} (h : Placed width height s)
    (hword : WordFits ⟨width, height⟩ addition.word)
    (hstart : Canvas.CanStart s.canvas.size addition.word addition.startPixel) :
    Canvas.intersected (addition.placed cg) s.canvas.currentImage = false ↔
      ∀ v ∈ s.accepted, Picture.Apart (addition.placed cg).ink v.ink := by
  obtain ⟨⟨w, hgt, hw, hh, hsize⟩, hwidth, hheight⟩ := hword
  rw [hsize] at hwidth hheight
  rw [h.size] at hstart
  have hinside : (addition.placed cg).Inside s.canvas.currentImage :=
    Canvas.inside_of_canStart hcg h.fits hw hh hsize (Nat.cast_le.mp hwidth)
      (Nat.cast_le.mp hheight) hstart
  have himage : s.canvas.currentImage.bytesPerRow = 4 * s.canvas.currentImage.width := by
    rw [h.fits.bytesPerRow_eq, h.fits.width_eq]
  rw [Canvas.intersected_eq_false_iff hinside (hrows.wordImage addition.word) himage,
    h.composed.apart_iff]
  exact List.forall_mem_map

/-- A call of `add` makes the greedy choice. -/
theorem Placed.chosen_step (hcg : cg.Documented) (hrows : cg.Unpadded) {width height : ℕ}
    {s t : WordCloud} {addition : Addition} (h : Placed width height s)
    (hword : WordFits ⟨width, height⟩ addition.word) (hstep : s.step cg addition = some t)
    (hwords : s.accepted = chosen words) :
    t.accepted = chosen (addition.placed cg :: words) := by
  obtain ⟨hstart, hcases⟩ := step_cases hstep
  have htest := h.intersected_eq_false_iff hcg hrows hword hstart
  rw [hwords] at htest
  rcases hcases with ⟨hclash, rfl⟩ | ⟨hclear, rfl⟩
  · have hmeets : ¬∀ v ∈ chosen words, Picture.Apart (addition.placed cg).ink v.ink := by
      intro hapart
      have hclear := htest.mpr hapart
      rw [Addition.placed, hclash] at hclear
      cases hclear
    exact hwords.trans (chosen_cons_of_meets hmeets).symm
  · rw [chosen_cons_of_apart (htest.mp hclear), ← hwords]
    rfl

/-- The accepted words are the greedy choice among all that were added. -/
theorem Placed.chosen_of_run (hcg : cg.Documented) (hrows : cg.Unpadded) {width height : ℕ}
    {s t : WordCloud} {additions : List Addition} (h : Placed width height s)
    (hfits : ∀ addition ∈ additions, WordFits ⟨width, height⟩ addition.word)
    (hrun : run (WordCloud.step cg) s additions = some t) (hwords : s.accepted = chosen words) :
    Placed width height t ∧
      t.accepted = chosen ((additions.map (Addition.placed cg)).reverse ++ words) := by
  induction additions generalizing s words with
  | nil =>
    rw [run_nil, Option.some.injEq] at hrun
    subst hrun
    exact ⟨h, hwords⟩
  | cons addition additions ih =>
    obtain ⟨u, hu, hrun⟩ := exists_step_of_run_cons hrun
    have hword := hfits addition List.mem_cons_self
    have hchosen := h.chosen_step hcg hrows hword hu hwords
    rw [List.map_cons, List.reverse_cons, List.append_assoc, List.singleton_append]
    exact ih (h.step hcg hrows hword hu)
      (fun a ha => hfits a (List.mem_cons_of_mem _ ha)) hrun hchosen

/-- Words that fit find a start pixel and a context, so that `add` does not trap. -/
theorem Placed.exists_run (hcg : cg.Documented) (hrows : cg.Unpadded) {width height : ℕ}
    (hwidth : 0 < width) (hheight : 0 < height) {s : WordCloud} {additions : List Addition}
    (h : Placed width height s)
    (hfits : ∀ addition ∈ additions, WordFits ⟨width, height⟩ addition.word ∧
      Canvas.CanStart ⟨width, height⟩ addition.word addition.startPixel) :
    ∃ t, run (WordCloud.step cg) s additions = some t := by
  induction additions generalizing s with
  | nil => exact ⟨s, rfl⟩
  | cons addition additions ih =>
    obtain ⟨hword, hstart⟩ := hfits addition List.mem_cons_self
    have hcontext : Canvas.HasContext s.canvas.size := by
      rw [h.size]
      constructor
      · simpa using hwidth
      · simpa using hheight
    have hstep : ∃ t, s.step cg addition = some t := by
      unfold WordCloud.step
      simp only [if_pos (h.size ▸ hstart), if_pos hcontext]
      split
      · exact ⟨_, rfl⟩
      · exact ⟨_, rfl⟩
    obtain ⟨t, ht⟩ := hstep
    obtain ⟨u, hu⟩ := ih (h.step hcg hrows hword ht)
      fun a ha => hfits a (List.mem_cons_of_mem _ ha)
    exact ⟨u, (run_cons additions ht).trans hu⟩

end WordCloud

/-! ### The cell -/

namespace Home

variable {cg : CoreGraphics} {measure : String → ℕ → CGSize} {size : CGSize}
  {keywordDictionary : KeywordDictionary} {draws : ℕ → WordDraw}

/-- The words that `makeWordsCell` adds. `measure` is the size of a text in the system font of a
size. -/
def keywordAdditions (measure : String → ℕ → CGSize) (keywordDictionary : KeywordDictionary)
    (draws : ℕ → WordDraw) : List Addition :=
  (cloudWords keywordDictionary).mapIdx fun i text =>
    ⟨⟨text, measure text (draws i).ofSize⟩, (draws i).startPixel⟩

/-- The canvas whose image `makeWordsCell` shows in a view of a size. -/
def makeWordsCell (cg : CoreGraphics) (measure : String → ℕ → CGSize) (size : CGSize)
    (keywordDictionary : KeywordDictionary) (draws : ℕ → WordDraw) : Option WordCloud :=
  run (WordCloud.step cg) (.start cg size) (keywordAdditions measure keywordDictionary draws)

/-- The texts of the words that are added are the keywords. -/
theorem map_text_keywordAdditions (measure : String → ℕ → CGSize)
    (keywordDictionary : KeywordDictionary) (draws : ℕ → WordDraw) :
    (keywordAdditions measure keywordDictionary draws).map (·.word.text) =
      keywordDictionary.keys := by
  rw [← cloudWords_eq_keys]
  apply List.ext_getElem?
  intro i
  simp [keywordAdditions, Function.comp_def]

/-- **The cloud is the greedy choice among the keywords.** Where the rows of bitmaps are not
padded, the view has whole pixels, and every keyword has whole pixels and is no larger than the
view, the cell can be made, whatever is drawn at random. Its words are keywords, each once, and
in their order; a keyword is left out only where one that was placed before it has a pixel in
its way; and the image has the pixels of its words and no others. -/
theorem words_of_keywords (hcg : cg.Documented) (hrows : cg.Unpadded)
    (hsize : CoreGraphics.WholePixel size)
    (hfits : ∀ addition ∈ keywordAdditions measure keywordDictionary draws,
      WordCloud.WordFits size addition.word ∧
        Canvas.CanStart size addition.word addition.startPixel) :
    ∃ cloud, makeWordsCell cg measure size keywordDictionary draws = some cloud ∧
      cloud.accepted = WordCloud.chosen
        ((keywordAdditions measure keywordDictionary draws).map (Addition.placed cg)).reverse ∧
      (cloud.accepted.map (·.word.text)).reverse.Sublist keywordDictionary.keys ∧
      Picture.Composed (cloud.accepted.map WordImage.ink) cloud.canvas.currentImage.ink := by
  obtain ⟨width, height, hwidth, hheight, rfl⟩ := hsize
  have hstart := WordCloud.placed_start hcg hrows hwidth hheight
  obtain ⟨cloud, hrun⟩ := hstart.exists_run hcg hrows hwidth hheight hfits
  have hwords : (WordCloud.start cg ⟨width, height⟩).accepted = WordCloud.chosen [] := rfl
  obtain ⟨hplaced, hchosen⟩ := hstart.chosen_of_run hcg hrows (fun a ha => (hfits a ha).1) hrun
    hwords
  rw [List.append_nil] at hchosen
  refine ⟨cloud, hrun, hchosen, ?_, hplaced.composed⟩
  have hsublist := WordCloud.chosen_sublist
    ((keywordAdditions measure keywordDictionary draws).map (Addition.placed cg)).reverse
  rw [← hchosen] at hsublist
  have htexts := (hsublist.map (·.word.text)).reverse
  rw [List.map_reverse, List.reverse_reverse, List.map_map] at htexts
  rw [← map_text_keywordAdditions measure keywordDictionary draws]
  exact htexts

/-- Three keywords, the second of which is drawn on a place that the first has taken. -/
def crowdedKeywords : KeywordDictionary :=
  AList.insert "WOW" 50 (AList.insert "Food" 8 (AList.insert "Happy" 10 ∅))

/-- What is drawn at random for them: the place of the second one overlaps that of the first. -/
def crowdedDraws (i : ℕ) : WordDraw := ⟨9, (i, i / 2)⟩

theorem words_crowdedKeywords : ∃ cloud, makeWordsCell compositor (fun _ _ => ⟨2, 1⟩) ⟨4, 2⟩
      crowdedKeywords crowdedDraws = some cloud ∧
    cloud.accepted = WordCloud.chosen ((keywordAdditions (fun _ _ => ⟨2, 1⟩) crowdedKeywords
      crowdedDraws).map (Addition.placed compositor)).reverse ∧
    (cloud.accepted.map (·.word.text)).reverse.Sublist crowdedKeywords.keys ∧
    Picture.Composed (cloud.accepted.map WordImage.ink) cloud.canvas.currentImage.ink := by
  have hsize : CoreGraphics.WholePixel ⟨4, 2⟩ := ⟨4, 2, by decide, by decide, rfl⟩
  have hfits (text : String) : WordCloud.WordFits ⟨4, 2⟩ ⟨text, ⟨2, 1⟩⟩ :=
    ⟨⟨2, 1, by decide, by decide, by norm_num⟩, by norm_num, by norm_num⟩
  refine words_of_keywords compositor_documented compositor_unpadded hsize fun addition ha => ?_
  have hmem : addition ∈ [⟨⟨"WOW", ⟨2, 1⟩⟩, (0, 0)⟩, ⟨⟨"Food", ⟨2, 1⟩⟩, (1, 0)⟩,
      ⟨⟨"Happy", ⟨2, 1⟩⟩, (2, 1)⟩] := ha
  simp only [List.mem_cons, List.not_mem_nil, or_false] at hmem
  rcases hmem with rfl | rfl | rfl
  · exact ⟨hfits _, by decide +kernel⟩
  · exact ⟨hfits _, by decide +kernel⟩
  · exact ⟨hfits _, by decide +kernel⟩

example : (makeWordsCell compositor (fun _ _ => ⟨2, 1⟩) ⟨4, 2⟩ crowdedKeywords crowdedDraws).map
    (fun cloud => cloud.accepted.map (·.word.text)) = some ["Happy", "WOW"] := by decide +kernel

end Home

end FeelBetter
