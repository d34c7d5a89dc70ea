import FeelBetter.NewMemory.Override

/-!
# What a tap on an emoji saves

A tap saves what its override action assigned, unless the tapped button is enlarged:
then `prepare(for:)` leaves the field alone, and what an analysis assigned since the
action is saved instead. So the emoji may be a different one, and the score that
the enlarged button stands for is lost where it is not the one of the action.
-/

namespace FeelBetter

open Machine TextAnalyzer

/-- The score that an event assigns. -/
def NewMemoryEvent.score : NewMemoryEvent → Option ℤ
  | .analyzed result => NewMemory.scoreOf result
  | _ => none

/-- An event that belongs to no tap. -/
def NewMemoryEvent.Passive : NewMemoryEvent → Prop
  | .touch (.tap _) | .prepare _ => False
  | _ => True

namespace NewMemory

variable {placeholder : Option UIImage}

/-- The scores that the events of a run assign, in order. -/
def scores (es : List NewMemoryEvent) : List ℤ := es.filterMap NewMemoryEvent.score

/-- A step that belongs to no tap assigns the score of its event, if it has one. -/
theorem newMemorySentiment_of_step {s t : NewMemory} {e : NewMemoryEvent} (hpassive : e.Passive)
    (hstep : step placeholder s e = some t) :
    t.newMemorySentiment = e.score.getD s.newMemorySentiment := by
  cases transition_of_step hstep with
  | touched _ _ _ hsame => exact hsame.newMemorySentiment
  | blocked _ _ hsame => exact hsame.newMemorySentiment
  | highlighted => rfl
  | analyzed hscore => simp [NewMemoryEvent.score, hscore]
  | failed trap hscore => simp [NewMemoryEvent.score, hscore]
  | overridden => exact hpassive.elim
  | prepared => exact hpassive.elim

/-- Without taps the last score stays. -/
theorem newMemorySentiment_of_run {s t : NewMemory} {es : List NewMemoryEvent}
    (hpassive : ∀ e ∈ es, e.Passive) (hrun : run (step placeholder) s es = some t) :
    t.newMemorySentiment = (scores es).getLast?.getD s.newMemorySentiment := by
  induction es generalizing s with
  | nil =>
    rw [run_nil, Option.some.injEq] at hrun
    rw [hrun]
    rfl
  | cons e es ih =>
    obtain ⟨u, hstep, hrun⟩ := exists_step_of_run_cons hrun
    obtain ⟨hhead, htail⟩ := List.forall_mem_cons.mp hpassive
    rw [ih htail hrun, newMemorySentiment_of_step hhead hstep]
    cases hscore : e.score with
    | none => simp [scores, hscore]
    | some n => simp [scores, hscore, List.getLast?_cons]

/-! ### The steps of a tap -/

/-- The segue of a tap has been prepared, and the user has left the screen. -/
def Left (s : NewMemory) : Prop := s.tapped = none ∧ s.memoryToSave.isSome

theorem left_of_step {s t : NewMemory} {e : NewMemoryEvent} (h : Left s)
    (hstep : step placeholder s e = some t) : Left t := by
  obtain ⟨hidle, hsome⟩ := h
  cases transition_of_step hstep with
  | touched _ hopen => simp [hopen] at hsome
  | overridden _ _ hopen => simp [hopen] at hsome
  | blocked _ _ hsame => exact ⟨hsame.tapped.trans hidle, by rwa [hsame.memoryToSave]⟩
  | highlighted | analyzed | failed => exact ⟨hidle, hsome⟩
  | prepared => exact ⟨rfl, rfl⟩

/-- After a segue there is no second one. -/
theorem run_left {s u : NewMemory} {es : List NewMemoryEvent} {date : Date} (h : Left s) :
    run (step placeholder) s (es ++ [.prepare date]) ≠ some u := by
  intro hrun
  obtain ⟨t, button, ht, htapped, -⟩ := exists_tapped_of_run hrun
  obtain ⟨hidle, _⟩ := run_invariant (fun _ _ _ => left_of_step) h ht
  rw [hidle] at htapped
  cases htapped

/-- Between the action of a button and its segue only analyses complete, and the button
stays as large as it was. -/
theorem run_tapped {s u : NewMemory} {button : OverrideButton} {es : List NewMemoryEvent}
    {date : Date} (htapped : s.tapped = some button)
    (hrun : run (step placeholder) s (es ++ [.prepare date]) = some u) :
    ∃ v, run (step placeholder) s es = some v ∧ u = v.prepare placeholder button date ∧
      v.fontSize = s.fontSize ∧ ∀ e ∈ es, e.Passive := by
  induction es generalizing s with
  | nil =>
    obtain ⟨t, hstep, hrun⟩ := exists_step_of_run_cons hrun
    obtain rfl := Option.some.inj hrun
    cases transition_of_step hstep with
    | prepared _ htapped' =>
      obtain rfl := Option.some.inj (htapped.symm.trans htapped')
      exact ⟨s, rfl, rfl, rfl, by simp⟩
  | cons e es ih =>
    obtain ⟨t, hstep, hrun⟩ := exists_step_of_run_cons hrun
    rw [run_cons es hstep]
    cases transition_of_step hstep with
    | touched hidle | overridden _ hidle | blocked hidle | highlighted hidle =>
      rw [htapped] at hidle
      cases hidle
    | analyzed =>
      obtain ⟨v, hv, hu, hfont, hpassive⟩ := ih (by exact htapped) hrun
      exact ⟨v, hv, hu, hfont, List.forall_mem_cons.mpr ⟨trivial, hpassive⟩⟩
    | failed trap =>
      -- the application has ended, but the segue is still to come
      cases es with
      | nil | cons =>
        obtain ⟨_, hstep', _⟩ := exists_step_of_run_cons hrun
        cases trap_eq_none_of_step hstep'
    | prepared => exact absurd hrun (run_left ⟨rfl, rfl⟩)

/-- What a tap saves: the sentiment of the action, unless the button is enlarged and an
analysis has completed since. -/
theorem sentiment_of_tap {s u : NewMemory} {button : OverrideButton} {es : List NewMemoryEvent}
    {date : Date} (hrun : run (step placeholder) s
      (.touch (.tap button) :: (es ++ [.prepare date])) = some u) :
    ∃ memory, u.memoryToSave = some memory ∧ memory.sentiment =
      if s.fontSize button = 65 then (scores es).getLast?.getD button.actionSentiment
      else button.actionSentiment := by
  obtain ⟨t, hstep, hrun⟩ := exists_step_of_run_cons hrun
  cases transition_of_step hstep with
  | touched _ _ hnot => exact absurd rfl (hnot button)
  | overridden =>
    obtain ⟨v, hv, rfl, hfont, hpassive⟩ := run_tapped rfl hrun
    have hsentiment := newMemorySentiment_of_run hpassive hv
    have hfont' : v.fontSize button = s.fontSize button := congrFun hfont button
    refine ⟨_, rfl, ?_⟩
    show v.sentimentToSave button = _
    unfold sentimentToSave
    rw [hfont', hsentiment, button.preparedSentiment_eq]
    by_cases h : s.fontSize button = 65
    · rw [if_neg (not_not.mpr h), if_pos h]
      rfl
    · rw [if_pos h, if_neg h]

/-- **The saved sentiment has the emoji that was tapped** exactly where the tapped button is
not enlarged, or no analysis completes between its action and the segue, or the last
one that does has a score of that emoji. -/
theorem savedEmoji_iff {s u : NewMemory} {button : OverrideButton} {es : List NewMemoryEvent}
    {date : Date} (hrun : run (step placeholder) s
      (.touch (.tap button) :: (es ++ [.prepare date])) = some u) :
    ∃ memory, u.memoryToSave = some memory ∧
      (sentimentEmoji memory.sentiment = button.emoji ↔
        (s.fontSize button = 65 →
          ∀ n ∈ (scores es).getLast?, sentimentEmoji n = button.emoji)) := by
  obtain ⟨memory, hmemory, hsentiment⟩ := sentiment_of_tap hrun
  refine ⟨memory, hmemory, ?_⟩
  rw [hsentiment]
  by_cases hfont : s.fontSize button = 65
  · cases hlast : (scores es).getLast? with
    | none => simp [hfont, button.sentimentEmoji_actionSentiment]
    | some n => simp [hfont]
  · simp [hfont, button.sentimentEmoji_actionSentiment]

/-- The text is analysed twice. The first score is 10, and its button is enlarged. -/
def composing : List NewMemoryEvent :=
  [.touch .textFieldDidBeginEditing, .touch (.editTitle "Good day"),
    .touch .textFieldDidEndEditing, .touch .save, .touch (.touchesEnded true), .touch .save,
    .analyzed (.ok (.ofScore 10)), .block .highlight]

/-- The second analysis completes during a tap on the enlarged button, with a score of the
same emoji. -/
theorem savedEmoji_composing :
    ∃ s u, run (step none) (start none) composing = some s ∧
      run (step none) s (.touch (.tap .override0To20) ::
        ([.analyzed (.ok (.ofScore 15))] ++ [.prepare 1])) = some u ∧
      ∃ memory, u.memoryToSave = some memory ∧ sentimentEmoji memory.sentiment = "😭" := by
  refine ⟨_, _, rfl, rfl, ?_⟩
  have hrun : run (step none) ((run (step none) (start none) composing).getD (start none))
      (.touch (.tap .override0To20) :: ([.analyzed (.ok (.ofScore 15))] ++ [.prepare 1])) =
        some _ := rfl
  obtain ⟨memory, hmemory, hemoji⟩ := savedEmoji_iff hrun
  exact ⟨memory, hmemory, hemoji.mpr fun _ => by decide +kernel⟩

/-- The second analysis completes during a tap on the enlarged button, with the score of
another emoji, which is saved. -/
theorem other_emoji_saved :
    ¬∀ (placeholder : Option UIImage) (es es' : List NewMemoryEvent) (button : OverrideButton)
      (date : Date) (u : NewMemory) (memory : LocalMemory),
      run (step placeholder) (start placeholder)
        (es ++ .touch (.tap button) :: (es' ++ [.prepare date])) = some u →
      u.memoryToSave = some memory → sentimentEmoji memory.sentiment = button.emoji := by
  intro h
  have hemoji := h none composing [.analyzed (.ok (.ofScore 90))] .override0To20 1 _ _ rfl rfl
  exact absurd hemoji (by decide +kernel)

/-! ### Agreeing with the suggestion -/

/-- A tap has begun, or the user has left the screen. -/
def Busy (s : NewMemory) : Prop := s.tapped.isSome ∨ s.memoryToSave.isSome

/-- A tap is never taken back. -/
theorem busy_of_step {s t : NewMemory} {e : NewMemoryEvent} (h : Busy s ∨ ¬e.Passive)
    (hstep : step placeholder s e = some t) : Busy t := by
  cases transition_of_step hstep with
  | touched hidle hopen hnot =>
    rcases h with h | h
    · simp [Busy, hidle, hopen] at h
    · rename_i touch _
      cases touch with
      | tap button => exact absurd rfl (hnot button)
      | _ => exact absurd trivial h
  | overridden => exact .inl rfl
  | prepared => exact .inr rfl
  | blocked _ _ hsame =>
    obtain h := h.resolve_right (not_not.mpr trivial)
    rwa [Busy, hsame.tapped, hsame.memoryToSave]
  | highlighted | analyzed | failed => exact h.resolve_right (not_not.mpr trivial)

/-- A run after which the user can still tap has no tap in it. -/
theorem passive_of_run {s t : NewMemory} {es : List NewMemoryEvent} (hfree : ¬Busy t)
    (hrun : run (step placeholder) s es = some t) : ∀ e ∈ es, e.Passive := by
  induction es generalizing s with
  | nil => simp
  | cons e es ih =>
    obtain ⟨u, hstep, hrun⟩ := exists_step_of_run_cons hrun
    refine List.forall_mem_cons.mpr ⟨?_, ih hrun⟩
    by_contra hactive
    have hbusy : Busy u := busy_of_step (.inr hactive) hstep
    exact hfree (run_invariant (fun _ _ _ h => busy_of_step (.inl h)) hbusy hrun)

/-- Once the main queue has no highlight to do, the enlarged button is the one of the
sentiment. -/
def Highlighted (s : NewMemory) : Prop := s.highlights = 0 → s.fontSize = s.highlight.fontSize

theorem highlighted_start : Highlighted (start placeholder) := by
  intro _
  funext button
  cases button <;> rfl

theorem Highlighted.step {s t : NewMemory} {e : NewMemoryEvent} (h : Highlighted s)
    (hpassive : e.Passive) (hstep : step placeholder s e = some t) : Highlighted t := by
  cases transition_of_step hstep with
  | touched _ _ _ hsame =>
    rwa [Highlighted, highlight, hsame.highlights, hsame.fontSize, hsame.newMemorySentiment]
  | blocked _ _ hsame =>
    rwa [Highlighted, highlight, hsame.highlights, hsame.fontSize, hsame.newMemorySentiment]
  | highlighted => exact fun _ => rfl
  | analyzed => exact fun hnone => absurd hnone (Nat.succ_ne_zero _)
  | failed => exact h
  | overridden => exact hpassive.elim
  | prepared => exact hpassive.elim

/-- Where one button can be tapped, every button can be, and the segue follows. -/
theorem run_tap {s t : NewMemory} {button : OverrideButton}
    (h : step placeholder s (.touch (.tap button)) = some t) (button' : OverrideButton)
    (date : Date) : run (step placeholder) s [.touch (.tap button'), .prepare date] =
      some ((s.override button').prepare placeholder button' date) := by
  have htrap := trap_eq_none_of_step h
  have htap : step placeholder s (.touch (.tap button')) = some (s.override button') := by
    unfold step at h ⊢
    rw [if_neg (by simp [htrap])] at h ⊢
    simp only [touch] at h ⊢
    split at h
    · cases h
    · rename_i hfree
      rw [if_neg hfree]
      split at h
      · cases h
      · rename_i hshown
        rw [if_neg hshown]
  have hprepare : step placeholder (s.override button') (.prepare date) =
      some ((s.override button').prepare placeholder button' date) := by
    unfold step
    rw [if_neg (by simp [override, htrap])]
    rfl
  rw [run_cons _ htap, run_cons _ hprepare, run_nil]

/-- A tap with nothing in between saves the sentiment of its action, whichever button is
enlarged. -/
theorem sentiment_of_single_tap {t u : NewMemory} {button : OverrideButton} {date : Date}
    {memory : LocalMemory}
    (hrun : run (step placeholder) t [.touch (.tap button), .prepare date] = some u)
    (hmemory : u.memoryToSave = some memory) : memory.sentiment = button.actionSentiment := by
  obtain ⟨memory', hmemory', hsentiment⟩ := @sentiment_of_tap _ _ _ _ [] _ hrun
  obtain rfl := Option.some.inj (hmemory.symm.trans hmemory')
  simpa [scores] using hsentiment

/-- Where the user can tap and no highlight is due, the enlarged button is the one of the last
score. -/
theorem fontSize_of_run {es : List NewMemoryEvent} {t v : NewMemory} {n : ℤ}
    {button : OverrideButton} (hrun : run (step placeholder) (start placeholder) es = some t)
    (hlast : (scores es).getLast? = some n) (hdone : t.highlights = 0)
    (hshown : step placeholder t (.touch (.tap button)) = some v) (b : OverrideButton) :
    t.fontSize b = 65 ↔ OverrideButton.highlighted n = some b := by
  have hfree : ¬Busy t := by
    cases transition_of_step hshown with
    | touched _ _ hnot => exact absurd rfl (hnot button)
    | overridden _ hidle hopen => simp [Busy, hidle, hopen]
  have hpassive := passive_of_run hfree hrun
  have hsentiment : t.newMemorySentiment = n := by
    rw [newMemorySentiment_of_run hpassive hrun, hlast, Option.getD_some]
  have hhighlighted : Highlighted t := by
    refine Always.invariant (fun s e t hs hstep he => ?_) highlighted_start
      (always_of_forall_mem hpassive _) hrun
    exact hs.step he hstep
  rw [hhighlighted hdone, fontSize_highlight_iff, hsentiment]

/-- **Agreeing with the suggestion keeps the analysed score** exactly where the score is the
one that the action of its button assigns. Any other button saves the sentiment that its
action assigns. -/
theorem agreedSentiment_iff {es : List NewMemoryEvent} {t v : NewMemory} {n : ℤ}
    {button : OverrideButton} (hrun : run (step placeholder) (start placeholder) es = some t)
    (hlast : (scores es).getLast? = some n) (hlo : 0 ≤ n) (hhi : n < 100)
    (hdone : t.highlights = 0) (hshown : step placeholder t (.touch (.tap button)) = some v) :
    (∀ (button : OverrideButton) (date : Date) (u : NewMemory) (memory : LocalMemory),
      run (step placeholder) t [.touch (.tap button), .prepare date] = some u →
      u.memoryToSave = some memory →
      (t.fontSize button = 65 → memory.sentiment = n) ∧
        (t.fontSize button ≠ 65 → memory.sentiment = button.actionSentiment)) ↔
    n ∈ [10, 30, 50, 70, 90] := by
  have hfont := fontSize_of_run hrun hlast hdone hshown
  constructor
  · intro hagreed
    obtain ⟨b, hb, _⟩ := OverrideButton.exists_highlighted hlo hhi
    have htap := run_tap hshown b 0
    obtain ⟨hkept, _⟩ := hagreed b 0 _ _ htap rfl
    rw [← hkept ((hfont b).mpr hb), sentiment_of_single_tap htap rfl]
    cases b <;> decide
  · intro hn button date u memory htap hmemory
    rw [sentiment_of_single_tap htap hmemory, hfont]
    have hactions : ∀ m ∈ [10, 30, 50, 70, 90],
        OverrideButton.highlighted m = some button → button.actionSentiment = m := by
      cases button <;> decide
    exact ⟨hactions n hn, fun _ => rfl⟩

/-- The text is analysed once, and the button of its score is enlarged. -/
def suggesting (n : ℤ) : List NewMemoryEvent :=
  [.touch .textFieldDidBeginEditing, .touch (.editTitle "Good day"),
    .touch .textFieldDidEndEditing, .touch .save, .analyzed (.ok (.ofScore n)), .block .highlight]

/-- A score in the middle of its bucket is kept. -/
theorem agreedSentiment_seventy :
    ∃ t, run (step none) (start none) (suggesting 70) = some t ∧
      ∀ (button : OverrideButton) (date : Date) (u : NewMemory) (memory : LocalMemory),
        run (step none) t [.touch (.tap button), .prepare date] = some u →
        u.memoryToSave = some memory →
        (t.fontSize button = 65 → memory.sentiment = 70) ∧
          (t.fontSize button ≠ 65 → memory.sentiment = button.actionSentiment) := by
  refine ⟨_, rfl, ?_⟩
  exact (@agreedSentiment_iff none (suggesting 70) _ _ 70 .override0To20 rfl
    (by decide +kernel) (by decide) (by decide) rfl rfl).mpr (by decide)

/-- A score of 75 is lost, even if the user agrees with it. -/
theorem agreed_score_lost :
    ¬∀ (placeholder : Option UIImage) (es : List NewMemoryEvent) (t u : NewMemory) (n : ℤ)
      (button : OverrideButton) (date : Date) (memory : LocalMemory),
      run (step placeholder) (start placeholder) es = some t → (scores es).getLast? = some n →
      0 ≤ n → n < 100 → t.analyses = 0 → t.highlights = 0 → t.fontSize button = 65 →
      run (step placeholder) t [.touch (.tap button), .prepare date] = some u →
      u.memoryToSave = some memory → memory.sentiment = n := by
  intro h
  have hkept := h none (suggesting 75) _ _ 75 .override60To80 1 _ rfl (by decide +kernel)
    (by decide) (by decide) rfl rfl (by decide +kernel) rfl rfl
  exact absurd hkept (by decide +kernel)

end NewMemory

end FeelBetter
