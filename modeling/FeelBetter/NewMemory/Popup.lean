import FeelBetter.NewMemory.Form

/-!
# The popup, its overlays and Save

While the save popup is up, one overlay should blur the form and Save should be disabled.
Three handlers change one of the parts without the others. A popup is hidden when its
animation completes, so the parts are compared as they will be once all animations
under way have completed.
-/

namespace FeelBetter

open Machine

namespace FadingView

/-- The view once the animations under way have completed. -/
def settled (view : FadingView) : FadingView :=
  { view with isHidden := view.completions.getLast?.getD view.isHidden, completions := [] }

/-- A view is seen unless it is hidden or transparent. -/
def Visible (view : FadingView) : Prop := view.isHidden = false ∧ view.alpha ≠ 0

theorem settled_setIsHidden (view : FadingView) (hidden : Bool) :
    (view.setIsHidden hidden true).settled = ⟨hidden, if hidden then 0 else 1, []⟩ := by
  simp only [settled, setIsHidden, if_true, List.getLast?_concat, Option.getD_some]

theorem settled_of_completions_eq_nil {view : FadingView} (h : view.completions = []) :
    view.settled = view := by
  obtain ⟨isHidden, alpha, completions⟩ := view
  obtain rfl : completions = [] := h
  rfl

/-- What is assigned without an animation under way lasts. -/
theorem isHidden_settled_hide {view : FadingView} (h : view.completions = []) :
    ({ view with isHidden := true } : FadingView).settled.isHidden = true := by
  simp only [settled, h, List.getLast?_nil, Option.getD_none]

/-- What is assigned while one is under way does not. -/
theorem settled_hide_of_ne_nil {view : FadingView} (h : view.completions ≠ []) :
    ({ view with isHidden := true } : FadingView).settled = view.settled := by
  obtain ⟨hidden, hlast⟩ := Option.isSome_iff_exists.mp (List.getLast?_isSome.mpr h)
  simp only [settled, hlast, Option.getD_some]

end FadingView

namespace NewMemory

variable {placeholder : Option UIImage}

/-- The screen once the animations under way have completed. -/
def settled (s : NewMemory) : NewMemory :=
  { s with newMemorySavePopUpView := s.newMemorySavePopUpView.settled }

/-- The popup is seen over exactly one overlay while Save is disabled, or it is not seen and
there is no overlay. -/
def InStep (s : NewMemory) : Prop :=
  (s.newMemorySavePopUpView.Visible → s.overlays = 1 ∧ s.saveEnabled = false) ∧
    (¬s.newMemorySavePopUpView.Visible → s.overlays = 0)

/-- The popup is up, or on its way up. -/
def Up (s : NewMemory) : Prop := s.newMemorySavePopUpView.settled.Visible

/-- The condition on an event: while the popup is up no touch ends beside the overlay, the
title is not left, and the screen does not appear again unless the popup is still moving. -/
def KeepsInStep (s : NewMemory) : NewMemoryEvent → Prop
  | .touch (.touchesEnded false) => ¬s.Up
  | .touch .textFieldDidEndEditing => ¬s.Up
  | .block .viewDidAppear => ¬s.Up ∨ s.newMemorySavePopUpView.completions ≠ []
  | _ => True

/-- The parts will be in step, and the popup will not be left transparent. -/
structure Settling (s : NewMemory) : Prop where
  up : s.Up → s.overlays = 1 ∧ s.saveEnabled = false
  down : ¬s.Up → s.overlays = 0
  alpha : s.newMemorySavePopUpView.settled.isHidden = false →
    s.newMemorySavePopUpView.settled.alpha ≠ 0

variable {s t : NewMemory}

theorem Settling.inStep (h : s.Settling) : s.settled.InStep := ⟨h.up, h.down⟩

/-- A popup that is not up will be hidden. -/
theorem Settling.isHidden (h : s.Settling) (hdown : ¬s.Up) :
    s.newMemorySavePopUpView.settled.isHidden = true := by
  by_contra hshown
  rw [Bool.not_eq_true] at hshown
  exact hdown ⟨hshown, h.alpha hshown⟩

/-- The parts matter, and nothing else. -/
theorem Settling.of_same (h : s.Settling)
    (hpopup : t.newMemorySavePopUpView.settled = s.newMemorySavePopUpView.settled)
    (hoverlays : t.overlays = s.overlays) (hsave : s.Up → t.saveEnabled = false) :
    t.Settling := by
  have hup : t.Up ↔ s.Up := by rw [Up, Up, hpopup]
  constructor
  · rw [hup, hoverlays]
    exact fun h' => ⟨(h.up h').1, hsave h'⟩
  · rw [hup, hoverlays]
    exact h.down
  · rw [hpopup]
    exact h.alpha

/-- With the popup out of the way and no overlay the parts are in step. -/
theorem settling_of_hidden (hhidden : t.newMemorySavePopUpView.settled.isHidden = true)
    (hoverlays : t.overlays = 0) : t.Settling := by
  have hshown : ¬t.newMemorySavePopUpView.settled.isHidden = false := by simp [hhidden]
  exact ⟨fun hup => absurd hup.1 hshown, fun _ => hoverlays, fun h => absurd h hshown⟩

theorem settling_start : (start placeholder).Settling := settling_of_hidden rfl rfl

/-- Save is enabled only while the popup is down, so it brings up the only overlay. -/
theorem Settling.bringUpSavePopUpView (h : s.Settling) (hsave : s.saveEnabled = true) :
    s.bringUpSavePopUpView.Settling := by
  have hdown : ¬s.Up := by
    intro hup
    rw [(h.up hup).2] at hsave
    cases hsave
  have hpopup : s.bringUpSavePopUpView.newMemorySavePopUpView.settled = ⟨false, 1, []⟩ :=
    FadingView.settled_setIsHidden _ false
  have hup : s.bringUpSavePopUpView.Up := by
    rw [Up, hpopup]
    exact ⟨rfl, one_ne_zero⟩
  have hoverlays : s.bringUpSavePopUpView.overlays = 1 := by
    rw [NewMemory.bringUpSavePopUpView, h.down hdown]
  exact ⟨fun _ => ⟨hoverlays, rfl⟩, fun hnot => absurd hup hnot, fun _ => hup.2⟩

/-- A touch on the overlay takes everything down; one beside it must find nothing up. -/
theorem Settling.touchesEnded (h : s.Settling) {onOverlay : Bool}
    (hkeep : onOverlay = false → ¬s.Up) : (s.touchesEnded onOverlay).Settling := by
  refine settling_of_hidden ?_ rfl
  cases onOverlay with
  | true => exact congrArg FadingView.isHidden (FadingView.settled_setIsHidden _ true)
  | false => exact h.isHidden (hkeep rfl)

theorem Settling.touch {touch : NewMemoryTouch} (h : s.Settling)
    (hkeep : s.KeepsInStep (.touch touch)) (htouch : Touched s touch t) : t.Settling := by
  cases htouch with
  | save henabled => exact h.bringUpSavePopUpView henabled
  | touchesEnded =>
    refine h.touchesEnded ?_
    rintro rfl
    exact hkeep
  | textFieldDidBeginEditing => exact h.of_same rfl rfl fun _ => rfl
  | textFieldDidEndEditing => exact h.of_same rfl rfl fun hup => absurd hup hkeep
  | editTitle | textViewDidBeginEditing | edit | textViewDidEndEditing | cancelled | picked
  | suggestionTapped | tap => exact h.of_same rfl rfl fun hup => (h.up hup).2

/-- The completion of an animation is what a settled view is settled by. -/
theorem settled_animationCompleted (hblock : Blocked s .animationCompleted t) :
    t.settled = s.settled := by
  cases hblock with
  | animationCompleted hcompletions =>
    simp only [settled, FadingView.settled, hcompletions, List.getLast?_cons, Option.getD_some]

theorem Settling.animationCompleted (h : s.Settling) (hblock : Blocked s .animationCompleted t) :
    t.Settling := by
  have hsettled := settled_animationCompleted hblock
  have hpopup : t.settled.newMemorySavePopUpView = s.settled.newMemorySavePopUpView := by
    rw [hsettled]
  have hoverlays : t.settled.overlays = s.settled.overlays := by rw [hsettled]
  have hsave : t.settled.saveEnabled = s.settled.saveEnabled := by rw [hsettled]
  exact h.of_same hpopup hoverlays fun hup => hsave.trans (h.up hup).2

/-- The screen appears again: a popup that is not moving is hidden, so it must not be up. -/
theorem Settling.viewDidAppear (h : s.Settling)
    (hkeep : ¬s.Up ∨ s.newMemorySavePopUpView.completions ≠ []) :
    Settling { s with
      newMemorySavePopUpView := { s.newMemorySavePopUpView with isHidden := true } } := by
  by_cases hidle : s.newMemorySavePopUpView.completions = []
  · have hdown : ¬s.Up := hkeep.resolve_right (not_not.mpr hidle)
    exact settling_of_hidden (FadingView.isHidden_settled_hide hidle) (h.down hdown)
  · exact h.of_same (FadingView.settled_hide_of_ne_nil hidle) rfl fun hup => (h.up hup).2

theorem Settling.block {block : NewMemoryBlock} (h : s.Settling)
    (hkeep : s.KeepsInStep (.block block)) (hblock : Blocked s block t) : t.Settling := by
  cases hblock with
  | viewDidAppear => exact h.viewDidAppear hkeep
  | animationCompleted hcompletions => exact h.animationCompleted (.animationCompleted hcompletions)
  | highlight | processImageSuggestions => exact h.of_same rfl rfl fun hup => (h.up hup).2

/-- Steps that meet the condition keep the parts in step. -/
theorem Settling.step {e : NewMemoryEvent} (h : s.Settling) (hkeep : s.KeepsInStep e)
    (hstep : step placeholder s e = some t) : t.Settling := by
  cases formStep_of_step hstep with
  | touched htouch => exact h.touch hkeep htouch
  | blocked hblock => exact h.block hkeep hblock
  | analyzed hsame =>
    refine h.of_same (congrArg _ hsame.newMemorySavePopUpView) hsame.overlays fun hup => ?_
    exact hsame.saveEnabled.trans (h.up hup).2
  | prepared => exact h.of_same rfl rfl fun hup => (h.up hup).2

/-! ### Runs -/

/-- The completions of `n` animations. -/
def completing (n : ℕ) : List NewMemoryEvent := List.replicate n (.block .animationCompleted)

/-- Wherever the animations under way complete, the parts are in step. -/
def SettlesInStep (placeholder : Option UIImage) (s : NewMemory) : Prop :=
  ∀ n t, run (step placeholder) s (completing n) = some t →
    t.newMemorySavePopUpView.completions = [] → t.InStep

theorem settled_completing {n : ℕ} (hrun : run (step placeholder) s (completing n) = some t) :
    t.settled = s.settled := by
  induction n generalizing s with
  | zero =>
    obtain rfl := Option.some.inj hrun
    rfl
  | succ n ih =>
    obtain ⟨u, hstep, hrun⟩ := exists_step_of_run_cons hrun
    rw [ih hrun]
    cases formStep_of_step hstep with
    | blocked hblock => exact settled_animationCompleted hblock

theorem settlesInStep_of_inStep (h : s.settled.InStep) : SettlesInStep placeholder s := by
  intro n t hrun hidle
  rw [← settled_completing hrun] at h
  unfold settled at h
  rwa [FadingView.settled_of_completions_eq_nil hidle] at h

/-- The main queue runs unless a trap has ended the application or a tap is under way. -/
theorem step_block (htrap : s.trap = none) (htapped : s.tapped = none) (block : NewMemoryBlock) :
    step placeholder s (.block block) = s.block block := by
  simp [step, htrap, htapped]

/-- All animations under way can complete where the main thread is free. -/
theorem run_completing (htrap : s.trap = none) (htapped : s.tapped = none) :
    ∃ n, run (step placeholder) s (completing n) = some s.settled := by
  generalize hcompletions : s.newMemorySavePopUpView.completions = completions
  induction completions generalizing s with
  | nil =>
    refine ⟨0, ?_⟩
    rw [settled, FadingView.settled_of_completions_eq_nil hcompletions]
    rfl
  | cons hidden completions ih =>
    obtain ⟨t, hblock, htrap', htapped', hcompletions'⟩ :
        ∃ t, s.block .animationCompleted = some t ∧ t.trap = none ∧ t.tapped = none ∧
          t.newMemorySavePopUpView.completions = completions := by
      simp only [NewMemory.block, hcompletions]
      exact ⟨_, rfl, htrap, htapped, rfl⟩
    obtain ⟨n, hn⟩ := ih htrap' htapped' hcompletions'
    refine ⟨n + 1, ?_⟩
    rw [completing, List.replicate_succ,
      run_cons _ ((step_block htrap htapped .animationCompleted).trans hblock),
      ← settled_animationCompleted (blocked_of_block hblock)]
    exact hn

/-- Where the main thread is free, the parts are in step after the animations exactly where
they settle in step. -/
theorem inStep_of_settlesInStep (htrap : s.trap = none) (htapped : s.tapped = none)
    (h : SettlesInStep placeholder s) : s.settled.InStep := by
  obtain ⟨n, hn⟩ : ∃ n, run (step placeholder) s (completing n) = some s.settled :=
    run_completing htrap htapped
  exact h n _ hn rfl

/-- A step that does not meet the condition puts the parts out of step. -/
theorem Settling.not_inStep {e : NewMemoryEvent} (h : s.Settling) (hnot : ¬s.KeepsInStep e)
    (hstep : NewMemory.step placeholder s e = some t) : ¬t.settled.InStep := by
  cases formStep_of_step hstep with
  | touched htouch =>
    cases htouch with
    | @touchesEnded onOverlay =>
      cases onOverlay with
      | true => exact absurd trivial hnot
      | false =>
        have hup : s.Up := not_not.mp hnot
        intro hin
        exact absurd (hin.1 hup).1 zero_ne_one
    | textFieldDidEndEditing =>
      have hup : s.Up := not_not.mp hnot
      intro hin
      cases (hin.1 hup).2
    | _ => exact absurd trivial hnot
  | blocked hblock =>
    cases hblock with
    | viewDidAppear =>
      obtain ⟨hup, hidle⟩ : s.Up ∧ s.newMemorySavePopUpView.completions = [] := by
        simpa [KeepsInStep] using hnot
      intro hin
      have hzero : s.overlays = 0 := hin.2 fun hvisible => by
        have hhidden := FadingView.isHidden_settled_hide hidle
        exact absurd (hhidden.symm.trans hvisible.1) (by decide)
      exact absurd ((h.up hup).1.symm.trans hzero) one_ne_zero
    | _ => exact absurd trivial hnot
  | analyzed | prepared => exact absurd trivial hnot

/-- From parts that settle in step, a step meets the condition exactly where they will settle
in step again. -/
theorem Settling.keepsInStep_iff {e : NewMemoryEvent} (h : s.Settling)
    (hstep : NewMemory.step placeholder s e = some t) :
    s.KeepsInStep e ↔ SettlesInStep placeholder t := by
  constructor
  · intro hkeep
    exact settlesInStep_of_inStep (h.step hkeep hstep).inStep
  · intro hsettles
    by_contra hnot
    obtain ⟨htrap, htapped⟩ : t.trap = none ∧ t.tapped = none := by
      have hnone := trap_eq_none_of_step hstep
      cases transition_of_step hstep with
      | touched hidle _ _ hsame => exact ⟨hsame.trap.trans hnone, hsame.tapped.trans hidle⟩
      | blocked hidle _ hsame => exact ⟨hsame.trap.trans hnone, hsame.tapped.trans hidle⟩
      | highlighted | overridden | analyzed | failed | prepared => exact absurd trivial hnot
    exact h.not_inStep hnot hstep (inStep_of_settlesInStep htrap htapped hsettles)

/-- **The popup's parts stay in step**, wherever a run is cut off and no animation is under
way, exactly where every step of the run meets the condition: while the popup is up no touch
ends beside the overlay, the title is not left, and the screen does not appear again. -/
theorem inStep_iff (es : List NewMemoryEvent) :
    Always (step placeholder) (fun s e _ => s.KeepsInStep e) (start placeholder) es ↔
      ∀ fs n t, fs <+: es →
        run (step placeholder) (start placeholder) (fs ++ completing n) = some t →
        t.newMemorySavePopUpView.completions = [] → t.InStep := by
  have hiff (s : NewMemory) (e : NewMemoryEvent) (t : NewMemory) (h : s.Settling)
      (hstep : step placeholder s e = some t) :
      s.KeepsInStep e ↔ SettlesInStep placeholder t := h.keepsInStep_iff hstep
  have hkeep (s : NewMemory) (e : NewMemoryEvent) (t : NewMemory) (h : s.Settling)
      (hstep : step placeholder s e = some t) (hkeep : s.KeepsInStep e) : t.Settling :=
    h.step hkeep hstep
  rw [always_iff_of_invariant hiff hkeep settling_start es,
    always_iff_forall_prefix (settlesInStep_of_inStep settling_start.inStep) es]
  constructor
  · intro h fs n t hfs hrun hidle
    obtain ⟨s, hs, hrun⟩ := exists_of_run_append hrun
    exact h fs s hfs hs n t hrun hidle
  · intro h fs s hfs hs n t hrun hidle
    exact h fs n t hfs (run_trans hs hrun) hidle

/-- A touch that ends on the popup itself takes the overlay down, but not the popup. -/
theorem popup_without_overlay :
    ¬∀ (placeholder : Option UIImage) (es : List NewMemoryEvent) (t : NewMemory),
      run (step placeholder) (start placeholder) es = some t →
      t.newMemorySavePopUpView.completions = [] → t.InStep := by
  intro h
  have hin := h none [.touch .textFieldDidBeginEditing,
    .touch (.editTitle "Good day"), .touch .textFieldDidEndEditing, .touch .save,
    .block .animationCompleted, .touch (.touchesEnded false)] _ rfl rfl
  exact absurd (hin.1 ⟨rfl, one_ne_zero⟩).1 zero_ne_one

end NewMemory

end FeelBetter
