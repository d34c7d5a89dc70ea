import FeelBetter.Memories.Rows

/-!
# Updates of the memory table

`insertRows` and `deleteRows` tell the table about one row each. UIKit traps where
the data source has changed by more than that row: a second memory has arrived
in the background, or the table was reloaded while a block was waiting.
-/

namespace FeelBetter

open Machine MemoriesTable

/-- UIKit accepts the insertions and deletions of rows that the step makes. -/
def UpdateAccepted (_ : App) (_ : Event) (t : App) : Prop :=
  t.trap ≠ some .invalidInsertRows ∧ t.trap ≠ some .invalidDeleteRows

/-- No new memory arrives, no row is swiped away and no answer of `fetchAll` is shown
while an `insertRows` block waits in the main queue. -/
def Serial (s : App) (e : Event) : Prop :=
  match e with
  | .swipe _ => s.insertions = 0
  | .fetched => s.insertions = 0
  | .keyPhrases i _ _ => ∀ request ∈ s.requests[i]?, request.selectedRow = none → s.insertions = 0
  | _ => True

instance (s : App) : ∀ e, Decidable (Serial s e)
  | .swipe _ | .fetched => inferInstanceAs (Decidable (_ = _))
  | .keyPhrases _ _ _ => inferInstanceAs (Decidable (∀ _ ∈ _, _))
  | .signIn _ | .signOut | .load | .query | .fetchFailed _ | .unwind _ _ | .insertRows =>
    isTrue trivial

/-- The array is ahead of the table by the blocks waiting, of which there is at most one. -/
def AheadByWaiting (s : App) : Prop :=
  s.trap = none → s.documentIDs.length = s.rows.length + s.insertions ∧ s.insertions ≤ 1

/-- A serial transition is accepted and keeps the table behind by the waiting block. -/
theorem AheadByWaiting.transition {s t : App} {e : Event} (h : AheadByWaiting s)
    (htrap : s.trap = none) (ht : Transition s e t) (hserial : Serial s e) :
    UpdateAccepted s e t ∧ AheadByWaiting t := by
  obtain ⟨hlength, hone⟩ := h htrap
  cases ht with
  | signIn | signOut | load | query | fetchFailed | compose | edited =>
    exact ⟨by simp [UpdateAccepted, htrap], fun _ => ⟨hlength, hone⟩⟩
  | loadSignedOut | editInvalid | savedSignedOut | editedSignedOut | editedMissing
  | deleteSignedOut | deleteMissing =>
    exact ⟨by simp [UpdateAccepted, App.halt], by intro htrap'; cases htrap'⟩
  | fetched =>
    have hnone : s.insertions = 0 := hserial
    exact ⟨by simp [UpdateAccepted, htrap], fun _ => by simp [hnone]⟩
  | edit _ hrow hcount hid =>
    exact ⟨by simp [UpdateAccepted, htrap], fun _ => ⟨by simpa using hlength, hone⟩⟩
  | saved _ hrequest hnew =>
    have hnone : s.insertions = 0 := hserial _ hrequest hnew
    refine ⟨by simp [UpdateAccepted, htrap], fun _ => ⟨?_, by simp [hnone]⟩⟩
    simp only [List.length_cons]
    omega
  | rowInserted hwaiting hcount hid =>
    refine ⟨by simp [UpdateAccepted, htrap], fun _ => ⟨?_, by simp only; omega⟩⟩
    simp only [List.length_cons]
    omega
  | insertInvalid hwaiting hcount => omega
  | deleted hrow hid huser hcount =>
    have hnone : s.insertions = 0 := hserial
    have hlt := (List.getElem?_eq_some_iff.mp hid).1
    refine ⟨by simp [UpdateAccepted, htrap], fun _ => ⟨?_, hone⟩⟩
    simp only [List.length_eraseIdx_of_lt hlt, List.length_eraseIdx_of_lt hrow]
    omega
  | deleteInvalid hrow hid huser hcount =>
    have hnone : s.insertions = 0 := hserial
    omega

/-- Every waiting block stands for at most one identifier that the table does not show. -/
def BehindByWaiting (s : App) : Prop :=
  s.trap = none → s.documentIDs.length ≤ s.rows.length + s.insertions

/-- Every transition keeps the table behind by no more than the waiting blocks. -/
theorem BehindByWaiting.transition {s t : App} {e : Event} (h : BehindByWaiting s)
    (htrap : s.trap = none) (ht : Transition s e t) : BehindByWaiting t := by
  have hlength := h htrap
  cases ht with
  | signIn | signOut | load | query | fetchFailed | compose | edited => exact fun _ => hlength
  | loadSignedOut | editInvalid | savedSignedOut | editedSignedOut | editedMissing
  | insertInvalid | deleteInvalid | deleteSignedOut | deleteMissing =>
    intro htrap'
    cases htrap'
  | fetched => exact fun _ => Nat.le_add_right _ _
  | edit => exact fun _ => by simpa using hlength
  | saved =>
    intro _
    simp only [List.length_cons]
    omega
  | rowInserted hwaiting hcount hid =>
    intro _
    simp only [List.length_cons]
    omega
  | deleted hrow hid huser hcount =>
    intro _
    have hlt := (List.getElem?_eq_some_iff.mp hid).1
    simp only [List.length_eraseIdx_of_lt hlt, List.length_eraseIdx_of_lt hrow]
    omega

/-- A step that is accepted and leads to a state behind by exactly one waiting block, or by
none, starts from such a state and is serial. The excess of the waiting blocks over the
identifiers not shown never falls, so a run that ends with none had none throughout. -/
theorem serial_of_accepted_transition {s t : App} {e : Event} (hrows : RowsAreSuffix s)
    (hbehind : BehindByWaiting s) (htrap : s.trap = none) (ht : Transition s e t)
    (hok : UpdateAccepted s e t) (hahead : AheadByWaiting t)
    (htrapped : t.trap ≠ none → t.insertions = 0) : AheadByWaiting s ∧ Serial s e := by
  have hle := (hrows htrap).length_le
  have hge := hbehind htrap
  have hidle (hnone : s.insertions = 0) : AheadByWaiting s := fun _ => by omega
  cases ht with
  | signIn | signOut | load | query | fetchFailed | compose =>
    exact ⟨fun _ => hahead htrap, trivial⟩
  | loadSignedOut | editInvalid =>
    exact ⟨hidle (htrapped (by simp [App.halt])), trivial⟩
  | savedSignedOut =>
    have hnone : s.insertions = 0 := htrapped (by simp [App.halt])
    exact ⟨hidle hnone, fun _ _ _ => hnone⟩
  | editedSignedOut _ hrequest hrow | editedMissing _ hrequest hrow =>
    have hnone : s.insertions = 0 := htrapped (by simp [App.halt])
    exact ⟨hidle hnone, fun _ _ _ => hnone⟩
  | edited _ hrequest hrow =>
    refine ⟨fun _ => hahead htrap, fun request hmem hnew => ?_⟩
    rw [Option.mem_def, hrequest, Option.some.injEq] at hmem
    rw [← hmem, hrow] at hnew
    cases hnew
  | deleteSignedOut | deleteMissing =>
    have hnone : s.insertions = 0 := htrapped (by simp [App.halt])
    exact ⟨hidle hnone, hnone⟩
  | fetched =>
    have hnone : s.insertions = 0 := by
      have := (hahead htrap).1
      simp only at this
      omega
    exact ⟨hidle hnone, hnone⟩
  | edit => exact ⟨fun _ => by simpa using hahead htrap, trivial⟩
  | saved =>
    have hnone : s.insertions = 0 := by
      have := (hahead htrap).2
      simp only at this
      omega
    exact ⟨hidle hnone, fun _ _ _ => hnone⟩
  | rowInserted hwaiting hcount hid =>
    have := (hahead htrap).1
    simp only [List.length_cons] at this
    exact ⟨fun _ => by omega, trivial⟩
  | insertInvalid => exact absurd rfl hok.1
  | deleted hrow hid huser hcount =>
    have hlt := (List.getElem?_eq_some_iff.mp hid).1
    have hnone : s.insertions = 0 := by
      have := (hahead htrap).1
      simp only [List.length_eraseIdx_of_lt hlt, List.length_eraseIdx_of_lt hrow] at this
      omega
    exact ⟨hidle hnone, hnone⟩
  | deleteInvalid => exact absurd rfl hok.2

/-- An accepted run that leaves no block waiting was serial. -/
theorem serial_of_accepted {s t : App} {es : List Event} (hrows : RowsAreSuffix s)
    (hbehind : BehindByWaiting s) (hrun : run App.step s es = some t) (hdone : t.insertions = 0)
    (hok : Always App.step UpdateAccepted s es) :
    AheadByWaiting s ∧ (s.trap ≠ none → s.insertions = 0) ∧
      Always App.step (fun s e _ => Serial s e) s es := by
  induction es generalizing s with
  | nil =>
    rw [run_nil, Option.some.injEq] at hrun
    subst hrun
    refine ⟨fun htrap => ?_, fun _ => hdone, trivial⟩
    have hle := (hrows htrap).length_le
    have hge := hbehind htrap
    omega
  | cons e es ih =>
    obtain ⟨u, hu, hrun⟩ := exists_step_of_run_cons hrun
    obtain ⟨hoku, hok⟩ := hok u hu
    obtain ⟨htrap, htransition⟩ := transition_of_step hu
    obtain ⟨hahead, htrapped, hserial⟩ := ih (hrows.transition htrap htransition)
      (hbehind.transition htrap htransition) hrun hok
    obtain ⟨haheads, hserials⟩ := serial_of_accepted_transition hrows hbehind htrap htransition
      hoku hahead htrapped
    exact ⟨haheads, fun h => absurd htrap h, (always_cons hu).mpr ⟨hserials, hserial⟩⟩

/-- In a serial run UIKit accepts every insertion and deletion of rows; a run that leaves
no block waiting is accepted only if it was serial. -/
theorem updateAccepted_iff_serial (cloud : Cloud) (es : List Event) :
    (Always App.step (fun s e _ => Serial s e) (App.start cloud) es →
      Always App.step UpdateAccepted (App.start cloud) es) ∧
    ∀ t, run App.step (App.start cloud) es = some t → t.insertions = 0 →
      (Always App.step UpdateAccepted (App.start cloud) es ↔
        Always App.step (fun s e _ => Serial s e) (App.start cloud) es) := by
  have hserial : Always App.step (fun s e _ => Serial s e) (App.start cloud) es →
      Always App.step UpdateAccepted (App.start cloud) es := by
    refine Always.of_invariant (I := AheadByWaiting) (fun s e t h hstep hs => ?_) ?_
    · obtain ⟨htrap, ht⟩ := transition_of_step hstep
      exact h.transition htrap ht hs
    · exact fun _ => ⟨rfl, Nat.zero_le 1⟩
  refine ⟨hserial, fun t hrun hdone => ⟨fun hok => ?_, hserial⟩⟩
  have hbehind : BehindByWaiting (App.start cloud) := fun _ => Nat.zero_le _
  exact (serial_of_accepted (rowsAreSuffix_start cloud) hbehind hrun hdone hok).2.2

/-- Two memories are saved one after the other, each with its row, and one is deleted. -/
theorem updateAccepted_save_save_delete :
    Always App.step UpdateAccepted (App.start sampleCloud)
      [.unwind (sampleMemory 1) none, .keyPhrases 0 (.ok []) "a", .insertRows,
        .unwind (sampleMemory 2) none, .keyPhrases 0 (.ok []) "b", .insertRows, .swipe 1] :=
  (updateAccepted_iff_serial sampleCloud _).1 (by decide)

/-- Two memories arrive before the first row is inserted: the count has grown by two. -/
theorem insertRows_refused :
    ¬∀ (cloud : Cloud) (es : List Event), Always App.step UpdateAccepted (App.start cloud) es := by
  intro h
  have hrun := h sampleCloud
    [.unwind (sampleMemory 1) none, .unwind (sampleMemory 2) none, .keyPhrases 0 (.ok []) "a",
      .keyPhrases 0 (.ok []) "b", .insertRows]
  have hinsert := ((((hrun _ rfl).2 _ rfl).2 _ rfl).2 _ rfl).2 _ rfl
  exact hinsert.1.1 rfl

end FeelBetter
