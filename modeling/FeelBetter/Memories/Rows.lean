import FeelBetter.Memories.Identifiers

/-!
# The rows of the table and the array behind them

The table always shows an end segment of `documentIDs`: the identifiers in front
of it were inserted in the background and wait for their `insertRows`. A swipe
or an edit addresses a memory by its row, so it reaches the memory the user saw
only where nothing waits, and an edit only where its row has kept its place
until the key phrases arrive.
-/

namespace FeelBetter

open Machine MemoriesTable

/-- A suffix that lacks one element lacks the first. -/
theorem cons_eq_of_suffix {α : Type} {a : α} {l l' : List α} (h : l <:+ l')
    (hlength : l'.length = l.length + 1) (ha : l'[0]? = some a) : a :: l = l' := by
  cases l' with
  | nil => simp at ha
  | cons b l' =>
    have hab : b = a := by simpa using ha
    rw [List.length_cons] at hlength
    rcases List.suffix_cons_iff.mp h with heq | hsuffix
    · have := congrArg List.length heq
      rw [List.length_cons] at this
      omega
    · rw [hab, hsuffix.eq_of_length (by omega)]

/-- The array and the table know the same number of rows. -/
def App.InStep (s : App) : Prop := s.documentIDs.length = s.rows.length

instance (s : App) : Decidable s.InStep := inferInstanceAs (Decidable (_ = _))

/-- While the application runs, the rows are the last ones of the array. -/
def RowsAreSuffix (s : App) : Prop := s.trap = none → s.rows <:+ s.documentIDs

/-- An array of the same length as the table is the table. -/
theorem RowsAreSuffix.rows_eq {s : App} (h : RowsAreSuffix s) (htrap : s.trap = none)
    (hstep : s.InStep) : s.rows = s.documentIDs :=
  (h htrap).eq_of_length hstep.symm

/-- Every transition leaves the rows at the end of the array. -/
theorem RowsAreSuffix.transition {s t : App} {e : Event} (h : RowsAreSuffix s)
    (htrap : s.trap = none) (ht : Transition s e t) : RowsAreSuffix t := by
  have hsuffix := h htrap
  cases ht with
  | signIn | signOut | load | query | fetchFailed | compose | edited => exact fun _ => hsuffix
  | loadSignedOut | editInvalid | savedSignedOut | editedSignedOut | editedMissing
  | insertInvalid | deleteInvalid | deleteSignedOut | deleteMissing =>
    intro htrap'
    cases htrap'
  | fetched => exact fun _ => List.suffix_rfl
  | edit _ hrow hcount hid =>
    intro _
    -- the table knows the whole array, so the reloaded row shows what it showed
    have hrows : s.rows = s.documentIDs := h.rows_eq htrap hcount
    obtain ⟨hlt, rfl⟩ := List.getElem?_eq_some_iff.mp hid
    simp only [hrows, List.set_getElem_self]
    exact List.suffix_rfl
  | saved => exact fun _ => hsuffix.trans (List.suffix_cons _ _)
  | rowInserted hwaiting hcount hid =>
    intro _
    have hrows : _ :: s.rows = s.documentIDs := cons_eq_of_suffix hsuffix hcount hid
    simp only [hrows]
    exact List.suffix_rfl
  | deleted hrow hid huser hcount =>
    intro _
    have hrows : s.rows = s.documentIDs := h.rows_eq htrap hcount
    simp only [hrows]
    exact List.suffix_rfl

/-! ### Rows as the user saw them -/

/-- A swipe deletes the memory that the table showed at the row; an edit replaces the
memory that the table showed at its row when it was submitted. -/
def RowAsShown (s : App) (e : Event) (t : App) : Prop :=
  match e with
  | .swipe row => ∀ documentID, t.calls = .deleteMemory documentID :: s.calls →
      s.rows[row]? = some documentID
  | .keyPhrases i _ _ => ∀ request ∈ s.requests[i]?, ∀ documentID,
      t.calls = .replaceMemory documentID :: s.calls → request.shown = some documentID
  | _ => True

/-- The step keeps rows in place: a swipe finds every inserted identifier shown and is
below the row of every edit under way, and while an edit is under way no new
memory arrives and an answer of `fetchAll` has the same identifier at its row. -/
def RowsStill (s : App) (e : Event) : Prop :=
  match e with
  | .swipe row => s.InStep ∧ ∀ request ∈ s.requests, ∀ r ∈ request.selectedRow, r < row
  | .keyPhrases i _ _ => ∀ request ∈ s.requests[i]?, request.selectedRow = none →
      ∀ other ∈ s.requests, other.selectedRow = none
  | .fetched => ∀ ids ∈ s.fetch.answer, ∀ request ∈ s.requests, ∀ r ∈ request.selectedRow,
      ids[r]? = s.documentIDs[r]?
  | _ => True

instance (s : App) : ∀ e, Decidable (RowsStill s e)
  | .swipe _ => inferInstanceAs (Decidable (_ ∧ _))
  | .keyPhrases _ _ _ => inferInstanceAs (Decidable (∀ _ ∈ _, _))
  | .fetched => inferInstanceAs (Decidable (∀ _ ∈ _, _))
  | .signIn _ | .signOut | .load | .query | .fetchFailed _ | .unwind _ _ | .insertRows =>
    isTrue trivial

/-- Every edit under way still finds at its row what the table showed there. -/
def EditsInPlace (s : App) : Prop :=
  s.trap = none → ∀ request ∈ s.requests, ∀ r ∈ request.selectedRow,
    s.documentIDs[r]? = request.shown

/-- A transition that keeps rows in place reaches the memories the user saw. -/
theorem EditsInPlace.rowAsShown {s t : App} {e : Event} (h : EditsInPlace s)
    (hrows : RowsAreSuffix s) (htrap : s.trap = none) (ht : Transition s e t)
    (hstill : RowsStill s e) : RowAsShown s e t := by
  cases ht with
  | signIn | signOut | load | loadSignedOut | query | fetched | fetchFailed | compose | edit
  | editInvalid | rowInserted | insertInvalid => trivial
  | saved | savedSignedOut =>
    intro _ _ documentID hcall
    injection hcall with hcall
    cases hcall
  | edited _ hrequest hrow _ hid | editedSignedOut _ hrequest hrow _ hid =>
    intro request hmem documentID hcall
    injection hcall with hcall
    cases hcall
    rw [Option.mem_def, hrequest, Option.some.injEq] at hmem
    subst hmem
    rw [← hid]
    exact (h htrap _ (List.mem_of_getElem? hrequest) _ hrow).symm
  | editedMissing => exact fun _ _ _ hcall => absurd hcall.symm (List.cons_ne_self _ _)
  | deleteMissing => exact fun _ hcall => absurd hcall.symm (List.cons_ne_self _ _)
  | deleted _ hid | deleteInvalid _ hid | deleteSignedOut _ hid =>
    intro documentID hcall
    injection hcall with hcall
    cases hcall
    rw [hrows.rows_eq htrap hstill.1, hid]

/-- A transition that keeps rows in place keeps the edits in place. -/
theorem EditsInPlace.transition {s t : App} {e : Event} (h : EditsInPlace s)
    (hrows : RowsAreSuffix s) (htrap : s.trap = none) (ht : Transition s e t)
    (hstill : RowsStill s e) : EditsInPlace t := by
  have hplace := h htrap
  cases ht with
  | signIn | signOut | load | query | fetchFailed | rowInserted => exact fun _ => hplace
  | loadSignedOut | editInvalid | savedSignedOut | editedSignedOut | editedMissing
  | insertInvalid | deleteInvalid | deleteSignedOut | deleteMissing =>
    intro htrap'
    cases htrap'
  | @fetched ids hfetch =>
    intro _ request hmem r hr
    have hanswer : ids ∈ s.fetch.answer := by
      rw [hfetch]
      rfl
    exact (hstill ids hanswer request hmem r hr).trans (hplace request hmem r hr)
  | compose =>
    intro _ request hmem r hr
    rcases List.mem_append.mp hmem with hmem | hmem
    · exact hplace request hmem r hr
    · rw [List.mem_singleton.mp hmem] at hr
      cases hr
  | edit _ hrow hcount hid =>
    intro _ request hmem r hr
    rcases List.mem_append.mp hmem with hmem | hmem
    · exact hplace request hmem r hr
    · rw [List.mem_singleton.mp hmem] at hr ⊢
      cases hr
      simp [App.request, hrows.rows_eq htrap hcount]
  | saved _ hrequest hnew =>
    intro _ request hmem r hr
    rw [hstill _ hrequest hnew request (List.mem_of_mem_eraseIdx hmem)] at hr
    cases hr
  | edited =>
    intro _ request hmem
    exact hplace request (List.mem_of_mem_eraseIdx hmem)
  | deleted =>
    intro _ request hmem r hr
    rw [← hplace request hmem r hr]
    exact List.getElem?_eraseIdx_of_lt (hstill.2 request hmem r hr)

/-- Where the table lags behind the array, no row shows what the array holds at its index. -/
theorem InStep.of_getElem? {s : App} {row : ℕ} {documentID : DocumentID} (hid : Identified s)
    (hrows : s.rows <:+ s.documentIDs) (harray : s.documentIDs[row]? = some documentID)
    (htable : s.rows[row]? = some documentID) : s.InStep := by
  obtain ⟨waiting, hwaiting⟩ := hrows
  have hshift : s.documentIDs[waiting.length + row]? = some documentID := by
    rw [← hwaiting, List.getElem?_append_right (by omega)]
    simpa using htable
  have hrow : row < s.documentIDs.length := (List.getElem?_eq_some_iff.mp harray).1
  have hindex : row = waiting.length + row :=
    (List.getElem?_inj hrow hid.nodup).mp (harray.trans hshift.symm)
  have hnil : waiting = [] := List.length_eq_zero_iff.mp (by omega)
  rw [App.InStep, ← hwaiting, hnil, List.nil_append]

/-- A swipe deletes the memory that the table shows at the row exactly when the table
knows as many rows as the array has. -/
theorem swipe_asShown_iff {s t : App} {row : ℕ} (hid : Identified s) (hrows : RowsAreSuffix s)
    (hstep : s.step (.swipe row) = some t) : RowAsShown s (.swipe row) t ↔ s.InStep := by
  obtain ⟨htrap, ht⟩ := transition_of_step hstep
  have hsuffix := hrows htrap
  constructor
  · intro hshown
    cases ht with
    | deleted _ harray _ hcount => exact hcount
    | deleteInvalid _ harray | deleteSignedOut _ harray =>
      exact InStep.of_getElem? hid hsuffix harray (hshown _ rfl)
    | deleteMissing hrow harray =>
      have hle := hsuffix.length_le
      rw [List.getElem?_eq_none_iff] at harray
      omega
  · intro hcount documentID hcall
    rw [hrows.rows_eq htrap hcount]
    cases ht with
    | deleted _ harray | deleteInvalid _ harray | deleteSignedOut _ harray =>
      injection hcall with hcall
      cases hcall
      exact harray
    | deleteMissing => exact absurd hcall.symm (List.cons_ne_self _ _)

theorem rowsAreSuffix_start (cloud : Cloud) : RowsAreSuffix (App.start cloud) :=
  fun _ => List.suffix_rfl

/-- The rows are the last ones of the array in every run. -/
theorem rowsAreSuffix_of_run {cloud : Cloud} {es : List Event} {s : App}
    (hrun : run App.step (App.start cloud) es = some s) : RowsAreSuffix s := by
  refine run_invariant (fun s e t hs hstep => ?_) (rowsAreSuffix_start cloud) hrun
  obtain ⟨htrap, ht⟩ := transition_of_step hstep
  exact hs.transition htrap ht

/-- **Deleting a row deletes the memory the user saw**, and an edit replaces it, in every
run whose steps keep rows in place. Whatever happened before, a swipe
reaches the memory shown exactly when every inserted identifier is shown. -/
theorem rowAsShown_of_rowsStill {cloud : Cloud} (hcloud : cloud.Allotted) (es : List Event) :
    (Always App.step (fun s e _ => RowsStill s e) (App.start cloud) es →
      Always App.step RowAsShown (App.start cloud) es) ∧
    ∀ s t row, run App.step (App.start cloud) es = some s → s.step (.swipe row) = some t →
      (RowAsShown s (.swipe row) t ↔ s.InStep) := by
  constructor
  · refine Always.of_invariant (I := fun s => RowsAreSuffix s ∧ EditsInPlace s) ?_
      ⟨rowsAreSuffix_start cloud, fun _ _ hmem => by cases hmem⟩
    rintro s e t ⟨hrows, hedits⟩ hstep hstill
    obtain ⟨htrap, ht⟩ := transition_of_step hstep
    exact ⟨hedits.rowAsShown hrows htrap ht hstill, hrows.transition htrap ht,
      hedits.transition hrows htrap ht hstill⟩
  · intro s t row hrun hstep
    exact swipe_asShown_iff (identified_of_run hcloud hrun) (rowsAreSuffix_of_run hrun) hstep

/-- Two memories are saved, and the older one is edited and swiped away. -/
theorem rowAsShown_editDelete :
    Always App.step RowAsShown (App.start sampleCloud)
      [.unwind (sampleMemory 1) none, .keyPhrases 0 (.ok []) "a", .insertRows,
        .unwind (sampleMemory 2) none, .keyPhrases 0 (.ok []) "b", .insertRows,
        .unwind (sampleMemory 3) (some 1), .keyPhrases 0 (.ok []) "c", .swipe 1] :=
  (rowAsShown_of_rowsStill sampleCloud_allotted _).1 (by decide)

/-- A swipe at the row of the first memory deletes the second, which has arrived in the
background and has no row yet. -/
theorem swipe_deletes_unseen :
    ¬∀ cloud : Cloud, cloud.Allotted → ∀ es, Always App.step RowAsShown (App.start cloud) es := by
  intro h
  have hrun := h sampleCloud sampleCloud_allotted
    [.unwind (sampleMemory 1) none, .keyPhrases 0 (.ok []) "a", .insertRows,
      .unwind (sampleMemory 2) none, .keyPhrases 0 (.ok []) "b", .swipe 0]
  have hswipe := (((((hrun _ rfl).2 _ rfl).2 _ rfl).2 _ rfl).2 _ rfl).2 _ rfl
  have hshown := hswipe.1 "b" rfl
  exact absurd hshown (by decide)

end FeelBetter
