import FeelBetter.Machine.Simulation
import FeelBetter.Memories.TableUpdates
import FeelBetter.TextAnalyzer

/-!
# When the Memories screen fails

The screen ends the application where the table and the array disagree, where a row is gone,
where the user is gone, and where the text analysis service replies without a document. UIKit
asks for the cell of a row whenever it wants to show it, and each such request uses the stores,
too. This file adds the requests for cells and the replies of the service to the screen, and puts
the conditions on the single steps together: they are what it takes for a run not to fail. Each
handler and each completion is one step.
-/

namespace FeelBetter

open Machine MemoriesTable

/-- Somebody is signed in. -/
def App.SignedIn (s : App) : Prop := s.cloud.currentUser.isSome

instance (s : App) : Decidable s.SignedIn := inferInstanceAs (Decidable (_ = true))

/-- The step is serial, no row is edited while an `insertRows` block waits, every step that uses
the stores finds somebody signed in, and an edit that is saved finds its row. -/
def Calm (s : App) (e : Event) : Prop :=
  Serial s e ∧
    match e with
    | .load => s.SignedIn
    | .swipe _ => s.SignedIn
    | .unwind _ (some _) => s.insertions = 0
    | .keyPhrases i _ _ => ∀ request ∈ s.requests[i]?, s.SignedIn ∧
        ∀ row ∈ request.selectedRow, row < s.documentIDs.length
    | _ => True

instance (s : App) : ∀ e, Decidable (Calm s e)
  | .load | .swipe _ | .keyPhrases _ _ _ | .unwind _ (some _) =>
    inferInstanceAs (Decidable (_ ∧ _))
  | .signIn _ | .signOut | .query | .fetched | .fetchFailed _ | .unwind _ none | .insertRows =>
    inferInstanceAs (Decidable (_ ∧ True))

theorem App.SignedIn.currentUser_ne_none {s : App} (h : s.SignedIn) :
    s.cloud.currentUser ≠ none :=
  Option.isSome_iff_ne_none.mp h

theorem App.signedIn_of_eq {s : App} {uid : Uid} (h : s.cloud.currentUser = some uid) :
    s.SignedIn :=
  Option.isSome_of_eq_some h

/-- A calm step does not fail, where the array is ahead of the table by the waiting blocks. -/
theorem AheadByWaiting.trap_eq_none {s t : App} {e : Event} (h : AheadByWaiting s)
    (htrap : s.trap = none) (ht : Transition s e t) (hcalm : Calm s e) : t.trap = none := by
  obtain ⟨hlength, hone⟩ := h htrap
  obtain ⟨hserial, hcalm⟩ := hcalm
  cases ht with
  | signIn | signOut | load | query | fetched | fetchFailed | compose | edit | saved | edited
  | rowInserted | deleted => exact htrap
  | loadSignedOut hfetch huser => exact absurd huser hcalm.currentUser_ne_none
  | editInvalid memory hrow hcount =>
    have hnone : s.insertions = 0 := hcalm
    omega
  | savedSignedOut _ hrequest hnew hfresh huser =>
    exact absurd huser (hcalm _ hrequest).1.currentUser_ne_none
  | editedSignedOut _ hrequest hrow hfresh hid huser =>
    exact absurd huser (hcalm _ hrequest).1.currentUser_ne_none
  | editedMissing _ hrequest hrow hfresh hid =>
    have hlt := (hcalm _ hrequest).2 _ hrow
    rw [List.getElem?_eq_none_iff] at hid
    omega
  | insertInvalid hwaiting hcount => omega
  | deleteInvalid hrow hid huser hcount =>
    have hnone : s.insertions = 0 := hserial
    omega
  | deleteSignedOut hrow hid huser => exact absurd huser hcalm.currentUser_ne_none
  | deleteMissing hrow hid =>
    have hnone : s.insertions = 0 := hserial
    rw [List.getElem?_eq_none_iff] at hid
    omega

/-- A serial step that does not fail is calm. -/
theorem AheadByWaiting.calm {s t : App} {e : Event} (h : AheadByWaiting s)
    (htrap : s.trap = none) (ht : Transition s e t) (hserial : Serial s e)
    (hok : t.trap = none) : Calm s e := by
  obtain ⟨hlength, -⟩ := h htrap
  refine ⟨hserial, ?_⟩
  cases ht with
  | signIn | signOut | query | fetched | fetchFailed | compose | rowInserted
  | insertInvalid => trivial
  | loadSignedOut | editInvalid | savedSignedOut | editedSignedOut | editedMissing
  | deleteInvalid | deleteSignedOut | deleteMissing => cases hok
  | load hfetch huser => exact App.signedIn_of_eq huser
  | edit memory hrow hcount hid =>
    show s.insertions = 0
    omega
  | saved _ hrequest hnew hfresh huser =>
    intro request hmem
    rw [Option.mem_def, hrequest, Option.some.injEq] at hmem
    subst hmem
    refine ⟨App.signedIn_of_eq huser, fun row hrow => ?_⟩
    rw [hnew] at hrow
    cases hrow
  | edited _ hrequest hrow hfresh hid huser =>
    intro request hmem
    rw [Option.mem_def, hrequest, Option.some.injEq] at hmem
    subst hmem
    refine ⟨App.signedIn_of_eq huser, fun row' hrow' => ?_⟩
    rw [Option.mem_def, hrow, Option.some.injEq] at hrow'
    subst hrow'
    exact (List.getElem?_eq_some_iff.mp hid).1
  | deleted hrow hid huser => exact App.signedIn_of_eq huser

theorem aheadByWaiting_start (cloud : Cloud) : AheadByWaiting (App.start cloud) :=
  fun _ => ⟨rfl, Nat.zero_le 1⟩

/-- A serial step keeps the array ahead of the table by the waiting blocks. -/
theorem AheadByWaiting.step {s t : App} {e : Event} (h : AheadByWaiting s)
    (hstep : s.step e = some t) (hserial : Serial s e) : AheadByWaiting t := by
  obtain ⟨htrap, ht⟩ := transition_of_step hstep
  exact (h.transition htrap ht hserial).2

/-- A calm step does not fail, and keeps the array ahead of the table by the waiting blocks. -/
theorem Calm.step {s t : App} {e : Event} (hcalm : Calm s e) (hahead : AheadByWaiting s)
    (hrows : RowsAreSuffix s) (hstep : s.step e = some t) :
    t.trap = none ∧ AheadByWaiting t ∧ RowsAreSuffix t := by
  obtain ⟨htrap, ht⟩ := transition_of_step hstep
  exact ⟨hahead.trap_eq_none htrap ht hcalm, hahead.step hstep hcalm.1, hrows.transition htrap ht⟩

/-- Where nothing waits the table shows the array. -/
theorem AheadByWaiting.rows_eq {s : App} (hahead : AheadByWaiting s) (hrows : RowsAreSuffix s)
    (hok : s.trap = none) (hnone : s.insertions = 0) : s.rows = s.documentIDs := by
  refine hrows.rows_eq hok ?_
  rw [App.InStep, (hahead hok).1, hnone, Nat.add_zero]

/-- A run that leaves no block waiting and does not end the application was calm. -/
theorem calm_of_run {cloud : Cloud} {es : List Event} {t : App}
    (hrun : run App.step (App.start cloud) es = some t) (hdone : t.insertions = 0)
    (hok : Always App.step (fun _ _ t => t.trap = none) (App.start cloud) es) :
    Always App.step (fun s e _ => Calm s e) (App.start cloud) es := by
  have haccepted : Always App.step UpdateAccepted (App.start cloud) es := by
    refine hok.mono fun s e t htrap => ?_
    simp [UpdateAccepted, htrap]
  have hserial := (serial_of_accepted (rowsAreSuffix_start cloud) (fun _ => Nat.zero_le _) hrun
    hdone haccepted).2.2
  refine Always.of_invariant (I := AheadByWaiting) (fun s e t h hstep hboth => ?_)
    (aheadByWaiting_start cloud) (hok.and hserial)
  obtain ⟨htrap, ht⟩ := transition_of_step hstep
  exact ⟨h.calm htrap ht hboth.2 hboth.1, h.step hstep hboth.2⟩

/-! ### Cells and replies -/

/-- `tableView(_:cellForRowAt:)`, up to the read of the memory that it starts. -/
def MemoriesTable.cellForRow (row : ℕ) : Action Unit := do
  let _ ← documentID row
  let _ ← onCloud Firebase.diariesRef

/-- What can happen next, with the requests for cells and the replies of the service. -/
inductive ScreenEvent where
  /-- A step of the screen other than the completion of a `keyPhrases` request. -/
  | event (e : Event)
  /-- UIKit asks for the cell of a row that the table shows. -/
  | cellForRow (row : ℕ)
  /-- The data task of the `i`-th `keyPhrases` request under way completes. -/
  | reply (i : ℕ) (outcome : DataTaskOutcome) (newID : DocumentID)
  deriving DecidableEq

variable (decode : Data → Except RequestError (TextAnalyzer.Response TextAnalyzer.KeyPhrases))

/-- One step of the screen: `none` where the event cannot happen. -/
def App.screenStep (s : App) (e : ScreenEvent) : Option App :=
  if s.trap.isSome then none else
  match e with
  | .event (.keyPhrases _ _ _) => none
  | .event e => s.step e
  | .cellForRow row =>
    if row < s.rows.length then some (s.perform (MemoriesTable.cellForRow row)) else none
  | .reply i outcome newID =>
    match s.requests[i]? with
    | some request =>
      if newID ∉ s.cloud.allotted then
        some ({ s with requests := s.requests.eraseIdx i }.perform
          (TextAnalyzer.keyPhrases decode outcome fun result =>
            MemoriesTable.keyPhrasesCompletion request result newID))
      else none
    | none => none

/-- The step of the screen that an event comes to; none where a cell is asked for, or where a reply
has no answer. -/
def ScreenEvent.toEvent : ScreenEvent → Option Event
  | .event e => some e
  | .cellForRow _ => none
  | .reply i outcome newID => (TextAnalyzer.answer decode outcome).map fun result =>
      .keyPhrases i (result.map TextAnalyzer.KeyPhrases.keyPhrases) newID

/-- The step of the screen is calm, a cell is asked for while somebody is signed in, and a reply
has an answer. -/
def ScreenCalm (s : App) (e : ScreenEvent) : Prop :=
  match e with
  | .event e => Calm s e
  | .cellForRow _ => s.SignedIn
  | .reply i outcome newID => ∃ result ∈ TextAnalyzer.answer decode outcome,
      Calm s (.keyPhrases i (result.map TextAnalyzer.KeyPhrases.keyPhrases) newID)

instance (s : App) : ∀ e, Decidable (ScreenCalm decode s e)
  | .event e => inferInstanceAs (Decidable (Calm s e))
  | .cellForRow _ => inferInstanceAs (Decidable s.SignedIn)
  | .reply _ _ _ => inferInstanceAs (Decidable (∃ _ ∈ _, _))

variable {decode} {s t : App}

theorem App.trap_eq_none_of_screenStep {e : ScreenEvent}
    (hstep : s.screenStep decode e = some t) : s.trap = none := by
  unfold App.screenStep at hstep
  split at hstep
  · cases hstep
  · rename_i htrap
    simpa using htrap

/-- The steps other than completions are those of the screen. -/
theorem App.step_of_screenStep {e : Event} (hstep : s.screenStep decode (.event e) = some t) :
    s.step e = some t := by
  unfold App.screenStep at hstep
  split at hstep
  · cases hstep
  · cases e with
    | keyPhrases => cases hstep
    | _ => exact hstep

/-- A reply with an answer is the completion of a `keyPhrases` request. -/
theorem App.screenStep_reply {outcome : DataTaskOutcome} {result : Result TextAnalyzer.KeyPhrases}
    (h : TextAnalyzer.answer decode outcome = some result) (s : App) (i : ℕ)
    (newID : DocumentID) : s.screenStep decode (.reply i outcome newID) =
      s.step (.keyPhrases i (result.map TextAnalyzer.KeyPhrases.keyPhrases) newID) := by
  have hprocess (process : Result (List String) → Action Unit) :
      TextAnalyzer.keyPhrases decode outcome process =
        process (result.map TextAnalyzer.KeyPhrases.keyPhrases) :=
    TextAnalyzer.request_eq_process decode h _
  cases htrap : s.trap with
  | some trap => simp [App.screenStep, App.step, htrap]
  | none =>
    cases hrequest : s.requests[i]? with
    | none => simp [App.screenStep, App.step, htrap, hrequest]
    | some request => simp [App.screenStep, App.step, htrap, hrequest, hprocess]

/-- A reply without an answer ends the application. -/
theorem App.trap_ne_none_of_reply {outcome : DataTaskOutcome} {i : ℕ} {newID : DocumentID}
    (h : TextAnalyzer.answer decode outcome = none)
    (hstep : s.screenStep decode (.reply i outcome newID) = some t) : t.trap ≠ none := by
  obtain ⟨trap, hrequest⟩ := TextAnalyzer.request_eq_trap decode h
  have htrap := App.trap_eq_none_of_screenStep hstep
  simp only [App.screenStep, htrap, Option.isSome_none, Bool.false_eq_true, if_false,
    TextAnalyzer.keyPhrases, hrequest] at hstep
  split at hstep
  · split at hstep
    · cases hstep
      exact Option.some_ne_none trap
    · cases hstep
  · cases hstep

/-- A cell that is asked for leaves the screen as it is where its row is there and somebody is
signed in, and ends the application otherwise. -/
theorem App.screenStep_cellForRow {row : ℕ}
    (hstep : s.screenStep decode (.cellForRow row) = some t) :
    row < s.rows.length ∧
      (t = s ∧ s.SignedIn ∧ row < s.documentIDs.length ∨
        t.trap ≠ none ∧ ¬(s.SignedIn ∧ row < s.documentIDs.length)) := by
  have htrap := App.trap_eq_none_of_screenStep hstep
  simp only [App.screenStep, htrap, Option.isSome_none, Bool.false_eq_true, if_false] at hstep
  split at hstep
  · rename_i hrow
    refine ⟨hrow, ?_⟩
    cases hstep
    cases hid : s.documentIDs[row]? with
    | none =>
      have hrun : (MemoriesTable.cellForRow row).run s = .error .indexOutOfRange s := by
        simp only [MemoriesTable.cellForRow, EStateM.run_bind, run_documentID, hid]
      rw [perform_of_error hrun]
      exact .inr ⟨nofun, fun h => absurd h.2 (not_lt.mpr (List.getElem?_eq_none_iff.mp hid))⟩
    | some documentID =>
      cases huser : s.cloud.currentUser with
      | none =>
        have hrun : (MemoriesTable.cellForRow row).run s = .error .noCurrentUser s := by
          simp only [MemoriesTable.cellForRow, EStateM.run_bind, run_documentID, hid, run_onCloud,
            Firebase.run_diariesRef_none huser]
        rw [perform_of_error hrun]
        exact .inr ⟨nofun, fun h => h.1.currentUser_ne_none huser⟩
      | some uid =>
        have hrun : (MemoriesTable.cellForRow row).run s = .ok () s := by
          simp only [MemoriesTable.cellForRow, EStateM.run_bind, run_documentID, hid, run_onCloud,
            Firebase.run_diariesRef_some huser]
          rfl
        rw [perform_of_ok hrun]
        exact .inl ⟨rfl, App.signedIn_of_eq huser, (List.getElem?_eq_some_iff.mp hid).1⟩
  · cases hstep

/-- A step that does not fail is a step of the screen, or leaves it as it is. -/
theorem picks_screenStep : Picks (App.screenStep decode) App.step (ScreenEvent.toEvent decode)
    (fun _ _ t => t.trap = none) := by
  intro s e t hok hstep
  cases e with
  | event e =>
    refine ⟨fun e' he' => ?_, nofun⟩
    cases he'
    exact App.step_of_screenStep hstep
  | cellForRow row =>
    obtain ⟨-, ⟨rfl, -, -⟩ | ⟨hfailed, -⟩⟩ := App.screenStep_cellForRow hstep
    · exact ⟨nofun, fun _ => rfl⟩
    · exact absurd hok hfailed
  | reply i outcome newID =>
    cases hanswer : TextAnalyzer.answer decode outcome with
    | none => exact absurd hok (App.trap_ne_none_of_reply hanswer hstep)
    | some result =>
      simp only [ScreenEvent.toEvent, hanswer, Option.map_some]
      refine ⟨fun e' he' => ?_, nofun⟩
      cases he'
      rw [← App.screenStep_reply hanswer]
      exact hstep

/-- The same of the steps with the requests for cells and the replies. -/
theorem ScreenCalm.step {e : ScreenEvent} (hcalm : ScreenCalm decode s e)
    (hahead : AheadByWaiting s) (hrows : RowsAreSuffix s)
    (hstep : s.screenStep decode e = some t) :
    t.trap = none ∧ AheadByWaiting t ∧ RowsAreSuffix t := by
  cases e with
  | event e => exact Calm.step hcalm hahead hrows (App.step_of_screenStep hstep)
  | cellForRow row =>
    have htrap := App.trap_eq_none_of_screenStep hstep
    obtain ⟨hrow, ⟨rfl, -, -⟩ | ⟨-, hnot⟩⟩ := App.screenStep_cellForRow hstep
    · exact ⟨htrap, hahead, hrows⟩
    · have hlength := (hahead htrap).1
      exact absurd ⟨hcalm, by omega⟩ hnot
  | reply i outcome newID =>
    obtain ⟨result, hanswer, hcalm⟩ := hcalm
    rw [App.screenStep_reply hanswer] at hstep
    exact hcalm.step hahead hrows hstep

/-- **What it takes not to fail.** A run whose steps are calm does not end the application, and
where nothing waits the table shows the array. A run that leaves no `insertRows` block waiting
and does not end the application was calm. -/
theorem trap_eq_none_iff_calm (cloud : Cloud) (es : List ScreenEvent) :
    (Always (App.screenStep decode) (fun s e _ => ScreenCalm decode s e) (App.start cloud) es →
      Always (App.screenStep decode)
        (fun _ _ t => t.trap = none ∧ (t.insertions = 0 → t.rows = t.documentIDs))
        (App.start cloud) es) ∧
    ∀ t, run (App.screenStep decode) (App.start cloud) es = some t → t.insertions = 0 →
      (Always (App.screenStep decode) (fun _ _ t => t.trap = none) (App.start cloud) es ↔
        Always (App.screenStep decode) (fun s e _ => ScreenCalm decode s e)
          (App.start cloud) es) := by
  have hcalm : Always (App.screenStep decode) (fun s e _ => ScreenCalm decode s e)
      (App.start cloud) es → Always (App.screenStep decode)
        (fun _ _ t => t.trap = none ∧ (t.insertions = 0 → t.rows = t.documentIDs))
        (App.start cloud) es := by
    refine Always.of_invariant (I := fun s => AheadByWaiting s ∧ RowsAreSuffix s) ?_
      ⟨aheadByWaiting_start cloud, rowsAreSuffix_start cloud⟩
    rintro s e t ⟨hahead, hrows⟩ hstep hcalm
    obtain ⟨hok, haheadt, hrowst⟩ := hcalm.step hahead hrows hstep
    exact ⟨⟨hok, haheadt.rows_eq hrowst hok⟩, haheadt, hrowst⟩
  refine ⟨hcalm, fun t hrun hdone => ⟨fun hok => ?_, fun h => (hcalm h).mono fun _ _ _ h => h.1⟩⟩
  have hevents := picks_screenStep.run_filterMap hok hrun
  have hpicked := (picks_screenStep.always_filterMap_iff hok hrun).mp (calm_of_run hevents hdone
    ((picks_screenStep.always_filterMap_iff hok hrun).mpr (hok.mono fun _ _ _ h _ _ => h)))
  refine Always.of_invariant (I := fun _ => True) (fun s e t _ hstep hboth => ⟨?_, trivial⟩)
    trivial (hok.and hpicked)
  obtain ⟨hok, hcalm⟩ := hboth
  cases e with
  | event e => exact hcalm e rfl
  | cellForRow row =>
    obtain ⟨-, ⟨-, hsigned, -⟩ | ⟨hfailed, -⟩⟩ := App.screenStep_cellForRow hstep
    · exact hsigned
    · exact absurd hok hfailed
  | reply i outcome newID =>
    cases hanswer : TextAnalyzer.answer decode outcome with
    | none => exact absurd hok (App.trap_ne_none_of_reply hanswer hstep)
    | some result =>
      refine ⟨result, hanswer, hcalm _ ?_⟩
      rw [ScreenEvent.toEvent, hanswer]
      rfl

/-- A service that finds one phrase in a body. -/
def onePhrase : Data → Except RequestError (TextAnalyzer.Response TextAnalyzer.KeyPhrases) :=
  fun _ => .ok ⟨[⟨["sun"]⟩]⟩

/-- A memory is saved offline, edited and deleted, one after the other, and its row is shown. -/
theorem trap_eq_none_saveEditDelete :
    Always (App.screenStep onePhrase)
      (fun _ _ t => t.trap = none ∧ (t.insertions = 0 → t.rows = t.documentIDs))
      (App.start sampleCloud)
      [.event .load, .event .query, .event .fetched, .event (.unwind (sampleMemory 1) none),
        .reply 0 ⟨none, some "offline"⟩ "a", .event .insertRows, .cellForRow 0,
        .event (.unwind (sampleMemory 2) (some 0)), .cellForRow 0, .reply 0 ⟨some [1], none⟩ "b",
        .event (.swipe 0)] :=
  (trap_eq_none_iff_calm sampleCloud _).1 (by decide)

end FeelBetter
