import FeelBetter.Memories.Screen

/-!
# What one step of the Memories screen can do

The step function runs the actions of the source. This file says once what each
of them comes to: a step from a state is one of the transitions below, with
its guard and the state it leads to written out. The facts about the screen
are proved from the transitions and never unfold the actions.
-/

namespace FeelBetter

open MemoriesTable

/-- The transitions of the screen, named by what they do. -/
inductive Transition (s : App) : Event → App → Prop where
  | signIn (uid : Uid) :
    Transition s (.signIn uid) { s with cloud := { s.cloud with currentUser := some uid } }
  | signOut : Transition s .signOut { s with cloud := { s.cloud with currentUser := none } }
  | load {uid : Uid} (hfetch : s.fetch = .notLoaded) (huser : s.cloud.currentUser = some uid) :
    Transition s .load { s with fetch := .issued uid }
  | loadSignedOut (hfetch : s.fetch = .notLoaded) (huser : s.cloud.currentUser = none) :
    Transition s .load (s.halt .noCurrentUser)
  | query {uid : Uid} (hfetch : s.fetch = .issued uid) :
    Transition s .query { s with fetch := .answered (Firebase.fetchAll (s.cloud.diaries uid)) }
  | fetched {ids : List DocumentID} (hfetch : s.fetch = .answered ids) :
    Transition s .fetched { s with fetch := .delivered, documentIDs := ids, rows := ids }
  | fetchFailed (error : RequestError)
    (hfetch : (∃ uid, s.fetch = .issued uid) ∨ ∃ ids, s.fetch = .answered ids) :
    Transition s (.fetchFailed error) { s with fetch := .failed }
  | compose (memory : LocalMemory) :
    Transition s (.unwind memory none) { s with requests := s.requests ++ [s.request memory none] }
  | edit (memory : LocalMemory) {row : ℕ} {documentID : DocumentID} (hrow : row < s.rows.length)
    (hcount : s.documentIDs.length = s.rows.length) (hid : s.documentIDs[row]? = some documentID) :
    Transition s (.unwind memory (some row)) { s with
      requests := s.requests ++ [s.request memory (some row)]
      rows := s.rows.set row documentID }
  | editInvalid (memory : LocalMemory) {row : ℕ} (hrow : row < s.rows.length)
    (hcount : s.documentIDs.length ≠ s.rows.length) :
    Transition s (.unwind memory (some row)) ({ s with
      requests := s.requests ++ [s.request memory (some row)] }.halt .invalidReloadRows)
  | saved {i : ℕ} {request : KeyPhrasesRequest} (result : Result (List String))
    {newID : DocumentID} {uid : Uid} (hrequest : s.requests[i]? = some request)
    (hnew : request.selectedRow = none) (hfresh : newID ∉ s.cloud.allotted)
    (huser : s.cloud.currentUser = some uid) :
    Transition s (.keyPhrases i result newID) { s with
      cloud := (s.cloud.allot newID).written uid newID request.memory (tagsOf result)
      documentIDs := newID :: s.documentIDs
      requests := s.requests.eraseIdx i
      insertions := s.insertions + 1
      calls := .saveNewMemory newID :: s.calls }
  | savedSignedOut {i : ℕ} {request : KeyPhrasesRequest} (result : Result (List String))
    {newID : DocumentID} (hrequest : s.requests[i]? = some request)
    (hnew : request.selectedRow = none) (hfresh : newID ∉ s.cloud.allotted)
    (huser : s.cloud.currentUser = none) :
    Transition s (.keyPhrases i result newID) ({ s with
      requests := s.requests.eraseIdx i
      calls := .saveNewMemory newID :: s.calls }.halt .noCurrentUser)
  | edited {i row : ℕ} {request : KeyPhrasesRequest} (result : Result (List String))
    {newID documentID : DocumentID} {uid : Uid} (hrequest : s.requests[i]? = some request)
    (hrow : request.selectedRow = some row) (hfresh : newID ∉ s.cloud.allotted)
    (hid : s.documentIDs[row]? = some documentID) (huser : s.cloud.currentUser = some uid) :
    Transition s (.keyPhrases i result newID) { s with
      cloud := s.cloud.written uid documentID request.memory (tagsOf result)
      requests := s.requests.eraseIdx i
      calls := .replaceMemory documentID :: s.calls }
  | editedSignedOut {i row : ℕ} {request : KeyPhrasesRequest} (result : Result (List String))
    {newID documentID : DocumentID} (hrequest : s.requests[i]? = some request)
    (hrow : request.selectedRow = some row) (hfresh : newID ∉ s.cloud.allotted)
    (hid : s.documentIDs[row]? = some documentID) (huser : s.cloud.currentUser = none) :
    Transition s (.keyPhrases i result newID) ({ s with
      cloud := s.cloud.putImage documentID request.memory
      requests := s.requests.eraseIdx i
      calls := .replaceMemory documentID :: s.calls }.halt .noCurrentUser)
  | editedMissing {i row : ℕ} {request : KeyPhrasesRequest} (result : Result (List String))
    {newID : DocumentID} (hrequest : s.requests[i]? = some request)
    (hrow : request.selectedRow = some row) (hfresh : newID ∉ s.cloud.allotted)
    (hid : s.documentIDs[row]? = none) :
    Transition s (.keyPhrases i result newID)
      ({ s with requests := s.requests.eraseIdx i }.halt .indexOutOfRange)
  | rowInserted {documentID : DocumentID} (hwaiting : 0 < s.insertions)
    (hcount : s.documentIDs.length = s.rows.length + 1)
    (hid : s.documentIDs[0]? = some documentID) :
    Transition s .insertRows
      { s with insertions := s.insertions - 1, rows := documentID :: s.rows }
  | insertInvalid (hwaiting : 0 < s.insertions)
    (hcount : s.documentIDs.length ≠ s.rows.length + 1) :
    Transition s .insertRows
      ({ s with insertions := s.insertions - 1 }.halt .invalidInsertRows)
  | deleted {row : ℕ} {documentID : DocumentID} {uid : Uid} (hrow : row < s.rows.length)
    (hid : s.documentIDs[row]? = some documentID) (huser : s.cloud.currentUser = some uid)
    (hcount : s.documentIDs.length = s.rows.length) :
    Transition s (.swipe row) { s with
      cloud := s.cloud.deleted uid documentID
      documentIDs := s.documentIDs.eraseIdx row
      rows := s.rows.eraseIdx row
      calls := .deleteMemory documentID :: s.calls }
  | deleteInvalid {row : ℕ} {documentID : DocumentID} {uid : Uid} (hrow : row < s.rows.length)
    (hid : s.documentIDs[row]? = some documentID) (huser : s.cloud.currentUser = some uid)
    (hcount : s.documentIDs.length ≠ s.rows.length) :
    Transition s (.swipe row) ({ s with
      cloud := s.cloud.deleted uid documentID
      documentIDs := s.documentIDs.eraseIdx row
      calls := .deleteMemory documentID :: s.calls }.halt .invalidDeleteRows)
  | deleteSignedOut {row : ℕ} {documentID : DocumentID} (hrow : row < s.rows.length)
    (hid : s.documentIDs[row]? = some documentID) (huser : s.cloud.currentUser = none) :
    Transition s (.swipe row) ({ s with
      documentIDs := s.documentIDs.eraseIdx row
      calls := .deleteMemory documentID :: s.calls }.halt .noCurrentUser)
  | deleteMissing {row : ℕ} (hrow : row < s.rows.length) (hid : s.documentIDs[row]? = none) :
    Transition s (.swipe row) (s.halt .indexOutOfRange)

/-! ### Running the actions -/

@[simp] theorem run_throw_any {ε σ α : Type} (e : ε) (s : σ) :
    EStateM.run (throw e : EStateM ε σ α) s = .error e s := rfl

theorem run_onCloud {α : Type} (action : CloudAction α) (s : App) :
    (onCloud action).run s = match action.run s.cloud with
      | .ok a cloud => .ok a { s with cloud }
      | .error trap cloud => .error trap { s with cloud } := rfl

theorem perform_of_ok {s t : App} {action : Action Unit} (h : action.run s = .ok () t) :
    s.perform action = t := by
  rw [App.perform, h]

theorem perform_of_error {s t : App} {action : Action Unit} {trap : Trap}
    (h : action.run s = .error trap t) : s.perform action = t.halt trap := by
  rw [App.perform, h]

theorem run_documentID (row : ℕ) (s : App) :
    (documentID row).run s = match s.documentIDs[row]? with
      | some id => .ok id s
      | none => .error .indexOutOfRange s := by
  cases h : s.documentIDs[row]? <;> simp [documentID, h]

theorem run_deleteRows_ok {s : App} (row : ℕ) (h : s.documentIDs.length + 1 = s.rows.length) :
    (deleteRows row).run s = .ok () { s with rows := s.rows.eraseIdx row } := by
  simp [deleteRows, h]

theorem run_deleteRows_error {s : App} (row : ℕ) (h : s.documentIDs.length + 1 ≠ s.rows.length) :
    (deleteRows row).run s = .error .invalidDeleteRows s := by
  simp [deleteRows, h]

/-- Opening the screen issues the query of the signed-in user, or traps. -/
theorem load_transition {s : App} (hfetch : s.fetch = .notLoaded) :
    Transition s .load (s.perform viewDidLoad) := by
  cases huser : s.cloud.currentUser with
  | none =>
    have hrun : viewDidLoad.run s = .error .noCurrentUser s := by
      simp [viewDidLoad, run_onCloud, Firebase.run_diariesRef_none huser]
    rw [perform_of_error hrun]
    exact .loadSignedOut hfetch huser
  | some uid =>
    have hrun : viewDidLoad.run s = .ok () { s with fetch := .issued uid } := by
      simp [viewDidLoad, run_onCloud, Firebase.run_diariesRef_some huser]
    rw [perform_of_ok hrun]
    exact .load hfetch huser

/-- Leaving the compose screen starts a request and, for an edit, reloads the row. -/
theorem unwind_transition {s : App} (memory : LocalMemory) {selectedRow : Option ℕ}
    (hrow : ∀ row ∈ selectedRow, row < s.rows.length) :
    Transition s (.unwind memory selectedRow)
      (s.perform (unwindToMemories memory selectedRow)) := by
  cases selectedRow with
  | none =>
    have hrun : (unwindToMemories memory none).run s =
        .ok () { s with requests := s.requests ++ [s.request memory none] } := by
      simp [unwindToMemories]
    rw [perform_of_ok hrun]
    exact .compose memory
  | some row =>
    have hlt : row < s.rows.length := hrow row rfl
    by_cases hcount : s.documentIDs.length = s.rows.length
    · have hlt' : row < s.documentIDs.length := by omega
      have hid : s.documentIDs[row]? = some s.documentIDs[row] := List.getElem?_eq_getElem hlt'
      have hrun : (unwindToMemories memory (some row)).run s = .ok () { s with
          requests := s.requests ++ [s.request memory (some row)]
          rows := s.rows.set row s.documentIDs[row] } := by
        simp [unwindToMemories, reloadRows, documentID, hcount, hid]
      rw [perform_of_ok hrun]
      exact .edit memory hlt hcount hid
    · have hrun : (unwindToMemories memory (some row)).run s = .error .invalidReloadRows { s with
          requests := s.requests ++ [s.request memory (some row)] } := by
        simp [unwindToMemories, reloadRows, hcount]
      rw [perform_of_error hrun]
      exact .editInvalid memory hlt hcount

/-- The completion for a new memory writes it under the user signed in by then, or traps. -/
theorem save_transition {s : App} {i : ℕ} {request : KeyPhrasesRequest}
    (result : Result (List String)) {newID : DocumentID} (hrequest : s.requests[i]? = some request)
    (hnew : request.selectedRow = none) (hfresh : newID ∉ s.cloud.allotted) :
    Transition s (.keyPhrases i result newID) ({ s with requests := s.requests.eraseIdx i }.perform
      (keyPhrasesCompletion request result newID)) := by
  cases huser : s.cloud.currentUser with
  | none =>
    have hrun : (keyPhrasesCompletion request result newID).run
        { s with requests := s.requests.eraseIdx i } = .error .noCurrentUser { s with
          requests := s.requests.eraseIdx i
          calls := .saveNewMemory newID :: s.calls } := by
      simp only [keyPhrasesCompletion, hnew, note, EStateM.run_bind, EStateM.run_modify,
        run_onCloud, Firebase.run_saveNewMemory_none huser]
    rw [perform_of_error hrun]
    exact .savedSignedOut result hrequest hnew hfresh huser
  | some uid =>
    have hrun : (keyPhrasesCompletion request result newID).run
        { s with requests := s.requests.eraseIdx i } = .ok () { s with
          cloud := (s.cloud.allot newID).written uid newID request.memory (tagsOf result)
          documentIDs := newID :: s.documentIDs
          requests := s.requests.eraseIdx i
          insertions := s.insertions + 1
          calls := .saveNewMemory newID :: s.calls } := by
      simp only [keyPhrasesCompletion, hnew, note, EStateM.run_bind, EStateM.run_modify,
        run_onCloud, Firebase.run_saveNewMemory_some huser]
    rw [perform_of_ok hrun]
    exact .saved result hrequest hnew hfresh huser

/-- The completion for an edit looks the row up again and writes over its document, or traps. -/
theorem edit_transition {s : App} {i row : ℕ} {request : KeyPhrasesRequest}
    (result : Result (List String)) {newID : DocumentID} (hrequest : s.requests[i]? = some request)
    (hrow : request.selectedRow = some row) (hfresh : newID ∉ s.cloud.allotted) :
    Transition s (.keyPhrases i result newID) ({ s with requests := s.requests.eraseIdx i }.perform
      (keyPhrasesCompletion request result newID)) := by
  cases hid : s.documentIDs[row]? with
  | none =>
    have hrun : (keyPhrasesCompletion request result newID).run
        { s with requests := s.requests.eraseIdx i } =
          .error .indexOutOfRange { s with requests := s.requests.eraseIdx i } := by
      simp only [keyPhrasesCompletion, hrow, EStateM.run_bind, run_documentID, hid]
    rw [perform_of_error hrun]
    exact .editedMissing result hrequest hrow hfresh hid
  | some id =>
    cases huser : s.cloud.currentUser with
    | none =>
      have hrun : (keyPhrasesCompletion request result newID).run
          { s with requests := s.requests.eraseIdx i } = .error .noCurrentUser { s with
            cloud := s.cloud.putImage id request.memory
            requests := s.requests.eraseIdx i
            calls := .replaceMemory id :: s.calls } := by
        simp only [keyPhrasesCompletion, hrow, note, EStateM.run_bind, run_documentID, hid,
          EStateM.run_modify, run_onCloud, Firebase.run_replaceMemory_none huser]
      rw [perform_of_error hrun]
      exact .editedSignedOut result hrequest hrow hfresh hid huser
    | some uid =>
      have hrun : (keyPhrasesCompletion request result newID).run
          { s with requests := s.requests.eraseIdx i } = .ok () { s with
            cloud := s.cloud.written uid id request.memory (tagsOf result)
            requests := s.requests.eraseIdx i
            calls := .replaceMemory id :: s.calls } := by
        simp only [keyPhrasesCompletion, hrow, note, EStateM.run_bind, run_documentID, hid,
          EStateM.run_modify, run_onCloud, Firebase.run_replaceMemory_some huser]
      rw [perform_of_ok hrun]
      exact .edited result hrequest hrow hfresh hid huser

/-- An `insertRows` block shows the identifier in front, or traps. -/
theorem insertRows_transition {s : App} (hwaiting : 0 < s.insertions) :
    Transition s .insertRows
      ({ s with insertions := s.insertions - 1 }.perform (insertRows 0)) := by
  by_cases hcount : s.documentIDs.length = s.rows.length + 1
  · have hlt : 0 < s.documentIDs.length := by omega
    have hid : s.documentIDs[0]? = some s.documentIDs[0] := List.getElem?_eq_getElem hlt
    have hrun : (insertRows 0).run { s with insertions := s.insertions - 1 } = .ok () { s with
        insertions := s.insertions - 1
        rows := s.documentIDs[0] :: s.rows } := by
      simp [insertRows, documentID, hcount]
    rw [perform_of_ok hrun]
    exact .rowInserted hwaiting hcount hid
  · have hrun : (insertRows 0).run { s with insertions := s.insertions - 1 } =
        .error .invalidInsertRows { s with insertions := s.insertions - 1 } := by
      simp [insertRows, hcount]
    rw [perform_of_error hrun]
    exact .insertInvalid hwaiting hcount

/-- A swipe deletes the memory that the array holds at the row; the table follows only
where it knew as many rows as the array has. -/
theorem swipe_transition {s : App} {row : ℕ} (hrow : row < s.rows.length) :
    Transition s (.swipe row) (s.perform (commitDelete row)) := by
  cases hid : s.documentIDs[row]? with
  | none =>
    have hrun : (commitDelete row).run s = .error .indexOutOfRange s := by
      simp only [commitDelete, EStateM.run_bind, run_documentID, hid]
    rw [perform_of_error hrun]
    exact .deleteMissing hrow hid
  | some id =>
    have hlt : row < s.documentIDs.length := (List.getElem?_eq_some_iff.mp hid).1
    cases huser : s.cloud.currentUser with
    | none =>
      have hrun : (commitDelete row).run s = .error .noCurrentUser { s with
          documentIDs := s.documentIDs.eraseIdx row
          calls := .deleteMemory id :: s.calls } := by
        simp only [commitDelete, note, EStateM.run_bind, run_documentID, hid,
          EStateM.run_modify, run_onCloud, Firebase.run_deleteMemory_none huser]
      rw [perform_of_error hrun]
      exact .deleteSignedOut hrow hid huser
    | some uid =>
      have hlength : (s.documentIDs.eraseIdx row).length + 1 = s.documentIDs.length := by
        rw [List.length_eraseIdx_of_lt hlt]
        omega
      have hdeleted : (commitDelete row).run s = (deleteRows row).run { s with
          cloud := s.cloud.deleted uid id
          documentIDs := s.documentIDs.eraseIdx row
          calls := .deleteMemory id :: s.calls } := by
        simp only [commitDelete, note, EStateM.run_bind, run_documentID, hid,
          EStateM.run_modify, run_onCloud, Firebase.run_deleteMemory_some huser]
      by_cases hcount : s.documentIDs.length = s.rows.length
      · rw [perform_of_ok (hdeleted.trans (run_deleteRows_ok row (hlength.trans hcount)))]
        exact .deleted hrow hid huser hcount
      · have hne : (s.documentIDs.eraseIdx row).length + 1 ≠ s.rows.length := by
          rwa [hlength]
        rw [perform_of_error (hdeleted.trans (run_deleteRows_error row hne))]
        exact .deleteInvalid hrow hid huser hcount

/-- Every step of the application is a transition, and starts from a state in which it has
not trapped. -/
theorem transition_of_step {s t : App} {e : Event} (h : s.step e = some t) :
    s.trap = none ∧ Transition s e t := by
  unfold App.step at h
  split at h
  · cases h
  · rename_i htrap
    refine ⟨by simpa using htrap, ?_⟩
    cases e with
    | signIn uid => cases h; exact .signIn uid
    | signOut => cases h; exact .signOut
    | load =>
      dsimp only at h
      split at h
      · rename_i hfetch
        cases h
        exact load_transition hfetch
      · cases h
    | query =>
      dsimp only at h
      split at h
      · rename_i uid hfetch
        cases h
        exact .query hfetch
      · cases h
    | fetched =>
      dsimp only at h
      split at h
      · rename_i ids hfetch
        cases h
        exact .fetched hfetch
      · cases h
    | fetchFailed error =>
      dsimp only at h
      split at h
      · rename_i uid hfetch
        cases h
        exact .fetchFailed error (.inl ⟨uid, hfetch⟩)
      · rename_i ids hfetch
        cases h
        exact .fetchFailed error (.inr ⟨ids, hfetch⟩)
      · cases h
    | unwind memory selectedRow =>
      dsimp only at h
      split at h
      · rename_i hrow
        cases h
        exact unwind_transition memory hrow
      · cases h
    | keyPhrases i result newID =>
      dsimp only at h
      split at h
      · rename_i request hrequest
        split at h
        · rename_i hfresh
          cases h
          cases hrow : request.selectedRow with
          | none => exact save_transition result hrequest hrow hfresh
          | some row => exact edit_transition result hrequest hrow hfresh
        · cases h
      · cases h
    | insertRows =>
      dsimp only at h
      split at h
      · rename_i hwaiting
        cases h
        exact insertRows_transition hwaiting
      · cases h
    | swipe row =>
      dsimp only at h
      split at h
      · rename_i hrow
        cases h
        exact swipe_transition hrow
      · cases h

end FeelBetter
