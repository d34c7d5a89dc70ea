import FeelBetter.Queries

/-!
# The Memories screen

`MemoriesTableViewController` shows the user's memories in a table. Its array
`documentIDs` is changed from three sides: the completion of `fetchAll` and the
swipe to delete run on the main queue, the completion of `keyPhrases` for a
composed memory runs on a background queue and only asks the main queue to
insert the row later. The table view is the list of the identifiers it shows,
row by row. The screen lives as long as the application, across sign-outs and
sign-ins. A handler on the main queue and a completion are one step each, which
nothing interrupts. A cell that UIKit asks for leaves the screen as it is, unless
the application ends, so these requests are steps of their own and come in where
the failures of the screen are counted.
-/

namespace FeelBetter

/-- Where the one `fetchAll` of the screen stands. -/
inductive Fetch where
  /-- `viewDidLoad` has not run. -/
  | notLoaded
  /-- The query of `uid`'s diaries is under way. -/
  | issued (uid : Uid)
  /-- The server has answered, the completion has not run. -/
  | answered (documentIDs : List DocumentID)
  /-- The completion has run with a success. -/
  | delivered
  /-- The completion has run with a failure. -/
  | failed
  deriving DecidableEq

/-- The answer that waits for the completion of `fetchAll`. -/
def Fetch.answer : Fetch → Option (List DocumentID)
  | .answered documentIDs => some documentIDs
  | _ => none

/-- A `keyPhrases` request of `unwindToMemories` that has not completed. -/
structure KeyPhrasesRequest where
  /-- `memoryToSave`, captured by the completion. -/
  memory : LocalMemory
  /-- `selectedIndexPath`, captured by the completion; `none` for a new memory. -/
  selectedRow : Option ℕ
  /-- The user signed in at the time. No step reads it. -/
  author : Option Uid
  /-- The identifier the selected row showed at the time. No step reads it. -/
  shown : Option DocumentID
  deriving DecidableEq

/-- A call of the screen into the Firebase layer. -/
inductive Call where
  | deleteMemory (documentID : DocumentID)
  | replaceMemory (documentID : DocumentID)
  | saveNewMemory (documentID : DocumentID)
  deriving DecidableEq

/-- The application as far as the Memories screen is concerned. -/
structure App where
  cloud : Cloud
  /-- The data source of the table. -/
  documentIDs : List DocumentID
  /-- What the table shows, row by row. -/
  rows : List DocumentID
  fetch : Fetch
  /-- The `keyPhrases` requests under way, in the order of submission. -/
  requests : List KeyPhrasesRequest
  /-- The number of `insertRows` blocks waiting in the main queue. -/
  insertions : ℕ
  /-- The calls made so far, the latest first. No step reads them. -/
  calls : List Call
  /-- The failure that ended the application. -/
  trap : Option Trap

/-- The request that saving `memory` starts now. -/
def App.request (s : App) (memory : LocalMemory) (selectedRow : Option ℕ) :
    KeyPhrasesRequest where
  memory
  selectedRow
  author := s.cloud.currentUser
  shown := selectedRow.bind fun row => s.rows[row]?

/-- The application ends in a runtime failure. -/
def App.halt (s : App) (trap : Trap) : App := { s with trap := some trap }

/-- An action of the screen, which may trap. -/
abbrev Action := EStateM Trap App

/-- Perform an action; a trap ends the application and keeps what was done before. -/
def App.perform (s : App) (action : Action Unit) : App :=
  match action.run s with
  | .ok _ t => t
  | .error trap t => t.halt trap

/-- Perform an action of the Firebase layer. -/
def onCloud {α : Type} (action : CloudAction α) : Action α := fun s =>
  match action.run s.cloud with
  | .ok a cloud => .ok a { s with cloud }
  | .error trap cloud => .error trap { s with cloud }

namespace MemoriesTable

/-- Note a call into the Firebase layer. -/
def note (call : Call) : Action Unit :=
  modify fun s : App => { s with calls := call :: s.calls }

/-- The array subscript `documentIDs[row]`. -/
def documentID (row : ℕ) : Action DocumentID := do
  match (← get).documentIDs[row]? with
  | some documentID => pure documentID
  | none => throw .indexOutOfRange

/-- `tableView.reloadData()`: the table takes over the rows of its data source. Here and below
the requests for cells that UIKit makes at once are left to `cellForRow`. -/
def reloadData : Action Unit :=
  modify fun s : App => { s with rows := s.documentIDs }

/-- `tableView.insertRows(at:)`. UIKit compares the row count of the data source with
the count it knew and traps on a difference other than one. -/
def insertRows (row : ℕ) : Action Unit := do
  let s ← get
  if s.documentIDs.length = s.rows.length + 1 then
    let documentID ← documentID row
    modify fun s : App => { s with rows := s.rows.insertIdx row documentID }
  else
    throw .invalidInsertRows

/-- `tableView.deleteRows(at:)`, with the same comparison. -/
def deleteRows (row : ℕ) : Action Unit := do
  let s ← get
  if s.documentIDs.length + 1 = s.rows.length then
    modify fun s : App => { s with rows := s.rows.eraseIdx row }
  else
    throw .invalidDeleteRows

/-- `tableView.reloadRows(at:)`, with the same comparison. -/
def reloadRows (row : ℕ) : Action Unit := do
  let s ← get
  if s.documentIDs.length = s.rows.length then
    let documentID ← documentID row
    modify fun s : App => { s with rows := s.rows.set row documentID }
  else
    throw .invalidReloadRows

/-- `viewDidLoad`, which calls `fetchAll`. -/
def viewDidLoad : Action Unit := do
  let uid ← onCloud Firebase.diariesRef
  modify fun s : App => { s with fetch := .issued uid }

/-- The completion that `viewDidLoad` hands to `fetchAll`. -/
def fetchAllCompletion (result : Result (List DocumentID)) : Action Unit :=
  match result with
  | .ok ids => do
    modify fun s : App => { s with documentIDs := ids }
    reloadData
  | .error _ => pure ()

/-- `tableView(_:commit:forRowAt:)` with `.delete`. -/
def commitDelete (row : ℕ) : Action Unit := do
  let documentID ← documentID row
  modify fun s : App => { s with documentIDs := s.documentIDs.eraseIdx row }
  note (.deleteMemory documentID)
  onCloud (Firebase.deleteMemory documentID)
  deleteRows row

/-- `unwindToMemories`: the memory is not written before its key phrases are known. -/
def unwindToMemories (memory : LocalMemory) (selectedRow : Option ℕ) : Action Unit := do
  let s ← get
  set { s with requests := s.requests ++ [s.request memory selectedRow] }
  match selectedRow with
  | some row => reloadRows row
  | none => pure ()

/-- The tags a memory is saved with, `(try? result.get()) ?? []`. -/
def tagsOf (result : Result (List String)) : List String := result.toOption.getD []

/-- The completion that `unwindToMemories` hands to `keyPhrases`. `newID` is the
identifier that Firestore hands out where the memory is new. -/
def keyPhrasesCompletion (request : KeyPhrasesRequest) (result : Result (List String))
    (newID : DocumentID) : Action Unit := do
  match request.selectedRow with
  | some row => do
    let documentID ← documentID row
    note (.replaceMemory documentID)
    onCloud (Firebase.replaceMemory documentID request.memory (tagsOf result))
  | none => do
    note (.saveNewMemory newID)
    let documentID ← onCloud (Firebase.saveNewMemory newID request.memory (tagsOf result))
    modify fun s : App => { s with
      documentIDs := documentID :: s.documentIDs
      insertions := s.insertions + 1 }

end MemoriesTable

/-- What can happen next. -/
inductive Event where
  /-- A sign-in completes. -/
  | signIn (uid : Uid)
  /-- The phone is shaken on the home screen. -/
  | signOut
  /-- The Memories screen is opened for the first time. -/
  | load
  /-- The server answers `fetchAll`. -/
  | query
  /-- The completion of `fetchAll` runs with the answer. -/
  | fetched
  /-- The completion of `fetchAll` runs with an error. -/
  | fetchFailed (error : RequestError)
  /-- The compose screen is left with a memory to save. -/
  | unwind (memory : LocalMemory) (selectedRow : Option ℕ)
  /-- The completion of the `i`-th request under way runs in the background. -/
  | keyPhrases (i : ℕ) (result : Result (List String)) (newID : DocumentID)
  /-- The main queue runs an `insertRows` block. -/
  | insertRows
  /-- The user swipes a row away. -/
  | swipe (row : ℕ)
  deriving DecidableEq

namespace App

/-- One step of the application: `none` where the event cannot happen. After a trap
nothing happens. The user can only touch rows that the table shows, and Firestore
never hands out an identifier twice. -/
def step (s : App) (e : Event) : Option App :=
  if s.trap.isSome then none else
  match e with
  | .signIn uid => some { s with cloud := { s.cloud with currentUser := some uid } }
  | .signOut => some { s with cloud := { s.cloud with currentUser := none } }
  | .load => if s.fetch = .notLoaded then some (s.perform MemoriesTable.viewDidLoad) else none
  | .query =>
    match s.fetch with
    | .issued uid => some { s with fetch := .answered (Firebase.fetchAll (s.cloud.diaries uid)) }
    | _ => none
  | .fetched =>
    match s.fetch with
    | .answered ids =>
      some ({ s with fetch := .delivered }.perform (MemoriesTable.fetchAllCompletion (.ok ids)))
    | _ => none
  | .fetchFailed error =>
    match s.fetch with
    | .issued _ | .answered _ =>
      some ({ s with fetch := .failed }.perform (MemoriesTable.fetchAllCompletion (.error error)))
    | _ => none
  | .unwind memory selectedRow =>
    if ∀ row ∈ selectedRow, row < s.rows.length then
      some (s.perform (MemoriesTable.unwindToMemories memory selectedRow))
    else none
  | .keyPhrases i result newID =>
    match s.requests[i]? with
    | some request =>
      if newID ∉ s.cloud.allotted then
        some ({ s with requests := s.requests.eraseIdx i }.perform
          (MemoriesTable.keyPhrasesCompletion request result newID))
      else none
    | none => none
  | .insertRows =>
    if 0 < s.insertions then
      some ({ s with insertions := s.insertions - 1 }.perform (MemoriesTable.insertRows 0))
    else none
  | .swipe row =>
    if row < s.rows.length then some (s.perform (MemoriesTable.commitDelete row)) else none

/-- The application before the Memories screen is opened. -/
def start (cloud : Cloud) : App where
  cloud
  documentIDs := []
  rows := []
  fetch := .notLoaded
  requests := []
  insertions := 0
  calls := []
  trap := none

end App

end FeelBetter
