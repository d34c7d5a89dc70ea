import FeelBetter.Memories.Browsing
import FeelBetter.NewMemory.Saved

/-!
# The Memories screen and the diaries

The Memories screen writes when key phrases arrive and deletes when a row is swiped away, and
each of these is a request to the Firebase layer for whoever is signed in at that moment. As
long as the list is kept to the signed-in user, nobody writes under an identifier of another
one. So every user has a diary, and an entry is what the own writes under its identifier
say: the fields of the last one, and the last picture that came with one.
-/

namespace FeelBetter

open Machine MemoriesTable

/-! ### The writes of one entry -/

/-- The last picture that was uploaded with one of the writes. -/
def Write.lastPicture (writes : List Write) : Option Data :=
  (writes.filterMap fun write => write.memory.imageData).getLast?

/-- The entry that is left by writes under one identifier. -/
def Entry.ofWrites (writes : List Write) : Option Entry :=
  writes.getLast?.map fun last => .ofMemory last.memory last.tags (Write.lastPicture writes)

theorem Write.lastPicture_concat (writes : List Write) (last : Write) :
    Write.lastPicture (writes ++ [last]) =
      last.memory.imageData.or (Write.lastPicture writes) := by
  unfold Write.lastPicture
  cases hdata : last.memory.imageData <;> simp [hdata]

theorem Entry.ofWrites_concat (writes : List Write) (last : Write) :
    Entry.ofWrites (writes ++ [last]) = some (.ofMemory last.memory last.tags
      (last.memory.imageData.or (Write.lastPicture writes))) := by
  rw [Entry.ofWrites, List.getLast?_concat, Write.lastPicture_concat, Option.map_some]

theorem Entry.picture_ofWrites (writes : List Write) :
    (Entry.ofWrites writes).bind Entry.picture = Write.lastPicture writes := by
  rcases List.eq_nil_or_concat writes with rfl | ⟨before, last, rfl⟩
  · rfl
  · rw [List.concat_eq_append, Entry.ofWrites_concat, Write.lastPicture_concat]
    rfl

theorem Entry.ofWrites_eq_none_iff {writes : List Write} :
    Entry.ofWrites writes = none ↔ writes = [] := by
  rw [Entry.ofWrites, Option.map_eq_none_iff, List.getLast?_eq_none_iff]

namespace Diary

variable {diary diary' : Diary} {documentID : DocumentID}

/-- The writes under an identifier after a request. -/
def writesAfter (documentID : DocumentID) (writes : List Write) : DiaryRequest → List Write
  | .save newID memory tags => if newID = documentID then [⟨memory, tags⟩] else writes
  | .replace replacedID memory tags =>
    if replacedID = documentID then writes ++ [⟨memory, tags⟩] else writes
  | .delete deletedID => if deletedID = documentID then [] else writes
  | .read _ | .list | .keywords _ _ | .sentiments _ _ => writes

/-- The writes under an identifier since it was last saved anew or deleted. -/
def writesOf (documentID : DocumentID) (requests : List DiaryRequest) : List Write :=
  requests.foldl (writesAfter documentID) []

theorem lookup_next {writes : List Write} (h : diary.lookup documentID = Entry.ofWrites writes)
    (request : DiaryRequest) :
    (diary.next request).lookup documentID =
      Entry.ofWrites (writesAfter documentID writes request) := by
  cases request with
  | save newID memory tags =>
    simp only [next, writesAfter]
    split_ifs with heq
    · rw [heq, AList.lookup_insert, ← List.nil_append [_], Entry.ofWrites_concat]
      exact congrArg (fun picture => some (Entry.ofMemory memory tags picture)) Option.or_none.symm
    · rw [AList.lookup_insert_ne (Ne.symm heq), h]
  | replace replacedID memory tags =>
    simp only [next, writesAfter]
    split_ifs with heq
    · rw [heq, AList.lookup_insert, h, Entry.picture_ofWrites, Entry.ofWrites_concat]
    · rw [AList.lookup_insert_ne (Ne.symm heq), h]
  | delete deletedID =>
    simp only [next, writesAfter]
    split_ifs with heq
    · rw [heq, AList.lookup_erase]
      rfl
    · rw [AList.lookup_erase_ne (Ne.symm heq), h]
  | read _ | list | keywords _ _ | sentiments _ _ => exact h

/-- What a diary has under an identifier is what the writes under that identifier say. -/
theorem lookup_of_run {requests : List DiaryRequest} (hrun : run Diary.step ∅ requests = some diary)
    (documentID : DocumentID) :
    diary.lookup documentID = Entry.ofWrites (writesOf documentID requests) := by
  have hempty : (∅ : Diary).lookup documentID = Entry.ofWrites [] := rfl
  refine run_record (J := fun diary writes => diary.lookup documentID = Entry.ofWrites writes)
    (fun diary writes request diary' h hstep => ?_) hempty hrun
  cases hstep
  exact lookup_next h request

end Diary

/-! ### The screen as a client of the Firebase layer -/

/-- What the completion of a request asks the Firebase layer for; nothing where the row is gone. -/
def KeyPhrasesRequest.asks (request : KeyPhrasesRequest) (documentIDs : List DocumentID)
    (result : Result (List String)) (newID : DocumentID) : Option DiaryRequest :=
  match request.selectedRow with
  | some row => documentIDs[row]?.map fun documentID =>
      .replace documentID request.memory (tagsOf result)
  | none => some (.save newID request.memory (tagsOf result))

/-- What a step is for the cloud, if anything. -/
def App.asks (s : App) : Event → Option CloudEvent
  | .signIn uid => some (.signIn uid)
  | .signOut => some .signOut
  | .keyPhrases i result newID => s.requests[i]?.bind fun request =>
      (request.asks s.documentIDs result newID).map .request
  | .swipe row => s.documentIDs[row]?.map fun documentID => .request (.delete documentID)
  | .load | .query | .fetched | .fetchFailed _ | .unwind _ _ | .insertRows => none

/-- What a step asks for on behalf of the user, if it is the one who is signed in. -/
def App.requestsOf (uid : Uid) (s : App) (e : Event) (t : App) : List DiaryRequest :=
  (s.asks e).elim [] fun event => Cloud.requestOf uid s.cloud event t.cloud

/-- A request of the signed-in user does to the cloud what it asks for. -/
theorem Cloud.step_request {c : Cloud} {uid : Uid} (huser : c.currentUser = some uid)
    (downloadURL : String → URL) (canonical : String → String) (request : DiaryRequest) :
    c.step downloadURL canonical (.request request) = some (c.after uid request) := by
  obtain ⟨response, hrun⟩ := exists_run_request huser downloadURL canonical request
  simp only [Cloud.step, hrun]

/-- In a session with its own list the listed memories are nobody else's. -/
theorem OwnSession.currentUser_of_mem {s : App} (h : OwnSession s) {uid : Uid}
    (huser : s.cloud.currentUser = some uid) {row : ℕ} {documentID : DocumentID}
    (hid : s.documentIDs[row]? = some documentID) :
    ∀ uid', documentID ∈ s.cloud.diaries uid' → s.cloud.currentUser = some uid' := by
  intro uid' hmem
  have hown := h.listed uid huser documentID (List.mem_of_getElem? hid)
  rw [huser, h.owned uid' uid documentID hmem hown]

/-- A step that does not miss the user leaves the cloud alone, or is a step of the cloud, and in
a session with its own list a proper one. -/
theorem Transition.cloud_step {s t : App} {e : Event} (ht : Transition s e t)
    (hsigned : t.trap ≠ some .noCurrentUser) (downloadURL : String → URL)
    (canonical : String → String) :
    s.asks e = none ∧ t.cloud = s.cloud ∨
      ∃ event, s.asks e = some event ∧ s.cloud.step downloadURL canonical event = some t.cloud ∧
        (OwnSession s → s.cloud.Proper event) := by
  cases ht with
  | load | query | fetched | fetchFailed | compose | edit | editInvalid | rowInserted
  | insertInvalid => exact .inl ⟨rfl, rfl⟩
  | signIn uid => exact .inr ⟨.signIn uid, rfl, rfl, fun _ => trivial⟩
  | signOut => exact .inr ⟨.signOut, rfl, rfl, fun _ => trivial⟩
  | loadSignedOut | savedSignedOut | editedSignedOut | deleteSignedOut =>
    exact absurd rfl hsigned
  | @saved _ request result newID _ hrequest hnew hfresh huser =>
    refine .inr ⟨.request (.save newID request.memory (tagsOf result)), ?_,
      Cloud.step_request huser _ _ _, fun h uid' hmem => hfresh (h.identified.diaries uid' _ hmem)⟩
    simp [App.asks, hrequest, KeyPhrasesRequest.asks, hnew]
  | @edited _ _ request result _ documentID _ hrequest hrow hfresh hid huser =>
    refine .inr ⟨.request (.replace documentID request.memory (tagsOf result)), ?_,
      Cloud.step_request huser _ _ _, fun h => h.currentUser_of_mem huser hid⟩
    simp [App.asks, hrequest, KeyPhrasesRequest.asks, hrow, hid]
  | editedMissing result hrequest hrow hfresh hid =>
    refine .inl ⟨?_, rfl⟩
    simp [App.asks, hrequest, KeyPhrasesRequest.asks, hrow, hid]
  | @deleted _ documentID _ hrow hid huser | @deleteInvalid _ documentID _ hrow hid huser =>
    refine .inr ⟨.request (.delete documentID), ?_, Cloud.step_request huser _ _ _,
      fun h => h.currentUser_of_mem huser hid⟩
    simp [App.asks, hid]
  | deleteMissing hrow hid =>
    refine .inl ⟨?_, rfl⟩
    simp [App.asks, hid]

/-- The diary of the user follows the requests of a step. -/
theorem Cloud.Represents.transition {s t : App} {e : Event} {uid : Uid} {diary : Diary}
    (h : s.cloud.Represents uid diary) (hfiles : s.cloud.NoStrayFiles) (hown : OwnSession s)
    (ht : Transition s e t) (hsigned : t.trap ≠ some .noCurrentUser) :
    ∃ diary', run Diary.step diary (App.requestsOf uid s e t) = some diary' ∧
      t.cloud.Represents uid diary' ∧ t.cloud.NoStrayFiles := by
  rcases ht.cloud_step hsigned id id with ⟨hasks, hcloud⟩ | ⟨event, hasks, hstep, hproper⟩
  · rw [hcloud]
    exact ⟨diary, by rw [App.requestsOf, hasks]; rfl, h, hfiles⟩
  · obtain ⟨diary', hdiary, hafter, -⟩ :=
      simulates_diary id id uid s.cloud event t.cloud diary ⟨h, hfiles⟩ (hproper hown) hstep
    exact ⟨diary', by rw [App.requestsOf, hasks]; exact hdiary, hafter⟩

/-! ### Runs -/

namespace App

variable {es : List Event} {s : App} {uid : Uid}

theorem ownSession_start : OwnSession (App.start .initial) where
  identified := identified_start fun _ _ hmem => absurd hmem (AList.notMem_empty _)
  owned := fun _ _ _ hmem => absurd hmem (AList.notMem_empty _)
  listed := fun _ _ _ hmem => absurd hmem List.not_mem_nil

/-- As long as nobody is missed, the own requests of a user have made a diary. -/
def KeepsDiary (uid : Uid) (s : App) (requests : List DiaryRequest) : Prop :=
  OwnSession s ∧ (s.trap ≠ some .noCurrentUser → ∃ diary, run Diary.step ∅ requests = some diary ∧
    s.cloud.Represents uid diary ∧ s.cloud.NoStrayFiles)

theorem KeepsDiary.step {requests : List DiaryRequest} {e : Event} {t : App}
    (h : KeepsDiary uid s requests) (hstep : s.step e = some t) (hkept : SessionKept s e) :
    KeepsDiary uid t (requests ++ requestsOf uid s e t) := by
  obtain ⟨hown, hdiary⟩ := h
  obtain ⟨htrap, ht⟩ := transition_of_step hstep
  refine ⟨⟨hown.identified.transition ht, hown.owned_transition ht,
    ((hown.isolated_iff ht).mp hkept).1⟩, fun hsigned => ?_⟩
  obtain ⟨diary, hrun, hrepresents, hfiles⟩ := hdiary (by simp [htrap])
  obtain ⟨diary', hrun', hafter⟩ := hrepresents.transition hfiles hown ht hsigned
  exact ⟨diary', run_trans hrun hrun', hafter⟩

theorem keepsDiary_of_run
    (hkept : Always App.step (fun s e _ => SessionKept s e) (App.start .initial) es)
    (hrun : run App.step (App.start .initial) es = some s) (uid : Uid) :
    KeepsDiary uid s (outputs App.step (requestsOf uid) (App.start .initial) es) := by
  have hempty : KeepsDiary uid (App.start .initial) [] :=
    ⟨ownSession_start, fun _ => ⟨∅, rfl, ⟨fun _ => rfl, nofun⟩, fun _ _ => rfl⟩⟩
  exact hkept.outputs (fun _ _ _ _ h hstep hkept => h.step hstep hkept) hempty hrun

/-- A step that does not miss the user leaves the cloud alone, or is a step of the cloud in which
nobody writes under an identifier of another user. -/
def WritesOwn (downloadURL : String → URL) (canonical : String → String) (s : App) (e : Event)
    (t : App) : Prop :=
  t.trap ≠ some .noCurrentUser → t.cloud = s.cloud ∨ ∃ event, s.asks e = some event ∧
    s.cloud.step downloadURL canonical event = some t.cloud ∧ s.cloud.Proper event

theorem writesOwn_of_run
    (hkept : Always App.step (fun s e _ => SessionKept s e) (App.start .initial) es)
    (downloadURL : String → URL) (canonical : String → String) :
    Always App.step (WritesOwn downloadURL canonical) (App.start .initial) es := by
  refine hkept.of_invariant (I := OwnSession) (fun s e t hown hstep hkept => ?_) ownSession_start
  obtain ⟨-, ht⟩ := transition_of_step hstep
  refine ⟨fun hsigned => ?_, hown.identified.transition ht, hown.owned_transition ht,
    ((hown.isolated_iff ht).mp hkept).1⟩
  rcases ht.cloud_step hsigned downloadURL canonical with
    ⟨-, hcloud⟩ | ⟨event, hasks, hcloud, hproper⟩
  · exact .inl hcloud
  · exact .inr ⟨event, hasks, hcloud, hproper hown⟩

/-- **The Memories screen keeps a diary for every user.** In every run in which the list is kept
to the signed-in user and nobody is missed, every step that changes the stores is a request of
the signed-in user under an own or a new identifier. So the collection of a user has under each
identifier the fields of the last own write, and the file has the last picture that came with
one, since the memory was saved or deleted. What the list shows has been written. -/
theorem entries_of_run
    (hkept : Always App.step (fun s e _ => SessionKept s e) (App.start .initial) es)
    (hrun : run App.step (App.start .initial) es = some s)
    (hsigned : s.trap ≠ some .noCurrentUser) (uid : Uid) (downloadURL : String → URL)
    (canonical : String → String) :
    let requests := outputs App.step (requestsOf uid) (App.start .initial) es
    Always App.step (WritesOwn downloadURL canonical) (App.start .initial) es ∧
    (∀ documentID, (s.cloud.diaries uid).lookup documentID =
        (Entry.ofWrites (Diary.writesOf documentID requests)).map Entry.document ∧
      (documentID ∈ s.cloud.diaries uid → s.cloud.storage (imagePath documentID) =
        Write.lastPicture (Diary.writesOf documentID requests))) ∧
    (s.cloud.currentUser = some uid →
      ∀ documentID ∈ s.documentIDs, Diary.writesOf documentID requests ≠ []) := by
  intro requests
  obtain ⟨hown, hdiary⟩ := keepsDiary_of_run hkept hrun uid
  obtain ⟨diary, hdiary, hrepresents, -⟩ := hdiary hsigned
  have hlookup (documentID : DocumentID) : diary.lookup documentID =
      Entry.ofWrites (Diary.writesOf documentID requests) := Diary.lookup_of_run hdiary documentID
  refine ⟨writesOwn_of_run hkept downloadURL canonical, fun documentID => ⟨?_, fun hmem => ?_⟩,
    fun huser documentID hlisted hnone => ?_⟩
  · rw [hrepresents.lookup_eq, hlookup]
  · rw [hrepresents.mem_iff, ← AList.lookup_isSome] at hmem
    obtain ⟨entry, hentry⟩ := Option.isSome_iff_exists.mp hmem
    rw [hrepresents.picture_eq documentID entry hentry, ← Entry.picture_ofWrites, ← hlookup, hentry]
    rfl
  · have hmem := hown.listed uid huser documentID hlisted
    rw [hrepresents.mem_iff, ← AList.lookup_isSome, hlookup,
      Entry.ofWrites_eq_none_iff.mpr hnone] at hmem
    cases hmem

/-- A memory with a picture is edited into one without. -/
def pictureKept : List Event :=
  [.signIn "kevin", .unwind { sampleMemory 1 with image := some ⟨some [1]⟩ } none,
    .keyPhrases 0 (.ok ["sun"]) "a", .insertRows, .unwind (sampleMemory 2) (some 0),
    .keyPhrases 0 (.ok ["rain"]) "b"]

theorem entries_pictureKept : ∃ s, run App.step (App.start .initial) pictureKept = some s ∧
    (s.cloud.diaries "kevin").lookup "a" =
      some (Document.ofMemory (sampleMemory 2) ["rain"]) ∧
    s.cloud.storage (imagePath "a") = some [1] := by
  obtain ⟨s, hs⟩ : ∃ s, run App.step (App.start .initial) pictureKept = some s := ⟨_, rfl⟩
  have hsigned : s.trap ≠ some .noCurrentUser := by
    cases hs
    decide
  have hmem : "a" ∈ s.cloud.diaries "kevin" := by
    cases hs
    decide
  obtain ⟨-, hentries, -⟩ := entries_of_run (by decide) hs hsigned "kevin" id id
  obtain ⟨hdocument, hpicture⟩ := hentries "a"
  exact ⟨s, hs, hdocument, hpicture hmem⟩

/-- **A composed memory is read as it was composed.** Where the last write under an identifier is
of a memory that a run of the compose screen has put together, the owner finds it listed, and the
details screen shows the title, the text and the date of that run, and the emoji that was tapped
last or the one of the last score since that tap. The picture is the one of that run, and where
that has none, the last one before it. -/
theorem details_of_composed {placeholder : Option UIImage} {composing : List NewMemoryEvent}
    {date : Date} {screen : NewMemory} {memory : LocalMemory}
    (hcomposed : run (NewMemory.step placeholder) (NewMemory.start placeholder)
      (composing ++ [.prepare date]) = some screen)
    (hmemory : screen.memoryToSave = some memory)
    (hkept : Always App.step (fun s e _ => SessionKept s e) (App.start .initial) es)
    (hrun : run App.step (App.start .initial) es = some s)
    (hsigned : s.trap ≠ some .noCurrentUser) (huser : s.cloud.currentUser = some uid)
    {documentID : DocumentID} {before : List Write} {tags : List String}
    (hwrites : Diary.writesOf documentID
      (outputs App.step (requestsOf uid) (App.start .initial) es) = before ++ [⟨memory, tags⟩])
    (downloadURL : String → URL) (canonical : String → String) (filler : String) :
    let picture := (((NewMemory.Choices.ofEvents composing).imageToSave placeholder).bind
      UIImage.pngData).or (Write.lastPicture before)
    documentID ∈ Firebase.fetchAll (s.cloud.diaries uid) ∧
    ∃ read, (Firebase.request downloadURL canonical (.read documentID)).run s.cloud =
        .ok (.memory (some read) picture) s.cloud ∧ read.tags = tags ∧
      let shown := (MemoryDetails.storyboard filler).viewDidLoad (some (.cloudMemory read))
      shown.memoryDetailsTitle = NewMemory.titleOf composing ∧
      shown.memoryDetailsContent = (NewMemory.Draft.ofEvents composing).shown ∧
      shown.memoryDetailsDate = some date ∧
      (∃ button, (NewMemory.LastTap.ofEvents composing).button = some button ∧
        (shown.memoryDetailsEmoji = button.emoji ∨
          ∃ n ∈ (NewMemory.LastTap.ofEvents composing).scores.getLast?,
            shown.memoryDetailsEmoji = sentimentEmoji n)) ∧
      shown.memoryDetailsImage =
        picture.map (fun _ => .url (downloadURL (imagePath documentID))) ∧
      shown.isImageHidden = picture.isNone := by
  intro picture
  obtain ⟨composed, hcomposed', h⟩ := NewMemory.composedBy_of_run hcomposed
  obtain rfl : memory = composed := Option.some.inj (hmemory.symm.trans hcomposed')
  obtain ⟨-, hdiary⟩ := keepsDiary_of_run hkept hrun uid
  obtain ⟨diary, hdiary, hrepresents, -⟩ := hdiary hsigned
  have hlookup : diary.lookup documentID = some (.ofMemory memory tags picture) := by
    rw [Diary.lookup_of_run hdiary, hwrites, Entry.ofWrites_concat, LocalMemory.imageData, h.image]
  have hread := hrepresents.run_request huser downloadURL canonical (.read documentID)
  simp only [Diary.respond, hlookup, Option.map_some, Option.bind_some] at hread
  refine ⟨?_, _, hread, rfl, h.title, h.content, congrArg some h.saveDate, ?_, ?_, ?_⟩
  · rw [hrepresents.fetchAll_eq]
    exact Listing.mem_orderBy.mpr ⟨_, hlookup, rfl⟩
  · obtain ⟨button, hbutton, haction | hscore⟩ := h.sentiment
    · refine ⟨button, hbutton, .inl ?_⟩
      rw [← button.sentimentEmoji_actionSentiment, ← haction]
      rfl
    · exact ⟨button, hbutton, .inr ⟨memory.sentiment, hscore, rfl⟩⟩
  · exact Option.map_map ImageSource.url _ picture
  · exact Option.isNone_map

/-- What the agreeing user composed is saved, and the user signs out and in again. -/
def composedAndSaved : List Event :=
  [.signIn "kevin", .unwind ⟨"Good day", NewMemory.placeholderText, 70, 1, none⟩ none,
    .keyPhrases 0 (.ok ["day"]) "a", .insertRows, .signOut, .signIn "kevin"]

theorem details_composedAndSaved : ∃ s,
    run App.step (App.start .initial) composedAndSaved = some s ∧
      "a" ∈ Firebase.fetchAll (s.cloud.diaries "kevin") ∧
      ∃ read, (Firebase.request id id (.read "a")).run s.cloud =
          .ok (.memory (some read) none) s.cloud ∧ read.tags = ["day"] ∧
        let shown := (MemoryDetails.storyboard "Lorem ipsum").viewDidLoad (some (.cloudMemory read))
        shown.memoryDetailsTitle = "Good day" ∧
        shown.memoryDetailsContent = NewMemory.placeholderText ∧
        shown.memoryDetailsDate = some 1 ∧ shown.memoryDetailsEmoji = "🙂" ∧
        shown.isImageHidden = true := by
  obtain ⟨s, hs⟩ : ∃ s, run App.step (App.start .initial) composedAndSaved = some s := ⟨_, rfl⟩
  have hbind : (run (NewMemory.step none) (NewMemory.start none)
      (NewMemory.agreeing ++ [.prepare 1])).bind NewMemory.memoryToSave =
        some ⟨"Good day", NewMemory.placeholderText, 70, 1, none⟩ := by decide +kernel
  obtain ⟨screen, hscreen, hmemory⟩ := Option.bind_eq_some_iff.mp hbind
  have hsigned : s.trap ≠ some .noCurrentUser := by
    cases hs
    decide
  have huser : s.cloud.currentUser = some "kevin" := by
    cases hs
    rfl
  have hwrites : Diary.writesOf "a" (outputs App.step (requestsOf "kevin") (App.start .initial)
      composedAndSaved) =
        [] ++ [⟨⟨"Good day", NewMemory.placeholderText, 70, 1, none⟩, ["day"]⟩] := rfl
  have hlast : NewMemory.LastTap.ofEvents NewMemory.agreeing = ⟨some .override60To80, []⟩ := by
    decide +kernel
  obtain ⟨hlisted, read, hread, htags, htitle, hcontent, hdate, ⟨button, hbutton, hemoji⟩, -,
    hhidden⟩ :=
    details_of_composed hscreen hmemory (by decide) hs hsigned huser hwrites id id "Lorem ipsum"
  rw [hlast] at hbutton hemoji
  cases hbutton
  exact ⟨s, hs, hlisted, read, hread, htags, htitle, hcontent, hdate,
    hemoji.resolve_right nofun, hhidden⟩

end App

end FeelBetter
