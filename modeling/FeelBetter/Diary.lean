import FeelBetter.Machine.Simulation
import FeelBetter.Memories.Sessions
import FeelBetter.Sentiments

/-!
# Diaries

What the Firebase layer is for: every user has a diary of their own, a finite map from
identifiers to entries, and an entry has its picture with it. The layer keeps the entries of
all users in collections and the pictures of all users in one folder. As long as no user
writes under an identifier of another one, each user gets from the layer what the own diary
alone would answer. What is written counts as stored at once.
-/

namespace FeelBetter

open Machine

/-! ### One diary -/

/-- An entry of a diary. -/
structure Entry where
  title : String
  content : String
  sentiment : ℤ
  saveDate : Date
  tags : List String
  picture : Option Data
  deriving DecidableEq

/-- An entry with the fields of a memory. -/
def Entry.ofMemory (memory : LocalMemory) (tags : List String) (picture : Option Data) : Entry where
  title := memory.title
  content := memory.content
  sentiment := memory.sentiment
  saveDate := memory.saveDate
  tags
  picture

/-- The document of an entry. -/
def Entry.document (entry : Entry) : Document where
  title := some (.string entry.title)
  content := some (.string entry.content)
  sentiment := some (.integer entry.sentiment)
  saveDate := some (.timestamp entry.saveDate)
  tags := some (.strings entry.tags)

/-- `getMemory` reads the document of an entry back. -/
theorem Entry.getMemory_document (documentID : DocumentID) (entry : Entry)
    (imageURL : Result URL) :
    Firebase.getMemory documentID (some entry.document) imageURL = some {
      documentID
      title := entry.title
      content := entry.content
      sentiment := entry.sentiment
      tags := entry.tags
      saveDate := entry.saveDate
      imageURL := imageURL.toOption } := rfl

/-- The entry was saved in the closed period. -/
def Entry.InPeriod (startDate endDate : Date) (entry : Entry) : Prop :=
  startDate ≤ entry.saveDate ∧ entry.saveDate ≤ endDate

instance (startDate endDate : Date) : DecidablePred (Entry.InPeriod startDate endDate) :=
  fun _ => inferInstanceAs (Decidable (_ ∧ _))

/-- How many tags of an entry of the period are the same string as `tag`: strings with one
canonical form are the same. -/
def Entry.occurrences (canonical : String → String) (startDate endDate : Date) (tag : String)
    (entry : Entry) : ℕ :=
  if entry.InPeriod startDate endDate then
    entry.tags.countP fun tag' => canonical tag' = canonical tag
  else 0

/-- A diary. -/
abbrev Diary := AList fun _ : DocumentID => Entry

/-- What a user asks of the diary. -/
inductive DiaryRequest where
  /-- A new entry, under a new identifier. -/
  | save (newID : DocumentID) (memory : LocalMemory) (tags : List String)
  | replace (documentID : DocumentID) (memory : LocalMemory) (tags : List String)
  | delete (documentID : DocumentID)
  | read (documentID : DocumentID)
  | list
  | keywords (startDate endDate : Date)
  | sentiments (startDate endDate : Date)

/-- What a user gets. -/
inductive DiaryResponse where
  | saved (documentID : DocumentID)
  | done
  /-- A memory, and the picture at its address. -/
  | memory (memory : Option CloudMemory) (picture : Option Data)
  | documentIDs (documentIDs : List DocumentID)
  | keywords (numbers : String → ℤ)
  | sentiments (sentiments : List ℤ)

namespace Diary

/-- The diary after a request. An entry that is replaced keeps its picture unless it gets a new
one. -/
def next (diary : Diary) : DiaryRequest → Diary
  | .save newID memory tags => diary.insert newID (.ofMemory memory tags memory.imageData)
  | .replace documentID memory tags => diary.insert documentID
      (.ofMemory memory tags (memory.imageData.or ((diary.lookup documentID).bind Entry.picture)))
  | .delete documentID => diary.erase documentID
  | .read _ | .list | .keywords _ _ | .sentiments _ _ => diary

/-- The identifiers of the entries, the latest save date first. -/
def newestFirst (diary : Diary) : List DocumentID :=
  Listing.orderBy (fun entry => some entry.saveDate) diary

/-- An entry as it is read, with the address of its picture. -/
def readEntry (downloadURL : String → URL) (documentID : DocumentID) (entry : Entry) :
    CloudMemory where
  documentID
  title := entry.title
  content := entry.content
  sentiment := entry.sentiment
  tags := entry.tags
  saveDate := entry.saveDate
  imageURL := entry.picture.map fun _ => downloadURL (imagePath documentID)

/-- What a diary answers. -/
def respond (downloadURL : String → URL) (canonical : String → String) (diary : Diary) :
    DiaryRequest → DiaryResponse
  | .save newID _ _ => .saved newID
  | .replace _ _ _ | .delete _ => .done
  | .read documentID => .memory
      ((diary.lookup documentID).map (readEntry downloadURL documentID))
      ((diary.lookup documentID).bind Entry.picture)
  | .list => .documentIDs diary.newestFirst
  | .keywords startDate endDate => .keywords fun tag =>
      Tally.total (Entry.occurrences canonical startDate endDate tag) diary
  | .sentiments startDate endDate => .sentiments
      (((diary.newestFirst.reverse.filterMap diary.lookup).filter fun entry =>
        entry.InPeriod startDate endDate).map Entry.sentiment)

/-- A request is always possible. -/
def step (diary : Diary) (request : DiaryRequest) : Option Diary := some (diary.next request)

/-- The answer to a request, from the diary before it. -/
def answers (downloadURL : String → URL) (canonical : String → String) (diary : Diary)
    (request : DiaryRequest) (_ : Diary) : List DiaryResponse :=
  [diary.respond downloadURL canonical request]

end Diary

/-! ### The Firebase layer -/

namespace Firebase

/-- A request to the Firebase layer. The server answers a query in the order that it asks for. -/
def request (downloadURL : String → URL) (canonical : String → String) :
    DiaryRequest → CloudAction DiaryResponse
  | .save newID memory tags => do
    let documentID ← saveNewMemory newID memory tags
    pure (.saved documentID)
  | .replace documentID memory tags => do
    replaceMemory documentID memory tags
    pure .done
  | .delete documentID => do
    deleteMemory documentID
    pure .done
  | .read documentID => do
    let memory ← readMemory downloadURL documentID
    let storage := (← get).storage
    pure (.memory memory
      ((memory.bind CloudMemory.imageURL).bind fun _ => storage (imagePath documentID)))
  | .list => do
    let uid ← diariesRef
    pure (.documentIDs (fetchAll ((← get).diaries uid)))
  | .keywords startDate endDate => do
    let uid ← diariesRef
    let documents := filteredInOrder startDate endDate ((← get).diaries uid)
    pure (.keywords fun tag =>
      (numberOf canonical (keywordDictionary canonical documents) tag).getD 0)
  | .sentiments startDate endDate => do
    let uid ← diariesRef
    pure (.sentiments (sentimentsBetween startDate endDate ((← get).diaries uid)))

end Firebase

/-- What can happen to the cloud. -/
inductive CloudEvent where
  | signIn (uid : Uid)
  | signOut
  | request (request : DiaryRequest)

namespace Cloud

/-- One step of the cloud; `none` where the application traps. -/
def step (downloadURL : String → URL) (canonical : String → String) (c : Cloud) :
    CloudEvent → Option Cloud
  | .signIn uid => some { c with currentUser := some uid }
  | .signOut => some { c with currentUser := none }
  | .request request =>
    match (Firebase.request downloadURL canonical request).run c with
    | .ok _ after => some after
    | .error _ _ => none

/-- The request of an event, if the user is the one who is signed in. -/
def requestOf (uid : Uid) (c : Cloud) (e : CloudEvent) (_ : Cloud) : List DiaryRequest :=
  match e with
  | .request request => if c.currentUser = some uid then [request] else []
  | _ => []

/-- What the user gets, if it is the one who is signed in. -/
def responseTo (downloadURL : String → URL) (canonical : String → String) (uid : Uid) (c : Cloud)
    (e : CloudEvent) (_ : Cloud) :
    List DiaryResponse :=
  match e with
  | .request request =>
    match (Firebase.request downloadURL canonical request).run c with
    | .ok response _ => if c.currentUser = some uid then [response] else []
    | .error _ _ => []
  | _ => []

/-- Nobody writes under an identifier of another user, and a new identifier is nobody's. -/
def Proper (c : Cloud) : CloudEvent → Prop
  | .request (.save newID _ _) => ∀ uid, newID ∉ c.diaries uid
  | .request (.replace documentID _ _) | .request (.delete documentID) =>
    ∀ uid, documentID ∈ c.diaries uid → c.currentUser = some uid
  | _ => True

/-- The cloud after a request of the signed-in user. -/
def after (c : Cloud) (uid : Uid) : DiaryRequest → Cloud
  | .save newID memory tags => (c.allot newID).written uid newID memory tags
  | .replace documentID memory tags => c.written uid documentID memory tags
  | .delete documentID => c.deleted uid documentID
  | .read _ | .list | .keywords _ _ | .sentiments _ _ => c

/-! ### A diary in the cloud -/

/-- There are pictures of documents only. -/
def NoStrayFiles (c : Cloud) : Prop :=
  ∀ documentID, (∀ uid, documentID ∉ c.diaries uid) → c.storage (imagePath documentID) = none

/-- The collection of a user and the files of its documents are a diary. -/
structure Represents (c : Cloud) (uid : Uid) (diary : Diary) : Prop where
  lookup_eq : ∀ documentID,
    (c.diaries uid).lookup documentID = (diary.lookup documentID).map Entry.document
  picture_eq : ∀ documentID entry, diary.lookup documentID = some entry →
    c.storage (imagePath documentID) = entry.picture

variable {c c' : Cloud} {uid uid' : Uid} {diary : Diary} {documentID documentID' : DocumentID}

theorem imagePath_ne (h : documentID' ≠ documentID) :
    imagePath documentID' ≠ imagePath documentID :=
  imagePath_injective.ne h

theorem storage_written_of_ne (h : documentID' ≠ documentID) (memory : LocalMemory)
    (tags : List String) : (c.written uid documentID memory tags).storage (imagePath documentID') =
      c.storage (imagePath documentID') := by
  rw [storage_written, storage_putImage]
  cases memory.imageData with
  | none => rfl
  | some data => exact Function.update_of_ne (imagePath_ne h) _ _

/-- No request leaves a file without its document. -/
theorem NoStrayFiles.after (h : NoStrayFiles c) (uid : Uid) (request : DiaryRequest) :
    NoStrayFiles (c.after uid request) := by
  have hwritten (c : Cloud) (h : NoStrayFiles c) (documentID : DocumentID) (memory : LocalMemory)
      (tags : List String) : NoStrayFiles (c.written uid documentID memory tags) := by
    intro documentID' hnone
    have hne : documentID' ≠ documentID := by
      rintro rfl
      exact hnone uid (mem_diaries_written.mpr (.inl ⟨rfl, rfl⟩))
    rw [storage_written_of_ne hne]
    exact h documentID' fun uid' hmem => hnone uid' (mem_diaries_written.mpr (.inr hmem))
  cases request with
  | save newID memory tags => exact hwritten (c.allot newID) h newID memory tags
  | replace documentID memory tags => exact hwritten c h documentID memory tags
  | delete documentID =>
    intro documentID' hnone
    show (c.deleted uid documentID).storage _ = none
    by_cases heq : documentID' = documentID
    · rw [heq, storage_deleted, Function.update_self]
    · rw [storage_deleted, Function.update_of_ne (imagePath_ne heq)]
      exact h documentID' fun uid' hmem =>
        hnone uid' (mem_diaries_deleted.mpr ⟨hmem, fun hboth => heq hboth.2⟩)
  | read _ | list | keywords _ _ | sentiments _ _ => exact h

theorem Represents.mem_iff (h : Represents c uid diary) :
    documentID ∈ c.diaries uid ↔ documentID ∈ diary := by
  rw [← AList.lookup_isSome, ← AList.lookup_isSome, h.lookup_eq, Option.isSome_map]

/-- The file of an identifier that no other user has is the picture of its entry, if any. -/
theorem Represents.storage_eq (h : Represents c uid diary) (hfiles : NoStrayFiles c)
    (hown : ∀ uid', documentID ∈ c.diaries uid' → uid' = uid) :
    c.storage (imagePath documentID) = (diary.lookup documentID).bind Entry.picture := by
  cases hentry : diary.lookup documentID with
  | some entry => exact h.picture_eq documentID entry hentry
  | none =>
    refine hfiles documentID fun uid' hmem => ?_
    rw [hown uid' hmem, h.mem_iff] at hmem
    exact AList.lookup_eq_none.mp hentry hmem

/-- A write puts an entry in the diary. -/
theorem Represents.written (h : Represents c uid diary) {memory : LocalMemory}
    {picture : Option Data} (tags : List String)
    (hpicture : memory.imageData.or (c.storage (imagePath documentID)) = picture) :
    Represents (c.written uid documentID memory tags) uid
      (diary.insert documentID (.ofMemory memory tags picture)) where
  lookup_eq := by
    intro documentID'
    by_cases heq : documentID' = documentID
    · rw [heq, lookup_written, AList.lookup_insert]
      rfl
    · rw [diaries_written, Function.update_self, AList.lookup_insert_ne heq,
        AList.lookup_insert_ne heq, h.lookup_eq]
  picture_eq := by
    intro documentID' entry hentry
    by_cases heq : documentID' = documentID
    · rw [heq, AList.lookup_insert, Option.some.injEq] at hentry
      rw [heq, storage_imagePath_written, hpicture, ← hentry]
      rfl
    · rw [AList.lookup_insert_ne heq] at hentry
      rw [storage_written_of_ne heq]
      exact h.picture_eq documentID' entry hentry

/-- A deletion takes an entry out of the diary. -/
theorem Represents.deleted (h : Represents c uid diary) (documentID : DocumentID) :
    Represents (c.deleted uid documentID) uid (diary.erase documentID) where
  lookup_eq := by
    intro documentID'
    rw [diaries_deleted, Function.update_self]
    by_cases heq : documentID' = documentID
    · rw [heq, AList.lookup_erase, AList.lookup_erase]
      rfl
    · rw [AList.lookup_erase_ne heq, AList.lookup_erase_ne heq, h.lookup_eq]
  picture_eq := by
    intro documentID' entry hentry
    by_cases heq : documentID' = documentID
    · rw [heq, AList.lookup_erase] at hentry
      cases hentry
    · rw [AList.lookup_erase_ne heq] at hentry
      rw [storage_deleted, Function.update_of_ne (imagePath_ne heq)]
      exact h.picture_eq documentID' entry hentry

/-- A diary stays as it is where its user is left alone. -/
theorem Represents.of_untouched (h : Represents c uid diary) (huntouched : c.Untouched c' uid) :
    Represents c' uid diary where
  lookup_eq := by
    rw [huntouched.1]
    exact h.lookup_eq
  picture_eq := by
    intro documentID entry hentry
    have hmem : documentID ∈ c.diaries uid := by
      rw [h.mem_iff, ← AList.lookup_isSome, hentry]
      rfl
    rw [huntouched.2 documentID hmem]
    exact h.picture_eq documentID entry hentry

/-- A request does to the diary of the user what it asks for. -/
theorem Represents.after_self (h : Represents c uid diary) (hfiles : NoStrayFiles c)
    (huser : c.currentUser = some uid) {request : DiaryRequest}
    (hproper : c.Proper (.request request)) :
    Represents (c.after uid request) uid (diary.next request) := by
  cases request with
  | save newID memory tags =>
    have hnone : c.storage (imagePath newID) = none := hfiles newID hproper
    have hallot : Represents (c.allot newID) uid diary := ⟨h.lookup_eq, h.picture_eq⟩
    refine hallot.written tags ?_
    rw [show (c.allot newID).storage (imagePath newID) = none from hnone, Option.or_none]
  | replace documentID memory tags =>
    have hown : ∀ uid', documentID ∈ c.diaries uid' → uid' = uid := by
      intro uid' hmem
      have huser' := hproper uid' hmem
      rw [huser, Option.some.injEq] at huser'
      exact huser'.symm
    refine h.written tags ?_
    rw [h.storage_eq hfiles hown]
  | delete documentID => exact h.deleted documentID
  | read _ | list | keywords _ _ | sentiments _ _ => exact h

/-- A request leaves the diaries of the other users alone. -/
theorem untouched_after (huser : c.currentUser = some uid) (hne : uid' ≠ uid)
    {request : DiaryRequest} (hproper : c.Proper (.request request)) :
    c.Untouched (c.after uid request) uid' := by
  cases request with
  | save newID memory tags =>
    have hallot : (c.allot newID).Untouched ((c.allot newID).written uid newID memory tags) uid' :=
      Untouched.written tags hne fun _ => hproper uid'
    exact hallot
  | replace documentID memory tags =>
    refine Untouched.written tags hne fun _ hmem => hne ?_
    have huser' := hproper uid' hmem
    rw [huser, Option.some.injEq] at huser'
    exact huser'.symm
  | delete documentID =>
    refine Untouched.deleted hne fun hmem => hne ?_
    have huser' := hproper uid' hmem
    rw [huser, Option.some.injEq] at huser'
    exact huser'.symm
  | read _ | list | keywords _ _ | sentiments _ _ => exact .refl c uid'

/-! ### The answers -/

/-- The list of the collection is that of the diary. -/
theorem Represents.fetchAll_eq (h : Represents c uid diary) :
    Firebase.fetchAll (c.diaries uid) = diary.newestFirst := by
  refine Listing.orderBy_congr (f := fun t => (FieldValue.timestamp t).sortKey)
    (fun t u hlt => sortKey_timestamp_lt.mpr hlt) fun documentID => ?_
  rw [h.lookup_eq]
  cases diary.lookup documentID <;> rfl

theorem inPeriod_document {startDate endDate : Date} {entry : Entry} :
    entry.document.InPeriod startDate endDate ↔ entry.InPeriod startDate endDate := by
  simp [Document.InPeriod, Entry.document, FieldValue.asTimestamp, Entry.InPeriod]

/-- The numbers of the keywords are those of the diary. -/
theorem Represents.occurrences_eq (h : Represents c uid diary) (canonical : String → String)
    (startDate endDate : Date) (tag : String) :
    Firebase.occurrences canonical startDate endDate (c.diaries uid) tag =
      Tally.total (Entry.occurrences canonical startDate endDate tag) diary := by
  refine Tally.total_congr Entry.document (fun entry => ?_) h.lookup_eq
  simp only [Document.occurrences, inPeriod_document, Entry.occurrences]
  rfl

/-- The sentiments of a period are those of the diary. -/
theorem Represents.sentimentsBetween_eq (h : Represents c uid diary) (startDate endDate : Date) :
    Firebase.sentimentsBetween startDate endDate (c.diaries uid) =
      ((diary.newestFirst.reverse.filterMap diary.lookup).filter fun entry =>
        entry.InPeriod startDate endDate).map Entry.sentiment := by
  rw [Firebase.sentimentsBetween_eq, Firebase.idsInOrder_eq, h.fetchAll_eq,
    List.filter_filterMap, List.map_filterMap, List.filterMap_filter]
  refine List.filterMap_congr fun documentID _ => ?_
  rw [h.lookup_eq]
  cases diary.lookup documentID with
  | none => rfl
  | some entry =>
    have hsentiment : entry.document.sentiment.bind FieldValue.asInt = some entry.sentiment := rfl
    by_cases hperiod : entry.InPeriod startDate endDate
    · simp [inPeriod_document, hperiod, hsentiment, Option.filter]
    · simp [inPeriod_document, hperiod, Option.filter]

/-- The layer answers a request of the signed-in user as the diary does. -/
theorem Represents.run_request (h : Represents c uid diary) (huser : c.currentUser = some uid)
    (downloadURL : String → URL) (canonical : String → String) (request : DiaryRequest) :
    (Firebase.request downloadURL canonical request).run c =
      .ok (diary.respond downloadURL canonical request) (c.after uid request) := by
  cases request with
  | save newID memory tags =>
    simp only [Firebase.request, EStateM.run_bind, Firebase.run_saveNewMemory_some huser]
    rfl
  | replace documentID memory tags =>
    simp only [Firebase.request, EStateM.run_bind, Firebase.run_replaceMemory_some huser]
    rfl
  | delete documentID =>
    simp only [Firebase.request, EStateM.run_bind, Firebase.run_deleteMemory_some huser]
    rfl
  | read documentID =>
    simp only [Firebase.request, EStateM.run_bind, Firebase.run_readMemory huser, h.lookup_eq,
      EStateM.run_get, EStateM.run_pure, Diary.respond, after]
    cases hentry : diary.lookup documentID with
    | none => rfl
    | some entry =>
      rw [h.picture_eq documentID entry hentry]
      cases hpicture : entry.picture with
      | none => simp [Entry.getMemory_document, Diary.readEntry, hpicture, Except.toOption]
      | some data => simp [Entry.getMemory_document, Diary.readEntry, hpicture, Except.toOption]
  | list =>
    simp only [Firebase.request, EStateM.run_bind, Firebase.run_diariesRef_some huser,
      EStateM.run_get, EStateM.run_pure, h.fetchAll_eq]
    rfl
  | keywords startDate endDate =>
    have hnumbers (tag : String) : (Firebase.numberOf canonical
        (Firebase.keywordDictionary canonical
          (Firebase.filteredInOrder startDate endDate (c.diaries uid))) tag).getD 0 =
            Tally.total (Entry.occurrences canonical startDate endDate tag) diary := by
      rw [Firebase.getD_numberOf (Firebase.filteredInOrder_perm _ _ _), h.occurrences_eq]
    simp only [Firebase.request, EStateM.run_bind, Firebase.run_diariesRef_some huser,
      EStateM.run_get, EStateM.run_pure, hnumbers]
    rfl
  | sentiments startDate endDate =>
    simp only [Firebase.request, EStateM.run_bind, Firebase.run_diariesRef_some huser,
      EStateM.run_get, EStateM.run_pure, h.sentimentsBetween_eq]
    rfl

/-- With somebody signed in a request does to the cloud what it asks for. -/
theorem exists_run_request (h : c.currentUser = some uid) (downloadURL : String → URL)
    (canonical : String → String) (request : DiaryRequest) :
    ∃ response, (Firebase.request downloadURL canonical request).run c =
      .ok response (c.after uid request) := by
  cases request with
  | save newID memory tags =>
    simp only [Firebase.request, EStateM.run_bind, Firebase.run_saveNewMemory_some h]
    exact ⟨_, rfl⟩
  | replace documentID memory tags =>
    simp only [Firebase.request, EStateM.run_bind, Firebase.run_replaceMemory_some h]
    exact ⟨_, rfl⟩
  | delete documentID =>
    simp only [Firebase.request, EStateM.run_bind, Firebase.run_deleteMemory_some h]
    exact ⟨_, rfl⟩
  | read documentID =>
    simp only [Firebase.request, EStateM.run_bind, Firebase.run_readMemory h]
    exact ⟨_, rfl⟩
  | list | keywords _ _ | sentiments _ _ =>
    simp only [Firebase.request, EStateM.run_bind, Firebase.run_diariesRef_some h]
    exact ⟨_, rfl⟩

/-- With nobody signed in a request traps. -/
theorem run_request_none (h : c.currentUser = none) (downloadURL : String → URL)
    (canonical : String → String) (request : DiaryRequest) :
    ∃ after,
      (Firebase.request downloadURL canonical request).run c = .error .noCurrentUser after := by
  cases request with
  | save newID memory tags =>
    simp only [Firebase.request, EStateM.run_bind, Firebase.run_saveNewMemory_none h]
    exact ⟨_, rfl⟩
  | replace documentID memory tags =>
    simp only [Firebase.request, EStateM.run_bind, Firebase.run_replaceMemory_none h]
    exact ⟨_, rfl⟩
  | delete documentID =>
    simp only [Firebase.request, EStateM.run_bind, Firebase.run_deleteMemory_none h]
    exact ⟨_, rfl⟩
  | read documentID =>
    simp only [Firebase.request, Firebase.readMemory, EStateM.run_bind,
      Firebase.run_diariesRef_none h]
    exact ⟨_, rfl⟩
  | list | keywords _ _ | sentiments _ _ =>
    simp only [Firebase.request, EStateM.run_bind, Firebase.run_diariesRef_none h]
    exact ⟨_, rfl⟩

/-! ### Runs -/

/-- The diary of each user explains what the cloud does for that user. -/
theorem simulates_diary (downloadURL : String → URL) (canonical : String → String) (uid : Uid) :
    Simulates (step downloadURL canonical) Diary.step
      (fun c diary => c.Represents uid diary ∧ c.NoStrayFiles)
      Proper (requestOf uid) (responseTo downloadURL canonical uid)
      (Diary.answers downloadURL canonical) := by
  rintro c e c' diary ⟨hdiary, hfiles⟩ hproper hstep
  cases e with
  | signIn uid' =>
    cases hstep
    exact ⟨diary, rfl, ⟨⟨hdiary.lookup_eq, hdiary.picture_eq⟩, hfiles⟩, rfl⟩
  | signOut =>
    cases hstep
    exact ⟨diary, rfl, ⟨⟨hdiary.lookup_eq, hdiary.picture_eq⟩, hfiles⟩, rfl⟩
  | request request =>
    cases huser : c.currentUser with
    | none =>
      obtain ⟨after, hrun⟩ := run_request_none huser downloadURL canonical request
      simp only [step, hrun] at hstep
      cases hstep
    | some uid' =>
      obtain ⟨response, hrun⟩ := exists_run_request huser downloadURL canonical request
      simp only [step, hrun] at hstep
      cases hstep
      simp only [requestOf, responseTo, huser, hrun, Option.some.injEq]
      by_cases heq : uid' = uid
      · subst heq
        have hresponse := hdiary.run_request huser downloadURL canonical request
        rw [hrun] at hresponse
        cases hresponse
        rw [if_pos rfl, if_pos rfl]
        exact ⟨diary.next request, rfl,
          ⟨hdiary.after_self hfiles huser hproper, hfiles.after uid' request⟩, rfl⟩
      · rw [if_neg heq, if_neg heq]
        exact ⟨diary, rfl, ⟨hdiary.of_untouched (untouched_after huser (Ne.symm heq) hproper),
          hfiles.after uid' request⟩, rfl⟩

/-- The cloud before its first user. -/
def initial : Cloud := { sampleCloud with currentUser := none }

/-- **Every user has a diary.** In every run of the cloud, with any number of users who sign in
and out, in which nobody writes under an identifier of another user, each user gets the
answers that the own diary gives when it is asked for the own requests alone, and the
collection and the files of that user are that diary. -/
theorem diaries_of_run {downloadURL : String → URL} {canonical : String → String}
    {es : List CloudEvent}
    (hproper : Always (step downloadURL canonical) (fun c e _ => c.Proper e) initial es)
    (hrun : run (step downloadURL canonical) initial es = some c) (uid : Uid) :
    ∃ diary, run Diary.step ∅ (outputs (step downloadURL canonical) (requestOf uid) initial es) =
        some diary ∧ c.Represents uid diary ∧
      outputs (step downloadURL canonical) (responseTo downloadURL canonical uid) initial es =
        outputs Diary.step (Diary.answers downloadURL canonical) ∅
          (outputs (step downloadURL canonical) (requestOf uid) initial es) := by
  have hinitial : initial.Represents uid ∅ ∧ initial.NoStrayFiles :=
    ⟨⟨fun _ => rfl, nofun⟩, fun _ _ => rfl⟩
  obtain ⟨diary, hdiary, ⟨hrepresents, -⟩, hanswers⟩ :=
    (simulates_diary downloadURL canonical uid).run_sim hinitial hproper hrun
  exact ⟨diary, hdiary, hrepresents, hanswers⟩

/-- One user saves a memory, and another one signs in and lists the own ones. -/
def twoUsers : List CloudEvent :=
  [.signIn "kevin", .request (.save "a" (sampleMemory 1) ["sun"]), .signIn "lucas",
    .request .list]

/-- What the second user gets. -/
theorem diaries_twoUsers : ∃ c, run (step id id) initial twoUsers = some c ∧
    ∃ diary, run Diary.step ∅ (outputs (step id id) (requestOf "lucas") initial twoUsers) =
        some diary ∧ c.Represents "lucas" diary ∧
      outputs (step id id) (responseTo id id "lucas") initial twoUsers =
        outputs Diary.step (Diary.answers id id) ∅
          (outputs (step id id) (requestOf "lucas") initial twoUsers) := by
  have hproper : Always (step id id) (fun c e _ => c.Proper e) initial twoUsers := by
    refine fun c hc => ⟨trivial, fun c' hc' => ⟨?_, fun c'' _ => ⟨trivial, fun _ _ => ⟨trivial,
      trivial⟩⟩⟩⟩
    cases hc
    exact fun _ => AList.notMem_empty "a"
  exact ⟨_, rfl, diaries_of_run hproper rfl "lucas"⟩

end Cloud

end FeelBetter
