import FeelBetter.Memories.Identifiers

/-!
# The memory list across sign-outs

The Memories screen keeps its list when the user signs out and another signs in,
and every call into the Firebase layer asks anew who is signed in. So the list
and the signed-in user fit together only where every sign-in finds its own
memories listed, and a composed memory goes to its author only where the
author is the one signed in when the key phrases arrive.
-/

namespace FeelBetter

open Machine MemoriesTable

/-- No identifier is used by two users. -/
def Cloud.Owned (c : Cloud) : Prop :=
  ∀ uid uid' documentID, documentID ∈ c.diaries uid → documentID ∈ c.diaries uid' → uid = uid'

theorem sampleCloud_owned : sampleCloud.Owned :=
  fun _ _ documentID hmem => absurd hmem (AList.notMem_empty documentID)

/-- The documents of `uid` and their images are exactly as they were. -/
def Cloud.Untouched (c c' : Cloud) (uid : Uid) : Prop :=
  c'.diaries uid = c.diaries uid ∧
    ∀ documentID ∈ c.diaries uid,
      c'.storage (imagePath documentID) = c.storage (imagePath documentID)

theorem Cloud.Untouched.refl (c : Cloud) (uid : Uid) : c.Untouched c uid :=
  ⟨rfl, fun _ _ => rfl⟩

/-- Deleting a document leaves every user alone who does not have a document of that name. -/
theorem Cloud.Untouched.deleted {c : Cloud} {uid uid' : Uid} {documentID : DocumentID}
    (huser : uid' ≠ uid) (hid : documentID ∉ c.diaries uid') :
    c.Untouched (c.deleted uid documentID) uid' := by
  refine ⟨?_, fun documentID' hmem => ?_⟩
  · rw [diaries_deleted, Function.update_of_ne huser]
  · have hne : imagePath documentID' ≠ imagePath documentID := by
      intro heq
      rw [imagePath_injective heq] at hmem
      exact hid hmem
    rw [storage_deleted, Function.update_of_ne hne]

/-- An upload leaves every user alone who does not have a document of that name. -/
theorem Cloud.storage_putImage_of_notMem {c : Cloud} {uid' : Uid} {documentID : DocumentID}
    {memory : LocalMemory} (hid : memory.imageData.isSome → documentID ∉ c.diaries uid') :
    ∀ documentID' ∈ c.diaries uid', (c.putImage documentID memory).storage (imagePath documentID') =
      c.storage (imagePath documentID') := by
  intro documentID' hmem
  rw [storage_putImage]
  cases hdata : memory.imageData with
  | none => rfl
  | some data =>
    have hne : imagePath documentID' ≠ imagePath documentID := by
      intro heq
      rw [imagePath_injective heq] at hmem
      exact hid (by rw [hdata]; rfl) hmem
    exact Function.update_of_ne hne _ _

/-- Writing a memory leaves every other user alone who does not have a document of that name. -/
theorem Cloud.Untouched.written {c : Cloud} {uid uid' : Uid} {documentID : DocumentID}
    {memory : LocalMemory} (tags : List String) (huser : uid' ≠ uid)
    (hid : memory.imageData.isSome → documentID ∉ c.diaries uid') :
    c.Untouched (c.written uid documentID memory tags) uid' := by
  refine ⟨?_, ?_⟩
  · rw [diaries_written, Function.update_of_ne huser]
  · rw [storage_written]
    exact storage_putImage_of_notMem hid

/-! ### The list and the signed-in user -/

/-- The list holds memories of the signed-in user only. -/
def ListedAreOwn (s : App) : Prop :=
  ∀ uid ∈ s.cloud.currentUser, ∀ documentID ∈ s.documentIDs, documentID ∈ s.cloud.diaries uid

/-- After the step the list holds memories of the signed-in user only, and a swipe has
left the documents and images of every other user as they were. -/
def Isolated (s : App) (e : Event) (t : App) : Prop :=
  ListedAreOwn t ∧
    match e with
    | .swipe _ => ∀ uid ∈ s.cloud.currentUser, ∀ uid' ≠ uid, s.cloud.Untouched t.cloud uid'
    | _ => True

/-- A sign-in finds only memories of the new user listed, and the answer of `fetchAll`
holds only memories that the user signed in when it is delivered still has. -/
def SessionKept (s : App) (e : Event) : Prop :=
  match e with
  | .signIn uid => ∀ documentID ∈ s.documentIDs, documentID ∈ s.cloud.diaries uid
  | .fetched => ∀ ids ∈ s.fetch.answer, ∀ uid ∈ s.cloud.currentUser,
      ∀ documentID ∈ ids, documentID ∈ s.cloud.diaries uid
  | _ => True

instance (diaries : Diaries) (documentID : DocumentID) : Decidable (documentID ∈ diaries) :=
  inferInstanceAs (Decidable (documentID ∈ diaries.keys))

instance (s : App) : ∀ e, Decidable (SessionKept s e)
  | .signIn _ => inferInstanceAs (Decidable (∀ _ ∈ _, _))
  | .fetched => inferInstanceAs (Decidable (∀ _ ∈ _, _))
  | .signOut | .load | .query | .fetchFailed _ | .unwind _ _ | .keyPhrases _ _ _ | .insertRows
  | .swipe _ => isTrue trivial

/-- A newly allotted identifier has one user, a rewritten document keeps its user. -/
theorem Cloud.Owned.written {c : Cloud} (h : c.Owned) {uid : Uid} {documentID : DocumentID}
    (hid : ∀ uid', documentID ∈ c.diaries uid' → uid' = uid) (memory : LocalMemory)
    (tags : List String) : (c.written uid documentID memory tags).Owned := by
  intro uid₁ uid₂ documentID' hmem₁ hmem₂
  rcases mem_diaries_written.mp hmem₁ with ⟨rfl, rfl⟩ | hold₁
  · rcases mem_diaries_written.mp hmem₂ with ⟨rfl, _⟩ | hold₂
    · rfl
    · exact (hid uid₂ hold₂).symm
  · rcases mem_diaries_written.mp hmem₂ with ⟨rfl, rfl⟩ | hold₂
    · exact hid uid₁ hold₁
    · exact h uid₁ uid₂ documentID' hold₁ hold₂

theorem Cloud.Owned.deleted {c : Cloud} (h : c.Owned) (uid : Uid) (documentID : DocumentID) :
    (c.deleted uid documentID).Owned := by
  intro uid₁ uid₂ documentID' hmem₁ hmem₂
  exact h uid₁ uid₂ documentID' (mem_diaries_deleted.mp hmem₁).1 (mem_diaries_deleted.mp hmem₂).1

/-- Identifiers are known, each has one user, and the list holds memories of the
signed-in user only. -/
structure OwnSession (s : App) : Prop where
  identified : Identified s
  owned : s.cloud.Owned
  listed : ListedAreOwn s

/-- Every transition keeps to one user for each identifier. -/
theorem OwnSession.owned_transition {s t : App} {e : Event} (h : OwnSession s)
    (ht : Transition s e t) : t.cloud.Owned := by
  cases ht with
  | signIn | signOut | load | loadSignedOut | query | fetched | fetchFailed | compose | edit
  | editInvalid | savedSignedOut | editedMissing | rowInserted | insertInvalid | deleteSignedOut
  | deleteMissing => exact h.owned
  | @saved _ _ _ newID _ hrequest hnew hfresh huser =>
    have howned : (s.cloud.allot newID).Owned := h.owned
    refine howned.written (fun uid' hmem => ?_) _ _
    exact absurd (h.identified.diaries uid' _ hmem) hfresh
  | edited result hrequest hrow hfresh hid huser =>
    have hmem := h.listed _ huser _ (List.mem_of_getElem? hid)
    exact h.owned.written (fun uid' hmem' => h.owned _ _ _ hmem' hmem) _ _
  | editedSignedOut =>
    simpa [Cloud.Owned, App.halt] using h.owned
  | deleted | deleteInvalid => exact h.owned.deleted _ _

/-- In a session with its own list, a swipe leaves the rest of the list in the user's
diaries and leaves all other users alone. -/
theorem OwnSession.deleted {s : App} (h : OwnSession s) {row : ℕ} {documentID : DocumentID}
    {uid : Uid} (hid : s.documentIDs[row]? = some documentID)
    (huser : s.cloud.currentUser = some uid) :
    (∀ documentID' ∈ s.documentIDs.eraseIdx row,
      documentID' ∈ (s.cloud.deleted uid documentID).diaries uid) ∧
    ∀ uid' ≠ uid, s.cloud.Untouched (s.cloud.deleted uid documentID) uid' := by
  obtain ⟨hlt, rfl⟩ := List.getElem?_eq_some_iff.mp hid
  have hown := h.listed uid huser _ (List.getElem_mem hlt)
  constructor
  · intro documentID' hmem
    refine Cloud.mem_diaries_deleted.mpr ⟨h.listed uid huser _ (List.mem_of_mem_eraseIdx hmem), ?_⟩
    rintro ⟨_, rfl⟩
    rw [← List.erase_eq_eraseIdx_of_idxOf (h.identified.nodup.idxOf_getElem row hlt)] at hmem
    exact h.identified.nodup.not_mem_erase hmem
  · exact fun uid' hne => .deleted hne fun hmem => hne (h.owned uid' uid _ hmem hown)

/-- A transition that keeps the session isolates the users, and no other does. -/
theorem OwnSession.isolated_iff {s t : App} {e : Event} (h : OwnSession s)
    (ht : Transition s e t) : SessionKept s e ↔ Isolated s e t := by
  cases ht with
  | signIn uid =>
    constructor
    · exact fun hkept => ⟨fun uid' huid => by cases huid; exact hkept, trivial⟩
    · exact fun hisolated => hisolated.1 uid rfl
  | signOut => exact iff_of_true trivial ⟨fun uid huid => (by cases huid), trivial⟩
  | load | loadSignedOut | query | fetchFailed | compose | edit | editInvalid
  | rowInserted | insertInvalid | editedMissing | savedSignedOut =>
    exact iff_of_true trivial ⟨h.listed, trivial⟩
  | @fetched ids hfetch =>
    have hanswer : s.fetch.answer = some ids := by
      rw [hfetch]
      rfl
    constructor
    · exact fun hkept => ⟨fun uid huid => hkept ids hanswer uid huid, trivial⟩
    · intro hisolated ids' hids uid huid
      rw [hanswer] at hids
      cases hids
      exact hisolated.1 uid huid
  | saved result hrequest hnew hfresh huser =>
    refine iff_of_true trivial ⟨fun uid' huid documentID hmem => ?_, trivial⟩
    rw [Cloud.currentUser_written] at huid
    obtain rfl : _ = uid' := Option.some.inj (huser.symm.trans huid)
    refine Cloud.mem_diaries_written.mpr ?_
    rcases List.mem_cons.mp hmem with rfl | hmem
    · exact .inl ⟨rfl, rfl⟩
    · exact .inr (h.listed _ huser _ hmem)
  | edited result hrequest hrow hfresh hid huser =>
    refine iff_of_true trivial ⟨fun uid' huid documentID hmem => ?_, trivial⟩
    rw [Cloud.currentUser_written] at huid
    exact Cloud.mem_diaries_written.mpr (.inr (h.listed uid' huid documentID hmem))
  | editedSignedOut _ _ _ _ _ huser =>
    refine iff_of_true trivial ⟨fun uid' huid => ?_, trivial⟩
    rw [App.halt, Cloud.currentUser_putImage, huser] at huid
    cases huid
  | deleted hrow hid huser hcount | deleteInvalid hrow hid huser hcount =>
    obtain ⟨hlisted, huntouched⟩ := h.deleted hid huser
    refine iff_of_true trivial ⟨fun uid' huid => ?_, fun uid' huid => ?_⟩
    · obtain rfl : _ = uid' := Option.some.inj (huser.symm.trans huid)
      exact hlisted
    · obtain rfl : _ = uid' := Option.some.inj (huser.symm.trans huid)
      exact huntouched
  | deleteSignedOut _ _ huser =>
    refine iff_of_true trivial ⟨fun uid' huid => ?_, fun uid' huid => ?_⟩
    · cases huser.symm.trans huid
    · cases huser.symm.trans huid
  | deleteMissing =>
    exact iff_of_true trivial ⟨h.listed, fun uid' _ uid'' _ => .refl _ _⟩

/-- **Sessions are isolated** throughout a run exactly when every sign-in finds its own
memories listed and every answer of `fetchAll` is delivered to the user it belongs to. -/
theorem isolated_iff_sessionKept {cloud : Cloud} (hcloud : cloud.Allotted) (howned : cloud.Owned)
    (es : List Event) :
    Always App.step Isolated (App.start cloud) es ↔
      Always App.step (fun s e _ => SessionKept s e) (App.start cloud) es := by
  have hstart : OwnSession (App.start cloud) :=
    ⟨identified_start hcloud, howned, fun _ _ _ hmem => absurd hmem List.not_mem_nil⟩
  refine (always_iff_of_invariant (I := OwnSession) ?_ ?_ hstart es).symm
  · intro s e t h hstep
    exact h.isolated_iff (transition_of_step hstep).2
  · intro s e t h hstep hkept
    have ht := (transition_of_step hstep).2
    exact ⟨h.identified.transition ht, h.owned_transition ht, ((h.isolated_iff ht).mp hkept).1⟩

/-- A user signs out and in again, and deletes the memory saved before. -/
theorem isolated_same_user :
    Always App.step Isolated (App.start sampleCloud)
      [.load, .query, .fetched, .unwind (sampleMemory 1) none, .keyPhrases 0 (.ok []) "a",
        .insertRows, .signOut, .signIn "kevin", .swipe 0] :=
  (isolated_iff_sessionKept sampleCloud_allotted sampleCloud_owned _).mpr (by decide)

/-- A second user finds the memory of the first in the list, swipes it away and deletes
its image. -/
theorem swipe_deletes_image_of_other :
    ¬∀ cloud : Cloud, cloud.Allotted → cloud.Owned →
      ∀ es, Always App.step Isolated (App.start cloud) es := by
  intro h
  have hrun := h sampleCloud sampleCloud_allotted sampleCloud_owned
    [.unwind { sampleMemory 1 with image := some ⟨some [137]⟩ } none,
      .keyPhrases 0 (.ok []) "a", .insertRows, .signOut, .signIn "mallory", .swipe 0]
  have hswipe := (((((hrun _ rfl).2 _ rfl).2 _ rfl).2 _ rfl).2 _ rfl).2 _ rfl
  have himage := (hswipe.1.2 "mallory" rfl "kevin" (by decide)).2 "a" (by decide)
  exact absurd himage (by decide)

/-! ### The author of a composed memory -/

/-- A document of `uid` holds the memory and its file the image, and the documents and
images of everybody else are exactly as they were. -/
def Cloud.StoredFor (c c' : Cloud) (uid : Uid) (memory : LocalMemory) (tags : List String) :
    Prop :=
  (∃ documentID,
    c'.diaries uid = (c.diaries uid).insert documentID (Document.ofMemory memory tags) ∧
    ∀ data ∈ memory.imageData, c'.storage (imagePath documentID) = some data) ∧
  ∀ uid' ≠ uid, c.Untouched c' uid'

/-- The completion of the key phrases request of a memory that was accepted while its
author was signed in does not find nobody signed in, and stores the memory for the
author alone. -/
def StoredUnderAuthor (s : App) (e : Event) (t : App) : Prop :=
  match e with
  | .keyPhrases i result _ => ∀ request ∈ s.requests[i]?, ∀ uid ∈ request.author,
      t.trap ≠ some .noCurrentUser ∧
      s.cloud.StoredFor t.cloud uid request.memory (tagsOf result)
  | _ => True

/-- The author is signed in when the key phrases arrive. An edited memory moreover still
has its row, and, where it has an image, the row is not another user's. -/
def AuthorPresent (s : App) (e : Event) : Prop :=
  match e with
  | .keyPhrases i _ _ => ∀ request ∈ s.requests[i]?, ∀ uid ∈ request.author,
      s.cloud.currentUser = some uid ∧
      ∀ row ∈ request.selectedRow, row < s.documentIDs.length ∧
        ∀ documentID ∈ s.documentIDs[row]?, request.memory.imageData.isSome →
          ∀ uid' ≠ uid, documentID ∉ s.cloud.diaries uid'
  | _ => True

/-- Writing a memory stores it for the user, where no other user has a document of the
name that the image goes by. -/
theorem Cloud.storedFor_written (c : Cloud) (uid : Uid) (documentID : DocumentID)
    (memory : LocalMemory) (tags : List String)
    (hid : memory.imageData.isSome → ∀ uid' ≠ uid, documentID ∉ c.diaries uid') :
    c.StoredFor (c.written uid documentID memory tags) uid memory tags := by
  refine ⟨⟨documentID, ?_, fun data hdata => ?_⟩, fun uid' hne => ?_⟩
  · rw [diaries_written, Function.update_self]
  · rw [storage_written, storage_putImage, Option.mem_def.mp hdata]
    exact Function.update_self ..
  · exact .written tags hne fun himage => hid himage uid' hne

/-- A completion that finds the author signed in stores the memory under the author. -/
theorem storedUnderAuthor_of_transition {s t : App} {e : Event} (hid : Identified s)
    (htrap : s.trap = none) (ht : Transition s e t) (hpresent : AuthorPresent s e) :
    StoredUnderAuthor s e t := by
  cases ht with
  | signIn | signOut | load | loadSignedOut | query | fetched | fetchFailed | compose | edit
  | editInvalid | rowInserted | insertInvalid | deleted | deleteInvalid | deleteSignedOut
  | deleteMissing => trivial
  | @saved _ _ _ newID _ hrequest hnew hfresh huser =>
    intro request hmem uid hauthor
    obtain ⟨hcurrent, _⟩ := hpresent request hmem uid hauthor
    obtain rfl := Option.some.inj (hrequest.symm.trans hmem)
    obtain rfl := Option.some.inj (huser.symm.trans hcurrent)
    have hfree : ∀ uid', newID ∉ s.cloud.diaries uid' :=
      fun uid' hmem => hfresh (hid.diaries uid' newID hmem)
    exact ⟨by simp [htrap],
      (s.cloud.allot newID).storedFor_written _ newID _ _ fun _ uid' _ => hfree uid'⟩
  | savedSignedOut _ hrequest _ _ huser =>
    intro request hmem uid hauthor
    cases huser.symm.trans (hpresent request hmem uid hauthor).1
  | edited result hrequest hrow hfresh harray huser =>
    intro request hmem uid hauthor
    obtain ⟨hcurrent, hrows⟩ := hpresent request hmem uid hauthor
    obtain rfl := Option.some.inj (hrequest.symm.trans hmem)
    obtain rfl := Option.some.inj (huser.symm.trans hcurrent)
    exact ⟨by simp [htrap], s.cloud.storedFor_written _ _ _ _ ((hrows _ hrow).2 _ harray)⟩
  | editedSignedOut _ hrequest _ _ _ huser =>
    intro request hmem uid hauthor
    cases huser.symm.trans (hpresent request hmem uid hauthor).1
  | editedMissing _ hrequest hrow _ harray =>
    intro request hmem uid hauthor
    obtain ⟨_, hrows⟩ := hpresent request hmem uid hauthor
    obtain rfl := Option.some.inj (hrequest.symm.trans hmem)
    have hlt := (hrows _ hrow).1
    rw [List.getElem?_eq_none_iff] at harray
    omega

/-- A new memory is stored under its author only where the author is signed in. -/
theorem currentUser_of_storedUnderAuthor {s t : App} {i : ℕ} {result : Result (List String)}
    {newID : DocumentID} {request : KeyPhrasesRequest} {uid : Uid} (hid : Identified s)
    (ht : Transition s (.keyPhrases i result newID) t) (hrequest : s.requests[i]? = some request)
    (hnew : request.selectedRow = none) (hauthor : request.author = some uid)
    (hstored : StoredUnderAuthor s (.keyPhrases i result newID) t) :
    s.cloud.currentUser = some uid := by
  obtain ⟨htrap, _, huntouched⟩ := hstored request hrequest uid hauthor
  cases ht with
  | @saved _ _ _ _ uid' _ _ hfresh huser =>
    rw [huser, Option.some.injEq]
    by_contra hne
    -- the document would be written under another user, who did not have it before
    have hdiaries := (huntouched uid' hne).1
    have hmem : newID ∈ s.cloud.diaries uid' := by
      rw [← hdiaries]
      exact Cloud.mem_diaries_written.mpr (.inl ⟨rfl, rfl⟩)
    exact hfresh (hid.diaries uid' newID hmem)
  | savedSignedOut => exact absurd rfl htrap
  | edited _ hrequest' hrow | editedSignedOut _ hrequest' hrow | editedMissing _ hrequest' hrow =>
    obtain rfl := Option.some.inj (hrequest.symm.trans hrequest')
    cases hnew.symm.trans hrow

/-- **A composed memory is stored under its author** in every run in which the author is
signed in whenever its key phrases arrive. A new memory is stored under its author
in no other case. -/
theorem storedUnderAuthor_of_authorPresent {cloud : Cloud} (hcloud : cloud.Allotted)
    (es : List Event) :
    (Always App.step (fun s e _ => AuthorPresent s e) (App.start cloud) es →
      Always App.step StoredUnderAuthor (App.start cloud) es) ∧
    ∀ s t i result newID request uid, run App.step (App.start cloud) es = some s →
      s.step (.keyPhrases i result newID) = some t → s.requests[i]? = some request →
      request.selectedRow = none → request.author = some uid →
      (StoredUnderAuthor s (.keyPhrases i result newID) t ↔ s.cloud.currentUser = some uid) := by
  constructor
  · refine Always.of_invariant (fun s e t hid hstep hpresent => ?_) (identified_start hcloud)
    obtain ⟨htrap, ht⟩ := transition_of_step hstep
    exact ⟨storedUnderAuthor_of_transition hid htrap ht hpresent, hid.transition ht⟩
  · intro s t i result newID request uid hrun hstep hrequest hnew hauthor
    obtain ⟨htrap, ht⟩ := transition_of_step hstep
    have hid := identified_of_run hcloud hrun
    refine ⟨currentUser_of_storedUnderAuthor hid ht hrequest hnew hauthor, fun huser => ?_⟩
    refine storedUnderAuthor_of_transition hid htrap ht fun request' hmem uid' hauthor' => ?_
    obtain rfl := Option.some.inj (hrequest.symm.trans hmem)
    obtain rfl := Option.some.inj (hauthor.symm.trans hauthor')
    refine ⟨huser, fun row hrow => ?_⟩
    cases hnew.symm.trans hrow

/-- A memory is saved, edited, and the edit is written, by the user who is signed in
throughout. -/
theorem storedUnderAuthor_save_edit :
    Always App.step StoredUnderAuthor (App.start sampleCloud)
      [.unwind (sampleMemory 1) none, .keyPhrases 0 (.ok []) "a", .insertRows,
        .unwind (sampleMemory 1) (some 0), .keyPhrases 0 (.ok ["good day"]) "b"] := by
  refine (storedUnderAuthor_of_authorPresent sampleCloud_allotted _).1 ?_
  refine (always_cons rfl).mpr ⟨trivial, (always_cons rfl).mpr ⟨?_, (always_cons rfl).mpr
    ⟨trivial, (always_cons rfl).mpr ⟨trivial, (always_cons rfl).mpr ⟨?_, trivial⟩⟩⟩⟩⟩
  · rintro _ ⟨⟩ _ ⟨⟩
    exact ⟨rfl, fun row hrow => by cases hrow⟩
  · rintro _ ⟨⟩ _ ⟨⟩
    refine ⟨rfl, ?_⟩
    rintro _ ⟨⟩
    exact ⟨by decide, fun documentID _ himage => by cases himage⟩

/-- The author has signed out and another user has signed in when the key phrases arrive:
the memory is written under the other user. -/
theorem memory_stored_under_other :
    ¬∀ cloud : Cloud, cloud.Allotted →
      ∀ es, Always App.step StoredUnderAuthor (App.start cloud) es := by
  intro h
  have hrun := h sampleCloud sampleCloud_allotted
    [.unwind (sampleMemory 1) none, .signOut, .signIn "mallory", .keyPhrases 0 (.ok []) "a"]
  have hsave := (((hrun _ rfl).2 _ rfl).2 _ rfl).2 _ rfl
  obtain ⟨_, _, huntouched⟩ := hsave.1 _ rfl "kevin" rfl
  have hkeys := congrArg AList.keys (huntouched "mallory" (by decide)).1
  exact absurd hkeys (by decide)

end FeelBetter
