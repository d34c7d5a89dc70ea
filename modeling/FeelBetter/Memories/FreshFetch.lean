import FeelBetter.Memories.Identifiers

/-!
# The memory list against a fresh fetch

The array of the screen is built in two ways: `fetchAll` replaces it by what the
server answers, and every save puts its identifier in front, every swipe takes one
out. The two agree where no write falls between the query and its completion,
and where the memories arrive in the order of their save dates.
-/

namespace FeelBetter

open Machine

/-- The event belongs to a run of one user who only composes and deletes: nobody signs
in or out and no memory is edited. -/
def Event.SingleUser : Event → Prop
  | .signIn _ | .signOut | .unwind _ (some _) => False
  | _ => True

instance : ∀ e : Event, Decidable e.SingleUser
  | .signIn _ | .signOut | .unwind _ (some _) => isFalse id
  | .load | .query | .fetched | .fetchFailed _ | .unwind _ none | .keyPhrases _ _ _
  | .insertRows | .swipe _ => isTrue trivial

/-- Everything under way has been delivered, the answer of `fetchAll` among it. -/
def Quiescent (s : App) : Prop :=
  s.fetch = .delivered ∧ s.requests = [] ∧ s.insertions = 0

/-- The array is what a fresh `fetchAll` would answer: the stored memories, each once, the
latest first. -/
structure AgreesWithFetch (uid : Uid) (s : App) : Prop where
  nodup : s.documentIDs.Nodup
  mem_iff : ∀ documentID, documentID ∈ s.documentIDs ↔ documentID ∈ s.cloud.diaries uid
  order : s.documentIDs = Firebase.fetchAll (s.cloud.diaries uid)
  latestFirst : s.documentIDs.Pairwise fun a b => ∀ t u,
    Firebase.SavedAt (s.cloud.diaries uid) a t → Firebase.SavedAt (s.cloud.diaries uid) b u → u ≤ t

/-- The step keeps the list in line with the server: nothing is saved or swiped away
between the query and its completion, and after the completion a memory that
arrives is the latest of the signed-in user. -/
def ListKept (s : App) (e : Event) : Prop :=
  match e with
  | .swipe _ => s.fetch.answer = none
  | .keyPhrases i _ _ => s.fetch.answer = none ∧
      (s.fetch = .delivered → ∀ request ∈ s.requests[i]?, ∀ uid ∈ s.cloud.currentUser,
        Firebase.AllBefore (s.cloud.diaries uid) request.memory.saveDate)
  | _ => True

instance (s : App) : ∀ e, Decidable (ListKept s e)
  | .swipe _ => inferInstanceAs (Decidable (_ = _))
  | .keyPhrases _ _ _ => inferInstanceAs (Decidable (_ ∧ _))
  | .signIn _ | .signOut | .load | .query | .fetched | .fetchFailed _ | .unwind _ _
  | .insertRows => isTrue trivial

/-- What the array and the answer under way have to do with the diaries of the one user. -/
structure Kept (uid : Uid) (s : App) : Prop where
  currentUser : s.cloud.currentUser = some uid
  dated : Firebase.Dated (s.cloud.diaries uid)
  composed : ∀ request ∈ s.requests, request.selectedRow = none
  issued : ∀ uid', s.fetch = .issued uid' → uid' = uid
  answered : ∀ ids, s.fetch = .answered ids → ids = Firebase.fetchAll (s.cloud.diaries uid)
  delivered : s.fetch = .delivered → s.documentIDs = Firebase.fetchAll (s.cloud.diaries uid)

theorem Fetch.ne_answered {f : Fetch} (h : f.answer = none) (ids : List DocumentID) :
    f ≠ .answered ids := by
  rintro rfl
  cases h

/-- A swipe erases the same identifier from the array and from a fresh answer. -/
theorem Kept.deleted {uid : Uid} {s : App} (h : Kept uid s) (hid : Identified s) {row : ℕ}
    {documentID : DocumentID} (hrow : s.documentIDs[row]? = some documentID)
    (hfetch : s.fetch = .delivered) :
    s.documentIDs.eraseIdx row =
      Firebase.fetchAll ((s.cloud.deleted uid documentID).diaries uid) := by
  obtain ⟨hlt, rfl⟩ := List.getElem?_eq_some_iff.mp hrow
  have herase : s.documentIDs.erase s.documentIDs[row] = s.documentIDs.eraseIdx row :=
    List.erase_eq_eraseIdx_of_idxOf (hid.nodup.idxOf_getElem row hlt)
  rw [Cloud.diaries_deleted, Function.update_self, Firebase.fetchAll_erase, ← h.delivered hfetch,
    herase]

/-- A save puts the same identifier in front of the array and of a fresh answer. -/
theorem Kept.saved {uid : Uid} {s : App} (h : Kept uid s) (hid : Identified s)
    {memory : LocalMemory} (tags : List String) {newID : DocumentID}
    (hfresh : newID ∉ s.cloud.allotted) (hfetch : s.fetch = .delivered)
    (hlatest : Firebase.AllBefore (s.cloud.diaries uid) memory.saveDate) :
    newID :: s.documentIDs =
      Firebase.fetchAll (((s.cloud.allot newID).written uid newID memory tags).diaries uid) := by
  have hnew : newID ∉ s.cloud.diaries uid := fun hmem => hfresh (hid.diaries uid newID hmem)
  rw [Cloud.diaries_written, Function.update_self, h.delivered hfetch]
  exact (Firebase.fetchAll_insert_newest h.dated hnew tags hlatest).symm

/-- Every transition of the one user that keeps the list in line leaves it in line. -/
theorem Kept.transition {uid : Uid} {s t : App} {e : Event} (h : Kept uid s)
    (hid : Identified s) (ht : Transition s e t) (hkept : ListKept s e)
    (hsingle : e.SingleUser) : Kept uid t := by
  cases ht with
  | signIn | signOut | edit | editInvalid => exact hsingle.elim
  | loadSignedOut _ huser | savedSignedOut _ _ _ _ huser | deleteSignedOut _ _ huser =>
    rw [h.currentUser] at huser
    cases huser
  | edited _ hrequest hrow | editedSignedOut _ hrequest hrow | editedMissing _ hrequest hrow =>
    rw [h.composed _ (List.mem_of_getElem? hrequest)] at hrow
    cases hrow
  | rowInserted | insertInvalid | deleteMissing =>
    exact ⟨h.currentUser, h.dated, h.composed, h.issued, h.answered, h.delivered⟩
  | load _ huser =>
    rw [h.currentUser, Option.some.injEq] at huser
    exact { h with
      issued := by rintro _ ⟨⟩; exact huser.symm
      answered := by rintro _ ⟨⟩
      delivered := by rintro ⟨⟩ }
  | query hfetch =>
    rw [h.issued _ hfetch]
    exact { h with
      issued := by rintro _ ⟨⟩
      answered := by rintro _ ⟨⟩; rfl
      delivered := by rintro ⟨⟩ }
  | fetched hfetch =>
    exact { h with
      issued := by rintro _ ⟨⟩
      answered := by rintro _ ⟨⟩
      delivered := fun _ => h.answered _ hfetch }
  | fetchFailed =>
    exact { h with
      issued := by rintro _ ⟨⟩
      answered := by rintro _ ⟨⟩
      delivered := by rintro ⟨⟩ }
  | compose =>
    refine { h with composed := fun request hmem => ?_ }
    rcases List.mem_append.mp hmem with hmem | hmem
    · exact h.composed request hmem
    · rw [List.mem_singleton.mp hmem]
      rfl
  | saved result hrequest _ hfresh huser =>
    rw [h.currentUser, Option.some.injEq] at huser
    subst huser
    obtain ⟨hanswer, hlatest⟩ := hkept
    refine ⟨?_, ?_, ?_, h.issued, ?_, ?_⟩
    · rw [Cloud.currentUser_written]
      exact h.currentUser
    · rw [Cloud.diaries_written, Function.update_self]
      exact Firebase.Dated.insert h.dated _ _ _
    · exact fun request hmem => h.composed request (List.mem_of_mem_eraseIdx hmem)
    · exact fun ids hids => absurd hids (Fetch.ne_answered hanswer ids)
    · intro hfetch
      exact h.saved hid _ hfresh hfetch (hlatest hfetch _ hrequest _ h.currentUser)
  | deleted _ hrow huser | deleteInvalid _ hrow huser =>
    rw [h.currentUser, Option.some.injEq] at huser
    subst huser
    refine ⟨h.currentUser, ?_, h.composed, h.issued, ?_, ?_⟩
    · show Firebase.Dated ((s.cloud.deleted uid _).diaries uid)
      rw [Cloud.diaries_deleted, Function.update_self]
      exact Firebase.Dated.erase h.dated _
    · exact fun ids hids => absurd hids (Fetch.ne_answered hkept ids)
    · exact fun hfetch => h.deleted hid hrow hfetch

/-- In a run of one user that keeps the list in line, the array agrees with a fresh fetch
whenever everything has been delivered. -/
theorem agreesWithFetch_of_listKept {cloud : Cloud} {uid : Uid} (hcloud : cloud.Allotted)
    (huser : cloud.currentUser = some uid) (hdated : Firebase.Dated (cloud.diaries uid))
    (es : List Event) (hsingle : ∀ e ∈ es, e.SingleUser)
    (hkept : Always App.step (fun s e _ => ListKept s e) (App.start cloud) es) {s : App}
    (hrun : run App.step (App.start cloud) es = some s) (hdone : Quiescent s) :
    AgreesWithFetch uid s := by
  have hstart : Kept uid (App.start cloud) :=
    ⟨huser, hdated, by simp [App.start], by simp [App.start], by simp [App.start],
      by simp [App.start]⟩
  have hinv : Identified s ∧ Kept uid s := by
    refine Always.invariant (I := fun s => Identified s ∧ Kept uid s) ?_
      ⟨identified_start hcloud, hstart⟩ (hkept.and (always_of_forall_mem hsingle _)) hrun
    rintro s e t ⟨hid, hs⟩ hstep ⟨hkept, hsingle⟩
    have ht := (transition_of_step hstep).2
    exact ⟨hid.transition ht, hs.transition hid ht hkept hsingle⟩
  obtain ⟨hid, hs⟩ := hinv
  have horder := hs.delivered hdone.1
  refine ⟨hid.nodup, fun documentID => ?_, horder, ?_⟩
  · rw [horder]
    exact Firebase.mem_fetchAll_iff hs.dated
  · rw [horder]
    exact Firebase.fetchAll_latestFirst _

/-- Two memories are saved, the later one last, and the earlier one is deleted. -/
def saveSaveDelete : List Event :=
  [.load, .query, .fetched, .unwind (sampleMemory 1) none, .keyPhrases 0 (.ok []) "a",
    .insertRows, .unwind (sampleMemory 2) none, .keyPhrases 0 (.ok []) "b", .insertRows,
    .swipe 1]

theorem agreesWithFetch_saveSaveDelete :
    ∃ s, run App.step (App.start sampleCloud) saveSaveDelete = some s ∧
      AgreesWithFetch "kevin" s := by
  refine ⟨_, rfl, agreesWithFetch_of_listKept sampleCloud_allotted rfl ?_ saveSaveDelete
    (by decide) (by decide) rfl ⟨rfl, rfl, rfl⟩⟩
  exact fun _ _ hlookup => by cases hlookup

/-- No two memories of a collection were saved at the same instant. -/
def DistinctDates (diaries : Diaries) : Prop :=
  ∀ a b documentA documentB t, diaries.lookup a = some documentA →
    diaries.lookup b = some documentB → documentA.saveDate = some (.timestamp t) →
    documentB.saveDate = some (.timestamp t) → a = b

/-- The key phrases of the second of two memories arrive first: the array then has the
earlier memory in front, a fresh fetch has the later one. -/
theorem saves_out_of_order :
    ¬∀ (cloud : Cloud) (uid : Uid) (es : List Event) (s : App), cloud.Allotted →
      cloud.currentUser = some uid → Firebase.Dated (cloud.diaries uid) →
      DistinctDates (cloud.diaries uid) → (∀ e ∈ es, e.SingleUser) →
      run App.step (App.start cloud) es = some s → Quiescent s → AgreesWithFetch uid s := by
  intro h
  have hagrees := h sampleCloud "kevin"
    [.load, .query, .fetched, .unwind (sampleMemory 1) none, .unwind (sampleMemory 2) none,
      .keyPhrases 1 (.ok []) "b", .insertRows, .keyPhrases 0 (.ok []) "a", .insertRows] _
    sampleCloud_allotted rfl (fun _ _ hlookup => by cases hlookup)
    (fun _ _ _ _ _ hlookup => by cases hlookup) (by decide) rfl ⟨rfl, rfl, rfl⟩
  exact absurd hagrees.order (by decide)

end FeelBetter
