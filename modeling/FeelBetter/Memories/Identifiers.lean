import FeelBetter.Machine.Runs
import FeelBetter.Memories.Transitions

/-!
# Document identifiers on the Memories screen

Firestore hands out every identifier once. So the array of the screen never
holds an identifier twice, whatever is saved, deleted, edited or fetched in
whatever order, and whoever signs in meanwhile.
-/

namespace FeelBetter

open Machine MemoriesTable

/-- Every stored document has an identifier that was handed out. -/
def Cloud.Allotted (c : Cloud) : Prop :=
  ∀ uid documentID, documentID ∈ c.diaries uid → documentID ∈ c.allotted

theorem sampleCloud_allotted : sampleCloud.Allotted :=
  fun _ documentID hmem => absurd hmem (AList.notMem_empty documentID)

/-- The identifiers that the screen knows were handed out, and it lists none twice. -/
structure Identified (s : App) : Prop where
  diaries : s.cloud.Allotted
  documentIDs : ∀ documentID ∈ s.documentIDs, documentID ∈ s.cloud.allotted
  nodup : s.documentIDs.Nodup
  answered : ∀ ids, s.fetch = .answered ids →
    ids.Nodup ∧ ∀ documentID ∈ ids, documentID ∈ s.cloud.allotted

/-- A write of a listed or newly allotted document keeps the stored identifiers allotted. -/
theorem Cloud.Allotted.written {c : Cloud} (h : c.Allotted) {documentID : DocumentID}
    (hmem : documentID ∈ c.allotted) (uid : Uid) (memory : LocalMemory) (tags : List String) :
    (c.written uid documentID memory tags).Allotted := by
  intro uid' documentID' hmem'
  rw [allotted_written]
  rcases mem_diaries_written.mp hmem' with ⟨_, rfl⟩ | hmem'
  · exact hmem
  · exact h uid' documentID' hmem'

theorem Cloud.Allotted.deleted {c : Cloud} (h : c.Allotted) (uid : Uid)
    (documentID : DocumentID) : (c.deleted uid documentID).Allotted := by
  intro uid' documentID' hmem'
  exact h uid' documentID' (mem_diaries_deleted.mp hmem').1

theorem Cloud.Allotted.allot {c : Cloud} (h : c.Allotted) (newID : DocumentID) :
    (c.allot newID).Allotted :=
  fun uid documentID hmem => List.mem_cons_of_mem _ (h uid documentID hmem)

/-- Removing a row leaves known identifiers. -/
theorem Identified.eraseIdx {s : App} (h : Identified s) (row : ℕ) :
    (∀ documentID ∈ s.documentIDs.eraseIdx row, documentID ∈ s.cloud.allotted) ∧
      (s.documentIDs.eraseIdx row).Nodup :=
  ⟨fun documentID hmem => h.documentIDs documentID (List.mem_of_mem_eraseIdx hmem),
    h.nodup.sublist (List.eraseIdx_sublist _ _)⟩

/-- Every transition keeps the identifiers known and listed once. -/
theorem Identified.transition {s t : App} {e : Event} (h : Identified s)
    (ht : Transition s e t) : Identified t := by
  cases ht with
  | signIn | signOut | loadSignedOut | compose | edit | editInvalid | savedSignedOut
  | editedMissing | rowInserted | insertInvalid | deleteMissing =>
    exact ⟨h.diaries, h.documentIDs, h.nodup, h.answered⟩
  | load | fetchFailed =>
    exact ⟨h.diaries, h.documentIDs, h.nodup, fun ids hids => by cases hids⟩
  | query =>
    refine ⟨h.diaries, h.documentIDs, h.nodup, fun ids hids => ?_⟩
    cases hids
    exact ⟨Firebase.fetchAll_nodup _, fun documentID hmem =>
      h.diaries _ documentID (Firebase.mem_of_mem_fetchAll hmem)⟩
  | fetched hfetch =>
    obtain ⟨hnodup, hmem⟩ := h.answered _ hfetch
    exact ⟨h.diaries, hmem, hnodup, fun ids hids => by cases hids⟩
  | saved _ hrequest hnew hfresh =>
    refine ⟨(h.diaries.allot _).written List.mem_cons_self _ _ _, ?_, ?_, ?_⟩
    · intro documentID hmem
      rw [Cloud.allotted_written]
      rcases List.mem_cons.mp hmem with rfl | hmem
      · exact List.mem_cons_self
      · exact List.mem_cons_of_mem _ (h.documentIDs documentID hmem)
    · exact List.nodup_cons.mpr ⟨fun hmem => hfresh (h.documentIDs _ hmem), h.nodup⟩
    · intro ids hids
      obtain ⟨hnodup, hmem⟩ := h.answered ids hids
      rw [Cloud.allotted_written]
      exact ⟨hnodup, fun documentID hid => List.mem_cons_of_mem _ (hmem documentID hid)⟩
  | edited _ hrequest hrow hfresh hid =>
    have hmem := h.documentIDs _ (List.mem_of_getElem? hid)
    refine ⟨h.diaries.written hmem _ _ _, ?_, h.nodup, ?_⟩
    · rw [Cloud.allotted_written]
      exact h.documentIDs
    · rw [Cloud.allotted_written]
      exact h.answered
  | editedSignedOut _ hrequest hrow hfresh hid =>
    refine ⟨?_, ?_, h.nodup, ?_⟩
    · simpa [Cloud.Allotted, App.halt] using h.diaries
    · simpa [App.halt] using h.documentIDs
    · simpa [App.halt] using h.answered
  | deleted | deleteInvalid =>
    obtain ⟨hmem, hnodup⟩ := h.eraseIdx _
    exact ⟨h.diaries.deleted _ _, hmem, hnodup, h.answered⟩
  | deleteSignedOut =>
    obtain ⟨hmem, hnodup⟩ := h.eraseIdx _
    exact ⟨h.diaries, hmem, hnodup, h.answered⟩

theorem identified_start {cloud : Cloud} (h : cloud.Allotted) : Identified (App.start cloud) where
  diaries := h
  documentIDs := by simp [App.start]
  nodup := List.nodup_nil
  answered := by simp [App.start]

/-- The identifiers stay known and listed once in every run. -/
theorem identified_of_run {cloud : Cloud} (h : cloud.Allotted) {es : List Event} {s : App}
    (hrun : run App.step (App.start cloud) es = some s) : Identified s :=
  run_invariant (fun _ _ _ hs hstep => hs.transition (transition_of_step hstep).2)
    (identified_start h) hrun

end FeelBetter
