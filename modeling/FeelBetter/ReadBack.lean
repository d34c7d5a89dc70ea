import FeelBetter.Storage

/-!
# Reading back a memory

A memory is kept in two stores: its fields in a document, its image in a file.
`replaceMemory` always writes the document, but touches the file only for a memory
with an image. `getMemory` puts the two together again, so the image of an earlier
memory comes back with a later one that has none.
-/

namespace FeelBetter

open Machine

/-- What one call of `replaceMemory(withID:with:tags:)` writes. -/
structure Write where
  memory : LocalMemory
  tags : List String
  deriving DecidableEq

namespace Cloud

/-- The cloud after a sequence of writes over one document of `uid`. -/
def writtenAll (c : Cloud) (uid : Uid) (documentID : DocumentID) (writes : List Write) : Cloud :=
  writes.foldl (fun c write => c.written uid documentID write.memory write.tags) c

variable (c : Cloud) (uid : Uid) (documentID : DocumentID)

theorem currentUser_writtenAll (writes : List Write) :
    (c.writtenAll uid documentID writes).currentUser = c.currentUser := by
  unfold writtenAll
  induction writes generalizing c with
  | nil => rfl
  | cons write writes ih => rw [List.foldl_cons, ih, currentUser_written]

theorem writtenAll_concat (writes : List Write) (last : Write) :
    c.writtenAll uid documentID (writes ++ [last]) =
      (c.writtenAll uid documentID writes).written uid documentID last.memory last.tags := by
  simp [writtenAll]

/-- The document after a write is the one that was written. -/
theorem lookup_written (memory : LocalMemory) (tags : List String) :
    ((c.written uid documentID memory tags).diaries uid).lookup documentID =
      some (Document.ofMemory memory tags) := by
  rw [diaries_written, Function.update_self, AList.lookup_insert]

/-- The file after a write is the image of the memory, where it has one. -/
theorem storage_imagePath_written (memory : LocalMemory) (tags : List String) :
    (c.written uid documentID memory tags).storage (imagePath documentID) =
      memory.imageData.or (c.storage (imagePath documentID)) := by
  rw [storage_written, storage_putImage]
  cases memory.imageData <;> simp

/-- There is no file after a sequence of writes where there was none and none was written. -/
theorem storage_writtenAll_eq_none_iff (writes : List Write) :
    (c.writtenAll uid documentID writes).storage (imagePath documentID) = none ↔
      (∀ write ∈ writes, write.memory.imageData = none) ∧
        c.storage (imagePath documentID) = none := by
  induction writes generalizing c with
  | nil => simp [writtenAll]
  | cons write writes ih =>
    have hrest := ih (c.written uid documentID write.memory write.tags)
    rw [storage_imagePath_written, Option.or_eq_none_iff] at hrest
    rw [List.forall_mem_cons, and_assoc, and_left_comm]
    exact hrest

end Cloud

namespace Firebase

/-- `Firebase.getImage(for:then:)`: Storage has an address exactly for the files it has. -/
def getImage (downloadURL : String → URL) (documentID : DocumentID) :
    CloudAction (Result URL) := do
  match (← get).storage (imagePath documentID) with
  | some _ => pure (.ok (downloadURL (imagePath documentID)))
  | none => pure (.error "objectNotFound")

/-- `Firebase.getMemory(withID:then:)` on the stores: the document is fetched first and then
the address of the image. -/
def readMemory (downloadURL : String → URL) (documentID : DocumentID) :
    CloudAction (Option CloudMemory) := do
  let uid ← diariesRef
  let document := ((← get).diaries uid).lookup documentID
  let imageURL ← getImage downloadURL documentID
  pure (getMemory documentID document imageURL)

/-- Calls of `replaceMemory(withID:with:tags:)` one after the other. -/
def replaceAll (documentID : DocumentID) : List Write → CloudAction Unit
  | [] => pure ()
  | write :: writes => do
    replaceMemory documentID write.memory write.tags
    replaceAll documentID writes

variable {c : Cloud} {uid : Uid} {documentID : DocumentID}

theorem run_readMemory (h : c.currentUser = some uid) (downloadURL : String → URL) :
    (readMemory downloadURL documentID).run c = .ok
      (getMemory documentID ((c.diaries uid).lookup documentID)
        (match c.storage (imagePath documentID) with
          | some _ => .ok (downloadURL (imagePath documentID))
          | none => .error "objectNotFound")) c := by
  cases hfile : c.storage (imagePath documentID) <;>
    simp [readMemory, getImage, run_diariesRef_some h, hfile]

theorem run_replaceAll (h : c.currentUser = some uid) (writes : List Write) :
    (replaceAll documentID writes).run c = .ok () (c.writtenAll uid documentID writes) := by
  induction writes generalizing c with
  | nil => rfl
  | cons write writes ih =>
    have hwritten : (c.written uid documentID write.memory write.tags).currentUser = some uid := by
      rw [Cloud.currentUser_written, h]
    simp only [replaceAll, EStateM.run_bind, run_replaceMemory_some h, ih hwritten]
    rfl

/-- `getMemory` decodes what `replaceMemory` encodes. -/
theorem getMemory_ofMemory (memory : LocalMemory) (tags : List String) (imageURL : Result URL) :
    getMemory documentID (some (Document.ofMemory memory tags)) imageURL = some {
      documentID
      title := memory.title
      content := memory.content
      sentiment := memory.sentiment
      tags
      saveDate := memory.saveDate
      imageURL := imageURL.toOption } := rfl

/-- The calls of `replaceMemory`, and `getMemory` after them. -/
def writeAndRead (downloadURL : String → URL) (documentID : DocumentID) (writes : List Write) :
    CloudAction (Option CloudMemory) := do
  replaceAll documentID writes
  readMemory downloadURL documentID

/-- The memory that is read back: the fields of the last write and the address of the file, if
there is one. -/
theorem run_writeAndRead (h : c.currentUser = some uid) (downloadURL : String → URL)
    (writes : List Write) (last : Write) :
    (writeAndRead downloadURL documentID (writes ++ [last])).run c = .ok (some {
      documentID
      title := last.memory.title
      content := last.memory.content
      sentiment := last.memory.sentiment
      tags := last.tags
      saveDate := last.memory.saveDate
      imageURL := ((c.writtenAll uid documentID (writes ++ [last])).storage
        (imagePath documentID)).map fun _ => downloadURL (imagePath documentID) })
      (c.writtenAll uid documentID (writes ++ [last])) := by
  have hwritten : (c.writtenAll uid documentID (writes ++ [last])).currentUser = some uid := by
    rw [Cloud.currentUser_writtenAll, h]
  have hdocument : ((c.writtenAll uid documentID (writes ++ [last])).diaries uid).lookup
      documentID = some (Document.ofMemory last.memory last.tags) := by
    rw [Cloud.writtenAll_concat, Cloud.lookup_written]
  simp only [writeAndRead, EStateM.run_bind, run_replaceAll h, run_readMemory hwritten, hdocument,
    getMemory_ofMemory]
  cases (c.writtenAll uid documentID (writes ++ [last])).storage (imagePath documentID) <;> rfl

/-- With nobody signed in the first call traps. -/
theorem run_writeAndRead_none (h : c.currentUser = none) (downloadURL : String → URL)
    (write : Write) (writes : List Write) :
    (writeAndRead downloadURL documentID (write :: writes)).run c =
      .error .noCurrentUser (c.putImage documentID write.memory) := by
  simp only [writeAndRead, replaceAll, EStateM.run_bind, run_replaceMemory_none h]

/-- The calls of `replaceMemory` run to their end, and `getMemory` then delivers the fields of
the last one, with an address exactly where its memory has an image, and the address is
the one of that image. -/
def ReadsBack (c : Cloud) (downloadURL : String → URL) (documentID : DocumentID)
    (writes : List Write) (last : Write) : Prop :=
  ∃ c' memory, (writeAndRead downloadURL documentID (writes ++ [last])).run c =
      .ok (some memory) c' ∧
    memory.title = last.memory.title ∧ memory.content = last.memory.content ∧
    memory.sentiment = last.memory.sentiment ∧ memory.saveDate = last.memory.saveDate ∧
    memory.tags = last.tags ∧ (memory.imageURL.isSome ↔ last.memory.image.isSome) ∧
    ∀ url ∈ memory.imageURL, url = downloadURL (imagePath documentID) ∧
      ∃ image ∈ last.memory.image, ∃ data ∈ image.pngData,
        c'.storage (imagePath documentID) = some data

/-- With somebody signed in, what counts is the file: it is there exactly where the last
memory has an image, and it is that image. -/
theorem readsBack_iff_file (h : c.currentUser = some uid) (downloadURL : String → URL)
    (writes : List Write) (last : Write) : ReadsBack c downloadURL documentID writes last ↔
      (((c.writtenAll uid documentID (writes ++ [last])).storage
        (imagePath documentID)).isSome ↔ last.memory.image.isSome) ∧
      ∀ data ∈ (c.writtenAll uid documentID (writes ++ [last])).storage (imagePath documentID),
        ∃ image ∈ last.memory.image, image.pngData = some data := by
  have hrun := @run_writeAndRead c uid documentID h downloadURL writes last
  constructor
  · rintro ⟨c', memory, hrun', _, _, _, _, _, hsome, haddress⟩
    rw [hrun] at hrun'
    cases hrun'
    refine ⟨by simpa using hsome, fun data hdata => ?_⟩
    obtain ⟨_, image, himage, data', hpng, hfile⟩ := haddress _ (Option.mem_map_of_mem _ hdata)
    obtain rfl := Option.some.inj (hdata.symm.trans hfile)
    exact ⟨image, himage, hpng⟩
  · rintro ⟨hsome, hfile⟩
    refine ⟨_, _, hrun, rfl, rfl, rfl, rfl, rfl, by simpa using hsome, ?_⟩
    intro url hurl
    obtain ⟨data, hdata, rfl⟩ := Option.map_eq_some_iff.mp hurl
    obtain ⟨image, himage, hpng⟩ := hfile data hdata
    exact ⟨rfl, image, himage, data, hpng, hdata⟩

/-- **Reading back gives what was last written** exactly where somebody is signed in and the
last memory has an image with a PNG form, or no image while none was there before. -/
theorem readsBack_iff (c : Cloud) (downloadURL : String → URL) (documentID : DocumentID)
    (writes : List Write) (last : Write) : ReadsBack c downloadURL documentID writes last ↔
      c.currentUser.isSome ∧ (last.memory.imageData.isSome ∨
        last.memory.image = none ∧ (∀ write ∈ writes, write.memory.imageData = none) ∧
          c.storage (imagePath documentID) = none) := by
  cases huser : c.currentUser with
  | none =>
    refine iff_of_false ?_ (by simp)
    rintro ⟨c', memory, hrun, _⟩
    obtain ⟨write, rest, hwrites⟩ := List.exists_cons_of_ne_nil
      (List.append_ne_nil_of_right_ne_nil writes (List.cons_ne_nil last []))
    rw [hwrites, run_writeAndRead_none huser] at hrun
    cases hrun
  | some uid =>
    rw [readsBack_iff_file huser, Cloud.writtenAll_concat, Cloud.storage_imagePath_written,
      ← Cloud.storage_writtenAll_eq_none_iff c uid documentID writes]
    cases himage : last.memory.image with
    | none =>
      have hdata : last.memory.imageData = none := by simp [LocalMemory.imageData, himage]
      rw [hdata, Option.none_or]
      cases (c.writtenAll uid documentID writes).storage (imagePath documentID) <;> simp
    | some image =>
      cases hpng : image.pngData with
      | none =>
        -- an image without a PNG form is not uploaded
        have hdata : last.memory.imageData = none := by simp [LocalMemory.imageData, himage, hpng]
        rw [hdata, Option.none_or]
        cases (c.writtenAll uid documentID writes).storage (imagePath documentID) <;> simp [hpng]
      | some data => simp [LocalMemory.imageData, himage, hpng]

/-- A memory with an image is replaced by one without: the image comes back. -/
theorem earlier_image_read_back :
    ¬∀ (c : Cloud) (downloadURL : String → URL) (documentID : DocumentID) (writes : List Write)
      (last : Write), c.currentUser.isSome → c.storage (imagePath documentID) = none →
      ReadsBack c downloadURL documentID writes last := by
  intro h
  have hback := h ⟨some "kevin", fun _ => ∅, fun _ => none, []⟩ id "a" [⟨Storage.pictured, []⟩]
    ⟨sampleMemory 2, []⟩ rfl rfl
  obtain ⟨hsome, _⟩ := (readsBack_iff_file rfl _ _ _).mp hback
  exact absurd hsome (by decide)

end Firebase

namespace Storage

/-- Each write of a sequence is issued while no request is under way, and is left to finish
before the next one. -/
inductive Finishes (documentID : DocumentID) : Storage → List Write → Storage → Prop where
  | done {s : Storage} (hidle : s.requests = []) : Finishes documentID s [] s
  | write {s t u v : Storage} {write : Write} {writes : List Write} {es : List StorageEvent}
    (hidle : s.requests = [])
    (hstep : s.step (.replaceMemory documentID write.memory) = some t)
    (hes : ∀ e ∈ es, e.target = none) (hrun : run step t es = some u)
    (hrest : Finishes documentID u writes v) : Finishes documentID s (write :: writes) v

theorem Finishes.idle {documentID : DocumentID} {s t : Storage} {writes : List Write}
    (h : Finishes documentID s writes t) : s.requests = [] := by
  cases h with
  | done hidle => exact hidle
  | write hidle => exact hidle

/-- Writes that are left to finish leave the files that the Firebase layer leaves at once. -/
theorem Finishes.files_eq {documentID : DocumentID} {s t : Storage} {writes : List Write}
    (h : Finishes documentID s writes t) (uid : Uid) {c : Cloud} (hfiles : s.files = c.storage) :
    t.files = (c.writtenAll uid documentID writes).storage := by
  induction h generalizing c with
  | done => exact hfiles
  | @write s t u v write writes es hidle hstep hes hrun hrest ih =>
    have hfile := files_replaceMemory hfiles hidle hstep hes hrun hrest.idle
    exact ih (c := c.written uid documentID write.memory write.tags) hfile

end Storage

end FeelBetter
