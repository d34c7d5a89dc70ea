import FeelBetter.Memory
import Mathlib.Algebra.Order.Ring.Rat
import Mathlib.Data.List.AList
import Mathlib.Logic.Function.Basic

/-!
# The Firebase layer

`Firebase.swift` keeps one collection of documents for each user and one flat
folder of images for all of them. Writes take effect at once here; the module
on Storage requests takes the image requests apart. A function that forces
`currentUser!` traps while nobody is signed in, and what it did before the trap
stays done.
-/

namespace FeelBetter

/-- A floating-point number. Every finite one is known by its value. -/
inductive Double where
  | nan
  | negativeInfinity
  | finite (value : ℚ)
  | positiveInfinity
  deriving DecidableEq

/-- A value of a document field, as far as the application's casts distinguish
them. Any other value, such as an array of more than strings, is known by the place
of its type in the order of types, and by its own place within the type. -/
inductive FieldValue where
  | boolean (b : Bool)
  | integer (n : ℤ)
  | double (d : Double)
  | timestamp (t : Date)
  | string (s : String)
  | strings (l : List String)
  | other (typeOrder : ℕ) (place : ℚ)
  deriving DecidableEq

/-- The cast `as? String`. -/
def FieldValue.asString : FieldValue → Option String
  | .string s => some s
  | _ => none

/-- `Int(exactly:)`: a number of 64 bits without a fraction. -/
def Double.exactly : Double → Option ℤ
  | .finite value =>
    if value.den = 1 ∧ -2 ^ 63 ≤ value.num ∧ value.num < 2 ^ 63 then some value.num else none
  | _ => none

/-- The cast `as? Int`. Booleans, integers and doubles all arrive as an `NSNumber`, of which
the cast takes every value that is an integer. -/
def FieldValue.asInt : FieldValue → Option ℤ
  | .boolean b => some (if b then 1 else 0)
  | .integer n => some n
  | .double d => d.exactly
  | _ => none

/-- The cast `as? Timestamp`. -/
def FieldValue.asTimestamp : FieldValue → Option Date
  | .timestamp t => some t
  | _ => none

/-- The cast `as? [String]`. -/
def FieldValue.asStrings : FieldValue → Option (List String)
  | .strings l => some l
  | _ => none

/-- A document, by the five fields the application reads and writes. A field may
be missing. -/
structure Document where
  title : Option FieldValue
  content : Option FieldValue
  sentiment : Option FieldValue
  saveDate : Option FieldValue
  tags : Option FieldValue
  deriving DecidableEq

/-- The dictionary that `replaceMemory(withID:with:tags:)` hands to `setData`. -/
def Document.ofMemory (memory : LocalMemory) (tags : List String) : Document where
  title := some (.string memory.title)
  content := some (.string memory.content)
  sentiment := some (.integer memory.sentiment)
  saveDate := some (.timestamp memory.saveDate)
  tags := some (.strings tags)

/-- One user's collection `users/<uid>/diaries`. -/
abbrev Diaries := AList fun _ : DocumentID => Document

/-- The file of a document's image, `storageRef.child(documentID + ".png")`. -/
def imagePath (documentID : DocumentID) : String := documentID ++ ".png"

/-- Two documents never share an image file. -/
theorem imagePath_injective : Function.Injective imagePath := by
  intro a b h
  exact (String.append_left_inj ".png").mp h

/-- The runtime failures that end the application. -/
inductive Trap where
  /-- `Auth.auth().currentUser!` with nobody signed in. -/
  | noCurrentUser
  /-- An array subscript or removal outside the array. -/
  | indexOutOfRange
  /-- `documents.first!` on an empty list. -/
  | noDocuments
  /-- `error!` where a request reports neither data nor an error. -/
  | noError
  /-- The row count after `insertRows` is not one more than before. -/
  | invalidInsertRows
  /-- The row count after `deleteRows` is not one less than before. -/
  | invalidDeleteRows
  /-- The row count changed behind `reloadRows`. -/
  | invalidReloadRows
  /-- `try!` of a failure. -/
  | failedTry
  /-- `String(data:encoding:)!` of bytes that are no text. -/
  | notUTF8
  /-- `Int(_:)` of an infinity or of no number. -/
  | notANumber
  /-- `max()!` of an empty list. -/
  | noMaximum
  /-- A range whose lower bound is above the upper one. -/
  | invalidRange
  deriving DecidableEq

/-- What lives in the cloud, and who is signed in on this device. -/
structure Cloud where
  /-- `Auth.auth().currentUser`. -/
  currentUser : Option Uid
  /-- The documents, a collection for each user. -/
  diaries : Uid → Diaries
  /-- The image files, one folder for everybody. -/
  storage : String → Option Data
  /-- The document identifiers handed out so far; Firestore never repeats one. -/
  allotted : List DocumentID

namespace Cloud

/-- `diariesRef.document()`: a new identifier is handed out. -/
def allot (c : Cloud) (newID : DocumentID) : Cloud :=
  { c with allotted := newID :: c.allotted }

/-- `document(documentID).setData(document)` in the diaries of `uid`. -/
def setData (c : Cloud) (uid : Uid) (documentID : DocumentID) (document : Document) : Cloud :=
  { c with diaries := Function.update c.diaries uid ((c.diaries uid).insert documentID document) }

/-- `document(documentID).delete()` in the diaries of `uid`. -/
def deleteDocument (c : Cloud) (uid : Uid) (documentID : DocumentID) : Cloud :=
  { c with diaries := Function.update c.diaries uid ((c.diaries uid).erase documentID) }

/-- `putData` on a file. -/
def putData (c : Cloud) (path : String) (data : Data) : Cloud :=
  { c with storage := Function.update c.storage path (some data) }

/-- `delete` on a file; deleting a missing file changes nothing. -/
def deleteFile (c : Cloud) (path : String) : Cloud :=
  { c with storage := Function.update c.storage path none }

/-- The cloud once the image of `memory`, if there is one, has been uploaded. -/
def putImage (c : Cloud) (documentID : DocumentID) (memory : LocalMemory) : Cloud :=
  memory.imageData.elim c (c.putData (imagePath documentID))

/-- The cloud once `memory` has been written over the document of `uid`: its image,
if there is one, and its fields. -/
def written (c : Cloud) (uid : Uid) (documentID : DocumentID) (memory : LocalMemory)
    (tags : List String) : Cloud :=
  (c.putImage documentID memory).setData uid documentID (Document.ofMemory memory tags)

/-- The cloud once a document of `uid` and its image are deleted. -/
def deleted (c : Cloud) (uid : Uid) (documentID : DocumentID) : Cloud :=
  (c.deleteDocument uid documentID).deleteFile (imagePath documentID)

variable (c : Cloud) (uid : Uid) (documentID : DocumentID) (memory : LocalMemory)
  (tags : List String)

@[simp] theorem currentUser_putImage :
    (c.putImage documentID memory).currentUser = c.currentUser := by
  cases h : memory.imageData <;> simp [putImage, h, putData]

@[simp] theorem diaries_putImage : (c.putImage documentID memory).diaries = c.diaries := by
  cases h : memory.imageData <;> simp [putImage, h, putData]

@[simp] theorem allotted_putImage : (c.putImage documentID memory).allotted = c.allotted := by
  cases h : memory.imageData <;> simp [putImage, h, putData]

/-- The files after an upload: the image of the document, where the memory has one. -/
theorem storage_putImage : (c.putImage documentID memory).storage =
    memory.imageData.elim c.storage
      fun data => Function.update c.storage (imagePath documentID) (some data) := by
  cases h : memory.imageData <;> simp [putImage, h, putData]

@[simp] theorem currentUser_written :
    (c.written uid documentID memory tags).currentUser = c.currentUser :=
  currentUser_putImage c documentID memory

@[simp] theorem allotted_written :
    (c.written uid documentID memory tags).allotted = c.allotted :=
  allotted_putImage c documentID memory

@[simp] theorem storage_written :
    (c.written uid documentID memory tags).storage = (c.putImage documentID memory).storage := rfl

/-- The diaries after a write: the document of the user is replaced whole. -/
theorem diaries_written : (c.written uid documentID memory tags).diaries =
    Function.update c.diaries uid
      ((c.diaries uid).insert documentID (Document.ofMemory memory tags)) := by
  rw [written, setData, diaries_putImage]

theorem diaries_deleted : (c.deleted uid documentID).diaries =
    Function.update c.diaries uid ((c.diaries uid).erase documentID) := rfl

theorem storage_deleted : (c.deleted uid documentID).storage =
    Function.update c.storage (imagePath documentID) none := rfl

variable {c uid documentID memory tags}

theorem mem_diaries_written {uid' : Uid} {documentID' : DocumentID} :
    documentID' ∈ (c.written uid documentID memory tags).diaries uid' ↔
      (uid' = uid ∧ documentID' = documentID) ∨ documentID' ∈ c.diaries uid' := by
  rw [diaries_written]
  by_cases h : uid' = uid
  · subst h
    simp [AList.mem_insert]
  · simp [h]

theorem mem_diaries_deleted {uid' : Uid} {documentID' : DocumentID} :
    documentID' ∈ (c.deleted uid documentID).diaries uid' ↔
      documentID' ∈ c.diaries uid' ∧ ¬(uid' = uid ∧ documentID' = documentID) := by
  rw [diaries_deleted]
  by_cases h : uid' = uid
  · subst h
    simp [AList.mem_erase, and_comm]
  · simp [h]

end Cloud

/-- One user is signed in and nothing is stored. -/
def sampleCloud : Cloud where
  currentUser := some "kevin"
  diaries := fun _ => ∅
  storage := fun _ => none
  allotted := []

/-- An action on the cloud that may trap. -/
abbrev CloudAction := EStateM Trap Cloud

namespace Firebase

/-- `Firebase.diariesRef`: the collection is the one of the user signed in at the
time of the call. -/
def diariesRef : CloudAction Uid := do
  match (← get).currentUser with
  | some uid => pure uid
  | none => throw .noCurrentUser

/-- `Firebase.deleteImage(for:)`. -/
def deleteImage (documentID : DocumentID) : CloudAction Unit :=
  modify fun c => c.deleteFile (imagePath documentID)

/-- `Firebase.uploadImage(_:for:)`: delete, then put. -/
def uploadImage (data : Data) (documentID : DocumentID) : CloudAction Unit := do
  deleteImage documentID
  modify fun c => c.putData (imagePath documentID) data

/-- `Firebase.deleteMemory(withID:)`. -/
def deleteMemory (documentID : DocumentID) : CloudAction Unit := do
  let uid ← diariesRef
  modify fun c => c.deleteDocument uid documentID
  deleteImage documentID

/-- `Firebase.replaceMemory(withID:with:tags:)`. The image goes first, before the
signed-in user is asked for. -/
def replaceMemory (documentID : DocumentID) (memory : LocalMemory) (tags : List String) :
    CloudAction Unit := do
  match memory.imageData with
  | some data => uploadImage data documentID
  | none => pure ()
  let uid ← diariesRef
  modify fun c => c.setData uid documentID (Document.ofMemory memory tags)

/-- `Firebase.saveNewMemory(_:tags:)`. `newID` is the identifier that `document()`
hands out. -/
def saveNewMemory (newID : DocumentID) (memory : LocalMemory) (tags : List String) :
    CloudAction DocumentID := do
  let _ ← diariesRef
  modify fun c => c.allot newID
  replaceMemory newID memory tags
  pure newID

/-- The casts of `getMemory`; the address of the image is not known yet. -/
def castMemory (documentID : DocumentID) (data : Document) : Option (Result URL → CloudMemory) := do
  let title ← data.title.bind FieldValue.asString
  let content ← data.content.bind FieldValue.asString
  let sentiment ← data.sentiment.bind FieldValue.asInt
  let saveDate ← data.saveDate.bind FieldValue.asTimestamp
  let tags ← data.tags.bind FieldValue.asStrings
  some fun imageURL =>
    { documentID, title, content, sentiment, tags, saveDate, imageURL := imageURL.toOption }

/-- `Firebase.getMemory(withID:then:)` once the document and the image address have
been answered: the memory handed to `process`, or `none` where `process` is never
called because the document is missing or has the wrong format. -/
def getMemory (documentID : DocumentID) (document : Option Document) (imageURL : Result URL) :
    Option CloudMemory := do
  let data ← document
  let memory ← castMemory documentID data
  some (memory imageURL)

/-- What a document is cast to has its fields. -/
theorem castMemory_eq_some {documentID : DocumentID} {data : Document}
    {memory : Result URL → CloudMemory} (h : castMemory documentID data = some memory)
    (imageURL : Result URL) : (memory imageURL).documentID = documentID ∧
      data.saveDate.bind FieldValue.asTimestamp = some (memory imageURL).saveDate ∧
      data.sentiment.bind FieldValue.asInt = some (memory imageURL).sentiment := by
  simp only [castMemory, Option.bind_eq_bind, Option.bind_eq_some_iff, Option.some.injEq] at h
  obtain ⟨_, _, _, _, _, hsentiment, _, hsaveDate, _, _, rfl⟩ := h
  exact ⟨rfl, Option.bind_eq_some_iff.mpr hsaveDate, Option.bind_eq_some_iff.mpr hsentiment⟩

/-- What `getMemory` delivers is what the document was cast to. -/
theorem getMemory_eq_some_iff {documentID : DocumentID} {document : Option Document}
    {imageURL : Result URL} {memory : CloudMemory} :
    getMemory documentID document imageURL = some memory ↔ ∃ data ∈ document,
      ∃ cast, castMemory documentID data = some cast ∧ cast imageURL = memory := by
  simp only [getMemory, Option.bind_eq_bind, Option.bind_eq_some_iff, Option.some.injEq,
    Option.mem_def]

/-- Whatever `getMemory` delivers carries the identifier it was asked for. -/
theorem documentID_of_getMemory {documentID : DocumentID} {document : Option Document}
    {imageURL : Result URL} {memory : CloudMemory}
    (h : getMemory documentID document imageURL = some memory) :
    memory.documentID = documentID := by
  obtain ⟨data, -, cast, hcast, rfl⟩ := getMemory_eq_some_iff.mp h
  exact (castMemory_eq_some hcast imageURL).1

/-- The fields of a document have the types that `getMemory` casts them to. -/
def WellFormed (document : Document) : Prop :=
  (document.title.bind FieldValue.asString).isSome ∧
  (document.content.bind FieldValue.asString).isSome ∧
  (document.sentiment.bind FieldValue.asInt).isSome ∧
  (document.saveDate.bind FieldValue.asTimestamp).isSome ∧
  (document.tags.bind FieldValue.asStrings).isSome

instance (document : Document) : Decidable (WellFormed document) :=
  inferInstanceAs (Decidable (_ ∧ _))

/-- The casts succeed on exactly the well-formed documents. -/
theorem isSome_castMemory_iff (documentID : DocumentID) (data : Document) :
    (castMemory documentID data).isSome ↔ WellFormed data := by
  simp only [castMemory, Option.bind_eq_bind, Option.isSome_iff_exists, Option.bind_eq_some_iff,
    WellFormed]
  constructor
  · rintro ⟨_, title, htitle, content, hcontent, sentiment, hsentiment, saveDate, hsaveDate,
      tags, htags, _⟩
    exact ⟨⟨title, htitle⟩, ⟨content, hcontent⟩, ⟨sentiment, hsentiment⟩,
      ⟨saveDate, hsaveDate⟩, ⟨tags, htags⟩⟩
  · rintro ⟨⟨title, htitle⟩, ⟨content, hcontent⟩, ⟨sentiment, hsentiment⟩,
      ⟨saveDate, hsaveDate⟩, ⟨tags, htags⟩⟩
    exact ⟨_, title, htitle, content, hcontent, sentiment, hsentiment, saveDate, hsaveDate,
      tags, htags, rfl⟩

/-- `getMemory` delivers exactly the well-formed documents. -/
theorem isSome_getMemory_iff (documentID : DocumentID) (document : Option Document)
    (imageURL : Result URL) :
    (getMemory documentID document imageURL).isSome ↔ ∃ data ∈ document, WellFormed data := by
  simp only [← isSome_castMemory_iff documentID, Option.isSome_iff_exists, getMemory_eq_some_iff]
  constructor
  · rintro ⟨_, data, hdata, cast, hcast, -⟩
    exact ⟨data, hdata, cast, hcast⟩
  · rintro ⟨data, hdata, cast, hcast⟩
    exact ⟨_, data, hdata, cast, hcast, rfl⟩

theorem run_diariesRef_some {c : Cloud} {uid : Uid} (h : c.currentUser = some uid) :
    diariesRef.run c = .ok uid c := by
  simp [diariesRef, h]

theorem run_diariesRef_none {c : Cloud} (h : c.currentUser = none) :
    diariesRef.run c = .error .noCurrentUser c := by
  simp only [diariesRef, EStateM.run_bind, EStateM.run_get, h]
  rfl

theorem run_deleteMemory_some {c : Cloud} {uid : Uid} (h : c.currentUser = some uid)
    (documentID : DocumentID) :
    (deleteMemory documentID).run c = .ok () (c.deleted uid documentID) := by
  simp [deleteMemory, run_diariesRef_some h, deleteImage, Cloud.deleted]

theorem run_deleteMemory_none {c : Cloud} (h : c.currentUser = none)
    (documentID : DocumentID) :
    (deleteMemory documentID).run c = .error .noCurrentUser c := by
  simp [deleteMemory, run_diariesRef_none h]

/-- Uploading is putting: the delete that goes before leaves no trace. -/
theorem run_uploadImage (c : Cloud) (data : Data) (documentID : DocumentID) :
    (uploadImage data documentID).run c = .ok () (c.putData (imagePath documentID) data) := by
  simp [uploadImage, deleteImage, Cloud.putData, Cloud.deleteFile]

theorem run_replaceMemory_some {c : Cloud} {uid : Uid} (h : c.currentUser = some uid)
    (documentID : DocumentID) (memory : LocalMemory) (tags : List String) :
    (replaceMemory documentID memory tags).run c =
      .ok () (c.written uid documentID memory tags) := by
  cases hdata : memory.imageData with
  | none =>
    simp [replaceMemory, Cloud.written, Cloud.putImage, hdata, run_diariesRef_some h]
  | some data =>
    have hc : (c.putData (imagePath documentID) data).currentUser = some uid := h
    simp [replaceMemory, Cloud.written, Cloud.putImage, hdata, run_uploadImage,
      run_diariesRef_some hc]

/-- With nobody signed in the write traps, after the image has been uploaded. -/
theorem run_replaceMemory_none {c : Cloud} (h : c.currentUser = none)
    (documentID : DocumentID) (memory : LocalMemory) (tags : List String) :
    (replaceMemory documentID memory tags).run c =
      .error .noCurrentUser (c.putImage documentID memory) := by
  cases hdata : memory.imageData with
  | none => simp [replaceMemory, Cloud.putImage, hdata, run_diariesRef_none h]
  | some data =>
    have hc : (c.putData (imagePath documentID) data).currentUser = none := h
    simp [replaceMemory, Cloud.putImage, hdata, run_uploadImage, run_diariesRef_none hc]

theorem run_saveNewMemory_some {c : Cloud} {uid : Uid} (h : c.currentUser = some uid)
    (newID : DocumentID) (memory : LocalMemory) (tags : List String) :
    (saveNewMemory newID memory tags).run c =
      .ok newID ((c.allot newID).written uid newID memory tags) := by
  have hc : (c.allot newID).currentUser = some uid := h
  simp only [saveNewMemory, EStateM.run_bind, run_diariesRef_some h, EStateM.run_modify,
    run_replaceMemory_some hc, EStateM.run_pure]

theorem run_saveNewMemory_none {c : Cloud} (h : c.currentUser = none)
    (newID : DocumentID) (memory : LocalMemory) (tags : List String) :
    (saveNewMemory newID memory tags).run c = .error .noCurrentUser c := by
  simp [saveNewMemory, run_diariesRef_none h]

end Firebase

end FeelBetter
