import FeelBetter.Diary
import FeelBetter.Lists
import FeelBetter.Memories.Cells

/-!
# From the composed memory to the details screen

A memory that is composed is written to the two stores, read back by a cell of the table, and
handed on to the details screen. A cell reads in two steps, the document first and the image
after it, and the stores may change between them. This file runs the table over the stores
and says where the texts and the image of the details screen come from.
-/

namespace FeelBetter

open Machine

/-! ### The details screen -/

/-- What conforms to the protocol `MemoryType`. -/
inductive MemoryType where
  | localMemory (memory : LocalMemory)
  | cloudMemory (memory : CloudMemory)
  deriving DecidableEq

/-- Where an image view takes its image from. -/
inductive ImageSource where
  | image (image : UIImage)
  | url (url : URL)
  deriving DecidableEq

/-- The views of a `MemoryDetailsViewController`. The date label is known by the instant it
stands for. -/
structure MemoryDetails where
  memoryDetailsTitle : String
  memoryDetailsDate : Option Date
  memoryDetailsEmoji : String
  memoryDetailsContent : String
  memoryDetailsImage : Option ImageSource
  isImageHidden : Bool
  deriving DecidableEq

namespace MemoryDetails

/-- The views of the storyboard, with its filler text. -/
def storyboard (filler : String) : MemoryDetails where
  memoryDetailsTitle := "title"
  memoryDetailsDate := none
  memoryDetailsEmoji := "emoji"
  memoryDetailsContent := filler
  memoryDetailsImage := none
  isImageHidden := false

/-- `viewDidLoad`. -/
def viewDidLoad (details : MemoryDetails) : Option MemoryType → MemoryDetails
  | none => details
  | some (.localMemory memory) =>
    { memoryDetailsTitle := memory.title
      memoryDetailsDate := some memory.saveDate
      memoryDetailsEmoji := sentimentEmoji memory.sentiment
      memoryDetailsContent := memory.content
      memoryDetailsImage := memory.image.map .image
      isImageHidden := memory.image.isNone }
  | some (.cloudMemory memory) =>
    { memoryDetailsTitle := memory.title
      memoryDetailsDate := some memory.saveDate
      memoryDetailsEmoji := sentimentEmoji memory.sentiment
      memoryDetailsContent := memory.content
      memoryDetailsImage := memory.imageURL.map .url
      isImageHidden := memory.imageURL.isNone }

/-- Both screens have the same texts. -/
structure SameTexts (details details' : MemoryDetails) : Prop where
  title : details.memoryDetailsTitle = details'.memoryDetailsTitle
  date : details.memoryDetailsDate = details'.memoryDetailsDate
  emoji : details.memoryDetailsEmoji = details'.memoryDetailsEmoji
  content : details.memoryDetailsContent = details'.memoryDetailsContent

end MemoryDetails

/-! ### What was saved -/

/-- A memory that a user has written under an identifier. -/
structure SavedMemory where
  uid : Uid
  documentID : DocumentID
  memory : LocalMemory
  tags : List String
  deriving DecidableEq

/-- What a request of a user writes. -/
def DiaryRequest.saved (uid : Uid) : DiaryRequest → List SavedMemory
  | .save newID memory tags => [⟨uid, newID, memory, tags⟩]
  | .replace documentID memory tags => [⟨uid, documentID, memory, tags⟩]
  | .delete _ | .read _ | .list | .keywords _ _ | .sentiments _ _ => []

namespace Cloud

/-- What an event writes. -/
def saves (c : Cloud) : CloudEvent → List SavedMemory
  | .request request => c.currentUser.elim [] request.saved
  | .signIn _ | .signOut => []

/-- The stores hold nothing but what was saved: the documents of a user are memories of that
user, and a file is the image of a memory that was saved under its identifier. -/
structure Holds (c : Cloud) (saved : List SavedMemory) : Prop where
  documents : ∀ uid documentID document, (c.diaries uid).lookup documentID = some document →
    ∃ memory tags, ⟨uid, documentID, memory, tags⟩ ∈ saved ∧
      document = Document.ofMemory memory tags
  files : ∀ documentID data, c.storage (imagePath documentID) = some data →
    ∃ write ∈ saved, write.documentID = documentID ∧ write.memory.imageData = some data

variable {c c' : Cloud} {uid : Uid} {documentID : DocumentID} {saved saved' : List SavedMemory}

theorem holds_initial : initial.Holds [] where
  documents := by
    intro uid documentID document hlookup
    cases hlookup
  files := by
    intro documentID data hdata
    cases hdata

theorem Holds.mono (h : c.Holds saved) (hsub : saved ⊆ saved') : c.Holds saved' where
  documents uid documentID document hlookup := by
    obtain ⟨memory, tags, hmem, hdocument⟩ := h.documents uid documentID document hlookup
    exact ⟨memory, tags, hsub hmem, hdocument⟩
  files documentID data hdata := by
    obtain ⟨write, hmem, hwrite⟩ := h.files documentID data hdata
    exact ⟨write, hsub hmem, hwrite⟩

/-- A write puts in the stores what it saves. -/
theorem Holds.written (h : c.Holds saved) {memory : LocalMemory} {tags : List String}
    (hmem : ⟨uid, documentID, memory, tags⟩ ∈ saved) :
    (c.written uid documentID memory tags).Holds saved where
  documents uid' documentID' document hlookup := by
    rw [diaries_written] at hlookup
    by_cases huid : uid' = uid
    · subst huid
      rw [Function.update_self] at hlookup
      by_cases hid : documentID' = documentID
      · subst hid
        rw [AList.lookup_insert, Option.some.injEq] at hlookup
        exact ⟨memory, tags, hmem, hlookup.symm⟩
      · rw [AList.lookup_insert_ne hid] at hlookup
        exact h.documents uid' documentID' document hlookup
    · rw [Function.update_of_ne huid] at hlookup
      exact h.documents uid' documentID' document hlookup
  files documentID' data hdata := by
    by_cases hid : documentID' = documentID
    · subst hid
      rw [storage_imagePath_written, Option.or_eq_some_iff] at hdata
      rcases hdata with himage | ⟨-, hold⟩
      · exact ⟨_, hmem, rfl, himage⟩
      · exact h.files documentID' data hold
    · rw [storage_written_of_ne hid] at hdata
      exact h.files documentID' data hdata

/-- A deletion puts nothing in the stores. -/
theorem Holds.deleted (h : c.Holds saved) (uid : Uid) (documentID : DocumentID) :
    (c.deleted uid documentID).Holds saved where
  documents uid' documentID' document hlookup := by
    rw [diaries_deleted] at hlookup
    by_cases huid : uid' = uid
    · subst huid
      rw [Function.update_self] at hlookup
      by_cases hid : documentID' = documentID
      · rw [hid, AList.lookup_erase] at hlookup
        cases hlookup
      · rw [AList.lookup_erase_ne hid] at hlookup
        exact h.documents uid' documentID' document hlookup
    · rw [Function.update_of_ne huid] at hlookup
      exact h.documents uid' documentID' document hlookup
  files documentID' data hdata := by
    rw [storage_deleted] at hdata
    by_cases hid : documentID' = documentID
    · rw [hid, Function.update_self] at hdata
      cases hdata
    · rw [Function.update_of_ne (imagePath_ne hid)] at hdata
      exact h.files documentID' data hdata

theorem Holds.after (h : c.Holds saved) (uid : Uid) (request : DiaryRequest) :
    (c.after uid request).Holds (saved ++ request.saved uid) := by
  have hmono := h.mono (List.subset_append_left saved (request.saved uid))
  cases request with
  | save newID memory tags =>
    have hallot : (c.allot newID).Holds (saved ++ [⟨uid, newID, memory, tags⟩]) :=
      ⟨hmono.documents, hmono.files⟩
    exact hallot.written (List.mem_append_right _ List.mem_cons_self)
  | replace documentID memory tags =>
    exact hmono.written (List.mem_append_right _ List.mem_cons_self)
  | delete documentID => exact hmono.deleted uid documentID
  | read _ | list | keywords _ _ | sentiments _ _ => exact hmono

theorem Holds.step (h : c.Holds saved) {downloadURL : String → URL} {canonical : String → String}
    {e : CloudEvent} (hstep : c.step downloadURL canonical e = some c') :
    c'.Holds (saved ++ c.saves e) := by
  cases e with
  | signIn uid =>
    cases hstep
    rw [saves, List.append_nil]
    exact ⟨h.documents, h.files⟩
  | signOut =>
    cases hstep
    rw [saves, List.append_nil]
    exact ⟨h.documents, h.files⟩
  | request request =>
    cases huser : c.currentUser with
    | none =>
      obtain ⟨after, hrun⟩ := run_request_none huser downloadURL canonical request
      simp only [Cloud.step, hrun] at hstep
      cases hstep
    | some uid =>
      obtain ⟨response, hrun⟩ := exists_run_request huser downloadURL canonical request
      simp only [Cloud.step, hrun] at hstep
      cases hstep
      rw [saves, huser]
      exact h.after uid request

end Cloud

/-! ### The table over the stores -/

/-- A `getMemory` under way: whose collection it reads, and the document, once that is known. -/
structure DocumentRead where
  uid : Uid
  document : Option Document
  deriving DecidableEq

/-- The memory table, with the documents that it lists all the time, and the stores. -/
structure Browsing where
  cloud : Cloud
  table : CellTable
  /-- The reads of the table's fetches, in the same order. -/
  reads : List DocumentRead

/-- What can happen next. -/
inductive BrowsingEvent where
  | cloud (e : CloudEvent)
  | cellForRow (row cell : ℕ)
  | endDisplaying (row : ℕ)
  /-- Firestore answers the `i`-th `getMemory` under way, with an error if one is given. -/
  | document (i : ℕ) (error : Option RequestError)
  /-- Storage answers the `i`-th one. -/
  | image (i : ℕ) (error : Option RequestError)

/-- The address of an image as Storage has it. -/
def Cloud.imageURL (downloadURL : String → URL) (c : Cloud) (documentID : DocumentID) :
    Result URL :=
  match c.storage (imagePath documentID) with
  | some _ => .ok (downloadURL (imagePath documentID))
  | none => .error "objectNotFound"

namespace Browsing

/-- The `i`-th `getMemory` is over, and its completion runs. -/
def complete (s : Browsing) (i : ℕ) (document : Option Document) (imageURL : Result URL) :
    Option Browsing :=
  (s.table.step (.answer i document imageURL)).map fun table =>
    { s with table, reads := s.reads.eraseIdx i }

/-- One step: `none` where the event cannot happen or traps. `getMemory` reads the collection of
the user who is signed in when the cell is dequeued, and asks for the image only where the
document could be decoded. -/
def step (downloadURL : String → URL) (canonical : String → String) (s : Browsing) :
    BrowsingEvent → Option Browsing
  | .cloud e => (s.cloud.step downloadURL canonical e).map fun cloud => { s with cloud }
  | .cellForRow row cell => do
    let uid ← s.cloud.currentUser
    let table ← s.table.step (.cellForRow row cell)
    some { s with table, reads := s.reads ++ [⟨uid, none⟩] }
  | .endDisplaying row => (s.table.step (.endDisplaying row)).map fun table => { s with table }
  | .document i error => do
    let fetch ← s.table.fetches[i]?
    let read ← s.reads[i]?
    if read.document.isSome then none
    else if error.isSome then s.complete i none (.error "")
    else
      match (s.cloud.diaries read.uid).lookup fetch.documentID with
      | none => s.complete i none (.error "")
      | some document =>
        if Firebase.WellFormed document then
          some { s with reads := s.reads.set i ⟨read.uid, some document⟩ }
        else s.complete i (some document) (.error "")
  | .image i error => do
    let fetch ← s.table.fetches[i]?
    let read ← s.reads[i]?
    let document ← read.document
    s.complete i (some document)
      (error.elim (s.cloud.imageURL downloadURL fetch.documentID) .error)

/-- The stores before the first user, and a table over a list of documents. -/
def start (documentIDs : List DocumentID) : Browsing where
  cloud := .initial
  table := .start documentIDs
  reads := []

/-- What an event writes. -/
def saves (s : Browsing) (e : BrowsingEvent) (_ : Browsing) : List SavedMemory :=
  match e with
  | .cloud e => s.cloud.saves e
  | .cellForRow _ _ | .endDisplaying _ | .document _ _ | .image _ _ => []

/-- The memory that was read back was saved: its fields by one write of a user, and its image, if
it has one, by a write under the same identifier, which may be another one. -/
structure ReadBack (downloadURL : String → URL) (saved : List SavedMemory) (memory : CloudMemory) :
    Prop where
  fields : ∃ write ∈ saved, write.documentID = memory.documentID ∧
    memory.title = write.memory.title ∧ memory.content = write.memory.content ∧
    memory.sentiment = write.memory.sentiment ∧ memory.saveDate = write.memory.saveDate ∧
    memory.tags = write.tags
  image : ∀ url ∈ memory.imageURL, url = downloadURL (imagePath memory.documentID) ∧
    ∃ write ∈ saved, write.documentID = memory.documentID ∧ write.memory.imageData.isSome

/-- Every document that a read has found, and every memory in a cell, was saved. -/
structure Traced (downloadURL : String → URL) (s : Browsing) (saved : List SavedMemory) : Prop where
  holds : s.cloud.Holds saved
  length_eq : s.reads.length = s.table.fetches.length
  reads : ∀ (i : ℕ) (fetch : CellFetch) (read : DocumentRead) (document : Document),
    s.table.fetches[i]? = some fetch → s.reads[i]? = some read → read.document = some document →
    ∃ memory tags, ⟨read.uid, fetch.documentID, memory, tags⟩ ∈ saved ∧
      document = Document.ofMemory memory tags
  cells : ∀ cell, ∀ memory ∈ (s.table.cells cell).memory, ReadBack downloadURL saved memory

variable {downloadURL : String → URL} {canonical : String → String} {s t : Browsing}
  {saved saved' : List SavedMemory}

theorem traced_start (downloadURL : String → URL) (documentIDs : List DocumentID) :
    Traced downloadURL (start documentIDs) [] where
  holds := Cloud.holds_initial
  length_eq := rfl
  reads := by
    intro i fetch read document hfetch
    cases hfetch
  cells := by
    intro cell memory hmemory
    cases hmemory

theorem ReadBack.mono {memory : CloudMemory} (h : ReadBack downloadURL saved memory)
    (hsub : saved ⊆ saved') : ReadBack downloadURL saved' memory where
  fields := by
    obtain ⟨write, hmem, hfields⟩ := h.fields
    exact ⟨write, hsub hmem, hfields⟩
  image url hurl := by
    obtain ⟨heq, write, hmem, hwrite⟩ := h.image url hurl
    exact ⟨heq, write, hsub hmem, hwrite⟩

/-- A `getMemory` that is over leaves a memory in its cell only where the memory was saved. -/
theorem Traced.complete (h : Traced downloadURL s saved) {i : ℕ} {document : Option Document}
    {imageURL : Result URL} (hcomplete : s.complete i document imageURL = some t)
    (hread : ∀ fetch memory, s.table.fetches[i]? = some fetch →
      Firebase.getMemory fetch.documentID document imageURL = some memory →
      ReadBack downloadURL saved memory) :
    Traced downloadURL t saved := by
  obtain ⟨table, htable, rfl⟩ := Option.map_eq_some_iff.mp hcomplete
  simp only [CellTable.step] at htable
  split at htable
  · rename_i fetch hfetch
    have hlength : (s.reads.eraseIdx i).length = (s.table.fetches.eraseIdx i).length := by
      rw [List.length_eraseIdx, List.length_eraseIdx, h.length_eq]
    have hreads : ∀ (j : ℕ) (fetch : CellFetch) (read : DocumentRead) (document : Document),
        (s.table.fetches.eraseIdx i)[j]? = some fetch → (s.reads.eraseIdx i)[j]? = some read →
        read.document = some document →
        ∃ memory tags, ⟨read.uid, fetch.documentID, memory, tags⟩ ∈ saved ∧
          document = Document.ofMemory memory tags := by
      intro j fetch read document hf hr hdocument
      obtain ⟨k, hk, hk'⟩ := Lists.exists_getElem?_of_eraseIdx hf hr
      exact h.reads k fetch read document hk hk' hdocument
    split at htable
    · rename_i memory hmemory
      cases htable
      refine ⟨h.holds, hlength, hreads, fun cell m hm => ?_⟩
      by_cases hcell : cell = fetch.cell
      · subst hcell
        simp only [Function.update_self] at hm
        cases hm
        exact hread fetch memory hfetch hmemory
      · simp only [Function.update_of_ne hcell] at hm
        exact h.cells cell m hm
    · cases htable
      exact ⟨h.holds, hlength, hreads, h.cells⟩
  · cases htable

theorem Traced.mono (h : Traced downloadURL s saved) (hsub : saved ⊆ saved') :
    Traced downloadURL s saved' where
  holds := h.holds.mono hsub
  length_eq := h.length_eq
  reads i fetch read document hfetch hread hdocument := by
    obtain ⟨memory, tags, hmem, heq⟩ := h.reads i fetch read document hfetch hread hdocument
    exact ⟨memory, tags, hsub hmem, heq⟩
  cells cell memory hmemory := (h.cells cell memory hmemory).mono hsub

/-- A cell is dequeued: it keeps what it shows, and a read begins. -/
theorem Traced.cellForRow (h : Traced downloadURL s saved) {row cell : ℕ} {uid : Uid}
    {table : CellTable} (htable : s.table.step (.cellForRow row cell) = some table) :
    Traced downloadURL { s with table, reads := s.reads ++ [⟨uid, none⟩] } saved := by
  simp only [CellTable.step] at htable
  split at htable
  · split at htable
    · cases htable
      refine ⟨h.holds, by simp [h.length_eq], ?_, h.cells⟩
      intro i fetch read document hfetch hread hdocument
      simp only at hfetch hread
      by_cases hi : i < s.reads.length
      · rw [List.getElem?_append_left hi] at hread
        rw [List.getElem?_append_left (h.length_eq ▸ hi)] at hfetch
        exact h.reads i fetch read document hfetch hread hdocument
      · rw [List.getElem?_append_right (by omega)] at hread
        obtain rfl := List.mem_singleton.mp (List.mem_of_getElem? hread)
        cases hdocument
    · cases htable
  · cases htable

/-- Firestore answers: the document is one that the user has saved. -/
theorem Traced.document (h : Traced downloadURL s saved) {i : ℕ} {error : Option RequestError}
    (hstep : s.step downloadURL canonical (.document i error) = some t) :
    Traced downloadURL t saved := by
  simp only [Browsing.step, Option.bind_eq_bind, Option.bind_eq_some_iff] at hstep
  obtain ⟨fetch, hfetch, read, hread, hstep⟩ := hstep
  have hnone {document : Option Document} (hdocument : ¬∃ data ∈ document, Firebase.WellFormed data)
      (fetch : CellFetch) (memory : CloudMemory)
      (hmemory : Firebase.getMemory fetch.documentID document (.error "") = some memory) :
      ReadBack downloadURL saved memory := by
    have hformat := Firebase.isSome_getMemory_iff fetch.documentID document (.error "")
    rw [hmemory] at hformat
    exact absurd (hformat.mp rfl) hdocument
  split at hstep
  · cases hstep
  · split at hstep
    · exact h.complete hstep fun fetch memory _ => hnone (by simp) fetch memory
    · split at hstep
      · exact h.complete hstep fun fetch memory _ => hnone (by simp) fetch memory
      · rename_i document hlookup
        split at hstep
        · cases hstep
          refine ⟨h.holds, by simp [h.length_eq], ?_, h.cells⟩
          intro j fetch' read' document' hfetch' hread' hdocument'
          simp only at hfetch' hread'
          by_cases hj : i = j
          · subst hj
            rw [List.getElem?_set_self (List.getElem?_eq_some_iff.mp hread).1,
              Option.some.injEq] at hread'
            rw [hfetch, Option.some.injEq] at hfetch'
            subst hread' hfetch'
            obtain rfl := Option.some.inj hdocument'
            exact h.holds.documents _ _ _ hlookup
          · rw [List.getElem?_set_ne hj] at hread'
            exact h.reads j fetch' read' document' hfetch' hread' hdocument'
        · rename_i hformat
          refine h.complete hstep fun fetch memory _ => hnone ?_ fetch memory
          simpa using hformat

/-- Storage answers: the image is one that was saved under the identifier. -/
theorem Traced.image (h : Traced downloadURL s saved) {i : ℕ} {error : Option RequestError}
    (hstep : s.step downloadURL canonical (.image i error) = some t) :
    Traced downloadURL t saved := by
  simp only [Browsing.step, Option.bind_eq_bind, Option.bind_eq_some_iff] at hstep
  obtain ⟨fetch, hfetch, read, hread, document, hdocument, hstep⟩ := hstep
  obtain ⟨written, tags, hmem, rfl⟩ := h.reads i fetch read document hfetch hread hdocument
  refine h.complete hstep fun fetch' memory hfetch' hmemory => ?_
  rw [hfetch, Option.some.injEq] at hfetch'
  subst hfetch'
  rw [Firebase.getMemory_ofMemory, Option.some.injEq] at hmemory
  subst hmemory
  refine ⟨⟨_, hmem, rfl, rfl, rfl, rfl, rfl, rfl⟩, fun url hurl => ?_⟩
  cases error with
  | some error => cases hurl
  | none =>
    simp only [Option.elim_none, Cloud.imageURL] at hurl
    split at hurl
    · rename_i data hdata
      cases hurl
      obtain ⟨write, hwrite, hid, hdata⟩ := h.holds.files fetch.documentID data hdata
      exact ⟨rfl, write, hwrite, hid, Option.isSome_of_eq_some hdata⟩
    · cases hurl

theorem Traced.step {e : BrowsingEvent} (h : Traced downloadURL s saved)
    (hstep : s.step downloadURL canonical e = some t) :
    Traced downloadURL t (saved ++ saves s e t) := by
  cases e with
  | cloud e =>
    simp only [Browsing.step, Option.map_eq_some_iff] at hstep
    obtain ⟨cloud, hcloud, rfl⟩ := hstep
    have hmono := h.mono (List.subset_append_left saved (s.cloud.saves e))
    exact ⟨h.holds.step hcloud, hmono.length_eq, hmono.reads, hmono.cells⟩
  | cellForRow row cell =>
    simp only [Browsing.step, Option.bind_eq_bind, Option.bind_eq_some_iff,
      Option.some.injEq] at hstep
    obtain ⟨uid, -, table, htable, rfl⟩ := hstep
    rw [saves, List.append_nil]
    exact h.cellForRow htable
  | endDisplaying row =>
    simp only [Browsing.step, Option.map_eq_some_iff] at hstep
    obtain ⟨table, htable, rfl⟩ := hstep
    cases htable
    rw [saves, List.append_nil]
    exact ⟨h.holds, h.length_eq, h.reads, h.cells⟩
  | document i error =>
    rw [saves, List.append_nil]
    exact h.document hstep
  | image i error =>
    rw [saves, List.append_nil]
    exact h.image hstep

variable {documentIDs : List DocumentID} {es : List BrowsingEvent}

/-- In every run the cells hold memories that were saved. -/
theorem traced_of_run
    (hrun : run (Browsing.step downloadURL canonical) (start documentIDs) es = some s) :
    Traced downloadURL s
      (outputs (Browsing.step downloadURL canonical) saves (start documentIDs) es) := by
  have hstep (s : Browsing) (saved : List SavedMemory) (e : BrowsingEvent) (t : Browsing)
      (h : Traced downloadURL s saved) (hstep : Browsing.step downloadURL canonical s e = some t) :
      Traced downloadURL t (saved ++ saves s e t) := h.step hstep
  have htraced := run_outputs hstep (traced_start downloadURL documentIDs) hrun
  rwa [List.nil_append] at htraced

/-- The memory that a row opens is in a cell. -/
theorem exists_cell_of_memoryFromSegue {table : CellTable} {row : ℕ} {memory : CloudMemory}
    (h : table.memoryFromSegue row = some memory) :
    ∃ cell, table.cellForRow row = some (table.cells cell) ∧
      (table.cells cell).memory = some memory := by
  obtain ⟨cell, hcell, hmemory⟩ := Option.bind_eq_some_iff.mp h
  obtain ⟨p, hp, rfl⟩ := Option.map_eq_some_iff.mp hcell
  exact ⟨p.2, hcell, hmemory⟩

/-- **What the details screen shows was composed.** In every run of the table over the stores, a
row opens the details screen as the storyboard has it, or with the texts that the screen has for
a memory that was saved before, which are also the texts of the row. Its image is hidden, or is
the file of the same document, which was uploaded with a memory that had an image. -/
theorem details_of_run
    (hrun : run (Browsing.step downloadURL canonical) (start documentIDs) es = some s)
    (filler : String) (row : ℕ) :
    let storyboard := MemoryDetails.storyboard filler
    let shown := storyboard.viewDidLoad ((s.table.memoryFromSegue row).map .cloudMemory)
    shown = storyboard ∨ ∃ cell, s.table.cellForRow row = some cell ∧
      cell.memoryCellTitle = shown.memoryDetailsTitle ∧
      cell.memoryCellEmoji = shown.memoryDetailsEmoji ∧
      cell.memoryCellText = shown.memoryDetailsContent ∧
      cell.memoryCellDate = shown.memoryDetailsDate ∧
      ∃ write ∈ outputs (Browsing.step downloadURL canonical) saves (start documentIDs) es,
        shown.SameTexts (storyboard.viewDidLoad (some (.localMemory write.memory))) ∧
        (shown.isImageHidden = true ∨
          shown.memoryDetailsImage = some (.url (downloadURL (imagePath write.documentID))) ∧
          ∃ write' ∈ outputs (Browsing.step downloadURL canonical) saves (start documentIDs) es,
            write'.documentID = write.documentID ∧ write'.memory.imageData.isSome) := by
  intro storyboard shown
  cases hmemory : s.table.memoryFromSegue row with
  | none =>
    left
    simp only [shown, hmemory, Option.map_none, MemoryDetails.viewDidLoad]
  | some memory =>
    right
    obtain ⟨cell, hcell, hcellMemory⟩ := exists_cell_of_memoryFromSegue hmemory
    obtain ⟨htitle, hemoji, htext, hdate, -⟩ := (s.table.cells cell).labels_eq memory hcellMemory
    have hback := (traced_of_run hrun).cells cell memory hcellMemory
    obtain ⟨write, hmem, hid, htitle', hcontent', hsentiment', hdate', -⟩ := hback.fields
    have hshown : shown = storyboard.viewDidLoad (some (.cloudMemory memory)) := by
      simp only [shown, hmemory, Option.map_some]
    rw [hshown]
    refine ⟨_, hcell, htitle, hemoji, htext, hdate, write, hmem, ?_, ?_⟩
    · simp only [MemoryDetails.viewDidLoad, htitle', hcontent', hsentiment', hdate']
      exact ⟨rfl, rfl, rfl, rfl⟩
    · cases hurl : memory.imageURL with
      | none =>
        left
        simp only [MemoryDetails.viewDidLoad, hurl, Option.isNone_none]
      | some url =>
        right
        obtain ⟨rfl, write', hmem', hid', hdata'⟩ := hback.image url hurl
        refine ⟨?_, write', hmem', hid'.trans hid.symm, hdata'⟩
        simp only [MemoryDetails.viewDidLoad, hurl, Option.map_some, hid]

/-- A memory without an image replaces one with an image while a cell reads. -/
def replacedMeanwhile : List BrowsingEvent :=
  [.cloud (.signIn "kevin"),
    .cloud (.request (.save "a" { sampleMemory 1 with image := some ⟨some [1]⟩ } [])),
    .cellForRow 0 0, .document 0 none,
    .cloud (.request (.replace "a" { sampleMemory 2 with title := "Bad day" } [])), .image 0 none]

/-- The details screen has the texts of the first memory, and its image. -/
theorem details_replacedMeanwhile :
    ∃ s, run (Browsing.step id id) (start ["a"]) replacedMeanwhile = some s ∧
      let storyboard := MemoryDetails.storyboard "Lorem ipsum"
      let shown := storyboard.viewDidLoad ((s.table.memoryFromSegue 0).map .cloudMemory)
      shown = storyboard ∨ ∃ cell, s.table.cellForRow 0 = some cell ∧
        cell.memoryCellTitle = shown.memoryDetailsTitle ∧
        cell.memoryCellEmoji = shown.memoryDetailsEmoji ∧
        cell.memoryCellText = shown.memoryDetailsContent ∧
        cell.memoryCellDate = shown.memoryDetailsDate ∧
        ∃ write ∈ outputs (Browsing.step id id) saves (start ["a"]) replacedMeanwhile,
          shown.SameTexts (storyboard.viewDidLoad (some (.localMemory write.memory))) ∧
          (shown.isImageHidden = true ∨
            shown.memoryDetailsImage = some (.url (id (imagePath write.documentID))) ∧
            ∃ write' ∈ outputs (Browsing.step id id) saves (start ["a"]) replacedMeanwhile,
              write'.documentID = write.documentID ∧ write'.memory.imageData.isSome) := by
  obtain ⟨s, hs⟩ : ∃ s, run (Browsing.step id id) (start ["a"]) replacedMeanwhile = some s :=
    ⟨_, rfl⟩
  exact ⟨s, hs, details_of_run hs "Lorem ipsum" 0⟩

example : ((run (Browsing.step id id) (start ["a"]) replacedMeanwhile).bind fun s =>
    s.table.memoryFromSegue 0).map (fun memory => (memory.title, memory.imageURL)) =
      some ("Good day", some "a.png") := rfl

end Browsing

end FeelBetter
