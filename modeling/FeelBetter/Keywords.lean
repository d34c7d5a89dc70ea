import FeelBetter.Reads

/-!
# The numbers of the keywords

The dictionary of the keywords gives every string the number of its occurrences in the
tags of the documents of a period, where strings with the same canonical form are the
same. Saving a memory of the period adds its tags to the numbers, and deleting a document
takes its tags away.
-/

namespace FeelBetter

open Tally

/-- The document was saved in the closed period. -/
def Document.InPeriod (startDate endDate : Date) (document : Document) : Prop :=
  ∃ t ∈ document.saveDate.bind FieldValue.asTimestamp, startDate ≤ t ∧ t ≤ endDate

instance (startDate endDate : Date) : DecidablePred (Document.InPeriod startDate endDate) :=
  fun document => inferInstanceAs
    (Decidable (∃ t ∈ document.saveDate.bind FieldValue.asTimestamp, startDate ≤ t ∧ t ≤ endDate))

/-- The tags of a document; none where the field is missing or no list of strings. -/
def Document.tagList (document : Document) : List String :=
  (document.tags.bind FieldValue.asStrings).getD []

/-- How many tags of a document are the string `tag`, if the document is of the period. -/
def Document.occurrences (canonical : String → String) (startDate endDate : Date) (tag : String)
    (document : Document) : ℕ :=
  if document.InPeriod startDate endDate then
    document.tagList.countP fun tag' => canonical tag' = canonical tag
  else 0

namespace Firebase

/-- How many tags of the documents of the period are the string `tag`. -/
def occurrences (canonical : String → String) (startDate endDate : Date) (diaries : Diaries)
    (tag : String) : ℕ :=
  total (Document.occurrences canonical startDate endDate tag) diaries

/-- `filtered(between:and:)` as the server answers it, in the order of the collection. -/
def filtered (startDate endDate : Date) (diaries : Diaries) : List QueryDocument :=
  (diaries.entries.filter fun e => e.2.InPeriod startDate endDate).map fun e => ⟨e.1, e.2⟩

variable {canonical : String → String} {startDate endDate : Date}

/-- **The dictionary counts the tags** of the documents, whatever the order of the answer. -/
theorem numberOf_keywordDictionary {diaries : Diaries} {documents : List QueryDocument}
    (hperm : documents.Perm (filtered startDate endDate diaries)) (tag : String) :
    numberOf canonical (keywordDictionary canonical documents) tag =
      if occurrences canonical startDate endDate diaries tag = 0 then none
      else some (occurrences canonical startDate endDate diaries tag : ℤ) := by
  have hcount : (documents.filterMap fun document =>
      document.data.tags.bind FieldValue.asStrings).flatten.countP
        (fun tag' => canonical tag' = canonical tag) =
      occurrences canonical startDate endDate diaries tag := by
    calc _
      _ = (documents.map fun document => document.data.tagList.countP
          fun tag' => canonical tag' = canonical tag).sum :=
        countP_flatten_filterMap _ _ documents
      _ = ((filtered startDate endDate diaries).map fun document =>
          document.data.tagList.countP fun tag' => canonical tag' = canonical tag).sum :=
        (hperm.map _).sum_eq
      _ = occurrences canonical startDate endDate diaries tag := by
        rw [filtered, List.map_map, sum_map_filter]
        simp only [occurrences, total, Document.occurrences, Function.comp_apply,
          decide_eq_true_eq]
  rw [numberOf, keywordDictionary, lookup_tally_map, hcount]

/-- A string without a number has none of the tags. -/
theorem getD_numberOf {diaries : Diaries} {documents : List QueryDocument}
    (hperm : documents.Perm (filtered startDate endDate diaries)) (tag : String) :
    (numberOf canonical (keywordDictionary canonical documents) tag).getD 0 =
      occurrences canonical startDate endDate diaries tag := by
  rw [numberOf_keywordDictionary hperm]
  split_ifs with hzero
  · rw [hzero]
    rfl
  · rfl

/-- The keys of the dictionary are tags, by their canonical forms. -/
theorem exists_tag_of_mem {documents : List QueryDocument} {key : String}
    (h : key ∈ keywordDictionary canonical documents) : ∃ tag, canonical tag = key := by
  obtain ⟨tag, -, htag⟩ := List.mem_map.mp (mem_of_mem_tally h)
  exact ⟨tag, htag⟩

/-- A memory that is stored has its tags in the period in which it was saved. -/
theorem occurrences_ofMemory (memory : LocalMemory) (tags : List String) (tag : String) :
    (Document.ofMemory memory tags).occurrences canonical startDate endDate tag =
      if startDate ≤ memory.saveDate ∧ memory.saveDate ≤ endDate then
        tags.countP fun tag' => canonical tag' = canonical tag
      else 0 := by
  have hperiod : (Document.ofMemory memory tags).InPeriod startDate endDate ↔
      startDate ≤ memory.saveDate ∧ memory.saveDate ≤ endDate := by
    simp [Document.InPeriod, Document.ofMemory, FieldValue.asTimestamp]
  simp only [Document.occurrences, hperiod]
  rfl

/-- What a write over a document does to the numbers. -/
theorem occurrences_written (c : Cloud) (uid : Uid) (documentID : DocumentID)
    (memory : LocalMemory) (tags : List String) (tag : String) :
    occurrences canonical startDate endDate
          ((c.written uid documentID memory tags).diaries uid) tag +
        ((c.diaries uid).lookup documentID).elim 0
          (Document.occurrences canonical startDate endDate tag) =
      occurrences canonical startDate endDate (c.diaries uid) tag +
        if startDate ≤ memory.saveDate ∧ memory.saveDate ≤ endDate then
          tags.countP fun tag' => canonical tag' = canonical tag
        else 0 := by
  rw [Cloud.diaries_written, Function.update_self, ← occurrences_ofMemory]
  exact total_insert _ _ _ _

theorem occurrences_deleted (c : Cloud) (uid : Uid) (documentID : DocumentID) (tag : String) :
    occurrences canonical startDate endDate ((c.deleted uid documentID).diaries uid) tag +
        ((c.diaries uid).lookup documentID).elim 0
          (Document.occurrences canonical startDate endDate tag) =
      occurrences canonical startDate endDate (c.diaries uid) tag := by
  rw [Cloud.diaries_deleted, Function.update_self]
  exact total_erase _ _ _

/-- **The numbers of the keywords** are those of the tags that are stored: whatever a signed-in
user has stored and in which order the query answers, the caller gets for every string the
number of the tags of the period that are equal to it, and no entry where there are none.
Saving a new memory of the period adds its tags, writing over a document exchanges them, and
deleting a document takes them away. -/
theorem keywords_eq_occurrences {canonical : String → String} {c : Cloud} {uid : Uid}
    (h : c.currentUser = some uid) (startDate endDate : Date) :
    (∀ documents, documents.Perm (filtered startDate endDate (c.diaries uid)) →
      ∃ dictionary, (∀ process, (keywordsThen canonical ⟨some documents, none⟩ process).run c =
          (process (.ok dictionary)).run c) ∧
        (∀ key ∈ dictionary, ∃ tag, canonical tag = key) ∧
        ∀ tag, numberOf canonical dictionary tag =
          if occurrences canonical startDate endDate (c.diaries uid) tag = 0 then none
          else some (occurrences canonical startDate endDate (c.diaries uid) tag : ℤ)) ∧
    (∀ newID memory tags, newID ∉ c.diaries uid →
      ∃ after, (saveNewMemory newID memory tags).run c = .ok newID after ∧
        ∀ tag, occurrences canonical startDate endDate (after.diaries uid) tag =
          occurrences canonical startDate endDate (c.diaries uid) tag +
            if startDate ≤ memory.saveDate ∧ memory.saveDate ≤ endDate then
              tags.countP fun tag' => canonical tag' = canonical tag
            else 0) ∧
    (∀ documentID memory tags,
      ∃ after, (replaceMemory documentID memory tags).run c = .ok () after ∧
        ∀ tag, occurrences canonical startDate endDate (after.diaries uid) tag +
            ((c.diaries uid).lookup documentID).elim 0
              (Document.occurrences canonical startDate endDate tag) =
          occurrences canonical startDate endDate (c.diaries uid) tag +
            if startDate ≤ memory.saveDate ∧ memory.saveDate ≤ endDate then
              tags.countP fun tag' => canonical tag' = canonical tag
            else 0) ∧
    (∀ documentID, ∃ after, (deleteMemory documentID).run c = .ok () after ∧
      ∀ tag, occurrences canonical startDate endDate (after.diaries uid) tag +
          ((c.diaries uid).lookup documentID).elim 0
            (Document.occurrences canonical startDate endDate tag) =
        occurrences canonical startDate endDate (c.diaries uid) tag) := by
  refine ⟨?_, ?_, ?_, ?_⟩
  · intro documents hperm
    refine ⟨keywordDictionary canonical documents, fun process => ?_,
      fun key => exists_tag_of_mem, numberOf_keywordDictionary hperm⟩
    rw [keywordsThen, EStateM.run_bind, run_diariesRef_some h]
    rfl
  · intro newID memory tags hnew
    refine ⟨_, run_saveNewMemory_some h newID memory tags, fun tag => ?_⟩
    have hwritten :=
      @occurrences_written canonical startDate endDate (c.allot newID) uid newID memory tags tag
    have hnone : ((c.allot newID).diaries uid).lookup newID = none :=
      AList.lookup_eq_none.mpr hnew
    rwa [hnone] at hwritten
  · intro documentID memory tags
    exact ⟨_, run_replaceMemory_some h documentID memory tags,
      occurrences_written c uid documentID memory tags⟩
  · intro documentID
    exact ⟨_, run_deleteMemory_some h documentID, occurrences_deleted c uid documentID⟩

/-- Two memories with tags, one of them spelled in two ways, and a document whose tags are no
list of strings. -/
def threeDays : Cloud :=
  { sampleCloud with
    diaries := fun _ =>
      ((AList.singleton "c" { goodDay with tags := some (.string "caf\u00e9") }).insert "b"
        (.ofMemory ⟨"Beach", "", 90, 2, none⟩ ["caf\u00e9", "sea", "cafe\u0301"])).insert "a"
          (.ofMemory ⟨"Good day", "sunny", 70, 1, none⟩ ["cafe\u0301"]) }

/-- The canonical form of the strings of `threeDays`: an accent is put on its letter. -/
def precomposed (s : String) : String := if s = "cafe\u0301" then "caf\u00e9" else s

/-- The tags of three days, under both spellings. -/
theorem keywords_threeDays : ∃ dictionary,
    (∀ process, (keywordsThen precomposed
      ⟨some (filtered 1 2 (threeDays.diaries "kevin")), none⟩ process).run threeDays =
        (process (.ok dictionary)).run threeDays) ∧
      numberOf precomposed dictionary "caf\u00e9" = some 3 ∧
      numberOf precomposed dictionary "cafe\u0301" = some 3 ∧
      numberOf precomposed dictionary "lake" = none := by
  have hsigned : threeDays.currentUser = some "kevin" := rfl
  obtain ⟨dictionary, hrun, -, hnumber⟩ :=
    (keywords_eq_occurrences hsigned 1 2).1 _ (List.Perm.refl _)
  have hcomposed : occurrences precomposed 1 2 (threeDays.diaries "kevin") "caf\u00e9" = 3 := by
    decide +kernel
  have hdecomposed : occurrences precomposed 1 2 (threeDays.diaries "kevin") "cafe\u0301" = 3 := by
    decide +kernel
  have hnone : occurrences precomposed 1 2 (threeDays.diaries "kevin") "lake" = 0 := by
    decide +kernel
  refine ⟨dictionary, hrun, ?_, ?_, ?_⟩
  · rw [hnumber, hcomposed]
    rfl
  · rw [hnumber, hdecomposed]
    rfl
  · rw [hnumber, hnone]
    rfl

end Firebase

end FeelBetter
