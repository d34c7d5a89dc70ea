import FeelBetter.Keywords
import FeelBetter.ReadBack

/-!
# The sentiments of a period

The trend chart is fed by a query for the documents of a period in ascending order of their
save dates. The memory table lists all documents in descending order and reads them one by
one. Both come to the same: the chart has the sentiments of the memories that the table shows
and that were saved in the period, the oldest first.
-/

namespace FeelBetter

/-- What `filtered(between:and:)` orders a document by; the documents of other periods have no
place in the order. -/
def Document.periodKey (startDate endDate : Date) : Document → Option SortKey :=
  Listing.restrict (fun document => decide (document.InPeriod startDate endDate))
    Document.saveDateKey

/-- A document of a period has a save date to be ordered by. -/
theorem Document.InPeriod.isSome_saveDateKey {startDate endDate : Date} {document : Document}
    (h : document.InPeriod startDate endDate) : document.saveDateKey.isSome := by
  obtain ⟨t, ht, -⟩ := h
  obtain ⟨value, hvalue, -⟩ := Option.bind_eq_some_iff.mp ht
  rw [Document.saveDateKey, hvalue]
  rfl

namespace Firebase

/-- The identifiers of the documents of a period, the earliest save date first. -/
def idsInOrder (startDate endDate : Date) (diaries : Diaries) : List DocumentID :=
  (Listing.orderBy (Document.periodKey startDate endDate) diaries).reverse

/-- `filtered(between:and:)` as the server answers it, with its ordering clause. -/
def filteredInOrder (startDate endDate : Date) (diaries : Diaries) : List QueryDocument :=
  (idsInOrder startDate endDate diaries).filterMap fun documentID =>
    (diaries.lookup documentID).map (QueryDocument.mk documentID)

/-- What `sentiments(between:and:)` makes of that answer. -/
def sentimentsBetween (startDate endDate : Date) (diaries : Diaries) : List ℤ :=
  sentimentList (filteredInOrder startDate endDate diaries)

variable {startDate endDate : Date} {diaries : Diaries}

/-! ### The answer -/

theorem mem_idsInOrder {documentID : DocumentID} :
    documentID ∈ idsInOrder startDate endDate diaries ↔
      ∃ document, diaries.lookup documentID = some document ∧
        document.InPeriod startDate endDate := by
  rw [idsInOrder, List.mem_reverse, Listing.mem_orderBy]
  refine exists_congr fun document => and_congr_right fun _ => ?_
  rw [Document.periodKey, Listing.restrict]
  by_cases h : document.InPeriod startDate endDate
  · simp [h, h.isSome_saveDateKey]
  · simp [h]

theorem mem_filteredInOrder {document : QueryDocument} :
    document ∈ filteredInOrder startDate endDate diaries ↔
      diaries.lookup document.documentID = some document.data ∧
        document.data.InPeriod startDate endDate := by
  simp only [filteredInOrder, List.mem_filterMap, mem_idsInOrder, Option.map_eq_some_iff]
  constructor
  · rintro ⟨documentID, ⟨data, hlookup, hperiod⟩, data', hlookup', rfl⟩
    rw [hlookup, Option.some.injEq] at hlookup'
    subst hlookup'
    exact ⟨hlookup, hperiod⟩
  · rintro ⟨hlookup, hperiod⟩
    exact ⟨_, ⟨_, hlookup, hperiod⟩, _, hlookup, rfl⟩

/-- Every identifier of the period has a document in the answer. -/
theorem map_documentID_filteredInOrder (startDate endDate : Date) (diaries : Diaries) :
    (filteredInOrder startDate endDate diaries).map QueryDocument.documentID =
      idsInOrder startDate endDate diaries := by
  rw [filteredInOrder, List.map_filterMap]
  calc _
    _ = (idsInOrder startDate endDate diaries).filterMap some := by
      refine List.filterMap_congr fun documentID hmem => ?_
      obtain ⟨document, hlookup, -⟩ := mem_idsInOrder.mp hmem
      rw [hlookup]
      rfl
    _ = _ := List.filterMap_some

/-- The answer has the documents of the period, each once. -/
theorem filteredInOrder_perm (startDate endDate : Date) (diaries : Diaries) :
    (filteredInOrder startDate endDate diaries).Perm (filtered startDate endDate diaries) := by
  have hids : ((filteredInOrder startDate endDate diaries).map QueryDocument.documentID).Nodup := by
    rw [map_documentID_filteredInOrder]
    exact List.nodup_reverse.mpr (Listing.orderBy_nodup _ _)
  have hkeys : ((filtered startDate endDate diaries).map QueryDocument.documentID).Nodup := by
    rw [filtered, List.map_map]
    have hentries : (diaries.entries.map Sigma.fst).Nodup := diaries.nodupKeys
    exact hentries.sublist (List.filter_sublist.map _)
  refine (List.perm_ext_iff_of_nodup hids.of_map hkeys.of_map).mpr fun document => ?_
  rw [mem_filteredInOrder, filtered, List.mem_map]
  constructor
  · rintro ⟨hlookup, hperiod⟩
    exact ⟨_, List.mem_filter.mpr ⟨AList.mem_lookup_iff.mp hlookup, by simpa using hperiod⟩, rfl⟩
  · rintro ⟨e, he, rfl⟩
    obtain ⟨hmem, hperiod⟩ := List.mem_filter.mp he
    exact ⟨AList.mem_lookup_iff.mpr hmem, by simpa using hperiod⟩

/-- The period picks its documents from the list of all, turned round. -/
theorem idsInOrder_eq (startDate endDate : Date) (diaries : Diaries) :
    idsInOrder startDate endDate diaries = (fetchAll diaries).reverse.filter fun documentID =>
      (diaries.lookup documentID).any fun document => document.InPeriod startDate endDate := by
  rw [idsInOrder, Document.periodKey, Listing.orderBy_restrict, List.filter_reverse]
  rfl

/-- The sentiments of a period, by the identifiers of its documents. -/
theorem sentimentsBetween_eq (startDate endDate : Date) (diaries : Diaries) :
    sentimentsBetween startDate endDate diaries =
      (idsInOrder startDate endDate diaries).filterMap fun documentID =>
        (diaries.lookup documentID).bind fun document =>
          document.sentiment.bind FieldValue.asInt := by
  rw [sentimentsBetween, sentimentList, filteredInOrder, List.filterMap_filterMap]
  refine List.filterMap_congr fun documentID _ => ?_
  cases diaries.lookup documentID <;> rfl

/-! ### The list and the chart -/

/-- What is read from a document has its save date and its sentiment. -/
theorem fields_of_getMemory {documentID : DocumentID} {document : Document} {imageURL : Result URL}
    {memory : CloudMemory} (h : getMemory documentID (some document) imageURL = some memory) :
    document.saveDate.bind FieldValue.asTimestamp = some memory.saveDate ∧
      document.sentiment.bind FieldValue.asInt = some memory.sentiment := by
  obtain ⟨data, hdata, cast, hcast, rfl⟩ := getMemory_eq_some_iff.mp h
  obtain rfl := Option.some.inj hdata
  exact (castMemory_eq_some hcast imageURL).2

/-- **The chart has the sentiments of the memories that the table lists.** Where every document
has the format of a memory, the memories that `getMemory` delivers for the identifiers of
`fetchAll`, one by one, are such that the sentiments of every period are those of the
memories saved in it, in the reverse order. -/
theorem sentiments_eq_memories {c : Cloud} {uid : Uid} (h : c.currentUser = some uid)
    (hformat : ∀ documentID document, (c.diaries uid).lookup documentID = some document →
      WellFormed document) (downloadURL : String → URL) :
    ∃ memories : List CloudMemory,
      List.Forall₂ (fun documentID memory =>
        (readMemory downloadURL documentID).run c = .ok (some memory) c)
        (fetchAll (c.diaries uid)) memories ∧
      ∀ startDate endDate process,
        (sentimentsThen ⟨some (filteredInOrder startDate endDate (c.diaries uid)), none⟩
          process).run c =
        (process (.ok ((memories.reverse.filter fun memory =>
          startDate ≤ memory.saveDate ∧ memory.saveDate ≤ endDate).map
            CloudMemory.sentiment))).run c := by
  let imageURL (documentID : DocumentID) : Result URL :=
    (c.storage (imagePath documentID)).elim (.error "objectNotFound") fun _ =>
      .ok (downloadURL (imagePath documentID))
  let memory (documentID : DocumentID) : CloudMemory :=
    (getMemory documentID ((c.diaries uid).lookup documentID) (imageURL documentID)).getD
      ⟨documentID, "", "", 0, [], 0, none⟩
  -- every identifier of the list has a memory
  have hmemory : ∀ documentID ∈ fetchAll (c.diaries uid), ∃ document,
      (c.diaries uid).lookup documentID = some document ∧
        getMemory documentID (some document) (imageURL documentID) = some (memory documentID) := by
    intro documentID hmem
    obtain ⟨document, hlookup, -⟩ := Listing.mem_orderBy.mp hmem
    have hsome := (isSome_getMemory_iff documentID (some document) (imageURL documentID)).mpr
      ⟨document, rfl, hformat documentID document hlookup⟩
    refine ⟨document, hlookup, ?_⟩
    obtain ⟨m, hm⟩ := Option.isSome_iff_exists.mp hsome
    simp only [memory, hlookup, hm, Option.getD_some]
  refine ⟨(fetchAll (c.diaries uid)).map memory, ?_, fun startDate endDate process => ?_⟩
  · rw [List.forall₂_map_right_iff, List.forall₂_same]
    intro documentID hmem
    obtain ⟨document, hlookup, hget⟩ := hmemory documentID hmem
    rw [run_readMemory h, hlookup, ← hget]
    cases hfile : c.storage (imagePath documentID) <;> simp only [imageURL, hfile, Option.elim]
  · have hsentiments : sentimentsBetween startDate endDate (c.diaries uid) =
        (((fetchAll (c.diaries uid)).map memory).reverse.filter fun memory =>
          startDate ≤ memory.saveDate ∧ memory.saveDate ≤ endDate).map CloudMemory.sentiment := by
      have hperiod : ∀ documentID ∈ (fetchAll (c.diaries uid)).reverse,
          ((c.diaries uid).lookup documentID).any
              (fun document => decide (document.InPeriod startDate endDate)) =
            decide (startDate ≤ (memory documentID).saveDate ∧
              (memory documentID).saveDate ≤ endDate) := by
        intro documentID hmem
        obtain ⟨document, hlookup, hget⟩ := hmemory documentID (List.mem_reverse.mp hmem)
        simp only [hlookup, Option.any_some, Document.InPeriod, (fields_of_getMemory hget).1,
          Option.mem_def, Option.some.injEq, exists_eq_left']
      rw [sentimentsBetween_eq, idsInOrder_eq, List.filter_congr hperiod, ← List.map_reverse,
        List.filter_map, List.map_map]
      refine List.filterMap_eq_map_iff_forall_eq_some.mpr fun documentID hmem => ?_
      have hlisted := List.mem_reverse.mp (List.mem_of_mem_filter hmem)
      obtain ⟨document, hlookup, hget⟩ := hmemory documentID hlisted
      rw [hlookup, Option.bind_some, (fields_of_getMemory hget).2]
      rfl
    rw [sentimentsThen, EStateM.run_bind, run_diariesRef_some h, ← hsentiments]
    rfl

/-- Two memories of one user. -/
def twoDays : Cloud :=
  { sampleCloud with
    diaries := fun _ => (AList.singleton "a" goodDay).insert "b"
      (.ofMemory ⟨"Beach", "", 90, 2, none⟩ ["sun", "sea"]) }

/-- The list of two days has the later one first, and the chart the earlier one. -/
theorem sentiments_twoDays : ∃ memories : List CloudMemory,
    List.Forall₂ (fun documentID memory =>
      (readMemory id documentID).run twoDays = .ok (some memory) twoDays) ["b", "a"] memories ∧
    ∀ process : Process (List ℤ),
      (sentimentsThen ⟨some (filteredInOrder 1 2 (twoDays.diaries "kevin")), none⟩ process).run
        twoDays = (process (.ok ((memories.reverse.filter fun memory =>
          1 ≤ memory.saveDate ∧ memory.saveDate ≤ 2).map CloudMemory.sentiment))).run twoDays := by
  have hsigned : twoDays.currentUser = some "kevin" := rfl
  have hentries : ∀ e ∈ (twoDays.diaries "kevin").entries, WellFormed e.2 := by decide +kernel
  have hformat : ∀ documentID document,
      (twoDays.diaries "kevin").lookup documentID = some document → WellFormed document :=
    fun documentID document hlookup => hentries _ (AList.mem_lookup_iff.mp hlookup)
  have hlist : fetchAll (twoDays.diaries "kevin") = ["b", "a"] := by decide +kernel
  obtain ⟨memories, hread, hsentiments⟩ := sentiments_eq_memories hsigned hformat id
  rw [hlist] at hread
  exact ⟨memories, hread, hsentiments 1 2⟩

/-! ### Periods and their parts -/

/-- A document of a period is ordered by the instant at which it was saved. -/
theorem periodKey_eq_some_iff {document : Document} {k : SortKey} :
    document.periodKey startDate endDate = some k ↔
      ∃ t, document.saveDate = some (.timestamp t) ∧ startDate ≤ t ∧ t ≤ endDate ∧
        (FieldValue.timestamp t).sortKey = k := by
  have htimestamp {value : FieldValue} {t : Date} :
      value.asTimestamp = some t ↔ value = .timestamp t := by
    cases value <;> simp [FieldValue.asTimestamp]
  rw [Document.periodKey, Listing.restrict_eq_some_iff, decide_eq_true_eq]
  simp only [Document.InPeriod, Document.saveDateKey, Option.mem_def, Option.bind_eq_some_iff,
    htimestamp, exists_eq_right, Option.map_eq_some_iff]
  constructor
  · rintro ⟨⟨t, ht, hstart, hend⟩, value, hvalue, rfl⟩
    rw [ht, Option.some.injEq] at hvalue
    exact ⟨t, ht, hstart, hend, by rw [hvalue]⟩
  · rintro ⟨t, ht, hstart, hend, rfl⟩
    exact ⟨⟨t, ht, hstart, hend⟩, _, ht, rfl⟩

/-- The document was saved after an instant. -/
def SavedAfter (middle : Date) (document : Document) : Bool :=
  (document.saveDate.bind FieldValue.asTimestamp).any (middle < ·)

/-- The documents of the two parts of a period have the order that they have in the period. -/
theorem restrict_periodKey {middle : Date} (hstart : startDate ≤ middle + 1)
    (hend : middle ≤ endDate) :
    Listing.restrict (SavedAfter middle) (Document.periodKey startDate endDate) =
        Document.periodKey (middle + 1) endDate ∧
      Listing.restrict (fun document => !SavedAfter middle document)
          (Document.periodKey startDate endDate) = Document.periodKey startDate middle := by
  constructor
  · funext document
    refine Option.ext fun k => ?_
    rw [Listing.restrict_eq_some_iff, periodKey_eq_some_iff, periodKey_eq_some_iff]
    constructor
    · rintro ⟨hafter, t, ht, -, hle, rfl⟩
      simp only [SavedAfter, ht, Option.bind_some, FieldValue.asTimestamp, Option.any_some,
        decide_eq_true_eq] at hafter
      exact ⟨t, ht, hafter, hle, rfl⟩
    · rintro ⟨t, ht, hge, hle, rfl⟩
      refine ⟨?_, t, ht, hstart.trans hge, hle, rfl⟩
      simp only [SavedAfter, ht, Option.bind_some, FieldValue.asTimestamp, Option.any_some,
        decide_eq_true_eq]
      exact Int.add_one_le_iff.mp hge
  · funext document
    refine Option.ext fun k => ?_
    rw [Listing.restrict_eq_some_iff, periodKey_eq_some_iff, periodKey_eq_some_iff]
    constructor
    · rintro ⟨hafter, t, ht, hge, -, rfl⟩
      simp only [SavedAfter, ht, Option.bind_some, FieldValue.asTimestamp, Option.any_some,
        Bool.not_eq_eq_eq_not, Bool.not_true, decide_eq_false_iff_not, not_lt] at hafter
      exact ⟨t, ht, hge, hafter, rfl⟩
    · rintro ⟨t, ht, hge, hle, rfl⟩
      refine ⟨?_, t, ht, hge, hle.trans hend, rfl⟩
      simp only [SavedAfter, ht, Option.bind_some, FieldValue.asTimestamp, Option.any_some,
        Bool.not_eq_eq_eq_not, Bool.not_true, decide_eq_false_iff_not, not_lt]
      exact hle

/-- The documents of a period are those of its parts, the earlier part first. -/
theorem idsInOrder_append {middle : Date} (hstart : startDate ≤ middle + 1)
    (hend : middle ≤ endDate) (diaries : Diaries) :
    idsInOrder startDate endDate diaries =
      idsInOrder startDate middle diaries ++ idsInOrder (middle + 1) endDate diaries := by
  obtain ⟨hlate, hearly⟩ := restrict_periodKey hstart hend
  have happend := @Listing.orderBy_append DocumentID Document _ _ _ _
    (Document.periodKey startDate endDate) (SavedAfter middle) diaries ?_
  · rw [hlate, hearly] at happend
    rw [idsInOrder, happend, List.reverse_append]
    rfl
  · intro document document' k k' hafter hbefore hk hk'
    obtain ⟨t, ht, -, -, rfl⟩ := periodKey_eq_some_iff.mp hk
    obtain ⟨t', ht', -, -, rfl⟩ := periodKey_eq_some_iff.mp hk'
    simp only [SavedAfter, ht, ht', Option.bind_some, FieldValue.asTimestamp, Option.any_some,
      decide_eq_true_eq, decide_eq_false_iff_not, not_lt] at hafter hbefore
    exact sortKey_timestamp_lt.mpr (lt_of_le_of_lt hbefore hafter)

/-- The numbers of a period are the sums of those of its parts. -/
theorem occurrences_add {canonical : String → String} {middle : Date}
    (hstart : startDate ≤ middle + 1) (hend : middle ≤ endDate) (diaries : Diaries) (tag : String) :
    occurrences canonical startDate endDate diaries tag =
      occurrences canonical startDate middle diaries tag +
        occurrences canonical (middle + 1) endDate diaries tag := by
  have hdocument (document : Document) : document.occurrences canonical startDate endDate tag =
      document.occurrences canonical startDate middle tag +
        document.occurrences canonical (middle + 1) endDate tag := by
    unfold Document.occurrences
    cases hdate : document.saveDate.bind FieldValue.asTimestamp with
    | none => simp [Document.InPeriod, hdate]
    | some t =>
      simp only [Document.InPeriod, hdate, Option.mem_def, Option.some.injEq, exists_eq_left']
      rcases le_or_gt t middle with hle | hlt
      · have hlate : ¬middle + 1 ≤ t := not_le.mpr (Int.lt_add_one_iff.mpr hle)
        simp [hle, hlate, hle.trans hend]
      · have hlate : middle + 1 ≤ t := Int.add_one_le_iff.mpr hlt
        simp [not_le.mpr hlt, hlate, hstart.trans hlate]
  simp only [occurrences, Tally.total, hdocument]
  exact List.sum_map_add

/-- **The answers for a period are put together from those for its parts**: the sentiments of
the earlier part go before those of the later one, and the numbers of the keywords add
up, whatever the collection holds. -/
theorem answers_split {canonical : String → String} {middle : Date}
    (hstart : startDate ≤ middle + 1) (hend : middle ≤ endDate) (diaries : Diaries) :
    sentimentsBetween startDate endDate diaries =
        sentimentsBetween startDate middle diaries ++
          sentimentsBetween (middle + 1) endDate diaries ∧
      ∀ documents early late, documents.Perm (filteredInOrder startDate endDate diaries) →
        early.Perm (filteredInOrder startDate middle diaries) →
        late.Perm (filteredInOrder (middle + 1) endDate diaries) → ∀ tag,
          (numberOf canonical (keywordDictionary canonical documents) tag).getD 0 =
            (numberOf canonical (keywordDictionary canonical early) tag).getD 0 +
              (numberOf canonical (keywordDictionary canonical late) tag).getD 0 := by
  constructor
  · simp only [sentimentsBetween_eq, idsInOrder_append hstart hend, List.filterMap_append]
  · intro documents early late hdocuments hearly hlate tag
    have hnumber {startDate endDate : Date} {documents : List QueryDocument}
        (hperm : documents.Perm (filteredInOrder startDate endDate diaries)) :
        (numberOf canonical (keywordDictionary canonical documents) tag).getD 0 =
          occurrences canonical startDate endDate diaries tag :=
      getD_numberOf (hperm.trans (filteredInOrder_perm _ _ _)) tag
    rw [hnumber hdocuments, hnumber hearly, hnumber hlate, occurrences_add hstart hend]
    push_cast
    rfl

/-- Two days and the days one by one. -/
theorem answers_split_twoDays :
    sentimentsBetween 1 2 (twoDays.diaries "kevin") =
        sentimentsBetween 1 1 (twoDays.diaries "kevin") ++
          sentimentsBetween (1 + 1) 2 (twoDays.diaries "kevin") ∧
      (numberOf id (keywordDictionary id (filteredInOrder 1 2 (twoDays.diaries "kevin")))
          "sun").getD 0 =
        (numberOf id (keywordDictionary id (filteredInOrder 1 1 (twoDays.diaries "kevin")))
            "sun").getD 0 +
          (numberOf id (keywordDictionary id
            (filteredInOrder (1 + 1) 2 (twoDays.diaries "kevin"))) "sun").getD 0 := by
  have hstart : (1 : Date) ≤ 1 + 1 := by decide
  have hend : (1 : Date) ≤ 2 := by decide
  obtain ⟨hsentiments, hkeywords⟩ := answers_split hstart hend (twoDays.diaries "kevin")
  exact ⟨hsentiments, hkeywords _ _ _ (List.Perm.refl _) (List.Perm.refl _) (List.Perm.refl _) _⟩

/-! ### Writes -/

/-- The answer for a period, by its identifiers. -/
theorem filteredInOrder_congr {diaries' : Diaries}
    (hids : idsInOrder startDate endDate diaries' = idsInOrder startDate endDate diaries)
    (hlookup : ∀ documentID ∈ idsInOrder startDate endDate diaries,
      diaries'.lookup documentID = diaries.lookup documentID) :
    filteredInOrder startDate endDate diaries' = filteredInOrder startDate endDate diaries := by
  rw [filteredInOrder, filteredInOrder, hids]
  exact List.filterMap_congr fun documentID hmem => by rw [hlookup documentID hmem]

/-- A new memory that is newer than all others comes last in the answer for its period. -/
theorem filteredInOrder_insert_newest {newID : DocumentID} (hnew : newID ∉ diaries)
    {memory : LocalMemory} (tags : List String) (hbefore : AllBefore diaries memory.saveDate)
    (hstart : startDate ≤ memory.saveDate) (hend : memory.saveDate ≤ endDate) :
    filteredInOrder startDate endDate (diaries.insert newID (.ofMemory memory tags)) =
      filteredInOrder startDate endDate diaries ++ [⟨newID, .ofMemory memory tags⟩] := by
  have hkey : (Document.ofMemory memory tags).periodKey startDate endDate =
      some (FieldValue.timestamp memory.saveDate).sortKey :=
    periodKey_eq_some_iff.mpr ⟨memory.saveDate, rfl, hstart, hend, rfl⟩
  have hids : idsInOrder startDate endDate (diaries.insert newID (.ofMemory memory tags)) =
      idsInOrder startDate endDate diaries ++ [newID] := by
    rw [idsInOrder, Listing.orderBy_insert_newest hnew hkey, List.reverse_cons]
    · rfl
    · intro documentID document k hlookup hk
      obtain ⟨t, ht, -, -, rfl⟩ := periodKey_eq_some_iff.mp hk
      exact sortKey_timestamp_lt.mpr (hbefore _ (AList.mem_lookup_iff.mp hlookup) _ ht _ rfl)
  rw [filteredInOrder, hids, List.filterMap_append]
  congr 1
  · refine List.filterMap_congr fun documentID hmem => ?_
    have hne : documentID ≠ newID := by
      rintro rfl
      obtain ⟨document, hlookup, -⟩ := mem_idsInOrder.mp hmem
      exact hnew (AList.lookup_isSome.mp (by rw [hlookup]; rfl))
    rw [AList.lookup_insert_ne hne]
  · rw [List.filterMap_cons, AList.lookup_insert]
    rfl

/-- A memory is stored, and all others are older. -/
def Newest (diaries : Diaries) (documentID : DocumentID) (memory : LocalMemory)
    (tags : List String) : Prop :=
  diaries.lookup documentID = some (.ofMemory memory tags) ∧
    AllBefore (diaries.erase documentID) memory.saveDate

instance (diaries : Diaries) (documentID : DocumentID) (memory : LocalMemory)
    (tags : List String) : Decidable (Newest diaries documentID memory tags) :=
  inferInstanceAs (Decidable (_ ∧ _))

/-- A memory that is written and newer than all others is the newest one. -/
theorem newest_insert (newID : DocumentID) {memory : LocalMemory} (tags : List String)
    (hbefore : AllBefore diaries memory.saveDate) :
    Newest (diaries.insert newID (.ofMemory memory tags)) newID memory tags := by
  refine ⟨AList.lookup_insert diaries, fun e he => hbefore e ?_⟩
  have hlookup := AList.mem_lookup_iff.mpr he
  have hne : e.1 ≠ newID := by
    intro heq
    rw [heq, AList.lookup_erase] at hlookup
    cases hlookup
  rw [AList.lookup_erase_ne hne, AList.lookup_insert_ne hne] at hlookup
  exact AList.mem_lookup_iff.mp hlookup

/-- The sentiment of the newest memory comes last in the answer for its period. -/
theorem sentimentsBetween_of_newest {documentID : DocumentID} {memory : LocalMemory}
    {tags : List String} (h : Newest diaries documentID memory tags)
    (hstart : startDate ≤ memory.saveDate) (hend : memory.saveDate ≤ endDate) :
    sentimentsBetween startDate endDate diaries =
      sentimentsBetween startDate endDate (diaries.erase documentID) ++ [memory.sentiment] := by
  have hlookup (documentID' : DocumentID) : diaries.lookup documentID' =
      ((diaries.erase documentID).insert documentID (.ofMemory memory tags)).lookup
        documentID' := by
    by_cases heq : documentID' = documentID
    · rw [heq, AList.lookup_insert, h.1]
    · rw [AList.lookup_insert_ne heq, AList.lookup_erase_ne heq]
  have hids : idsInOrder startDate endDate diaries = idsInOrder startDate endDate
      ((diaries.erase documentID).insert documentID (.ofMemory memory tags)) := by
    refine congrArg List.reverse (Listing.orderBy_congr strictMono_id fun documentID' => ?_)
    rw [Option.map_id_apply, hlookup]
  have hnew : documentID ∉ diaries.erase documentID := fun hmem =>
    (AList.mem_erase.mp hmem).1 rfl
  rw [sentimentsBetween, filteredInOrder_congr hids fun documentID' _ => hlookup documentID',
    filteredInOrder_insert_newest hnew tags h.2 hstart hend, sentimentList, List.filterMap_append]
  rfl

/-- A new memory of another period does not come in the answer. -/
theorem filteredInOrder_insert_other {newID : DocumentID} (hnew : newID ∉ diaries)
    {memory : LocalMemory} (tags : List String)
    (hother : ¬(startDate ≤ memory.saveDate ∧ memory.saveDate ≤ endDate)) :
    filteredInOrder startDate endDate (diaries.insert newID (.ofMemory memory tags)) =
      filteredInOrder startDate endDate diaries := by
  have hnone : (Document.ofMemory memory tags).periodKey startDate endDate = none := by
    refine Option.eq_none_iff_forall_not_mem.mpr fun k hk => ?_
    obtain ⟨t, ht, hstart, hend, -⟩ := periodKey_eq_some_iff.mp hk
    cases ht
    exact hother ⟨hstart, hend⟩
  have hlookup : ∀ documentID, documentID ≠ newID →
      (diaries.insert newID (Document.ofMemory memory tags)).lookup documentID =
        diaries.lookup documentID := fun documentID hne => AList.lookup_insert_ne hne
  have hold : diaries.lookup newID = none := AList.lookup_eq_none.mpr hnew
  refine filteredInOrder_congr ?_ fun documentID hmem => ?_
  · refine congrArg List.reverse (Listing.orderBy_congr strictMono_id fun documentID => ?_)
    rw [Option.map_id_apply]
    by_cases heq : documentID = newID
    · rw [heq, AList.lookup_insert, hold]
      exact hnone
    · rw [hlookup documentID heq]
  · refine hlookup documentID ?_
    rintro rfl
    obtain ⟨document, hdocument, -⟩ := mem_idsInOrder.mp hmem
    rw [hold] at hdocument
    cases hdocument

/-- A deleted document is taken out of the answer. -/
theorem filteredInOrder_erase (startDate endDate : Date) (diaries : Diaries)
    (documentID : DocumentID) :
    filteredInOrder startDate endDate (diaries.erase documentID) =
      (filteredInOrder startDate endDate diaries).filter fun document =>
        document.documentID ≠ documentID := by
  have hids : idsInOrder startDate endDate (diaries.erase documentID) =
      (idsInOrder startDate endDate diaries).filter (· ≠ documentID) := by
    rw [idsInOrder, Listing.orderBy_erase, (Listing.orderBy_nodup _ _).erase_eq_filter,
      idsInOrder, List.filter_reverse]
    refine congrArg List.reverse (List.filter_congr fun documentID' _ => ?_)
    simp [bne, beq_eq_decide]
  rw [filteredInOrder, hids, filteredInOrder, List.filter_filterMap, List.filterMap_filter]
  refine List.filterMap_congr fun documentID' _ => ?_
  by_cases heq : documentID' = documentID
  · cases diaries.lookup documentID' <;> simp [heq, Option.filter]
  · rw [AList.lookup_erase_ne heq]
    cases diaries.lookup documentID' <;> simp [heq, Option.filter]

/-- **What the writes of a user do to the answer** for a period: a new memory that is newer than
all others comes last if it is of the period, and one of another period changes nothing;
a deleted document is taken out, and the others keep their order. -/
theorem filteredInOrder_of_writes {c : Cloud} {uid : Uid} (h : c.currentUser = some uid)
    (startDate endDate : Date) :
    (∀ newID memory tags, newID ∉ c.diaries uid → AllBefore (c.diaries uid) memory.saveDate →
      ∃ after, (saveNewMemory newID memory tags).run c = .ok newID after ∧
        filteredInOrder startDate endDate (after.diaries uid) =
          filteredInOrder startDate endDate (c.diaries uid) ++
            if startDate ≤ memory.saveDate ∧ memory.saveDate ≤ endDate then
              [⟨newID, .ofMemory memory tags⟩]
            else []) ∧
    ∀ documentID, ∃ after, (deleteMemory documentID).run c = .ok () after ∧
      filteredInOrder startDate endDate (after.diaries uid) =
        (filteredInOrder startDate endDate (c.diaries uid)).filter fun document =>
          document.documentID ≠ documentID := by
  constructor
  · intro newID memory tags hnew hbefore
    refine ⟨_, run_saveNewMemory_some h newID memory tags, ?_⟩
    rw [Cloud.diaries_written, Function.update_self]
    split
    · rename_i hperiod
      exact filteredInOrder_insert_newest hnew tags hbefore hperiod.1 hperiod.2
    · rename_i hother
      rw [List.append_nil]
      exact filteredInOrder_insert_other hnew tags hother
  · intro documentID
    refine ⟨_, run_deleteMemory_some h documentID, ?_⟩
    rw [Cloud.diaries_deleted, Function.update_self]
    exact filteredInOrder_erase startDate endDate (c.diaries uid) documentID

/-- A third day comes last on the chart of three days. -/
theorem filteredInOrder_thirdDay : ∃ after,
    (saveNewMemory "c" (sampleMemory 3) []).run twoDays = .ok "c" after ∧
      filteredInOrder 1 3 (after.diaries "kevin") =
        filteredInOrder 1 3 (twoDays.diaries "kevin") ++
          if (1 : Date) ≤ 3 ∧ (3 : Date) ≤ 3 then [⟨"c", .ofMemory (sampleMemory 3) []⟩]
          else [] := by
  have hsigned : twoDays.currentUser = some "kevin" := rfl
  exact (filteredInOrder_of_writes hsigned 1 3).1 "c" (sampleMemory 3) [] (by decide +kernel)
    (by decide +kernel)

end Firebase

end FeelBetter
