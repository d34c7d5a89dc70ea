import FeelBetter.Firebase
import FeelBetter.Listing
import Mathlib.Algebra.Order.Ring.Cast
import Mathlib.Data.List.Lex
import Mathlib.Data.String.Basic

/-!
# Batch requests

`Firebase.fetchAll` asks for the documents of a collection in descending order
of their save dates. Firestore compares values of different types by type and
breaks ties by the document identifier; a document without the field is left
out of the answer.
-/

namespace FeelBetter

/-- What Firestore compares two field values by: first the type, then the value within
the type. Integers and doubles are compared as numbers. -/
abbrev SortKey := ℕ ×ₗ ℚ ×ₗ List String

/-- The place of a double: no number comes before every number. -/
def Double.sortKey : Double → SortKey
  | .nan => toLex (2, toLex (0, []))
  | .negativeInfinity => toLex (3, toLex (0, []))
  | .finite value => toLex (4, toLex (value, []))
  | .positiveInfinity => toLex (5, toLex (0, []))

/-- The place of a field value in Firestore's order of values. -/
def FieldValue.sortKey : FieldValue → SortKey
  | .boolean b => toLex (1, toLex (if b then 1 else 0, []))
  | .integer n => toLex (4, toLex (n, []))
  | .double d => d.sortKey
  | .timestamp t => toLex (6, toLex ((t : ℚ), []))
  | .string s => toLex (7, toLex (0, [s]))
  | .strings l => toLex (11, toLex (0, l))
  | .other typeOrder place => toLex (typeOrder, toLex (place, []))

/-- Timestamps are ordered by the instants they stand for. -/
theorem sortKey_timestamp_lt {t u : Date} :
    (FieldValue.timestamp t).sortKey < (FieldValue.timestamp u).sortKey ↔ t < u := by
  simp [FieldValue.sortKey, Prod.Lex.toLex_lt_toLex]

/-- The types in their order, and the numbers among themselves. -/
example : ([.boolean false, .boolean true, .double .nan, .double .negativeInfinity, .integer 1,
    .double (.finite (3 / 2)), .integer 2, .double .positiveInfinity, .timestamp 0, .string "",
    .strings []] : List FieldValue).Pairwise fun a b => a.sortKey < b.sortKey := by
  decide +kernel

/-- What `order(by: "saveDate")` orders a document by. -/
def Document.saveDateKey (document : Document) : Option SortKey :=
  document.saveDate.map FieldValue.sortKey

namespace Firebase

/-- `Firebase.fetchAll` as the server answers it: the identifiers of a collection,
the latest save date first. -/
def fetchAll (diaries : Diaries) : List DocumentID :=
  Listing.orderBy Document.saveDateKey diaries

theorem fetchAll_nodup (diaries : Diaries) : (fetchAll diaries).Nodup :=
  Listing.orderBy_nodup _ diaries

/-- Only stored documents are answered. -/
theorem mem_of_mem_fetchAll {diaries : Diaries} {documentID : DocumentID}
    (h : documentID ∈ fetchAll diaries) : documentID ∈ diaries := by
  obtain ⟨document, hlookup, _⟩ := Listing.mem_orderBy.mp h
  rw [← AList.lookup_isSome, hlookup]
  rfl

/-- A collection of memories: every document carries a save date. -/
def Dated (diaries : Diaries) : Prop :=
  ∀ documentID document, diaries.lookup documentID = some document →
    ∃ t, document.saveDate = some (.timestamp t)

/-- Every memory of a collection of memories is answered. -/
theorem mem_fetchAll_iff {diaries : Diaries} (h : Dated diaries) {documentID : DocumentID} :
    documentID ∈ fetchAll diaries ↔ documentID ∈ diaries := by
  refine ⟨mem_of_mem_fetchAll, fun hmem => ?_⟩
  obtain ⟨document, hlookup⟩ := Option.isSome_iff_exists.mp (AList.lookup_isSome.mpr hmem)
  obtain ⟨t, ht⟩ := h documentID document hlookup
  exact Listing.mem_orderBy.mpr ⟨document, hlookup, by simp [Document.saveDateKey, ht]⟩

/-- The instant at which a stored memory was saved. -/
def SavedAt (diaries : Diaries) (documentID : DocumentID) (t : Date) : Prop :=
  ∃ document, diaries.lookup documentID = some document ∧
    document.saveDate = some (.timestamp t)

/-- A memory is answered before every memory that was saved earlier. -/
theorem fetchAll_latestFirst (diaries : Diaries) :
    (fetchAll diaries).Pairwise fun a b => ∀ t u, SavedAt diaries a t → SavedAt diaries b u →
      u ≤ t := by
  refine (Listing.pairwise_orderBy Document.saveDateKey diaries).imp ?_
  rintro a b hle t u ⟨document, hlookup, ht⟩ ⟨document', hlookup', hu⟩
  have hkey : document.saveDateKey = some (FieldValue.timestamp t).sortKey := by
    simp [Document.saveDateKey, ht]
  have hkey' : document'.saveDateKey = some (FieldValue.timestamp u).sortKey := by
    simp [Document.saveDateKey, hu]
  have hsort := hle document document' _ _ hlookup hlookup' hkey hkey'
  rw [← not_lt, sortKey_timestamp_lt] at hsort
  exact not_lt.mp hsort

/-- Every stored save date lies before `t`. -/
def AllBefore (diaries : Diaries) (t : Date) : Prop :=
  ∀ e ∈ diaries.entries, ∀ value ∈ e.2.saveDate, ∀ t' ∈ value.asTimestamp, t' < t

instance (diaries : Diaries) (t : Date) : Decidable (AllBefore diaries t) :=
  inferInstanceAs (Decidable (∀ _ ∈ _, _))

/-- A memory newer than all the others is answered first. -/
theorem fetchAll_insert_newest {diaries : Diaries} (hdated : Dated diaries)
    {documentID : DocumentID} (hnew : documentID ∉ diaries) {memory : LocalMemory}
    (tags : List String) (hbefore : AllBefore diaries memory.saveDate) :
    fetchAll (diaries.insert documentID (Document.ofMemory memory tags)) =
      documentID :: fetchAll diaries := by
  refine Listing.orderBy_insert_newest hnew
    (k := (FieldValue.timestamp memory.saveDate).sortKey) rfl ?_
  intro documentID' document' k' hlookup hk'
  obtain ⟨t', ht'⟩ := hdated documentID' document' hlookup
  have hkey : (FieldValue.timestamp t').sortKey = k' := by
    simpa [Document.saveDateKey, ht'] using hk'
  rw [← hkey, sortKey_timestamp_lt]
  exact hbefore _ (AList.mem_lookup_iff.mp hlookup) _ ht' _ rfl

/-- A deleted document disappears from the answer, the others keep their order. -/
theorem fetchAll_erase (diaries : Diaries) (documentID : DocumentID) :
    fetchAll (diaries.erase documentID) = (fetchAll diaries).erase documentID :=
  Listing.orderBy_erase diaries documentID

/-- Writing a memory keeps a collection of memories dated. -/
theorem Dated.insert {diaries : Diaries} (h : Dated diaries) (documentID : DocumentID)
    (memory : LocalMemory) (tags : List String) :
    Dated (diaries.insert documentID (Document.ofMemory memory tags)) := by
  intro documentID' document' hlookup
  by_cases heq : documentID' = documentID
  · subst heq
    rw [AList.lookup_insert, Option.some.injEq] at hlookup
    exact ⟨memory.saveDate, by rw [← hlookup]; rfl⟩
  · rw [AList.lookup_insert_ne heq] at hlookup
    exact h documentID' document' hlookup

/-- Deleting a document keeps a collection of memories dated. -/
theorem Dated.erase {diaries : Diaries} (h : Dated diaries) (documentID : DocumentID) :
    Dated (diaries.erase documentID) := by
  intro documentID' document' hlookup
  by_cases heq : documentID' = documentID
  · subst heq
    rw [AList.lookup_erase] at hlookup
    cases hlookup
  · rw [AList.lookup_erase_ne heq] at hlookup
    exact h documentID' document' hlookup

end Firebase

end FeelBetter
