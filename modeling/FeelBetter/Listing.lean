import Mathlib.Data.List.AList
import Mathlib.Data.List.Sort
import Mathlib.Data.Prod.Lex

/-!
# Listing a finite map in the order of a rank

A query with an ordering clause lists the keys of a finite map by a rank of
their values, the greatest first, and leaves out the keys whose value has no
rank. Keys of the same rank are listed by the key itself. Two updates keep a
listing easy to maintain by hand: a new entry above all others goes to the
front, and an erased key is erased from the listing. Maps, keys and ranks are
arbitrary here.
-/

namespace Listing

variable {α β κ : Type*} [LinearOrder κ] [LinearOrder α]

/-- The ranks of the entries, each with the key it belongs to. -/
def ranked (rank : β → Option κ) (m : AList fun _ : α => β) : List (κ ×ₗ α) :=
  m.entries.filterMap fun e => (rank e.2).map fun k => toLex (k, e.1)

/-- The ranked keys, the greatest first. -/
def sorted (rank : β → Option κ) (m : AList fun _ : α => β) : List (κ ×ₗ α) :=
  (ranked rank m).insertionSort (· ≥ ·)

/-- The keys of a map in descending order of the rank of their values. -/
def orderBy (rank : β → Option κ) (m : AList fun _ : α => β) : List α :=
  (sorted rank m).map fun k => (ofLex k).2

/-- No key is listed twice: every key has one entry. -/
theorem orderBy_nodup (rank : β → Option κ) (m : AList fun _ : α => β) :
    (orderBy rank m).Nodup := by
  have hkeys : ((ranked rank m).map fun k => (ofLex k).2).Nodup := by
    rw [List.Nodup, List.pairwise_map, ranked]
    refine (List.nodupKeys_iff_pairwise.mp m.nodupKeys).filterMap _ ?_
    intro e e' hne k hk k' hk'
    obtain ⟨r, _, rfl⟩ := Option.map_eq_some_iff.mp hk
    obtain ⟨r', _, rfl⟩ := Option.map_eq_some_iff.mp hk'
    exact hne
  exact ((List.perm_insertionSort _ (ranked rank m)).map _).nodup_iff.mpr hkeys

/-- The sorted list is strictly descending. -/
theorem sorted_sortedGT (rank : β → Option κ) (m : AList fun _ : α => β) :
    (sorted rank m).SortedGT := by
  have hnodup : (sorted rank m).Nodup := (orderBy_nodup rank m).of_map _
  have hge : (sorted rank m).Pairwise (· ≥ ·) := List.pairwise_insertionSort _ _
  rw [List.sortedGT_iff_pairwise]
  exact (hge.and hnodup).imp fun h => lt_of_le_of_ne h.1 (Ne.symm h.2)

variable [DecidableEq α] {rank : β → Option κ}

/-- The sorted list holds exactly the ranked entries of the map. -/
theorem mem_sorted {m : AList fun _ : α => β} {k : κ ×ₗ α} :
    k ∈ sorted rank m ↔ ∃ b, m.lookup (ofLex k).2 = some b ∧ rank b = some (ofLex k).1 := by
  rw [sorted, List.mem_insertionSort, ranked, List.mem_filterMap]
  constructor
  · rintro ⟨⟨a, b⟩, hmem, hk⟩
    obtain ⟨r, hr, rfl⟩ := Option.map_eq_some_iff.mp hk
    exact ⟨b, AList.mem_lookup_iff.mpr hmem, hr⟩
  · rintro ⟨b, hlookup, hrank⟩
    refine ⟨⟨(ofLex k).2, b⟩, AList.mem_lookup_iff.mp hlookup, ?_⟩
    simp [hrank]

/-- A key is listed exactly when it has a value with a rank. -/
theorem mem_orderBy {m : AList fun _ : α => β} {a : α} :
    a ∈ orderBy rank m ↔ ∃ b, m.lookup a = some b ∧ (rank b).isSome := by
  simp only [orderBy, List.mem_map, mem_sorted]
  constructor
  · rintro ⟨k, ⟨b, hlookup, hrank⟩, rfl⟩
    exact ⟨b, hlookup, by simp [hrank]⟩
  · rintro ⟨b, hlookup, hrank⟩
    obtain ⟨r, hr⟩ := Option.isSome_iff_exists.mp hrank
    exact ⟨toLex (r, a), ⟨b, hlookup, hr⟩, rfl⟩

/-- A listed key has a rank at least that of every key listed after it. -/
theorem pairwise_orderBy (rank : β → Option κ) (m : AList fun _ : α => β) :
    (orderBy rank m).Pairwise fun a a' => ∀ b b' k k', m.lookup a = some b →
      m.lookup a' = some b' → rank b = some k → rank b' = some k' → k' ≤ k := by
  rw [orderBy, List.pairwise_map]
  have hsorted := List.sortedGT_iff_pairwise.mp (sorted_sortedGT rank m)
  refine hsorted.imp_of_mem fun {x y} hx hy hlt b b' k k' hb hb' hk hk' => ?_
  obtain ⟨c, hc, hcx⟩ := mem_sorted.mp hx
  obtain ⟨c', hc', hcy⟩ := mem_sorted.mp hy
  rw [hb, Option.some.injEq] at hc
  rw [hb', Option.some.injEq] at hc'
  subst c c'
  rw [hk, Option.some.injEq] at hcx
  rw [hk', Option.some.injEq] at hcy
  rw [hcx, hcy]
  exact Prod.Lex.monotone_fst _ _ hlt.le

/-- A new entry whose rank is above every rank in the map is listed first. -/
theorem orderBy_insert_newest {m : AList fun _ : α => β} {a : α} {b : β} {k : κ} (ha : a ∉ m)
    (hk : rank b = some k)
    (hnew : ∀ a' b' k', m.lookup a' = some b' → rank b' = some k' → k' < k) :
    orderBy rank (m.insert a b) = a :: orderBy rank m := by
  have hranked : ranked rank (m.insert a b) = toLex (k, a) :: ranked rank m := by
    rw [ranked, AList.entries_insert_of_notMem ha, List.filterMap_cons]
    simp [ranked, hk]
  have hfirst : ∀ k' ∈ ranked rank m, toLex (k, a) ≥ k' := by
    intro k' hk'
    obtain ⟨b', hlookup, hrank⟩ :=
      mem_sorted.mp ((List.mem_insertionSort _).mpr hk' : k' ∈ sorted rank m)
    exact le_of_lt (Prod.Lex.left _ _ (hnew _ _ _ hlookup hrank))
  rw [orderBy, sorted, hranked, List.insertionSort_cons_of_forall_rel _ hfirst]
  rfl

/-- Erasing a key erases it from the listing and leaves the others in order. -/
theorem orderBy_erase (m : AList fun _ : α => β) (a : α) :
    orderBy rank (m.erase a) = (orderBy rank m).erase a := by
  have hsorted : sorted rank (m.erase a) =
      (sorted rank m).filter fun k => decide ((ofLex k).2 ≠ a) := by
    refine (sorted_sortedGT rank _).eq_of_mem_iff ?_ fun k => ?_
    · rw [List.sortedGT_iff_pairwise]
      exact (List.sortedGT_iff_pairwise.mp (sorted_sortedGT rank m)).filter _
    · rw [List.mem_filter, mem_sorted, mem_sorted]
      by_cases hka : (ofLex k).2 = a
      · have hnone : (m.erase a).lookup (ofLex k).2 = none := by rw [hka, AList.lookup_erase]
        simp [hka, hnone]
      · simp [hka, AList.lookup_erase_ne hka]
  rw [(orderBy_nodup rank m).erase_eq_filter, orderBy, hsorted, orderBy, List.filter_map]
  congr 1
  refine List.filter_congr fun k _ => ?_
  simp [bne, beq_eq_decide]

/-! ### Queries that leave values out -/

/-- The rank of a value that a query does not leave out. -/
def restrict (p : β → Bool) (rank : β → Option κ) (b : β) : Option κ :=
  if p b then rank b else none

omit [LinearOrder κ] [LinearOrder α] [DecidableEq α] in
theorem restrict_eq_some_iff {p : β → Bool} {b : β} {k : κ} :
    restrict p rank b = some k ↔ p b = true ∧ rank b = some k := by
  unfold restrict
  split <;> simp_all

/-- A list of ranked entries in strictly descending order that has the entries of the map is
its sorted list. -/
theorem eq_sorted_of_mem_iff {m : AList fun _ : α => β} {l : List (κ ×ₗ α)}
    (hl : l.Pairwise (· > ·))
    (hmem : ∀ k, k ∈ l ↔ ∃ b, m.lookup (ofLex k).2 = some b ∧ rank b = some (ofLex k).1) :
    sorted rank m = l := by
  refine (sorted_sortedGT rank m).eq_of_mem_iff (List.sortedGT_iff_pairwise.mpr hl) fun k => ?_
  rw [mem_sorted, hmem]

/-- A query that leaves values out lists the keys of the others. -/
theorem orderBy_restrict (p : β → Bool) (m : AList fun _ : α => β) :
    orderBy (restrict p rank) m = (orderBy rank m).filter fun a => (m.lookup a).any p := by
  have hsorted : sorted (restrict p rank) m =
      (sorted rank m).filter fun k => (m.lookup (ofLex k).2).any p := by
    refine eq_sorted_of_mem_iff
      ((List.sortedGT_iff_pairwise.mp (sorted_sortedGT rank m)).filter _) fun k => ?_
    simp only [List.mem_filter, mem_sorted, restrict_eq_some_iff]
    constructor
    · rintro ⟨⟨b, hlookup, hrank⟩, hp⟩
      rw [hlookup] at hp
      exact ⟨b, hlookup, hp, hrank⟩
    · rintro ⟨b, hlookup, hp, hrank⟩
      exact ⟨⟨b, hlookup, hrank⟩, by rw [hlookup]; exact hp⟩
  rw [orderBy, hsorted, orderBy, List.filter_map]
  rfl

/-- Where the values of one kind rank above all others, their keys are listed before the
others. -/
theorem orderBy_append (p : β → Bool) (m : AList fun _ : α => β)
    (hp : ∀ b b' k k', p b = true → p b' = false → rank b = some k → rank b' = some k' → k' < k) :
    orderBy rank m =
      orderBy (restrict p rank) m ++ orderBy (restrict (fun b => !p b) rank) m := by
  have hsorted : sorted rank m =
      sorted (restrict p rank) m ++ sorted (restrict (fun b => !p b) rank) m := by
    refine eq_sorted_of_mem_iff (List.pairwise_append.mpr
      ⟨List.sortedGT_iff_pairwise.mp (sorted_sortedGT _ m),
        List.sortedGT_iff_pairwise.mp (sorted_sortedGT _ m), ?_⟩) fun k => ?_
    · intro k hk k' hk'
      obtain ⟨b, -, hb⟩ := mem_sorted.mp hk
      obtain ⟨b', -, hb'⟩ := mem_sorted.mp hk'
      rw [restrict_eq_some_iff] at hb hb'
      exact Prod.Lex.left _ _ (hp b b' _ _ hb.1 (by simpa using hb'.1) hb.2 hb'.2)
    · simp only [List.mem_append, mem_sorted, restrict_eq_some_iff]
      constructor
      · rintro (⟨b, hlookup, -, hrank⟩ | ⟨b, hlookup, -, hrank⟩)
        · exact ⟨b, hlookup, hrank⟩
        · exact ⟨b, hlookup, hrank⟩
      · rintro ⟨b, hlookup, hrank⟩
        cases h : p b with
        | true => exact .inl ⟨b, hlookup, h, hrank⟩
        | false => exact .inr ⟨b, hlookup, by simp [h], hrank⟩
  simp only [orderBy, hsorted, List.map_append]

/-- Two maps whose keys rank alike are listed alike. -/
theorem orderBy_congr {γ ι : Type*} [LinearOrder ι] {rank' : γ → Option ι} {f : κ → ι}
    (hf : StrictMono f) {m : AList fun _ : α => β} {m' : AList fun _ : α => γ}
    (h : ∀ a, (m'.lookup a).bind rank' = ((m.lookup a).bind rank).map f) :
    orderBy rank' m' = orderBy rank m := by
  have hsorted : sorted rank' m' =
      (sorted rank m).map fun k => toLex (f (ofLex k).1, (ofLex k).2) := by
    refine eq_sorted_of_mem_iff ?_ fun k => ?_
    · rw [List.pairwise_map]
      refine (List.sortedGT_iff_pairwise.mp (sorted_sortedGT rank m)).imp fun {k k'} hlt => ?_
      rcases Prod.Lex.lt_iff.mp hlt with hrank | ⟨hrank, hkey⟩
      · exact Prod.Lex.left _ _ (hf hrank)
      · exact Prod.Lex.lt_iff.mpr (.inr ⟨congrArg f hrank, hkey⟩)
    · simp only [← Option.bind_eq_some_iff, List.mem_map, mem_sorted, h, Option.map_eq_some_iff]
      constructor
      · rintro ⟨k', hk', rfl⟩
        exact ⟨_, hk', rfl⟩
      · rintro ⟨r, hr, hfr⟩
        refine ⟨toLex (r, (ofLex k).2), hr, ?_⟩
        simp only [ofLex_toLex, hfr]
        rfl
  rw [orderBy, hsorted, orderBy, List.map_map]
  rfl

end Listing
