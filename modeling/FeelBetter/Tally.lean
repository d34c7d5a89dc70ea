import Mathlib.Algebra.BigOperators.Group.List.Basic
import Mathlib.Algebra.Ring.Nat
import Mathlib.Data.List.AList
import Mathlib.Data.List.Induction

/-!
# Tallies

A tally counts the elements of a list in a finite map that starts empty, by adding one to
the number of each. The total of a weight over the values of a finite map is what a
tally of the values comes to, and it changes with an update by the weights of the
two values. Maps, keys and weights are arbitrary here.
-/

namespace Tally

variable {α β : Type*} [DecidableEq α]

/-- Add one to the number of an element; an element without a number has zero. -/
def count (numbers : AList fun _ : α => ℤ) (a : α) : AList fun _ : α => ℤ :=
  numbers.insert a ((numbers.lookup a).getD 0 + 1)

/-- The elements of a list with their numbers. -/
def tally (l : List α) : AList fun _ : α => ℤ := l.foldl count ∅

theorem lookup_count_self (numbers : AList fun _ : α => ℤ) (a : α) :
    (count numbers a).lookup a = some ((numbers.lookup a).getD 0 + 1) :=
  AList.lookup_insert numbers

theorem lookup_count_of_ne (numbers : AList fun _ : α => ℤ) {a b : α} (h : a ≠ b) :
    (count numbers b).lookup a = numbers.lookup a :=
  AList.lookup_insert_ne h

/-- Every occurrence in the list is counted once, and nothing else has a number. -/
theorem lookup_tally (l : List α) (a : α) :
    (tally l).lookup a = if l.count a = 0 then none else some (l.count a : ℤ) := by
  induction l using List.reverseRecOn with
  | nil => rfl
  | append_singleton l b ih =>
    have htally : tally (l ++ [b]) = count (tally l) b := List.foldl_concat ..
    rw [htally, List.count_append]
    by_cases h : a = b
    · subst h
      have hnumber : ((tally l).lookup a).getD 0 = (l.count a : ℤ) := by
        rw [ih]
        split_ifs with hzero
        · simp [hzero]
        · rfl
      rw [lookup_count_self, hnumber, List.count_singleton_self, if_neg (Nat.succ_ne_zero _)]
      push_cast
      rfl
    · have hzero : [b].count a = 0 := List.count_eq_zero_of_not_mem (by simpa using h)
      rw [lookup_count_of_ne _ h, ih, hzero, Nat.add_zero]

/-- Elements that are known by their images are counted together where these are the same. -/
theorem lookup_tally_map (g : β → α) (l : List β) (b : β) :
    (tally (l.map g)).lookup (g b) =
      if l.countP (fun b' => g b' = g b) = 0 then none
      else some (l.countP fun b' => g b' = g b : ℤ) := by
  have hcount : (l.map g).count (g b) = l.countP fun b' => g b' = g b := by
    simp only [List.count, List.countP_map, Function.comp_def, beq_eq_decide]
  rw [lookup_tally, hcount]

/-- What has a number is an element. -/
theorem mem_of_mem_tally {l : List α} {a : α} (h : a ∈ tally l) : a ∈ l := by
  rw [← AList.lookup_isSome, lookup_tally] at h
  split_ifs at h with hzero
  · cases h
  · exact List.count_pos_iff.mp (Nat.pos_of_ne_zero hzero)

/-- What is filtered out weighs nothing. -/
theorem sum_map_filter (p : β → Bool) (weight : β → ℕ) (l : List β) :
    ((l.filter p).map weight).sum = (l.map fun b => if p b then weight b else 0).sum := by
  induction l with
  | nil => rfl
  | cons b l ih =>
    rw [List.map_cons, List.sum_cons, ← ih]
    cases h : p b with
    | true => rw [List.filter_cons_of_pos h, List.map_cons, List.sum_cons, if_pos rfl]
    | false => rw [List.filter_cons_of_neg (by simp [h]), if_neg (by simp), Nat.zero_add]

/-- As many elements of lists of lists, some of which are missing, have a property as those of
the single lists together. -/
theorem countP_flatten_filterMap {γ : Type*} (p : γ → Bool) (f : β → Option (List γ))
    (l : List β) :
    (l.filterMap f).flatten.countP p = (l.map fun b => ((f b).getD []).countP p).sum := by
  induction l with
  | nil => rfl
  | cons b l ih =>
    rw [List.map_cons, List.sum_cons, ← ih]
    cases h : f b with
    | none => rw [List.filterMap_cons_none h, Option.getD_none, List.countP_nil, Nat.zero_add]
    | some elements =>
      rw [List.filterMap_cons_some h, List.flatten_cons, List.countP_append, Option.getD_some]

/-- The sum of a weight over the values of a map. -/
def total (weight : β → ℕ) (m : AList fun _ : α => β) : ℕ :=
  (m.entries.map fun e => weight e.2).sum

/-- An erased value is taken away from the total. -/
theorem total_erase (weight : β → ℕ) (m : AList fun _ : α => β) (a : α) :
    total weight (m.erase a) + (m.lookup a).elim 0 weight = total weight m := by
  by_cases h : a ∈ m
  · obtain ⟨b, before, after, -, hentries, herase⟩ := List.exists_of_kerase h
    have hlookup : m.lookup a = some b := by
      rw [← Option.mem_def, AList.mem_lookup_iff, hentries]
      simp
    have hkerase : (m.erase a).entries = before ++ after := herase
    rw [hlookup, total, total, hkerase, hentries]
    simp only [List.map_append, List.map_cons, List.sum_append, List.sum_cons, Option.elim_some]
    omega
  · have herase : m.erase a = m := AList.ext (List.kerase_of_notMem_keys h)
    rw [herase, AList.lookup_eq_none.mpr h]
    rfl

/-- An inserted value takes the place of the one before in the total. -/
theorem total_insert (weight : β → ℕ) (m : AList fun _ : α => β) (a : α) (b : β) :
    total weight (m.insert a b) + (m.lookup a).elim 0 weight = total weight m + weight b := by
  have hinsert : total weight (m.insert a b) = weight b + total weight (m.erase a) := by
    rw [total, AList.entries_insert, List.map_cons, List.sum_cons]
    rfl
  have herase := total_erase weight m a
  omega

/-- Two maps have the same total where every key has the same weight in both. -/
theorem total_congr {γ : Type*} {weight : β → ℕ} {weight' : γ → ℕ} (f : γ → β)
    (hweight : ∀ c, weight (f c) = weight' c) {m : AList fun _ : α => β} {m' : AList fun _ : α => γ}
    (h : ∀ a, m.lookup a = (m'.lookup a).map f) : total weight m = total weight' m' := by
  let e : (Σ _ : α, γ) → Σ _ : α, β := Sigma.map id fun _ => f
  have hkeys : (m'.entries.map e).NodupKeys := by
    have hkeep : (m'.entries.map e).keys = m'.entries.keys := by
      rw [List.keys, List.map_map]
      rfl
    rw [List.NodupKeys, hkeep]
    exact m'.nodupKeys
  have hperm : m.entries.Perm (m'.entries.map e) := by
    refine List.lookup_ext m.nodupKeys hkeys fun a b => ?_
    rw [List.dlookup_map₂ a]
    exact Eq.to_iff (congrArg (b ∈ ·) (h a))
  calc total weight m
    _ = ((m'.entries.map e).map fun e => weight e.2).sum := (hperm.map _).sum_eq
    _ = total weight' m' := by
      rw [List.map_map, total]
      simp only [Function.comp_def, e, Sigma.map, hweight]

end Tally
