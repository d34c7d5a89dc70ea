import Mathlib.Data.List.Forall2

/-!
# Positions in lists

Facts about the elements of a list at their positions, before and after some are left out.
Nothing here depends on a particular program.
-/

namespace Lists

variable {α β : Type*}

/-- An element at a position splits the list there. -/
theorem exists_append_of_getElem? {l : List α} {i : ℕ} {a : α} (h : l[i]? = some a) :
    ∃ pre post, l = pre ++ a :: post ∧ pre.length = i := by
  obtain ⟨hlt, rfl⟩ := List.getElem?_eq_some_iff.mp h
  refine ⟨l.take i, l.drop (i + 1), ?_, by simp; omega⟩
  rw [List.getElem_cons_drop, List.take_append_drop]

/-- The elements of a list, position by position. -/
theorem filterMap_range_getElem? (l : List α) :
    (List.range l.length).filterMap (fun i => l[i]?) = l := by
  induction l with
  | nil => rfl
  | cons a l ih =>
    rw [List.length_cons, List.range_succ_eq_map, List.filterMap_cons, List.filterMap_map]
    simp only [List.getElem?_cons_zero, Function.comp_def, List.getElem?_cons_succ]
    rw [ih]

/-- The images that exist, next to what they are the images of. -/
theorem forall₂_filterMap (f : α → Option β) (l : List α) :
    List.Forall₂ (fun a b => f a = some b) (l.filter fun a => (f a).isSome) (l.filterMap f) := by
  induction l with
  | nil => exact .nil
  | cons a l ih =>
    cases ha : f a with
    | none => simpa [List.filter_cons, List.filterMap_cons, ha] using ih
    | some b => simpa [List.filter_cons, List.filterMap_cons, ha] using ih

/-- What stands at one position of two lists without their `i`-th elements stood at one position
of the lists. -/
theorem exists_getElem?_of_eraseIdx {l : List α} {l' : List β} {i j : ℕ} {a : α} {b : β}
    (ha : (l.eraseIdx i)[j]? = some a) (hb : (l'.eraseIdx i)[j]? = some b) :
    ∃ k : ℕ, l[k]? = some a ∧ l'[k]? = some b := by
  rw [List.getElem?_eraseIdx] at ha hb
  split at ha
  · rename_i hlt
    rw [if_pos hlt] at hb
    exact ⟨j, ha, hb⟩
  · rename_i hge
    rw [if_neg hge] at hb
    exact ⟨j + 1, ha, hb⟩

/-- The position of the `i`-th element in the list without the `j`-th one. -/
def afterErase (j i : ℕ) : ℕ := if j < i then i - 1 else i

theorem getElem?_eraseIdx_afterErase (l : List α) {i j : ℕ} (h : j ≠ i) :
    (l.eraseIdx j)[afterErase j i]? = l[i]? := by
  rw [List.getElem?_eraseIdx, afterErase]
  by_cases hlt : j < i
  · have hge : ¬i - 1 < j := by omega
    have hsucc : i - 1 + 1 = i := by omega
    rw [if_pos hlt, if_neg hge, hsucc]
  · have hlt' : i < j := by omega
    rw [if_neg hlt, if_pos hlt']

end Lists
