import Mathlib.Data.List.Perm.Basic

/-!
# Results in the order of arrival

Tasks that run side by side leave their results in the order in which they arrive,
which may be any order of the tasks. What is made of the results and shows the first of
them is independent of that order only where all results are the same. Nothing here
depends on a particular program.
-/

namespace Machine

variable {α β γ : Type*}

/-- Lists of equal elements have one order. -/
theorem eq_of_perm_of_forall_eq {l l' : List β} (hperm : l.Perm l')
    (hall : ∀ x ∈ l', ∀ y ∈ l', x = y) : l = l' := by
  cases l' with
  | nil => exact List.perm_nil.mp hperm
  | cons x l' =>
    have hreplicate : x :: l' = List.replicate (l'.length + 1) x := by
      rw [List.eq_replicate_iff]
      exact ⟨rfl, fun y hy => hall y hy x List.mem_cons_self⟩
    rw [hreplicate] at hperm ⊢
    exact List.perm_replicate.mp hperm

/-- Any task may be the first to arrive. -/
theorem exists_perm_cons {a : α} {tasks : List α} (h : a ∈ tasks) :
    ∃ l, (a :: l).Perm tasks := by
  obtain ⟨before, after, rfl⟩ := List.append_of_mem h
  exact ⟨before ++ after, List.perm_middle.symm⟩

/-- What shows the first result is the same for all orders of arrival exactly where the results
of all tasks are. -/
theorem orderIndependent_iff {tasks : List α} {result : α → Option β} (view : List β → γ)
    (hview : ∀ l l', view l = view l' → l.head? = l'.head?) :
    (∀ arrived : List α, arrived.Perm tasks →
      view (arrived.filterMap result) = view (tasks.filterMap result)) ↔
      ∀ x ∈ tasks.filterMap result, ∀ y ∈ tasks.filterMap result, x = y := by
  constructor
  · intro h
    have hfirst : ∀ x ∈ tasks.filterMap result, (tasks.filterMap result).head? = some x := by
      intro x hx
      obtain ⟨a, ha, hresult⟩ := List.mem_filterMap.mp hx
      obtain ⟨l, hl⟩ := exists_perm_cons ha
      rw [← hview _ _ (h _ hl), List.filterMap_cons_some hresult, List.head?_cons]
    intro x hx y hy
    exact Option.some.inj ((hfirst x hx).symm.trans (hfirst y hy))
  · intro hall arrived hperm
    rw [eq_of_perm_of_forall_eq (hperm.filterMap result) hall]

end Machine
