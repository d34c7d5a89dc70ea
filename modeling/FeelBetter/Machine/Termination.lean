import FeelBetter.Machine.Runs
import Mathlib.Algebra.BigOperators.Group.List.Basic
import Mathlib.Algebra.Ring.Nat

/-!
# Machines that come to an end

A machine whose every transition lowers a measure has no run longer than the
measure of its first state, and every run of it can be continued to a state in
which nothing can happen. The measure of a list of tasks is the sum of their
measures. Nothing here depends on a particular program.
-/

namespace Machine

variable {σ ε : Type*} {step : σ → ε → Option σ}

/-- Nothing can happen. -/
def Stuck (step : σ → ε → Option σ) (s : σ) : Prop := ∀ e, step s e = none

section Measure

variable {I : σ → Prop} {μ : σ → ℕ}

/-- Where every transition with an event of some kind lowers the measure, a run of such events
is no longer than what the measure loses. -/
theorem length_add_le_of_forall_mem {Q : ε → Prop}
    (hstep : ∀ s e t, I s → Q e → step s e = some t → I t ∧ μ t < μ s)
    {s t : σ} {es : List ε} (hI : I s) (hQ : ∀ e ∈ es, Q e) (hrun : run step s es = some t) :
    es.length + μ t ≤ μ s := by
  induction es generalizing s with
  | nil =>
    rw [run_nil, Option.some.injEq] at hrun
    simp [hrun]
  | cons e es ih =>
    obtain ⟨hQe, hQes⟩ := List.forall_mem_cons.mp hQ
    obtain ⟨u, hu, hrun⟩ := exists_step_of_run_cons hrun
    obtain ⟨hIu, hfirst⟩ := hstep s e u hI hQe hu
    have hrest := ih hIu hQes hrun
    rw [List.length_cons]
    omega

/-- Every transition of a run takes one from the measure. -/
theorem length_add_le_of_run (hstep : ∀ s e t, I s → step s e = some t → I t ∧ μ t < μ s)
    {s t : σ} {es : List ε} (hI : I s) (hrun : run step s es = some t) :
    es.length + μ t ≤ μ s :=
  length_add_le_of_forall_mem (Q := fun _ => True) (fun s e t hI _ h => hstep s e t hI h) hI
    (fun _ _ => trivial) hrun

/-- A run can be continued with events of some kind until none of them can happen. -/
theorem exists_run_none_of {Q : ε → Prop}
    (hstep : ∀ s e t, I s → Q e → step s e = some t → I t ∧ μ t < μ s) {s : σ} (hI : I s) :
    ∃ es t, (∀ e ∈ es, Q e) ∧ run step s es = some t ∧ ∀ e, Q e → step t e = none := by
  induction hμ : μ s using Nat.strongRecOn generalizing s with
  | _ n ih =>
    by_cases hstuck : ∀ e, Q e → step s e = none
    · exact ⟨[], s, nofun, rfl, hstuck⟩
    · push Not at hstuck
      obtain ⟨e, hQ, he⟩ := hstuck
      obtain ⟨t, ht⟩ := Option.ne_none_iff_exists'.mp he
      obtain ⟨hIt, hlt⟩ := hstep s e t hI hQ ht
      obtain ⟨es, u, hQs, hrun, hend⟩ := ih (μ t) (hμ ▸ hlt) hIt rfl
      exact ⟨e :: es, u, List.forall_mem_cons.mpr ⟨hQ, hQs⟩, by rw [run_cons es ht, hrun], hend⟩

/-- A run can be continued until nothing can happen. -/
theorem exists_run_stuck (hstep : ∀ s e t, I s → step s e = some t → I t ∧ μ t < μ s) {s : σ}
    (hI : I s) : ∃ es t, run step s es = some t ∧ Stuck step t := by
  obtain ⟨es, t, -, hrun, hstuck⟩ := exists_run_none_of (Q := fun _ => True)
    (fun s e t hI _ h => hstep s e t hI h) hI
  exact ⟨es, t, hrun, fun e => hstuck e trivial⟩

end Measure

/-! ### Tasks -/

section Tasks

variable {α : Type*} {f : α → ℕ} {tasks : List α} {task : α}

/-- The tasks after one of them is replaced. -/
theorem of_getElem?_set {i j : ℕ} {task' : α} (h : (tasks.set i task')[j]? = some task) :
    (j = i ∧ task = task') ∨ (j ≠ i ∧ tasks[j]? = some task) := by
  rw [List.getElem?_set] at h
  split at h
  · rename_i heq
    split at h
    · cases h
      exact .inl ⟨heq.symm, rfl⟩
    · cases h
  · rename_i hne
    exact .inr ⟨fun heq => hne heq.symm, h⟩

/-- A task is replaced by itself. -/
theorem set_of_getElem? {i : ℕ} (h : tasks[i]? = some task) : tasks.set i task = tasks := by
  obtain ⟨hlt, rfl⟩ := List.getElem?_eq_some_iff.mp h
  exact List.set_getElem_self hlt

/-- What a task and its replacement share stays. -/
theorem map_set_of_eq {β : Type*} {i : ℕ} {task' : α} {g : α → β} (h : tasks[i]? = some task)
    (hg : g task' = g task) : (tasks.set i task').map g = tasks.map g := by
  rw [List.map_set, hg]
  apply set_of_getElem?
  rw [List.getElem?_map, h, Option.map_some]

/-- The measure of the tasks changes by that of the task that is replaced. -/
theorem sum_map_set {i : ℕ} (h : tasks[i]? = some task) (f : α → ℕ) (task' : α) :
    ((tasks.set i task').map f).sum + f task = (tasks.map f).sum + f task' := by
  induction tasks generalizing i with
  | nil => simp at h
  | cons head tasks ih =>
    cases i with
    | zero =>
      rw [List.getElem?_cons_zero, Option.some.injEq] at h
      simp only [List.set_cons_zero, List.map_cons, List.sum_cons, h]
      omega
    | succ i =>
      have hrest := ih (i := i) h
      simp only [List.set_cons_succ, List.map_cons, List.sum_cons]
      omega

/-- The sum of measures that are not above one is not above the number of tasks. -/
theorem sum_map_le_length (hle : ∀ task ∈ tasks, f task ≤ 1) :
    (tasks.map f).sum ≤ tasks.length := by
  induction tasks with
  | nil => simp
  | cons head tasks ih =>
    obtain ⟨hhead, htasks⟩ := List.forall_mem_cons.mp hle
    have hrest := ih htasks
    rw [List.map_cons, List.sum_cons, List.length_cons]
    omega

/-- It is their number exactly where all of them have the measure one. -/
theorem sum_map_eq_length_iff (hle : ∀ task ∈ tasks, f task ≤ 1) :
    (tasks.map f).sum = tasks.length ↔ ∀ task ∈ tasks, f task = 1 := by
  induction tasks with
  | nil => simp
  | cons head tasks ih =>
    obtain ⟨hhead, htasks⟩ := List.forall_mem_cons.mp hle
    have hsum := sum_map_le_length htasks
    rw [List.forall_mem_cons, ← ih htasks, List.map_cons, List.sum_cons, List.length_cons]
    omega

end Tasks

end Machine
