import Mathlib.Data.Option.Basic

/-!
# Runs of a machine

A machine is a function `step : σ → ε → Option σ`: the state after an event, or
`none` where the event cannot happen. A run is the list of its events. This
file states what every transition of a run satisfies, and reduces it to
facts about one transition through an invariant. Nothing here depends on a
particular program.
-/

namespace Machine

variable {σ ε : Type*} {step : σ → ε → Option σ}

/-- The state after all of the events, in order; `none` as soon as one of them
cannot happen. -/
def run (step : σ → ε → Option σ) : σ → List ε → Option σ
  | s, [] => some s
  | s, e :: es => (step s e).bind fun t => run step t es

/-- Every transition `s —e→ t` of the run satisfies `P s e t`. The run ends at
the first event that cannot happen, so nothing is asked of the events after it. -/
def Always (step : σ → ε → Option σ) (P : σ → ε → σ → Prop) : σ → List ε → Prop
  | _, [] => True
  | s, e :: es => ∀ t, step s e = some t → P s e t ∧ Always step P t es

@[simp] theorem run_nil (s : σ) : run step s [] = some s := rfl

theorem run_cons {s t : σ} {e : ε} (es : List ε) (h : step s e = some t) :
    run step s (e :: es) = run step t es := by
  simp [run, h]

/-- A run that takes at least one event takes its first transition. -/
theorem exists_step_of_run_cons {s u : σ} {e : ε} {es : List ε}
    (h : run step s (e :: es) = some u) : ∃ t, step s e = some t ∧ run step t es = some u :=
  Option.bind_eq_some_iff.mp h

/-- Runs compose: the events of the second run continue the first. -/
theorem run_append (s : σ) (es fs : List ε) :
    run step s (es ++ fs) = (run step s es).bind fun t => run step t fs := by
  induction es generalizing s with
  | nil => rfl
  | cons e es ih =>
    cases hstep : step s e with
    | none => simp [run, hstep]
    | some t => rw [List.cons_append, run_cons _ hstep, run_cons _ hstep, ih]

/-- A run is continued by a run from its end. -/
theorem run_trans {s t u : σ} {es fs : List ε} (hes : run step s es = some t)
    (hfs : run step t fs = some u) : run step s (es ++ fs) = some u := by
  rw [run_append, hes, Option.bind_some, hfs]

/-- A run can be cut anywhere. -/
theorem exists_of_run_append {s u : σ} {es fs : List ε} (h : run step s (es ++ fs) = some u) :
    ∃ t, run step s es = some t ∧ run step t fs = some u :=
  Option.bind_eq_some_iff.mp ((run_append s es fs).symm.trans h)

/-- What is left of a run after its beginning. -/
theorem run_of_run_append {s t u : σ} {es fs : List ε} (hes : run step s es = some t)
    (h : run step s (es ++ fs) = some u) : run step t fs = some u := by
  rwa [run_append, hes, Option.bind_some] at h

/-- A run is continued by a transition from its end. -/
theorem run_concat {s t u : σ} {es : List ε} {e : ε} (hes : run step s es = some t)
    (h : step t e = some u) : run step s (es ++ [e]) = some u :=
  run_trans hes (run_cons [] h)

/-- The last transition of a run. -/
theorem exists_step_of_run_concat {s u : σ} {es : List ε} {e : ε}
    (h : run step s (es ++ [e]) = some u) :
    ∃ t, run step s es = some t ∧ step t e = some u := by
  obtain ⟨t, ht, hlast⟩ := exists_of_run_append h
  obtain ⟨v, hstep, hv⟩ := exists_step_of_run_cons hlast
  cases hv
  exact ⟨t, ht, hstep⟩

theorem always_cons {P : σ → ε → σ → Prop} {s t : σ} {e : ε} {es : List ε}
    (hstep : step s e = some t) :
    Always step P s (e :: es) ↔ P s e t ∧ Always step P t es := by
  constructor
  · intro h
    exact h t hstep
  · intro h u hu
    rw [hstep, Option.some.injEq] at hu
    rwa [← hu]

/-- What every transition of a run satisfies can be computed where it can be computed
for one transition. -/
instance decidableAlways {P : σ → ε → σ → Prop} [∀ s e t, Decidable (P s e t)] :
    ∀ (s : σ) (es : List ε), Decidable (Always step P s es)
  | _, [] => isTrue trivial
  | s, e :: es =>
    match hstep : step s e with
    | none => isTrue fun t ht => by rw [hstep] at ht; cases ht
    | some t =>
      have := decidableAlways (P := P) t es
      decidable_of_iff _ (always_cons hstep).symm

/-- What is known of every event of a run is known of every transition. -/
theorem always_of_forall_mem {Q : ε → Prop} {es : List ε} (h : ∀ e ∈ es, Q e) (s : σ) :
    Always step (fun _ e _ => Q e) s es := by
  induction es generalizing s with
  | nil => trivial
  | cons e es ih =>
    intro t _
    exact ⟨h e List.mem_cons_self, ih (fun e' he' => h e' (List.mem_cons_of_mem _ he')) t⟩

theorem Always.mono {P Q : σ → ε → σ → Prop} (h : ∀ s e t, P s e t → Q s e t) {s : σ}
    {es : List ε} (hP : Always step P s es) : Always step Q s es := by
  induction es generalizing s with
  | nil => trivial
  | cons e es ih =>
    intro t ht
    obtain ⟨hPt, hPes⟩ := hP t ht
    exact ⟨h s e t hPt, ih hPes⟩

theorem Always.and {P Q : σ → ε → σ → Prop} {s : σ} {es : List ε} (hP : Always step P s es)
    (hQ : Always step Q s es) : Always step (fun s e t => P s e t ∧ Q s e t) s es := by
  induction es generalizing s with
  | nil => trivial
  | cons e es ih =>
    intro t ht
    obtain ⟨hPt, hPes⟩ := hP t ht
    obtain ⟨hQt, hQes⟩ := hQ t ht
    exact ⟨⟨hPt, hQt⟩, ih hPes hQes⟩

/-- An invariant that every transition preserves holds at the end of every run. -/
theorem run_invariant {I : σ → Prop} (hstep : ∀ s e t, I s → step s e = some t → I t)
    {s t : σ} {es : List ε} (hI : I s) (hrun : run step s es = some t) : I t := by
  induction es generalizing s with
  | nil =>
    rw [run_nil, Option.some.injEq] at hrun
    rwa [← hrun]
  | cons e es ih =>
    obtain ⟨u, hu, hrun⟩ := exists_step_of_run_cons hrun
    exact ih (hstep s e u hI hu) hrun

/-- What a state has in common with a record that is kept of the events alone: where every
transition keeps the relation, it holds at the end of every run. -/
theorem run_record {γ : Type*} {J : σ → γ → Prop} {after : γ → ε → γ}
    (hstep : ∀ s g e t, J s g → step s e = some t → J t (after g e))
    {s t : σ} {g : γ} {es : List ε} (hJ : J s g) (hrun : run step s es = some t) :
    J t (es.foldl after g) := by
  induction es generalizing s g with
  | nil =>
    rw [run_nil, Option.some.injEq] at hrun
    rwa [← hrun]
  | cons e es ih =>
    obtain ⟨u, hu, hrun⟩ := exists_step_of_run_cons hrun
    exact ih (hstep s g e u hJ hu) hrun

/-- What a state has in common with the events before it: where every transition that continues
a run keeps the relation, it holds at the end of every run. -/
theorem run_history {J : List ε → σ → Prop} {s₀ : σ}
    (hstep : ∀ es s e t, run step s₀ es = some s → J es s → step s e = some t → J (es ++ [e]) t)
    (hJ : J [] s₀) {es : List ε} {t : σ} (hrun : run step s₀ es = some t) : J es t := by
  have hcontinue : ∀ fs gs s, run step s₀ fs = some s → J fs s → run step s gs = some t →
      J (fs ++ gs) t := by
    intro fs gs
    induction gs generalizing fs with
    | nil =>
      intro s _ hs hgs
      rw [run_nil, Option.some.injEq] at hgs
      rwa [List.append_nil, ← hgs]
    | cons e gs ih =>
      intro s hfs hs hgs
      obtain ⟨u, hu, hgs⟩ := exists_step_of_run_cons hgs
      have hfse : run step s₀ (fs ++ [e]) = some u := run_concat hfs hu
      rw [← List.singleton_append, ← List.append_assoc]
      exact ih (fs ++ [e]) u hfse (hstep fs s e u hfs hs hu) hgs
  exact hcontinue [] es s₀ rfl hJ hrun

/-- An invariant that the transitions satisfying `C` preserve holds at the end
of every run whose transitions all satisfy `C`. -/
theorem Always.invariant {I : σ → Prop} {C : σ → ε → σ → Prop}
    (hstep : ∀ s e t, I s → step s e = some t → C s e t → I t)
    {s t : σ} {es : List ε} (hI : I s) (hC : Always step C s es)
    (hrun : run step s es = some t) : I t := by
  induction es generalizing s with
  | nil =>
    rw [run_nil, Option.some.injEq] at hrun
    rwa [← hrun]
  | cons e es ih =>
    obtain ⟨u, hu, hrun⟩ := exists_step_of_run_cons hrun
    have hCu := hC u hu
    exact ih (hstep s e u hI hu hCu.1) hCu.2 hrun

/-- Where the transitions that satisfy `C` preserve an invariant under which `C`
gives `P`, a run whose transitions all satisfy `C` has `P` throughout. -/
theorem Always.of_invariant {I : σ → Prop} {C P : σ → ε → σ → Prop}
    (hstep : ∀ s e t, I s → step s e = some t → C s e t → P s e t ∧ I t)
    {s : σ} {es : List ε} (hI : I s) (hC : Always step C s es) : Always step P s es := by
  induction es generalizing s with
  | nil => trivial
  | cons e es ih =>
    intro t ht
    obtain ⟨hCt, hCes⟩ := hC t ht
    obtain ⟨hP, hIt⟩ := hstep s e t hI ht hCt
    exact ⟨hP, ih hIt hCes⟩

/-- Where `C` and `P` say the same of every transition from a state that meets the
invariant, and such transitions preserve it, `C` holds throughout a run exactly
when `P` does. -/
theorem always_iff_of_invariant {I : σ → Prop} {C P : σ → ε → σ → Prop}
    (hiff : ∀ s e t, I s → step s e = some t → (C s e t ↔ P s e t))
    (hstep : ∀ s e t, I s → step s e = some t → C s e t → I t)
    {s : σ} (hI : I s) (es : List ε) : Always step C s es ↔ Always step P s es := by
  induction es generalizing s with
  | nil => exact Iff.rfl
  | cons e es ih =>
    refine forall_congr' fun t => forall_congr' fun ht => ?_
    rw [← hiff s e t hI ht]
    exact and_congr_right fun hC => ih (hstep s e t hI ht hC)

/-- What holds after every transition of a run, and at its start, holds wherever the run is
cut off. -/
theorem always_iff_forall_prefix {Q : σ → Prop} {s : σ} (hs : Q s) (es : List ε) :
    Always step (fun _ _ t => Q t) s es ↔ ∀ fs t, fs <+: es → run step s fs = some t → Q t := by
  induction es generalizing s with
  | nil =>
    refine ⟨fun _ fs t hfs hrun => ?_, fun _ => trivial⟩
    rw [List.prefix_nil.mp hfs, run_nil, Option.some.injEq] at hrun
    rwa [← hrun]
  | cons e es ih =>
    constructor
    · intro h fs t hfs hrun
      rcases List.prefix_cons_iff.mp hfs with rfl | ⟨gs, rfl, hgs⟩
      · rw [run_nil, Option.some.injEq] at hrun
        rwa [← hrun]
      · obtain ⟨u, hu, hrun⟩ := exists_step_of_run_cons hrun
        obtain ⟨hQ, hes⟩ := h u hu
        exact (ih hQ).mp hes gs t hgs hrun
    · intro h u hu
      have hQ : Q u := h [e] u (List.prefix_append [e] es) (run_cons [] hu)
      refine ⟨hQ, (ih hQ).mpr fun fs t hfs hrun => ?_⟩
      exact h (e :: fs) t ((List.prefix_cons_inj e).mpr hfs) ((run_cons fs hu).trans hrun)

/-! ### The outputs of a run -/

/-- What the transitions of a run put out, in order. -/
def outputs {β : Type*} (step : σ → ε → Option σ) (out : σ → ε → σ → List β) :
    σ → List ε → List β
  | _, [] => []
  | s, e :: es =>
    match step s e with
    | some t => out s e t ++ outputs step out t es
    | none => []

/-- What a state has in common with the outputs before it: where every transition keeps the
relation, it holds at the end of every run. -/
theorem run_outputs {β : Type*} {J : σ → List β → Prop} {out : σ → ε → σ → List β}
    (hstep : ∀ s l e t, J s l → step s e = some t → J t (l ++ out s e t))
    {s t : σ} {l : List β} {es : List ε} (hJ : J s l) (hrun : run step s es = some t) :
    J t (l ++ outputs step out s es) := by
  induction es generalizing s l with
  | nil =>
    rw [run_nil, Option.some.injEq] at hrun
    rwa [← hrun, outputs, List.append_nil]
  | cons e es ih =>
    obtain ⟨u, hu, hrun⟩ := exists_step_of_run_cons hrun
    rw [outputs]
    simp only [hu]
    rw [← List.append_assoc]
    exact ih (hstep s l e u hJ hu) hrun

/-- The same of a run whose transitions all satisfy `C`. -/
theorem Always.outputs {β : Type*} {J : σ → List β → Prop} {C : σ → ε → σ → Prop}
    {out : σ → ε → σ → List β}
    (hstep : ∀ s l e t, J s l → step s e = some t → C s e t → J t (l ++ out s e t))
    {s t : σ} {l : List β} {es : List ε} (hJ : J s l) (hC : Always step C s es)
    (hrun : run step s es = some t) : J t (l ++ Machine.outputs step out s es) := by
  induction es generalizing s l with
  | nil =>
    rw [run_nil, Option.some.injEq] at hrun
    rwa [← hrun, Machine.outputs, List.append_nil]
  | cons e es ih =>
    obtain ⟨u, hu, hrun⟩ := exists_step_of_run_cons hrun
    obtain ⟨hCu, hCes⟩ := hC u hu
    rw [Machine.outputs]
    simp only [hu]
    rw [← List.append_assoc]
    exact ih (hstep s l e u hJ hu hCu) hCes hrun

end Machine
