import FeelBetter.Machine.Runs

/-!
# Simulation

A machine is explained by a simpler one where each of its transitions asks the simpler machine
for some events, which may be none, and puts out what these put out there. What is proved
of one transition holds of whole runs: the simpler machine can follow, and the outputs are
the same. Nothing here depends on a particular program.
-/

namespace Machine

variable {σ τ ε δ β : Type*} {step : σ → ε → Option σ} {abstract : τ → δ → Option τ}

/-- The outputs of a run that is continued. -/
theorem outputs_append {out : σ → ε → σ → List β} {s t : σ} {es : List ε}
    (hrun : run step s es = some t) (fs : List ε) :
    outputs step out s (es ++ fs) = outputs step out s es ++ outputs step out t fs := by
  induction es generalizing s with
  | nil =>
    rw [run_nil, Option.some.injEq] at hrun
    rw [hrun]
    rfl
  | cons e es ih =>
    obtain ⟨u, hu, hrun⟩ := exists_step_of_run_cons hrun
    simp only [List.cons_append, outputs, hu]
    rw [ih hrun, List.append_assoc]

/-- The transitions from states that `R` relates, with events that satisfy `C`, ask the abstract
machine for events that keep the relation and have the same outputs. -/
def Simulates (step : σ → ε → Option σ) (abstract : τ → δ → Option τ) (R : σ → τ → Prop)
    (C : σ → ε → Prop) (ask : σ → ε → σ → List δ) (out : σ → ε → σ → List β)
    (out' : τ → δ → τ → List β) : Prop :=
  ∀ s e t u, R s u → C s e → step s e = some t →
    ∃ u', run abstract u (ask s e t) = some u' ∧ R t u' ∧
      out s e t = outputs abstract out' u (ask s e t)

/-- The abstract machine follows a run through all the events that it is asked for. -/
theorem Simulates.run_sim {R : σ → τ → Prop} {C : σ → ε → Prop} {ask : σ → ε → σ → List δ}
    {out : σ → ε → σ → List β} {out' : τ → δ → τ → List β}
    (h : Simulates step abstract R C ask out out') {s t : σ} {u : τ} {es : List ε} (hR : R s u)
    (hC : Always step (fun s e _ => C s e) s es) (hrun : run step s es = some t) :
    ∃ u', run abstract u (outputs step ask s es) = some u' ∧ R t u' ∧
      outputs step out s es = outputs abstract out' u (outputs step ask s es) := by
  induction es generalizing s u with
  | nil =>
    rw [run_nil, Option.some.injEq] at hrun
    exact ⟨u, rfl, hrun ▸ hR, rfl⟩
  | cons e es ih =>
    obtain ⟨s', hs', hrun⟩ := exists_step_of_run_cons hrun
    obtain ⟨hCe, hCes⟩ := hC s' hs'
    obtain ⟨v, hv, hRv, hout⟩ := h s e s' u hR hCe hs'
    obtain ⟨u', hu', hRu', houts⟩ := ih hRv hCes hrun
    have hask : outputs step ask s (e :: es) = ask s e s' ++ outputs step ask s' es := by
      simp only [outputs, hs']
    refine ⟨u', ?_, hRu', ?_⟩
    · rw [hask]
      exact run_trans hv hu'
    · rw [hask, outputs_append hv, ← hout, ← houts]
      simp only [outputs, hs']

/-! ### Events that are picked -/

variable {ε' : Type*} {step' : σ → ε' → Option σ} {pick : ε → Option ε'} {C : σ → ε → σ → Prop}

/-- The transitions that satisfy `C` are those of a machine on the same states, for the events that
are picked, and the others leave the state as it is. -/
def Picks (step : σ → ε → Option σ) (step' : σ → ε' → Option σ) (pick : ε → Option ε')
    (C : σ → ε → σ → Prop) : Prop :=
  ∀ s e t, C s e t → step s e = some t →
    (∀ e' ∈ pick e, step' s e' = some t) ∧ (pick e = none → t = s)

/-- The events that are picked from a run are a run. -/
theorem Picks.run_filterMap (h : Picks step step' pick C) {s t : σ} {es : List ε}
    (hC : Always step C s es) (hrun : run step s es = some t) :
    run step' s (es.filterMap pick) = some t := by
  induction es generalizing s with
  | nil => exact hrun
  | cons e es ih =>
    obtain ⟨u, hu, hrest⟩ := exists_step_of_run_cons hrun
    obtain ⟨hCe, hCes⟩ := hC u hu
    obtain ⟨hpicked, hleft⟩ := h s e u hCe hu
    cases hpick : pick e with
    | none =>
      obtain rfl := hleft hpick
      rw [List.filterMap_cons_none hpick]
      exact ih hCes hrest
    | some e' =>
      rw [List.filterMap_cons_some hpick, run_cons _ (hpicked e' hpick)]
      exact ih hCes hrest

/-- The two runs have the same transitions, up to those that leave the state as it is. -/
theorem Picks.always_filterMap_iff (h : Picks step step' pick C) {P : σ → ε' → σ → Prop} {s t : σ}
    {es : List ε} (hC : Always step C s es) (hrun : run step s es = some t) :
    Always step' P s (es.filterMap pick) ↔
      Always step (fun s e t => ∀ e' ∈ pick e, P s e' t) s es := by
  induction es generalizing s with
  | nil => exact Iff.rfl
  | cons e es ih =>
    obtain ⟨u, hu, hrest⟩ := exists_step_of_run_cons hrun
    obtain ⟨hCe, hCes⟩ := hC u hu
    obtain ⟨hpicked, hleft⟩ := h s e u hCe hu
    rw [always_cons hu, ← ih hCes hrest]
    cases hpick : pick e with
    | none =>
      obtain rfl := hleft hpick
      rw [List.filterMap_cons_none hpick]
      exact (and_iff_right nofun).symm
    | some e' =>
      rw [List.filterMap_cons_some hpick, always_cons (hpicked e' hpick)]
      simp only [Option.mem_def, Option.some.injEq, forall_eq']

end Machine
