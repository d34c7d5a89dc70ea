import FeelBetter.Machine.Termination

/-!
# A queue that serves one job at a time

A serial queue takes jobs in at one end and serves them one after another. A job is a
machine of its own: it starts from what all jobs share, and leaves that behind when it has
its answer. Whatever happens in between, the jobs are answered in the order in which they
were taken in, each once, as if each of them had run to its end before the next one came.
Nothing here depends on a particular program.
-/

namespace Machine

variable {ι κ σ ε α : Type*}

/-- How jobs are served. -/
structure Service (ι κ σ ε α : Type*) where
  /-- The first state of a job, from what all jobs share. -/
  start : ι → κ → σ
  step : ι → σ → ε → Option σ
  /-- What a job leaves to the next one. -/
  shared : σ → κ
  /-- The answer of a job that has come to its end. -/
  answer : σ → Option α

/-- A queue that serves one job at a time. -/
structure SerialQueue (ι κ σ α : Type*) where
  shared : κ
  waiting : List ι
  /-- The job that is served, with its state. -/
  current : Option (ι × σ)
  answers : List (ι × α)

/-- What can happen to a queue. -/
inductive QueueEvent (ι ε : Type*) where
  | add (job : ι)
  | start
  /-- The job that is served takes a step. -/
  | work (e : ε)
  | finish

/-- The job that an event adds. -/
def QueueEvent.added : QueueEvent ι ε → List ι
  | .add job => [job]
  | _ => []

namespace SerialQueue

/-- The queue before its first job. -/
def empty (shared : κ) : SerialQueue ι κ σ α := ⟨shared, [], none, []⟩

/-- One step of the queue: `none` where the event cannot happen. -/
def step (service : Service ι κ σ ε α) (q : SerialQueue ι κ σ α) :
    QueueEvent ι ε → Option (SerialQueue ι κ σ α)
  | .add job => some { q with waiting := q.waiting ++ [job] }
  | .start =>
    match q.current, q.waiting with
    | none, job :: waiting =>
      some { q with waiting, current := some (job, service.start job q.shared) }
    | _, _ => none
  | .work e =>
    match q.current with
    | some (job, s) => (service.step job s e).map fun t => { q with current := some (job, t) }
    | none => none
  | .finish =>
    match q.current with
    | some (job, s) => (service.answer s).map fun a => { q with
        shared := service.shared s
        current := none
        answers := q.answers ++ [(job, a)] }
    | none => none

/-- The jobs of a queue in the order in which they were added. -/
def jobs (q : SerialQueue ι κ σ α) : List ι :=
  q.answers.map Prod.fst ++ (q.current.map Prod.fst).toList ++ q.waiting

variable {service : Service ι κ σ ε α} {q t : SerialQueue ι κ σ α} {e : QueueEvent ι ε} {k : κ}

/-- What one step of a queue does. -/
theorem step_cases (hstep : q.step service e = some t) :
    (∃ job, e = .add job ∧ t = { q with waiting := q.waiting ++ [job] }) ∨
    (∃ job waiting, e = .start ∧ q.current = none ∧ q.waiting = job :: waiting ∧
      t = { q with waiting, current := some (job, service.start job q.shared) }) ∨
    (∃ job s e' s', e = .work e' ∧ q.current = some (job, s) ∧
      service.step job s e' = some s' ∧ t = { q with current := some (job, s') }) ∨
    (∃ job s a, e = .finish ∧ q.current = some (job, s) ∧ service.answer s = some a ∧
      t = { q with
        shared := service.shared s, current := none, answers := q.answers ++ [(job, a)] }) := by
  cases e with
  | add job =>
    cases hstep
    exact .inl ⟨job, rfl, rfl⟩
  | start =>
    simp only [step] at hstep
    split at hstep
    · rename_i job waiting hcurrent hwaiting
      cases hstep
      exact .inr (.inl ⟨job, waiting, rfl, hcurrent, hwaiting, rfl⟩)
    · cases hstep
  | work e' =>
    simp only [step] at hstep
    split at hstep
    · rename_i job s hcurrent
      obtain ⟨s', hs', rfl⟩ := Option.map_eq_some_iff.mp hstep
      exact .inr (.inr (.inl ⟨job, s, e', s', rfl, hcurrent, hs', rfl⟩))
    · cases hstep
  | finish =>
    simp only [step] at hstep
    split at hstep
    · rename_i job s hcurrent
      obtain ⟨a, ha, rfl⟩ := Option.map_eq_some_iff.mp hstep
      exact .inr (.inr (.inr ⟨job, s, a, rfl, hcurrent, ha, rfl⟩))
    · cases hstep

/-! ### The order of the jobs -/

theorem jobs_step (hstep : q.step service e = some t) : t.jobs = q.jobs ++ e.added := by
  rcases step_cases hstep with ⟨job, rfl, rfl⟩ | ⟨job, waiting, rfl, hcurrent, hwaiting, rfl⟩ |
    ⟨job, s, e', s', rfl, hcurrent, -, rfl⟩ | ⟨job, s, a, rfl, hcurrent, -, rfl⟩
  · simp [jobs, QueueEvent.added]
  · simp [jobs, QueueEvent.added, hcurrent, hwaiting]
  · simp [jobs, QueueEvent.added, hcurrent]
  · simp [jobs, QueueEvent.added, hcurrent]

/-! ### One after another -/

/-- The jobs run to their answers, each on what the one before it has left. -/
inductive Served (service : Service ι κ σ ε α) : κ → List (ι × α) → κ → Prop
  | nil (k : κ) : Served service k [] k
  | snoc {k k' : κ} {answers : List (ι × α)} {job : ι} {es : List ε} {s : σ} {a : α}
      (hserved : Served service k answers k')
      (hrun : run (service.step job) (service.start job k') es = some s)
      (hanswer : service.answer s = some a) :
    Served service k (answers ++ [(job, a)]) (service.shared s)

/-- Without jobs what is shared stays as it is. -/
theorem Served.eq_of_nil {k' : κ} (h : Served service k [] k') : k' = k := by
  generalize hnil : ([] : List (ι × α)) = answers at h
  cases h with
  | nil => rfl
  | snoc => exact absurd hnil.symm (List.append_ne_nil_of_right_ne_nil _ (List.cons_ne_nil _ _))

/-- What each job keeps of what is shared, and makes of it, holds of all jobs. -/
theorem Served.invariant {I : κ → Prop} {P : ι → α → Prop}
    (hjob : ∀ job k es s a, I k → run (service.step job) (service.start job k) es = some s →
      service.answer s = some a → I (service.shared s) ∧ P job a)
    {k' : κ} {answers : List (ι × α)} (hI : I k) (h : Served service k answers k') :
    I k' ∧ ∀ x ∈ answers, P x.1 x.2 := by
  induction h with
  | nil => exact ⟨hI, nofun⟩
  | snoc hserved hrun hanswer ih =>
    obtain ⟨hI', hP⟩ := ih
    obtain ⟨hshared, hlast⟩ := hjob _ _ _ _ _ hI' hrun hanswer
    refine ⟨hshared, fun x hx => ?_⟩
    rcases List.mem_append.mp hx with hold | hnew
    · exact hP x hold
    · rwa [List.mem_singleton.mp hnew]

/-- A job has run on what the jobs before it have left. -/
theorem Served.getElem? {k' : κ} {answers : List (ι × α)} (h : Served service k answers k')
    {i : ℕ} {job : ι} {a : α} (hi : answers[i]? = some (job, a)) :
    ∃ before es s, Served service k (answers.take i) before ∧
      run (service.step job) (service.start job before) es = some s ∧
      service.answer s = some a := by
  induction h with
  | nil => cases hi
  | @snoc k' answers job' es s a' hserved hrun hanswer ih =>
    rcases Nat.lt_trichotomy i answers.length with hlt | rfl | hgt
    · rw [List.getElem?_append_left hlt] at hi
      rw [List.take_append_of_le_length hlt.le]
      exact ih hi
    · rw [List.getElem?_concat_length, Option.some.injEq] at hi
      cases hi
      rw [List.take_left]
      exact ⟨k', es, s, hserved, hrun, hanswer⟩
    · rw [List.getElem?_eq_none (by simp; omega)] at hi
      cases hi

/-- The answers are those of the jobs run one after another, and the job that is served has
run on what they have left. -/
structure Serialized (service : Service ι κ σ ε α) (k : κ) (q : SerialQueue ι κ σ α) : Prop where
  served : Served service k q.answers q.shared
  current : ∀ job s, q.current = some (job, s) →
    ∃ es, run (service.step job) (service.start job q.shared) es = some s

theorem serialized_empty : Serialized service k (empty k) where
  served := .nil k
  current := nofun

theorem Serialized.step (h : Serialized service k q) (hstep : q.step service e = some t) :
    Serialized service k t := by
  rcases step_cases hstep with ⟨job, -, rfl⟩ | ⟨job, waiting, -, -, -, rfl⟩ |
    ⟨job, s, e', s', -, hcurrent, hs', rfl⟩ | ⟨job, s, a, -, hcurrent, ha, rfl⟩
  · exact ⟨h.served, h.current⟩
  · refine ⟨h.served, ?_⟩
    rintro job' s' ⟨⟩
    exact ⟨[], rfl⟩
  · refine ⟨h.served, ?_⟩
    rintro job' s'' ⟨⟩
    obtain ⟨es, hes⟩ := h.current job s hcurrent
    exact ⟨es ++ [e'], run_concat hes hs'⟩
  · obtain ⟨es, hes⟩ := h.current job s hcurrent
    exact ⟨h.served.snoc hes ha, nofun⟩

/-! ### The end of the work -/

section Ends

variable {J : ι → σ → Prop} {μ : σ → ℕ} {bound : ι → ℕ}

/-- Every job comes to an end: its steps lower a measure, and where it can take none it has an
answer. -/
structure Ends (service : Service ι κ σ ε α) (J : ι → σ → Prop) (μ : σ → ℕ) (bound : ι → ℕ) :
    Prop where
  start : ∀ job k, J job (service.start job k) ∧ μ (service.start job k) ≤ bound job
  step : ∀ job s e t, J job s → service.step job s e = some t → J job t ∧ μ t < μ s
  answered : ∀ job s, J job s → Stuck (service.step job) s → (service.answer s).isSome

/-- How much is left to do. -/
def rank (μ : σ → ℕ) (bound : ι → ℕ) (q : SerialQueue ι κ σ α) : ℕ :=
  (q.waiting.map fun job => bound job + 2).sum + q.current.elim 0 fun x => μ x.2 + 1

/-- The job that is served satisfies what jobs satisfy. -/
def Sound (J : ι → σ → Prop) (q : SerialQueue ι κ σ α) : Prop :=
  ∀ job s, q.current = some (job, s) → J job s

/-- Every step that adds no job takes something from what is left to do. -/
theorem Sound.step (hends : Ends service J μ bound) (h : Sound J q)
    (hstep : q.step service e = some t) :
    Sound J t ∧ t.rank μ bound + (if e.added = [] then 1 else 0) ≤
      q.rank μ bound + (e.added.map fun job => bound job + 2).sum := by
  rcases step_cases hstep with ⟨job, rfl, rfl⟩ | ⟨job, waiting, rfl, hcurrent, hwaiting, rfl⟩ |
    ⟨job, s, e', s', rfl, hcurrent, hs', rfl⟩ | ⟨job, s, a, rfl, hcurrent, -, rfl⟩
  · refine ⟨h, ?_⟩
    simp only [rank, QueueEvent.added, List.map_append, List.sum_append, List.map_cons,
      List.map_nil, List.sum_cons, List.sum_nil, List.cons_ne_nil, if_false]
    omega
  · obtain ⟨hJ, hle⟩ := hends.start job q.shared
    refine ⟨?_, ?_⟩
    · rintro job' s' ⟨⟩
      exact hJ
    · simp only [rank, QueueEvent.added, hwaiting, hcurrent, Option.elim_some, Option.elim_none,
        List.map_cons, List.sum_cons, List.map_nil, List.sum_nil, if_true]
      omega
  · obtain ⟨hJ, hlt⟩ := hends.step job s e' s' (h job s hcurrent) hs'
    refine ⟨?_, ?_⟩
    · rintro job' s'' ⟨⟩
      exact hJ
    · simp only [rank, QueueEvent.added, hcurrent, Option.elim_some, List.map_nil, List.sum_nil,
        if_true]
      omega
  · refine ⟨nofun, ?_⟩
    simp only [rank, QueueEvent.added, hcurrent, Option.elim_some, Option.elim_none, List.map_nil,
      List.sum_nil, if_true]
    omega

/-- Where nothing can happen but that a job is added, all jobs are answered. -/
theorem Sound.idle (hends : Ends service J μ bound) (h : Sound J q)
    (hstuck : ∀ e : QueueEvent ι ε, e.added = [] → q.step service e = none) :
    q.current = none ∧ q.waiting = [] := by
  have hcurrent : q.current = none := by
    by_contra hsome
    obtain ⟨⟨job, s⟩, hs⟩ := Option.ne_none_iff_exists'.mp hsome
    have hwork : Stuck (service.step job) s := by
      intro e
      have hnone := hstuck (.work e) rfl
      simpa only [SerialQueue.step, hs, Option.map_eq_none_iff] using hnone
    obtain ⟨a, ha⟩ := Option.isSome_iff_exists.mp (hends.answered job s (h job s hs) hwork)
    have hfinish := hstuck .finish rfl
    simp [SerialQueue.step, hs, ha] at hfinish
  refine ⟨hcurrent, ?_⟩
  cases hwaiting : q.waiting with
  | nil => rfl
  | cons job waiting =>
    have hstart := hstuck .start rfl
    simp [SerialQueue.step, hcurrent, hwaiting] at hstart

end Ends

/-! ### Answers that are ready -/

section Ready

/-- A job keeps its answer. -/
def Steady (service : Service ι κ σ ε α) : Prop :=
  ∀ job s e t a, service.step job s e = some t → service.answer s = some a →
    service.answer t = some a

/-- The answers, with that of the job that is served, if it has one. -/
def ready (service : Service ι κ σ ε α) (q : SerialQueue ι κ σ α) : List (ι × α) :=
  q.answers ++ (q.current.bind fun x => (service.answer x.2).map fun a => (x.1, a)).toList

/-- The jobs that have no answer, in the order in which they were added. -/
def unready (service : Service ι κ σ ε α) (q : SerialQueue ι κ σ α) : List ι :=
  ((q.current.filter fun x => (service.answer x.2).isNone).map Prod.fst).toList ++ q.waiting

/-- The answers that become ready from one state to the next. -/
def readied (service : Service ι κ σ ε α) (q t : SerialQueue ι κ σ α) : List (ι × α) :=
  (t.ready service).drop (q.ready service).length

/-- The answers become ready in the order of the jobs. -/
theorem exists_ready_step (hsteady : Steady service) (hstep : q.step service e = some t) :
    ∃ l, t.ready service = q.ready service ++ l ∧
      q.unready service ++ e.added = l.map Prod.fst ++ t.unready service := by
  rcases step_cases hstep with ⟨job, rfl, rfl⟩ | ⟨job, waiting, rfl, hcurrent, hwaiting, rfl⟩ |
    ⟨job, s, e', s', rfl, hcurrent, hs', rfl⟩ | ⟨job, s, a, rfl, hcurrent, ha, rfl⟩
  · exact ⟨[], by simp [ready], by simp [unready, QueueEvent.added]⟩
  · cases hstart : service.answer (service.start job q.shared) with
    | none =>
      exact ⟨[], by simp [ready, hcurrent, hstart],
        by simp [unready, QueueEvent.added, hcurrent, hwaiting, hstart, Option.filter_some]⟩
    | some a =>
      exact ⟨[(job, a)], by simp [ready, hcurrent, hstart],
        by simp [unready, QueueEvent.added, hcurrent, hwaiting, hstart, Option.filter_some]⟩
  · cases hs : service.answer s with
    | some a =>
      have ht := hsteady job s e' s' a hs' hs
      exact ⟨[], by simp [ready, hcurrent, hs, ht],
        by simp [unready, QueueEvent.added, hcurrent, hs, ht, Option.filter_some]⟩
    | none =>
      cases ht : service.answer s' with
      | none =>
        exact ⟨[], by simp [ready, hcurrent, hs, ht],
          by simp [unready, QueueEvent.added, hcurrent, hs, ht, Option.filter_some]⟩
      | some a =>
        exact ⟨[(job, a)], by simp [ready, hcurrent, hs, ht],
          by simp [unready, QueueEvent.added, hcurrent, hs, ht, Option.filter_some]⟩
  · exact ⟨[], by simp [ready, hcurrent, ha], by simp [unready, QueueEvent.added, hcurrent, ha]⟩

/-- What has become ready and what has not are in the order of the jobs. -/
theorem unready_step (hsteady : Steady service) (hstep : q.step service e = some t) :
    q.unready service ++ e.added = (q.readied service t).map Prod.fst ++ t.unready service := by
  obtain ⟨l, hready, hunready⟩ := exists_ready_step hsteady hstep
  rw [hunready, readied, hready, List.drop_left]

/-- The jobs that have no answer are among the jobs. -/
theorem mem_jobs_of_mem_unready {job : ι} (h : job ∈ q.unready service) : job ∈ q.jobs := by
  rcases List.mem_append.mp h with hcurrent | hwaiting
  · obtain ⟨x, hx, rfl⟩ := Option.map_eq_some_iff.mp (Option.mem_toList.mp hcurrent)
    have hserved := (Option.filter_eq_some_iff.mp hx).1
    simp [jobs, hserved]
  · exact List.mem_append_right _ hwaiting

/-- Nothing becomes ready where nothing happens. -/
theorem readied_self : q.readied service q = [] := List.drop_length

end Ready

end SerialQueue

end Machine
