import FeelBetter.Sentiments

/-!
# The home screen over the stores

The home screen asks for the last week of the signed-in user whenever it appears. The server
answers a query at some moment after it was made, and its completion runs at some later one;
between them documents may be written, and another user may sign in. So what the screen shows
is what the stores held at an earlier moment, and which moment that is differs between the
trends, the chart and the keywords.
-/

namespace FeelBetter

open Machine

/-! ### The sections of the table -/

namespace Home

/-- The table has the sections for the current trends, and the current keywords. Only the points
of the chart may be those of other trends, which are as negative. -/
def Laid (T : List ℤ → Prop) (s : Home) : Prop :=
  T s.trends ∧ ∃ graphPoints, T graphPoints ∧ isNegative graphPoints = isNegative s.trends ∧
    s.cells = homeCells graphPoints s.keywordDictionary

/-- The trends that an event delivers, if it delivers any, satisfy `T`. -/
def Brings (T : List ℤ → Prop) (e : HomeEvent) : Prop :=
  ∀ trends, e = .sentiments (.ok trends) → T trends

theorem laid_start {T : List ℤ → Prop} (h : T [0]) : Laid T start :=
  ⟨h, [0], h, rfl, rfl⟩

theorem Laid.mono {T T' : List ℤ → Prop} (hT : ∀ trends, T trends → T' trends) {s : Home}
    (h : Laid T s) : Laid T' s := by
  obtain ⟨htrends, graphPoints, hpoints, hnegative, hcells⟩ := h
  exact ⟨hT _ htrends, graphPoints, hT _ hpoints, hnegative, hcells⟩

/-- New trends reload the table where it has the sections of others. -/
theorem Laid.setTrends {T : List ℤ → Prop} {s : Home} (h : Laid T s) {trends : List ℤ}
    (hT : T trends) : Laid T (s.setTrends trends) := by
  obtain ⟨-, graphPoints, hpoints, hnegative, hcells⟩ := h
  unfold Home.setTrends
  by_cases hflag : isNegative s.trends ≠ isNegative trends
  · rw [if_pos hflag]
    exact ⟨hT, trends, hT, rfl, rfl⟩
  · rw [if_neg hflag]
    exact ⟨hT, graphPoints, hpoints, hnegative.trans (not_not.mp hflag), hcells⟩

theorem Laid.step {T : List ℤ → Prop} {s t : Home} {e : HomeEvent} (h : Laid T s)
    (hstep : s.step e = some t) (hT : Brings T e) : Laid T t := by
  cases e with
  | viewWillAppear signedIn =>
    cases signedIn with
    | true =>
      cases hstep
      exact h
    | false =>
      cases hstep
      exact h
  | sentiments result =>
    simp only [Home.step] at hstep
    split at hstep
    · cases result with
      | ok trends =>
        cases hstep
        have hpending : Laid T { s with sentimentsQueries := s.sentimentsQueries - 1 } := h
        exact hpending.setTrends (hT trends rfl)
      | error error =>
        cases hstep
        exact h
    · cases hstep
  | keywords result =>
    simp only [Home.step] at hstep
    split at hstep
    · cases result with
      | ok keywordDictionary =>
        cases hstep
        exact ⟨h.1, s.trends, h.1, rfl, rfl⟩
      | error error =>
        cases hstep
        exact h
    · cases hstep

/-- The order of the sections is that of the current trends. -/
theorem Laid.head?_cells_iff {T : List ℤ → Prop} {s : Home} (h : Laid T s) :
    s.cells.head? = some .getSupport ↔ isNegative s.trends = true := by
  obtain ⟨-, graphPoints, -, hnegative, hcells⟩ := h
  rw [hcells, head?_homeCells_iff, hnegative]

/-- What a step does to the keywords. -/
theorem keywords_step {s t : Home} {e : HomeEvent} (hstep : s.step e = some t) :
    t.keywordDictionary = s.keywordDictionary ∨ e = .keywords (.ok t.keywordDictionary) := by
  cases e with
  | viewWillAppear signedIn =>
    cases signedIn with
    | true =>
      cases hstep
      exact .inl rfl
    | false =>
      cases hstep
      exact .inl rfl
  | sentiments result =>
    simp only [Home.step] at hstep
    split at hstep
    · cases result with
      | ok trends =>
        cases hstep
        unfold setTrends
        split
        · exact .inl rfl
        · exact .inl rfl
      | error error =>
        cases hstep
        exact .inl rfl
    · cases hstep
  | keywords result =>
    simp only [Home.step] at hstep
    split at hstep
    · cases result with
      | ok keywordDictionary =>
        cases hstep
        exact .inr rfl
      | error error =>
        cases hstep
        exact .inl rfl
    · cases hstep

/-- **The sections are always in the order of the current trends**, and the words are those of
the current keywords: at the end of every run the table is the one of the current data but
for the points of the chart, which are the initial ones or were delivered before and are as
negative as the current ones. -/
theorem sections_of_run {es : List HomeEvent} {s : Home} (hrun : run step start es = some s) :
    ∃ graphPoints, (graphPoints = [0] ∨ .sentiments (.ok graphPoints) ∈ es) ∧
      isNegative graphPoints = isNegative s.trends ∧
      s.cells = homeCells graphPoints s.keywordDictionary ∧
      (s.cells.head? = some .getSupport ↔ isNegative s.trends = true) := by
  let T (trends : List ℤ) : Prop := trends = [0] ∨ .sentiments (.ok trends) ∈ es
  have hbrings : Always step (fun _ e _ => Brings T e) start es := by
    refine always_of_forall_mem ?_ start
    rintro e he trends rfl
    exact .inr he
  have hlaid : Laid T s :=
    hbrings.invariant (fun s e t h hstep hT => Laid.step h hstep hT) (laid_start (.inl rfl)) hrun
  obtain ⟨graphPoints, hpoints, hnegative, hcells⟩ := hlaid.2
  exact ⟨graphPoints, hpoints, hnegative, hcells, hlaid.head?_cells_iff⟩

/-- The screen appears twice: the second trends are as negative as the first ones, so the chart
stays. -/
def twoAppearances : List HomeEvent :=
  [.viewWillAppear true, .sentiments (.ok [60, 10]), .viewWillAppear true,
    .sentiments (.ok [60, 20]), .keywords (.error "offline")]

/-- What two appearances show. -/
theorem sections_twoAppearances : ∃ s, run step start twoAppearances = some s ∧
    ∃ graphPoints, (graphPoints = [0] ∨ .sentiments (.ok graphPoints) ∈ twoAppearances) ∧
      isNegative graphPoints = isNegative s.trends ∧
      s.cells = homeCells graphPoints s.keywordDictionary ∧
      (s.cells.head? = some .getSupport ↔ isNegative s.trends = true) :=
  ⟨_, rfl, sections_of_run rfl⟩

end Home

/-! ### The queries -/

/-- A query of the last week that an appearance has made and whose completion has not run. -/
structure HomeQuery where
  uid : Uid
  startDate : Date
  endDate : Date
  /-- What the server has answered. -/
  documents : Option (List QueryDocument)

namespace HomeQuery

/-- The server answers the query. -/
def answered (query : HomeQuery) (cloud : Cloud) : HomeQuery :=
  { query with
    documents := some
      (Firebase.filteredInOrder query.startDate query.endDate (cloud.diaries query.uid)) }

/-- What the completion of the query gets: an error, or the answer of the server if there is
one. -/
def result (query : HomeQuery) (error : Option RequestError) :
    Option (Result (List QueryDocument)) :=
  match error with
  | some error => some (.error error)
  | none => query.documents.map .ok

end HomeQuery

/-- The home screen and the stores. -/
structure HomeSession where
  cloud : Cloud
  home : Home
  sentimentsQueries : List HomeQuery
  keywordsQueries : List HomeQuery

/-- What can happen to the home screen and the stores. -/
inductive HomeSessionEvent where
  | signIn (uid : Uid)
  | signOut
  /-- Documents are written or deleted, on this device or on others. -/
  | write (diaries : Uid → Diaries)
  | viewWillAppear (today : Date)
  /-- The server answers the `i`-th query of the sentiments under way. -/
  | answerSentiments (i : ℕ)
  /-- The completion of the `i`-th query of the sentiments under way runs. -/
  | sentiments (i : ℕ) (error : Option RequestError)
  | answerKeywords (i : ℕ)
  | keywords (i : ℕ) (error : Option RequestError)

/-- The completion of a query of the sentiments runs. -/
def HomeSessionEvent.IsSentiments : HomeSessionEvent → Prop
  | .sentiments _ _ => True
  | _ => False

namespace HomeSession

variable (weekBefore : Date → Date) (canonical : String → String)

/-- `viewWillAppear(_:)`; `weekBefore` is the calendar's date seven days before. -/
def viewWillAppear (s : HomeSession) (today : Date) : Option HomeSession :=
  match s.cloud.currentUser with
  | some uid => (s.home.step (.viewWillAppear true)).map fun home => { s with
      home
      sentimentsQueries := s.sentimentsQueries ++ [⟨uid, weekBefore today, today, none⟩]
      keywordsQueries := s.keywordsQueries ++ [⟨uid, weekBefore today, today, none⟩] }
  | none => (s.home.step (.viewWillAppear false)).map fun home => { s with home }

/-- The server answers a query that it has not answered; the other queries stay. -/
def answerAt (cloud : Cloud) (queries : List HomeQuery) (i : ℕ) : Option (List HomeQuery) :=
  match queries[i]? with
  | some query =>
    if query.documents.isNone then some (queries.set i (query.answered cloud)) else none
  | none => none

/-- One step: `none` where the event cannot happen. -/
def step (s : HomeSession) : HomeSessionEvent → Option HomeSession
  | .signIn uid => some { s with cloud := { s.cloud with currentUser := some uid } }
  | .signOut => some { s with cloud := { s.cloud with currentUser := none } }
  | .write diaries => some { s with cloud := { s.cloud with diaries } }
  | .viewWillAppear today => s.viewWillAppear weekBefore today
  | .answerSentiments i =>
    (answerAt s.cloud s.sentimentsQueries i).map fun sentimentsQueries =>
      { s with sentimentsQueries }
  | .sentiments i error => do
    let query ← s.sentimentsQueries[i]?
    let result ← query.result error
    let home ← s.home.step (.sentiments (result.map Firebase.sentimentList))
    some { s with home, sentimentsQueries := s.sentimentsQueries.eraseIdx i }
  | .answerKeywords i =>
    (answerAt s.cloud s.keywordsQueries i).map fun keywordsQueries => { s with keywordsQueries }
  | .keywords i error => do
    let query ← s.keywordsQueries[i]?
    let result ← query.result error
    let home ← s.home.step (.keywords (result.map (Firebase.keywordDictionary canonical)))
    some { s with home, keywordsQueries := s.keywordsQueries.eraseIdx i }

/-- The initial home screen over some stores. -/
def start (cloud : Cloud) : HomeSession := ⟨cloud, .start, [], []⟩

/-- The server answers a query that is under way and has no answer. -/
theorem answerAt_eq_some_iff {cloud : Cloud} {queries queries' : List HomeQuery} {i : ℕ} :
    answerAt cloud queries i = some queries' ↔ ∃ query, queries[i]? = some query ∧
      query.documents = none ∧ queries' = queries.set i (query.answered cloud) := by
  unfold answerAt
  cases queries[i]? with
  | none => exact iff_of_false nofun fun ⟨_, hquery, _⟩ => nomatch hquery
  | some query =>
    simp only [Option.some.injEq, exists_eq_left', Option.isNone_iff_eq_none]
    split
    · rename_i hnone
      rw [Option.some.injEq, eq_comm, and_iff_right hnone]
    · rename_i hanswered
      exact iff_of_false nofun fun h => hanswered h.1

/-! ### Where the data come from -/

section History

variable (cloud : Cloud)

/-- The screen has appeared at `today` while `uid` was signed in. -/
def Appeared (es : List HomeSessionEvent) (uid : Uid) (today : Date) : Prop :=
  ∃ fs s, fs ++ [.viewWillAppear today] <+: es ∧
    run (step weekBefore canonical) (start cloud) fs = some s ∧ s.cloud.currentUser = some uid

/-- The screen has appeared at `today` while `uid` was signed in, and at that moment or later the
collection of `uid` satisfied `P`. -/
def Snapshot (es : List HomeSessionEvent) (uid : Uid) (today : Date) (P : Diaries → Prop) : Prop :=
  ∃ fs s gs t, fs ++ .viewWillAppear today :: gs <+: es ∧
    run (step weekBefore canonical) (start cloud) fs = some s ∧ s.cloud.currentUser = some uid ∧
    run (step weekBefore canonical) s (.viewWillAppear today :: gs) = some t ∧
    P (t.cloud.diaries uid)

/-- The trends are the initial ones, or the sentiments of a user's last week. -/
def TrendsOf (es : List HomeSessionEvent) (trends : List ℤ) : Prop :=
  trends = [0] ∨ ∃ uid today, Snapshot weekBefore canonical cloud es uid today fun diaries =>
    trends = Firebase.sentimentsBetween (weekBefore today) today diaries

/-- The keywords are the initial ones, or those of a user's last week. -/
def KeywordsOf (es : List HomeSessionEvent) (keywordDictionary : KeywordDictionary) : Prop :=
  keywordDictionary = Home.initialKeywords ∨
    ∃ uid today, Snapshot weekBefore canonical cloud es uid today fun diaries =>
      keywordDictionary = Firebase.keywordDictionary canonical
        (Firebase.filteredInOrder (weekBefore today) today diaries)

/-- A query under way is one of an appearance, and was answered from the collection of its
user. -/
def QueryOf (es : List HomeSessionEvent) (query : HomeQuery) : Prop :=
  ∃ today, query.startDate = weekBefore today ∧ query.endDate = today ∧
    Appeared weekBefore canonical cloud es query.uid today ∧
    ∀ documents ∈ query.documents,
      Snapshot weekBefore canonical cloud es query.uid today fun diaries =>
        documents = Firebase.filteredInOrder (weekBefore today) today diaries

variable {weekBefore canonical cloud} {es es' : List HomeSessionEvent} {uid : Uid} {today : Date}
  {P Q : Diaries → Prop}

theorem Snapshot.mono (h : Snapshot weekBefore canonical cloud es uid today P)
    (hPQ : ∀ d, P d → Q d) (hes : es <+: es') :
    Snapshot weekBefore canonical cloud es' uid today Q := by
  obtain ⟨fs, s, gs, t, hprefix, hfs, huser, hgs, hP⟩ := h
  exact ⟨fs, s, gs, t, hprefix.trans hes, hfs, huser, hgs, hPQ _ hP⟩

theorem TrendsOf.mono {trends : List ℤ} (h : TrendsOf weekBefore canonical cloud es trends)
    (hes : es <+: es') : TrendsOf weekBefore canonical cloud es' trends :=
  h.imp_right fun ⟨uid, today, hsnapshot⟩ => ⟨uid, today, hsnapshot.mono (fun _ h => h) hes⟩

theorem KeywordsOf.mono {keywordDictionary : KeywordDictionary}
    (h : KeywordsOf weekBefore canonical cloud es keywordDictionary) (hes : es <+: es') :
    KeywordsOf weekBefore canonical cloud es' keywordDictionary :=
  h.imp_right fun ⟨uid, today, hsnapshot⟩ => ⟨uid, today, hsnapshot.mono (fun _ h => h) hes⟩

theorem QueryOf.mono {query : HomeQuery} (h : QueryOf weekBefore canonical cloud es query)
    (hes : es <+: es') : QueryOf weekBefore canonical cloud es' query := by
  obtain ⟨today, hstart, hend, ⟨fs, s, hprefix, hfs, huser⟩, hdocuments⟩ := h
  exact ⟨today, hstart, hend, ⟨fs, s, hprefix.trans hes, hfs, huser⟩, fun documents hmem =>
    (hdocuments documents hmem).mono (fun _ h => h) hes⟩

/-- The collection is as it is now at a moment after the appearance. -/
theorem Appeared.snapshot {s : HomeSession} (h : Appeared weekBefore canonical cloud es uid today)
    (hrun : run (step weekBefore canonical) (start cloud) es = some s) :
    Snapshot weekBefore canonical cloud es uid today
      fun diaries => diaries = s.cloud.diaries uid := by
  obtain ⟨fs, t, ⟨gs, rfl⟩, hfs, huser⟩ := h
  rw [List.append_assoc] at hrun
  refine ⟨fs, t, gs, s, ?_, hfs, huser, run_of_run_append hfs hrun, rfl⟩
  rw [List.append_assoc]
  exact List.prefix_rfl

/-- The server answers a query from the collection as it is. -/
theorem QueryOf.answered {s : HomeSession} {query : HomeQuery}
    (h : QueryOf weekBefore canonical cloud es query)
    (hrun : run (step weekBefore canonical) (start cloud) es = some s) :
    QueryOf weekBefore canonical cloud es (query.answered s.cloud) := by
  obtain ⟨today, hstart, hend, happeared, -⟩ := h
  refine ⟨today, hstart, hend, happeared, fun documents hmem => ?_⟩
  simp only [HomeQuery.answered, Option.mem_def, Option.some.injEq] at hmem
  refine (happeared.snapshot hrun).mono (fun diaries hdiaries => ?_) List.prefix_rfl
  rw [← hmem, hdiaries, hstart, hend]

/-- The queries after the server has answered one of them. -/
theorem queryOf_answerAt {s : HomeSession} {queries queries' : List HomeQuery} {i : ℕ}
    (h : ∀ query ∈ queries, QueryOf weekBefore canonical cloud es query)
    (hrun : run (step weekBefore canonical) (start cloud) es = some s)
    (hanswer : answerAt s.cloud queries i = some queries') :
    ∀ query ∈ queries', QueryOf weekBefore canonical cloud es query := by
  obtain ⟨query, hquery, -, rfl⟩ := answerAt_eq_some_iff.mp hanswer
  intro query' hmem
  rcases List.mem_or_eq_of_mem_set hmem with hold | rfl
  · exact h query' hold
  · exact (h query (List.mem_of_getElem? hquery)).answered hrun

/-- What a completion gets from a query. -/
theorem QueryOf.of_result {query : HomeQuery} {error : Option RequestError}
    {documents : List QueryDocument} (h : QueryOf weekBefore canonical cloud es query)
    (hresult : query.result error = some (.ok documents)) :
    ∃ today, Snapshot weekBefore canonical cloud es query.uid today fun diaries =>
      documents = Firebase.filteredInOrder (weekBefore today) today diaries := by
  obtain ⟨today, -, -, -, hdocuments⟩ := h
  cases error with
  | some error => cases hresult
  | none =>
    obtain ⟨documents', hmem, hok⟩ := Option.map_eq_some_iff.mp hresult
    cases hok
    exact ⟨today, hdocuments documents hmem⟩

end History

/-- The home screen and its queries come from the stores. -/
structure Traced (weekBefore : Date → Date) (canonical : String → String) (cloud : Cloud)
    (es : List HomeSessionEvent) (s : HomeSession) : Prop where
  sentimentsQueries : ∀ query ∈ s.sentimentsQueries, QueryOf weekBefore canonical cloud es query
  keywordsQueries : ∀ query ∈ s.keywordsQueries, QueryOf weekBefore canonical cloud es query
  laid : s.home.Laid (TrendsOf weekBefore canonical cloud es)
  keywords : KeywordsOf weekBefore canonical cloud es s.home.keywordDictionary

variable {weekBefore canonical} {cloud : Cloud} {es : List HomeSessionEvent} {s t : HomeSession}

theorem Traced.mono {es' : List HomeSessionEvent} (h : Traced weekBefore canonical cloud es s)
    (hes : es <+: es') : Traced weekBefore canonical cloud es' s where
  sentimentsQueries := fun query hmem => (h.sentimentsQueries query hmem).mono hes
  keywordsQueries := fun query hmem => (h.keywordsQueries query hmem).mono hes
  laid := h.laid.mono fun _ htrends => htrends.mono hes
  keywords := h.keywords.mono hes

/-- The screen appears: it makes queries, or none where nobody is signed in. -/
theorem Traced.viewWillAppear {today : Date} (h : Traced weekBefore canonical cloud es s)
    (hrun : run (step weekBefore canonical) (start cloud) es = some s)
    (hstep : s.viewWillAppear weekBefore today = some t) :
    Traced weekBefore canonical cloud (es ++ [.viewWillAppear today]) t := by
  have hes : es <+: es ++ [.viewWillAppear today] := List.prefix_append _ _
  have hbrings {T : List ℤ → Prop} (signedIn : Bool) : Home.Brings T (.viewWillAppear signedIn) :=
    fun _ => nofun
  unfold HomeSession.viewWillAppear at hstep
  split at hstep
  · rename_i uid huser
    obtain ⟨home, hhome, rfl⟩ := Option.map_eq_some_iff.mp hstep
    have hnew : QueryOf weekBefore canonical cloud (es ++ [.viewWillAppear today])
        ⟨uid, weekBefore today, today, none⟩ :=
      ⟨today, rfl, rfl, ⟨es, s, List.prefix_rfl, hrun, huser⟩, nofun⟩
    refine ⟨?_, ?_, (h.mono hes).laid.step hhome (hbrings true), ?_⟩
    · intro query hmem
      rcases List.mem_append.mp hmem with hold | hlast
      · exact (h.mono hes).sentimentsQueries query hold
      · rwa [List.mem_singleton.mp hlast]
    · intro query hmem
      rcases List.mem_append.mp hmem with hold | hlast
      · exact (h.mono hes).keywordsQueries query hold
      · rwa [List.mem_singleton.mp hlast]
    · rcases Home.keywords_step hhome with hsame | hkeywords
      · exact hsame ▸ (h.mono hes).keywords
      · cases hkeywords
  · obtain ⟨home, hhome, rfl⟩ := Option.map_eq_some_iff.mp hstep
    refine ⟨(h.mono hes).sentimentsQueries, (h.mono hes).keywordsQueries,
      (h.mono hes).laid.step hhome (hbrings false), ?_⟩
    rcases Home.keywords_step hhome with hsame | hkeywords
    · exact hsame ▸ (h.mono hes).keywords
    · cases hkeywords

theorem Traced.step {e : HomeSessionEvent} (h : Traced weekBefore canonical cloud es s)
    (hrun : run (HomeSession.step weekBefore canonical) (start cloud) es = some s)
    (hstep : s.step weekBefore canonical e = some t) :
    Traced weekBefore canonical cloud (es ++ [e]) t := by
  have hes : es <+: es ++ [e] := List.prefix_append _ _
  have hnow := h.mono hes
  cases e with
  | signIn | signOut | write =>
    cases hstep
    exact ⟨hnow.sentimentsQueries, hnow.keywordsQueries, hnow.laid, hnow.keywords⟩
  | viewWillAppear today => exact h.viewWillAppear hrun hstep
  | answerSentiments i =>
    obtain ⟨queries, hanswer, rfl⟩ := Option.map_eq_some_iff.mp hstep
    refine ⟨fun query hmem => ?_, hnow.keywordsQueries, hnow.laid, hnow.keywords⟩
    exact (queryOf_answerAt h.sentimentsQueries hrun hanswer query hmem).mono hes
  | answerKeywords i =>
    obtain ⟨queries, hanswer, rfl⟩ := Option.map_eq_some_iff.mp hstep
    refine ⟨hnow.sentimentsQueries, fun query hmem => ?_, hnow.laid, hnow.keywords⟩
    exact (queryOf_answerAt h.keywordsQueries hrun hanswer query hmem).mono hes
  | sentiments i error =>
    simp only [HomeSession.step, Option.bind_eq_bind, Option.bind_eq_some_iff,
      Option.some.injEq] at hstep
    obtain ⟨query, hquery, result, hresult, home, hhome, rfl⟩ := hstep
    have hmem := List.mem_of_getElem? hquery
    refine ⟨fun query hquery => hnow.sentimentsQueries query (List.mem_of_mem_eraseIdx hquery),
      hnow.keywordsQueries, hnow.laid.step hhome ?_, ?_⟩
    · intro trends htrends
      cases result with
      | error error => cases htrends
      | ok documents =>
        cases htrends
        obtain ⟨today, hsnapshot⟩ := (hnow.sentimentsQueries query hmem).of_result hresult
        refine .inr ⟨query.uid, today, hsnapshot.mono (fun diaries hdocuments => ?_)
          List.prefix_rfl⟩
        rw [Firebase.sentimentsBetween, hdocuments]
    · rcases Home.keywords_step hhome with hsame | hkeywords
      · exact hsame ▸ hnow.keywords
      · cases hkeywords
  | keywords i error =>
    simp only [HomeSession.step, Option.bind_eq_bind, Option.bind_eq_some_iff,
      Option.some.injEq] at hstep
    obtain ⟨query, hquery, result, hresult, home, hhome, rfl⟩ := hstep
    have hmem := List.mem_of_getElem? hquery
    refine ⟨hnow.sentimentsQueries, fun query hquery => hnow.keywordsQueries query
      (List.mem_of_mem_eraseIdx hquery), hnow.laid.step hhome ?_, ?_⟩
    · intro trends htrends
      cases htrends
    rcases Home.keywords_step hhome with hsame | hkeywords
    · exact hsame ▸ hnow.keywords
    · cases result with
      | error error => cases hkeywords
      | ok documents =>
        obtain ⟨today, hsnapshot⟩ := (hnow.keywordsQueries query hmem).of_result hresult
        refine .inr ⟨query.uid, today, hsnapshot.mono (fun diaries hdocuments => ?_)
          List.prefix_rfl⟩
        rw [← hdocuments]
        exact (Except.ok.inj (HomeEvent.keywords.inj hkeywords)).symm

/-- Every run leaves the screen with what comes from the stores. -/
theorem traced_of_run (hrun : run (step weekBefore canonical) (start cloud) es = some s) :
    Traced weekBefore canonical cloud es s :=
  run_history (fun _ _ _ _ hrun h hstep => h.step hrun hstep)
    ⟨nofun, nofun, Home.laid_start (.inl rfl), .inl rfl⟩ hrun

/-- A last value below 30 is negative. -/
theorem isNegative_append_low {sentiment : ℤ} (hlow : sentiment < 30) (trends : List ℤ) :
    isNegative (trends ++ [sentiment]) = true := by
  simp [isNegative, hlow]

/-- Only the completion of a query of the sentiments changes the trends. -/
theorem trends_step {e : HomeSessionEvent} (hstep : s.step weekBefore canonical e = some t)
    (he : ¬e.IsSentiments) : t.home.trends = s.home.trends := by
  cases e with
  | signIn | signOut | write =>
    cases hstep
    rfl
  | viewWillAppear today =>
    simp only [HomeSession.step, HomeSession.viewWillAppear] at hstep
    split at hstep
    · obtain ⟨home, hhome, rfl⟩ := Option.map_eq_some_iff.mp hstep
      exact (Home.step_cases hhome).1.resolve_right nofun
    · obtain ⟨home, hhome, rfl⟩ := Option.map_eq_some_iff.mp hstep
      exact (Home.step_cases hhome).1.resolve_right nofun
  | answerSentiments i =>
    obtain ⟨queries, -, rfl⟩ := Option.map_eq_some_iff.mp hstep
    rfl
  | answerKeywords i =>
    obtain ⟨queries, -, rfl⟩ := Option.map_eq_some_iff.mp hstep
    rfl
  | sentiments i error => exact absurd trivial he
  | keywords i error =>
    simp only [HomeSession.step, Option.bind_eq_bind, Option.bind_eq_some_iff,
      Option.some.injEq] at hstep
    obtain ⟨query, -, result, -, home, hhome, rfl⟩ := hstep
    exact (Home.step_cases hhome).1.resolve_right nofun

/-- The trends stay until a query of the sentiments completes. -/
theorem trends_of_run {fs : List HomeSessionEvent}
    (hfs : ∀ e ∈ fs, ¬e.IsSentiments) (hrun : run (step weekBefore canonical) s fs = some t) :
    t.home.trends = s.home.trends :=
  (always_of_forall_mem hfs s).invariant (I := fun t => t.home.trends = s.home.trends)
    (fun _ _ _ h hstep he => (trends_step hstep he).trans h) rfl hrun

/-- Where the query that is the `i`-th one of the sentiments under way is after an event; `none`
once its completion has run. -/
def position (i : ℕ) : HomeSessionEvent → Option ℕ
  | .sentiments j _ => if j = i then none else some (Lists.afterErase j i)
  | _ => some i

/-- A query that stays under way keeps what an answer of the server does not take from it. -/
theorem sentimentsQueries_step {e : HomeSessionEvent}
    (hstep : s.step weekBefore canonical e = some t) {P : HomeQuery → Prop}
    (hanswered : ∀ query cloud, P query → query.documents = none → P (query.answered cloud))
    {i j : ℕ} (hposition : position i e = some j) (h : ∃ query ∈ s.sentimentsQueries[i]?, P query) :
    ∃ query ∈ t.sentimentsQueries[j]?, P query := by
  obtain ⟨query, hquery, hP⟩ := h
  cases e with
  | signIn | signOut | write =>
    cases hstep
    cases hposition
    exact ⟨query, hquery, hP⟩
  | viewWillAppear today =>
    cases hposition
    have hlt := (List.getElem?_eq_some_iff.mp hquery).1
    simp only [HomeSession.step, HomeSession.viewWillAppear] at hstep
    split at hstep
    · obtain ⟨home, -, rfl⟩ := Option.map_eq_some_iff.mp hstep
      exact ⟨query, (List.getElem?_append_left hlt).trans hquery, hP⟩
    · obtain ⟨home, -, rfl⟩ := Option.map_eq_some_iff.mp hstep
      exact ⟨query, hquery, hP⟩
  | answerSentiments k =>
    cases hposition
    obtain ⟨queries, hanswer, rfl⟩ := Option.map_eq_some_iff.mp hstep
    obtain ⟨query', hquery', hnone, rfl⟩ := answerAt_eq_some_iff.mp hanswer
    by_cases heq : k = i
    · subst heq
      cases hquery.symm.trans hquery'
      have hlt := (List.getElem?_eq_some_iff.mp hquery).1
      exact ⟨query.answered s.cloud, List.getElem?_set_self hlt,
        hanswered query s.cloud hP hnone⟩
    · exact ⟨query, (List.getElem?_set_ne heq).trans hquery, hP⟩
  | answerKeywords k =>
    cases hposition
    obtain ⟨queries, -, rfl⟩ := Option.map_eq_some_iff.mp hstep
    exact ⟨query, hquery, hP⟩
  | sentiments k error =>
    simp only [HomeSession.step, Option.bind_eq_bind, Option.bind_eq_some_iff,
      Option.some.injEq] at hstep
    obtain ⟨-, -, -, -, home, -, rfl⟩ := hstep
    rw [position] at hposition
    split at hposition
    · cases hposition
    · rename_i hne
      cases hposition
      exact ⟨query, (Lists.getElem?_eraseIdx_afterErase _ hne).trans hquery, hP⟩
  | keywords k error =>
    simp only [HomeSession.step, Option.bind_eq_bind, Option.bind_eq_some_iff,
      Option.some.injEq] at hstep
    obtain ⟨-, -, -, -, home, -, rfl⟩ := hstep
    cases hposition
    exact ⟨query, hquery, hP⟩

/-- The same of a run during which the query stays under way. -/
theorem sentimentsQueries_of_run {fs : List HomeSessionEvent}
    (hrun : run (step weekBefore canonical) s fs = some t) {P : HomeQuery → Prop}
    (hanswered : ∀ query cloud, P query → query.documents = none → P (query.answered cloud))
    {i j : ℕ} (hposition : run position i fs = some j)
    (h : ∃ query ∈ s.sentimentsQueries[i]?, P query) :
    ∃ query ∈ t.sentimentsQueries[j]?, P query := by
  induction fs generalizing s i with
  | nil =>
    cases hrun
    cases hposition
    exact h
  | cons e fs ih =>
    obtain ⟨u, hu, hrun⟩ := exists_step_of_run_cons hrun
    obtain ⟨k, hk, hposition⟩ := exists_step_of_run_cons hposition
    exact ih hrun hposition (sentimentsQueries_step hu hanswered hk h)

/-- The events lead from an appearance of the screen at `today`, while `uid` is signed in, to the
end of its query of the sentiments, which the server answers from the collection `diaries`.
In between anything may happen. -/
structure QueryLife (weekBefore : Date → Date) (canonical : String → String) (s : HomeSession)
    (uid : Uid) (today : Date) (diaries : Diaries) (es : List HomeSessionEvent)
    (t : HomeSession) : Prop where
  currentUser : s.cloud.currentUser = some uid
  ran : run (step weekBefore canonical) s es = some t
  answered : ∃ gs i u hs j,
    es = .viewWillAppear today :: gs ++ (.answerSentiments i :: hs ++ [.sentiments j none]) ∧
      run position s.sentimentsQueries.length gs = some i ∧ run position i hs = some j ∧
      run (step weekBefore canonical) s (.viewWillAppear today :: gs) = some u ∧
      u.cloud.diaries uid = diaries

/-- The trends at the end are what the server answered. -/
theorem QueryLife.trends_eq {uid : Uid} {today : Date} {diaries : Diaries}
    {life : List HomeSessionEvent}
    (h : QueryLife weekBefore canonical s uid today diaries life t) :
    t.home.trends = Firebase.sentimentsBetween (weekBefore today) today diaries := by
  obtain ⟨huser, hrun, gs, i, u, hs, j, rfl, hgs, hhs, hu, rfl⟩ := h
  obtain ⟨v, hv, hrun⟩ := exists_step_of_run_cons (run_of_run_append hu hrun)
  obtain ⟨w, hw, ht⟩ := exists_step_of_run_concat hrun
  -- the query is made, and is still the one of the appearance when the server answers it
  obtain ⟨s', hs', hgsrun⟩ := exists_step_of_run_cons hu
  have hmade : ∃ query ∈ s'.sentimentsQueries[s.sentimentsQueries.length]?,
      query.uid = uid ∧ query.startDate = weekBefore today ∧ query.endDate = today := by
    simp only [step, viewWillAppear, huser] at hs'
    obtain ⟨home, -, rfl⟩ := Option.map_eq_some_iff.mp hs'
    exact ⟨⟨uid, weekBefore today, today, none⟩, by simp, rfl, rfl, rfl⟩
  obtain ⟨query, hquery, rfl, hstart, rfl⟩ :=
    sentimentsQueries_of_run hgsrun (fun _ _ hP _ => hP) hgs hmade
  have hanswered : ∃ query' ∈ v.sentimentsQueries[i]?, query'.documents = some
      (Firebase.filteredInOrder query.startDate query.endDate (u.cloud.diaries query.uid)) := by
    obtain ⟨queries, hanswer, rfl⟩ := Option.map_eq_some_iff.mp hv
    obtain ⟨query', hquery', -, rfl⟩ := answerAt_eq_some_iff.mp hanswer
    cases hquery.symm.trans hquery'
    have hlt := (List.getElem?_eq_some_iff.mp hquery).1
    exact ⟨query.answered u.cloud, List.getElem?_set_self hlt, rfl⟩
  -- and keeps the answer until its completion runs
  obtain ⟨query', hquery', hdocuments⟩ := sentimentsQueries_of_run hw
    (fun _ _ hP hnone => by rw [hnone] at hP; cases hP) hhs hanswered
  simp only [step, Option.bind_eq_bind, Option.bind_eq_some_iff, Option.some.injEq] at ht
  obtain ⟨last, hlast, result, hresult, home, hhome, rfl⟩ := ht
  cases hquery'.symm.trans hlast
  simp only [HomeQuery.result, hdocuments, Option.map_some, Option.some.injEq] at hresult
  subst hresult
  rw [← hstart]
  exact Home.trends_of_step hhome

/-- From every state in which a user is signed in, an appearance of the screen may be answered
and completed at once. -/
theorem exists_queryLife {uid : Uid} (huser : s.cloud.currentUser = some uid) (today : Date) :
    ∃ life t, QueryLife weekBefore canonical s uid today (s.cloud.diaries uid) life t := by
  have hrun : (run (step weekBefore canonical) s [.viewWillAppear today,
      .answerSentiments s.sentimentsQueries.length,
      .sentiments s.sentimentsQueries.length none]).isSome := by
    obtain ⟨cloud, home, sentimentsQueries, keywordsQueries⟩ := s
    simp only at huser
    simp [run, step, viewWillAppear, huser, answerAt, Home.step, HomeQuery.result,
      HomeQuery.answered, Except.map]
  obtain ⟨t, ht⟩ := Option.isSome_iff_exists.mp hrun
  obtain ⟨u, hu, -⟩ := exists_step_of_run_cons ht
  refine ⟨_, t, huser, ht, [], _, u, [], _, rfl, rfl, rfl, run_cons [] hu, ?_⟩
  simp only [step, viewWillAppear, huser] at hu
  obtain ⟨home, -, rfl⟩ := Option.map_eq_some_iff.mp hu
  rfl

/-- **A low memory puts the support numbers first.** In every state of the screen and the stores
that a run leads to, let a user save a memory that is newer than all others, with a sentiment
below 30. Whatever happens then, to the screen, to the stores and to other queries: an
appearance of the screen within a week, to that user, makes a query of the sentiments, and
where the server answers it while the memory is stored and newer than all others, the end of
the query makes the trends those of the week with the new one last, and the support numbers
the first section. There they stay until another query of the sentiments ends. -/
theorem support_after_low_memory
    (hrun : run (step weekBefore canonical) (start cloud) es = some s) {uid : Uid}
    (huser : s.cloud.currentUser = some uid) (newID : DocumentID) {memory : LocalMemory}
    (tags : List String) (hbefore : Firebase.AllBefore (s.cloud.diaries uid) memory.saveDate)
    (hlow : memory.sentiment < 30) :
    ∃ after, (Firebase.saveNewMemory newID memory tags).run s.cloud = .ok newID after ∧
      Firebase.Newest (after.diaries uid) newID memory tags ∧
      ∀ before s' today,
        run (step weekBefore canonical) s (.write after.diaries :: before) = some s' →
        s'.cloud.currentUser = some uid →
        weekBefore today ≤ memory.saveDate → memory.saveDate ≤ today →
          (∃ life t, QueryLife weekBefore canonical s' uid today (s'.cloud.diaries uid) life t) ∧
          ∀ diaries life t, QueryLife weekBefore canonical s' uid today diaries life t →
            Firebase.Newest diaries newID memory tags →
              t.home.trends = Firebase.sentimentsBetween (weekBefore today) today
                (diaries.erase newID) ++ [memory.sentiment] ∧
              ∀ fs u, (∀ e ∈ fs, ¬e.IsSentiments) →
                run (step weekBefore canonical) t fs = some u →
                  u.home.cells.head? = some .getSupport := by
  refine ⟨_, Firebase.run_saveNewMemory_some huser newID memory tags, ?_, ?_⟩
  · rw [Cloud.diaries_written, Function.update_self]
    exact Firebase.newest_insert newID tags hbefore
  intro before s' today hs' huser' hstart hend
  refine ⟨exists_queryLife huser' today, fun diaries life t hlife hnewest => ?_⟩
  have htrends : t.home.trends = Firebase.sentimentsBetween (weekBefore today) today
      (diaries.erase newID) ++ [memory.sentiment] :=
    hlife.trends_eq.trans (Firebase.sentimentsBetween_of_newest hnewest hstart hend)
  refine ⟨htrends, fun fs u hfs hfsrun => ?_⟩
  have hall := run_trans hrun (run_trans hs' (run_trans hlife.ran hfsrun))
  rw [(traced_of_run hall).laid.head?_cells_iff, trends_of_run hfs hfsrun, htrends]
  exact isNegative_append_low hlow _

/-- A low third day. -/
def rain : LocalMemory := ⟨"Rain", "", 10, 3, none⟩

/-- The stores after it. -/
def thirdDay : Cloud := (Firebase.twoDays.allot "c").written "kevin" "c" rain []

/-- The third day is stored while a query of an earlier appearance is under way. -/
def storedThirdDay : List HomeSessionEvent :=
  [.write thirdDay.diaries, .viewWillAppear 3, .answerSentiments 0]

/-- The next appearance. Before its query is answered the first day is deleted and a query of the
keywords fails, and the older query of the sentiments ends before it does. -/
def appearanceOfThirdDay : List HomeSessionEvent :=
  [.viewWillAppear 4, .write fun uid => (thirdDay.diaries uid).erase "a",
    .keywords 0 (some "offline"), .answerSentiments 1, .sentiments 0 none, .sentiments 0 none]

/-- The support numbers after a low third day. -/
theorem support_thirdDay : ∃ t,
    run (step (· - 7) id) (start Firebase.twoDays) (storedThirdDay ++ appearanceOfThirdDay) =
        some t ∧
      t.home.trends = [90, 10] ∧
      ∀ fs u, (∀ e ∈ fs, ¬e.IsSentiments) → run (step (· - 7) id) t fs = some u →
        u.home.cells.head? = some .getSupport := by
  have hsigned : (start Firebase.twoDays).cloud.currentUser = some "kevin" := rfl
  have hrun : run (step (· - 7) id) (start Firebase.twoDays) [] = some (start Firebase.twoDays) :=
    rfl
  have hlow : rain.sentiment < 30 := by decide
  obtain ⟨after, hafter, -, hnext⟩ := support_after_low_memory hrun hsigned "c" []
    (by decide +kernel) hlow
  have hthird : after = thirdDay := by
    rw [Firebase.run_saveNewMemory_some hsigned] at hafter
    cases hafter
    rfl
  subst hthird
  -- what the screen has before the appearance, and what the stores have when it is answered
  have hstored : ∀ s ∈ run (step (· - 7) id) (start Firebase.twoDays) storedThirdDay,
      s.cloud.currentUser = some "kevin" ∧ s.sentimentsQueries.length = 1 := by
    decide +kernel
  have hasked : ∀ u ∈ run (step (· - 7) id) (start Firebase.twoDays)
      (storedThirdDay ++ appearanceOfThirdDay.take 3),
      Firebase.Newest (u.cloud.diaries "kevin") "c" rain [] ∧
        Firebase.sentimentsBetween (4 - 7) 4 ((u.cloud.diaries "kevin").erase "c") = [90] := by
    decide +kernel
  have hended : (run (step (· - 7) id) (start Firebase.twoDays)
      (storedThirdDay ++ appearanceOfThirdDay)).isSome := by
    decide +kernel
  obtain ⟨t, ht⟩ := Option.isSome_iff_exists.mp hended
  obtain ⟨s, hs, hst⟩ := exists_of_run_append ht
  have hsplit : run (step (· - 7) id) s
      (appearanceOfThirdDay.take 3 ++ appearanceOfThirdDay.drop 3) = some t := hst
  obtain ⟨u, hu, -⟩ := exists_of_run_append hsplit
  obtain ⟨huser, hlength⟩ := hstored s hs
  obtain ⟨hnewest, hbefore⟩ := hasked u (run_trans hs hu)
  obtain ⟨-, hlife⟩ := hnext _ s 4 hs huser (by decide) (by decide)
  obtain ⟨htrends, hsupport⟩ := hlife _ appearanceOfThirdDay t
    ⟨huser, hst, _, 1, u, [.sentiments 0 none], 0, rfl, by rw [hlength]; rfl, rfl, hu, rfl⟩ hnewest
  exact ⟨t, ht, by rw [htrends, hbefore]; rfl, hsupport⟩

end HomeSession

end FeelBetter
