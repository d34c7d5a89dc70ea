import FeelBetter.Firebase
import FeelBetter.Lists
import FeelBetter.Machine.Runs

/-!
# Storage requests

A request to Storage takes effect at some time after it was issued, and its
completion runs some time later. `uploadImage` deletes first and puts from the
completion of the delete. Nothing orders the requests of two operations on one
file. The file ends up as the last operation asked exactly when every request
still outstanding at its issue leads to the same contents.
-/

namespace FeelBetter

open Machine

/-- A request to Storage. The completion of a delete may go on to put an image. -/
inductive StorageRequest where
  /-- A delete was issued. -/
  | delete (path : String) (completion : Option Data)
  /-- A delete has taken effect, its completion has not run. -/
  | deleted (path : String) (completion : Option Data)
  /-- A put was issued. -/
  | put (path : String) (data : Data)
  /-- A put has taken effect and has not been answered. -/
  | stored (path : String)
  deriving DecidableEq

namespace StorageRequest

/-- The file that a request is about. -/
def path : StorageRequest → String
  | .delete path _ | .deleted path _ | .put path _ | .stored path => path

/-- A request takes effect: the contents that its file has then, and what is left to do. -/
def takeEffect : StorageRequest → Option (Option Data × StorageRequest)
  | .delete path completion => some (none, .deleted path completion)
  | .put path data => some (some data, .stored path)
  | .deleted _ _ | .stored _ => none

/-- The completion of a request that has taken effect runs: the requests it issues. -/
def complete : StorageRequest → Option (List StorageRequest)
  | .deleted path (some data) => some [.put path data]
  | .deleted _ none | .stored _ => some []
  | .delete _ _ | .put _ _ => none

/-- The contents that the last effect still to come of a request and its completion leaves
in the file; `none` where no effect is to come. -/
def final : StorageRequest → Option (Option Data)
  | .delete _ (some data) | .deleted _ (some data) | .put _ data => some (some data)
  | .delete _ none => some none
  | .deleted _ none | .stored _ => none

/-- The number of events until a request and its completion are through. -/
def remaining : StorageRequest → ℕ
  | .delete _ (some _) => 4
  | .deleted _ (some _) => 3
  | .delete _ none | .put _ _ => 2
  | .deleted _ none | .stored _ => 1

/-- The number of events until all of the requests are through. -/
def remainingAll : List StorageRequest → ℕ
  | [] => 0
  | r :: requests => r.remaining + remainingAll requests

@[simp] theorem remainingAll_append (l l' : List StorageRequest) :
    remainingAll (l ++ l') = remainingAll l + remainingAll l' := by
  induction l with
  | nil => simp [remainingAll]
  | cons r l ih =>
    simp only [List.cons_append, remainingAll, ih]
    omega

variable {r r' : StorageRequest} {contents : Option Data} {issued : List StorageRequest}

theorem path_takeEffect (h : r.takeEffect = some (contents, r')) : r'.path = r.path := by
  cases r <;> cases h <;> rfl

/-- An effect is the last one, or the last one is still to come. -/
theorem final_takeEffect (h : r.takeEffect = some (contents, r')) :
    r.final = some (r'.final.getD contents) := by
  cases r with
  | delete path completion => cases completion <;> cases h <;> rfl
  | put path data => cases h; rfl
  | deleted | stored => cases h

theorem path_complete (h : r.complete = some issued) : ∀ q ∈ issued, q.path = r.path := by
  cases r with
  | deleted _ completion => cases completion <;> cases h <;> simp [path]
  | stored => cases h; simp
  | delete | put => cases h

/-- A completion passes the effects to come on to the request that it issues. -/
theorem final_complete (h : r.complete = some issued) :
    (∀ q ∈ issued, q.final = r.final) ∧ (issued = [] → r.final = none) := by
  cases r with
  | deleted _ completion => cases completion <;> cases h <;> simp [final]
  | stored => cases h; simp [final]
  | delete | put => cases h

/-- Every request can take effect or complete, and has then one event less before it. -/
theorem advance (r : StorageRequest) :
    (∃ contents r', r.takeEffect = some (contents, r') ∧ r'.remaining + 1 = r.remaining) ∨
    ∃ issued, r.complete = some issued ∧ remainingAll issued + 1 = r.remaining := by
  cases r with
  | delete path completion =>
    exact .inl ⟨none, .deleted path completion, rfl, by cases completion <;> rfl⟩
  | deleted path completion =>
    cases completion with
    | none => exact .inr ⟨[], rfl, rfl⟩
    | some data => exact .inr ⟨[.put path data], rfl, rfl⟩
  | put path data => exact .inl ⟨some data, .stored path, rfl, rfl⟩
  | stored path => exact .inr ⟨[], rfl, rfl⟩

end StorageRequest

/-- The files, and the requests under way. -/
structure Storage where
  files : String → Option Data
  requests : List StorageRequest

/-- What can happen to Storage. -/
inductive StorageEvent where
  | deleteMemory (documentID : DocumentID)
  | replaceMemory (documentID : DocumentID) (memory : LocalMemory)
  | saveNewMemory (newID : DocumentID) (memory : LocalMemory)
  /-- The `i`-th request under way takes effect. -/
  | takeEffect (i : ℕ)
  /-- The completion of the `i`-th request under way runs. -/
  | complete (i : ℕ)
  deriving DecidableEq

/-- The file that an operation is about and the contents it asks for. An operation on a
memory without an image leaves Storage alone. -/
def StorageEvent.target : StorageEvent → Option (String × Option Data)
  | .deleteMemory documentID => some (imagePath documentID, none)
  | .replaceMemory documentID memory | .saveNewMemory documentID memory =>
    memory.imageData.map fun data => (imagePath documentID, some data)
  | .takeEffect _ | .complete _ => none

namespace Storage

open StorageRequest (remainingAll remainingAll_append)

/-- `Firebase.deleteImage(for:then:)`. -/
def deleteImage (s : Storage) (documentID : DocumentID) (completion : Option Data) : Storage :=
  { s with requests := s.requests ++ [.delete (imagePath documentID) completion] }

/-- `Firebase.uploadImage(_:for:)`: the put is issued from the completion of the delete. -/
def uploadImage (s : Storage) (data : Data) (documentID : DocumentID) : Storage :=
  s.deleteImage documentID (some data)

/-- The part of `Firebase.deleteMemory(withID:)` that Storage sees. -/
def deleteMemory (s : Storage) (documentID : DocumentID) : Storage :=
  s.deleteImage documentID none

/-- The part of `Firebase.replaceMemory(withID:with:tags:)` that Storage sees. -/
def replaceMemory (s : Storage) (documentID : DocumentID) (memory : LocalMemory) : Storage :=
  match memory.imageData with
  | some data => s.uploadImage data documentID
  | none => s

/-- The part of `Firebase.saveNewMemory(_:tags:)` that Storage sees. -/
def saveNewMemory (s : Storage) (newID : DocumentID) (memory : LocalMemory) : Storage :=
  s.replaceMemory newID memory

/-- One step of Storage: `none` where the event cannot happen. -/
def step (s : Storage) (e : StorageEvent) : Option Storage :=
  match e with
  | .deleteMemory documentID => some (s.deleteMemory documentID)
  | .replaceMemory documentID memory => some (s.replaceMemory documentID memory)
  | .saveNewMemory newID memory => some (s.saveNewMemory newID memory)
  | .takeEffect i => do
    let r ← s.requests[i]?
    let (contents, r') ← r.takeEffect
    some { files := Function.update s.files r.path contents, requests := s.requests.set i r' }
  | .complete i => do
    let r ← s.requests[i]?
    let issued ← r.complete
    some { s with requests := s.requests.eraseIdx i ++ issued }

/-- A request for `target` is issued. -/
def issue (s : Storage) (path : String) (target : Option Data) : Storage :=
  { s with requests := s.requests ++ [.delete path target] }

/-- The steps of Storage. -/
inductive Transition (s : Storage) : StorageEvent → Storage → Prop where
  | issued {e : StorageEvent} {path : String} {target : Option Data}
    (htarget : e.target = some (path, target)) : Transition s e (s.issue path target)
  | imageless {e : StorageEvent} (htarget : e.target = none) : Transition s e s
  | effected {pre post : List StorageRequest} {r r' : StorageRequest} {contents : Option Data}
    (hrequests : s.requests = pre ++ r :: post) (heffect : r.takeEffect = some (contents, r')) :
    Transition s (.takeEffect pre.length)
      { files := Function.update s.files r.path contents, requests := pre ++ r' :: post }
  | completed {pre post issued : List StorageRequest} {r : StorageRequest}
    (hrequests : s.requests = pre ++ r :: post) (hcomplete : r.complete = some issued) :
    Transition s (.complete pre.length) { s with requests := pre ++ post ++ issued }

/-- Every step of Storage is a transition. -/
theorem transition_of_step {s t : Storage} {e : StorageEvent} (h : s.step e = some t) :
    Transition s e t := by
  cases e with
  | deleteMemory documentID =>
    cases h
    exact .issued rfl
  | replaceMemory documentID memory | saveNewMemory documentID memory =>
    cases h
    cases hdata : memory.imageData with
    | none =>
      simp only [saveNewMemory, replaceMemory, hdata]
      exact .imageless (by simp [StorageEvent.target, hdata])
    | some data =>
      simp only [saveNewMemory, replaceMemory, hdata]
      exact .issued (by simp [StorageEvent.target, hdata])
  | takeEffect i =>
    simp only [step, Option.bind_eq_bind, Option.bind_eq_some_iff] at h
    obtain ⟨r, hr, ⟨contents, r'⟩, heffect, ht⟩ := h
    obtain ⟨pre, post, hrequests, rfl⟩ := Lists.exists_append_of_getElem? hr
    cases ht
    rw [hrequests, List.set_append_right _ _ le_rfl, Nat.sub_self, List.set_cons_zero]
    exact .effected hrequests heffect
  | complete i =>
    simp only [step, Option.bind_eq_bind, Option.bind_eq_some_iff] at h
    obtain ⟨r, hr, issued, hcomplete, ht⟩ := h
    obtain ⟨pre, post, hrequests, rfl⟩ := Lists.exists_append_of_getElem? hr
    cases ht
    rw [hrequests, List.eraseIdx_append_of_length_le le_rfl, Nat.sub_self, List.eraseIdx_cons_zero]
    exact .completed hrequests hcomplete

/-- No request about the file is under way. -/
def Drained (path : String) (s : Storage) : Prop := ∀ r ∈ s.requests, r.path ≠ path

instance (path : String) (s : Storage) : Decidable (Drained path s) :=
  inferInstanceAs (Decidable (∀ _ ∈ _, _))

/-- Every request about the file that has effects to come leads to `target`, and where
none has, the file holds `target`. -/
structure Leads (path : String) (target : Option Data) (s : Storage) : Prop where
  final_eq : ∀ r ∈ s.requests, r.path = path → ∀ contents ∈ r.final, contents = target
  files_eq : (∀ r ∈ s.requests, r.path = path → r.final = none) → s.files path = target

theorem Leads.of_drained {path : String} {target : Option Data} {s : Storage}
    (h : Leads path target s) (hdrained : Drained path s) : s.files path = target :=
  h.files_eq fun r hr hpath => absurd hpath (hdrained r hr)

/-- A request that leads to `target` may be issued beside others that do. -/
theorem leads_issue {path : String} {target : Option Data} {s : Storage}
    (h : ∀ r ∈ s.requests, r.path = path → ∀ contents ∈ r.final, contents = target) :
    Leads path target (s.issue path target) := by
  have hfinal : (StorageRequest.delete path target).final = some target := by
    cases target <;> rfl
  constructor
  · intro r hr hpath contents hcontents
    rcases List.mem_append.mp hr with hr | hr
    · exact h r hr hpath contents hcontents
    · rw [List.mem_singleton.mp hr, hfinal] at hcontents
      exact (Option.some.inj hcontents).symm
  · intro hnone
    have hlast := hnone (.delete path target) (by simp [issue]) rfl
    rw [hfinal] at hlast
    cases hlast

/-- A request that takes effect leads where it led before, or has led there. -/
theorem Leads.effected {path : String} {target : Option Data} {s : Storage}
    (h : Leads path target s) {pre post : List StorageRequest} {r r' : StorageRequest}
    {contents : Option Data} (hrequests : s.requests = pre ++ r :: post)
    (heffect : r.takeEffect = some (contents, r')) :
    Leads path target
      { files := Function.update s.files r.path contents, requests := pre ++ r' :: post } := by
  have hpath' : r'.path = r.path := StorageRequest.path_takeEffect heffect
  have hfinal : r.final = some (r'.final.getD contents) := StorageRequest.final_takeEffect heffect
  have hleads := h.final_eq
  rw [hrequests, List.forall_mem_append, List.forall_mem_cons] at hleads
  obtain ⟨hpre, hr, hpost⟩ := hleads
  constructor
  · rw [List.forall_mem_append, List.forall_mem_cons]
    refine ⟨hpre, fun hpath c hc => ?_, hpost⟩
    have hrc : r.final = some c := by rw [hfinal, Option.mem_def.mp hc, Option.getD_some]
    exact hr (hpath'.symm.trans hpath) c hrc
  · rw [List.forall_mem_append, List.forall_mem_cons]
    rintro ⟨hpre', hr', hpost'⟩
    by_cases hpath : r.path = path
    · -- nothing is left to do: this was the last effect
      have hrc : r.final = some contents := by
        rw [hfinal, hr' (hpath'.trans hpath), Option.getD_none]
      rw [← hr hpath contents hrc, hpath]
      exact Function.update_self ..
    · have hfile : Function.update s.files r.path contents path = s.files path :=
        Function.update_of_ne (Ne.symm hpath) _ _
      refine hfile.trans (h.files_eq ?_)
      rw [hrequests, List.forall_mem_append, List.forall_mem_cons]
      exact ⟨hpre', fun hrpath => absurd hrpath hpath, hpost'⟩

/-- A completion passes on where its request led. -/
theorem Leads.completed {path : String} {target : Option Data} {s : Storage}
    (h : Leads path target s) {pre post issued : List StorageRequest} {r : StorageRequest}
    (hrequests : s.requests = pre ++ r :: post) (hcomplete : r.complete = some issued) :
    Leads path target { s with requests := pre ++ post ++ issued } := by
  have hpaths := StorageRequest.path_complete hcomplete
  obtain ⟨hfinals, hdone⟩ := StorageRequest.final_complete hcomplete
  have hleads := h.final_eq
  rw [hrequests, List.forall_mem_append, List.forall_mem_cons] at hleads
  obtain ⟨hpre, hr, hpost⟩ := hleads
  constructor
  · rw [List.forall_mem_append, List.forall_mem_append]
    refine ⟨⟨hpre, hpost⟩, fun q hq hpath c hc => ?_⟩
    rw [hpaths q hq] at hpath
    rw [hfinals q hq] at hc
    exact hr hpath c hc
  · rw [List.forall_mem_append, List.forall_mem_append]
    rintro ⟨⟨hpre', hpost'⟩, hissued⟩
    apply h.files_eq
    rw [hrequests, List.forall_mem_append, List.forall_mem_cons]
    refine ⟨hpre', fun hpath => ?_, hpost'⟩
    cases issued with
    | nil => exact hdone rfl
    | cons q issued =>
      have hq : q ∈ q :: issued := List.mem_cons_self
      rw [← hfinals q hq]
      exact hissued q hq ((hpaths q hq).trans hpath)

/-- As long as no operation on the file is issued, its requests keep leading to `target`. -/
theorem Leads.transition {path : String} {target : Option Data} {s t : Storage}
    {e : StorageEvent} (h : Leads path target s) (ht : Transition s e t)
    (hother : ∀ p ∈ e.target, p.1 ≠ path) : Leads path target t := by
  cases ht with
  | @issued _ path' target' htarget =>
    have hne : path' ≠ path := hother _ htarget
    constructor
    · intro r hr hpath
      rcases List.mem_append.mp hr with hr | hr
      · exact h.final_eq r hr hpath
      · rw [List.mem_singleton.mp hr] at hpath
        exact absurd hpath hne
    · intro hnone
      exact h.files_eq fun r hr hpath => hnone r (List.mem_append_left _ hr) hpath
  | imageless => exact h
  | effected hrequests heffect => exact h.effected hrequests heffect
  | completed hrequests hcomplete => exact h.completed hrequests hcomplete

/-- The events are no operations on the file. -/
def NoneOn (path : String) (es : List StorageEvent) : Prop :=
  ∀ e ∈ es, ∀ p ∈ e.target, p.1 ≠ path

instance (path : String) (es : List StorageEvent) : Decidable (NoneOn path es) :=
  inferInstanceAs (Decidable (∀ _ ∈ _, _))

/-- A file that is led to `target` holds it once it is drained. -/
theorem Leads.files_of_run {path : String} {target : Option Data} {s t : Storage}
    {es : List StorageEvent} (h : Leads path target s) (hnone : NoneOn path es)
    (hrun : run step s es = some t) (hdrained : Drained path t) : t.files path = target := by
  have hleads : Leads path target t := by
    refine Always.invariant (fun s e t hs hstep hother => ?_) h
      (always_of_forall_mem hnone s) hrun
    exact hs.transition (transition_of_step hstep) hother
  exact hleads.of_drained hdrained

/-! ### Orders of the requests -/

/-- A request can take effect whatever stands around it. -/
theorem step_takeEffect {s : Storage} {pre post : List StorageRequest} {r r' : StorageRequest}
    {contents : Option Data} (hrequests : s.requests = pre ++ r :: post)
    (heffect : r.takeEffect = some (contents, r')) :
    s.step (.takeEffect pre.length) = some
      { files := Function.update s.files r.path contents, requests := pre ++ r' :: post } := by
  have hr : s.requests[pre.length]? = some r := by simp [hrequests]
  simp only [step, hr, Option.bind_eq_bind, Option.bind_some, heffect]
  simp [hrequests]

/-- A completion can run whatever stands around its request. -/
theorem step_complete {s : Storage} {pre post issued : List StorageRequest} {r : StorageRequest}
    (hrequests : s.requests = pre ++ r :: post) (hcomplete : r.complete = some issued) :
    s.step (.complete pre.length) = some { s with requests := pre ++ post ++ issued } := by
  have hr : s.requests[pre.length]? = some r := by simp [hrequests]
  simp only [step, hr, Option.bind_eq_bind, Option.bind_some, hcomplete]
  simp [hrequests, List.eraseIdx_append_of_length_le]

/-- Any request can make progress while the others wait. -/
theorem exists_step_at (s : Storage) (pre post : List StorageRequest) (r : StorageRequest)
    (hrequests : s.requests = pre ++ r :: post) :
    ∃ e t, e.target = none ∧ s.step e = some t ∧ ∃ left issued,
      t.requests = pre ++ left ++ post ++ issued ∧
      remainingAll left + remainingAll issued + 1 = r.remaining := by
  rcases r.advance with ⟨contents, r', heffect, hless⟩ | ⟨issued, hcomplete, hless⟩
  · refine ⟨_, _, rfl, step_takeEffect hrequests heffect, [r'], [], by simp, ?_⟩
    simpa [remainingAll] using hless
  · refine ⟨_, _, rfl, step_complete hrequests hcomplete, [], issued, by simp, ?_⟩
    simpa [remainingAll] using hless

/-- All other requests can be brought through while the kept ones wait. -/
theorem exists_run_others (kept : List StorageRequest) (n : ℕ) :
    ∀ (s : Storage) (pre post : List StorageRequest), s.requests = pre ++ kept ++ post →
      remainingAll pre + remainingAll post = n →
      ∃ es t, (∀ e ∈ es, e.target = none) ∧ run step s es = some t ∧ t.requests = kept := by
  induction n using Nat.strong_induction_on with
  | h n ih =>
    intro s pre post hrequests hn
    -- the first request that is not kept makes progress
    have hstep : (pre = [] ∧ post = []) ∨ ∃ e u pre' post', e.target = none ∧
        s.step e = some u ∧ u.requests = pre' ++ kept ++ post' ∧
        remainingAll pre' + remainingAll post' < n := by
      cases pre with
      | cons q pre =>
        obtain ⟨e, u, hnone, hu, left, issued, hreq, hless⟩ :=
          exists_step_at s [] (pre ++ kept ++ post) q (by simpa using hrequests)
        refine .inr ⟨e, u, left ++ pre, post ++ issued, hnone, hu, by simpa using hreq, ?_⟩
        simp only [remainingAll_append, remainingAll] at hn ⊢
        omega
      | nil =>
        cases post with
        | nil => exact .inl ⟨rfl, rfl⟩
        | cons q post =>
          obtain ⟨e, u, hnone, hu, left, issued, hreq, hless⟩ :=
            exists_step_at s kept post q (by simpa using hrequests)
          refine .inr ⟨e, u, [], left ++ post ++ issued, hnone, hu, by simpa using hreq, ?_⟩
          simp only [remainingAll_append, remainingAll] at hn ⊢
          omega
    rcases hstep with ⟨rfl, rfl⟩ | ⟨e, u, pre', post', hnone, hu, hreq, hlt⟩
    · exact ⟨[], s, by simp, rfl, by simpa using hrequests⟩
    · obtain ⟨es, t, hes, hrun, ht⟩ := ih _ hlt u pre' post' hreq rfl
      exact ⟨e :: es, t, List.forall_mem_cons.mpr ⟨hnone, hes⟩, by rw [run_cons _ hu, hrun], ht⟩

/-- The effects to come of any one request can be the last ones of all. -/
theorem exists_run_last {s : Storage} {r : StorageRequest} (hr : r ∈ s.requests)
    {contents : Option Data} (hfinal : r.final = some contents) :
    ∃ es t, (∀ e ∈ es, e.target = none) ∧ run step s es = some t ∧ t.requests = [] ∧
      t.files r.path = contents := by
  obtain ⟨pre, post, hrequests⟩ := List.append_of_mem hr
  obtain ⟨es, u, hes, hrunu, hu⟩ :=
    exists_run_others [r] _ s pre post (by simpa using hrequests) rfl
  obtain ⟨fs, t, hfs, hrunt, ht⟩ := exists_run_others [] _ u [r] [] (by simpa using hu) rfl
  have hleads : Leads r.path contents u := by
    constructor
    · intro q hq _ c hc
      rw [hu, List.mem_singleton] at hq
      rw [hq, hfinal] at hc
      exact (Option.some.inj hc).symm
    · intro hnone
      have hr' : r ∈ u.requests := by simp [hu]
      rw [hnone r hr' rfl] at hfinal
      cases hfinal
  have hnone : NoneOn r.path fs := by
    intro e he p hp
    rw [hfs e he] at hp
    cases hp
  have hfile := hleads.files_of_run hnone hrunt fun q hq => by simp [ht] at hq
  exact ⟨es ++ fs, t, List.forall_mem_append.mpr ⟨hes, hfs⟩, run_trans hrunu hrunt, ht, hfile⟩

/-- **A file ends up as the last operation asked**, in whatever order its requests take
effect and complete, exactly when every request outstanding at the issue of the
operation leads to the same contents. -/
theorem files_eq_iff_sameTarget {s u : Storage} {e : StorageEvent} {path : String}
    {target : Option Data} (htarget : e.target = some (path, target))
    (hstep : s.step e = some u) :
    (∀ es t, NoneOn path es → run step u es = some t → Drained path t →
      t.files path = target) ↔
    ∀ r ∈ s.requests, r.path = path → ∀ contents ∈ r.final, contents = target := by
  have hu : u = s.issue path target := by
    cases transition_of_step hstep with
    | issued htarget' =>
      cases htarget.symm.trans htarget'
      rfl
    | imageless hnone => cases htarget.symm.trans hnone
    | effected | completed => cases htarget
  constructor
  · intro hfiles r hr hpath contents hcontents
    have hr' : r ∈ u.requests := by
      rw [hu]
      exact List.mem_append_left _ hr
    obtain ⟨es, t, hes, hrun, ht, hfile⟩ := exists_run_last hr' hcontents
    have hnone : NoneOn path es := by
      intro e he p hp
      rw [hes e he] at hp
      cases hp
    rw [← hfile, hpath]
    exact hfiles es t hnone hrun fun q hq => by simp [ht] at hq
  · intro hsame es t hnone hrun hdrained
    rw [hu] at hrun
    exact (leads_issue hsame).files_of_run hnone hrun hdrained

/-- A memory with an image, for concrete runs. -/
def pictured : LocalMemory := { sampleMemory 1 with image := some ⟨some [137]⟩ }

/-- A memory is written again while the put of the same image is under way. -/
theorem files_replace_again :
    ∃ t, run step (Storage.replaceMemory ⟨fun _ => none, [.put (imagePath "a") [137]]⟩ "a" pictured)
        [.takeEffect 1, .complete 1, .takeEffect 0, .complete 0, .takeEffect 0, .complete 0] =
          some t ∧
      t.files (imagePath "a") = some [137] := by
  refine ⟨_, rfl, ?_⟩
  have hfiles := (files_eq_iff_sameTarget (s := ⟨fun _ => none, [.put (imagePath "a") [137]]⟩)
    (e := .replaceMemory "a" pictured) rfl rfl).mpr (by decide)
  exact hfiles [.takeEffect 1, .complete 1, .takeEffect 0, .complete 0, .takeEffect 0, .complete 0]
    _ (by decide) rfl (by decide)

/-- A memory is deleted while its image is being uploaded: the put comes after the delete
of the file, and the image stays. -/
theorem image_survives_deleteMemory :
    ¬∀ (es fs : List StorageEvent) (e : StorageEvent) (s u t : Storage) (path : String)
      (target : Option Data), run step ⟨fun _ => none, []⟩ es = some s →
      e.target = some (path, target) → s.step e = some u → NoneOn path fs →
      run step u fs = some t → Drained path t → t.files path = target := by
  intro h
  have hfile := h [.saveNewMemory "a" pictured]
    [.takeEffect 1, .complete 1, .takeEffect 0, .complete 0, .takeEffect 0, .complete 0]
    (.deleteMemory "a") _ _ _ (imagePath "a") none rfl rfl rfl (by decide) rfl (by decide)
  exact absurd hfile (by decide)

/-! ### One operation at a time -/

/-- A file without requests keeps its contents until an operation on it is issued. -/
theorem leads_of_idle {s : Storage} (hidle : s.requests = []) (path : String) :
    Leads path (s.files path) s :=
  ⟨fun r hr => by simp [hidle] at hr, fun _ => rfl⟩

/-- An operation that finds no request under way and is left to finish changes its file
alone. -/
theorem files_eq_of_alone {s u t : Storage} {e : StorageEvent} {es : List StorageEvent}
    (hidle : s.requests = []) (hstep : s.step e = some u) (hes : ∀ e' ∈ es, e'.target = none)
    (hrun : run step u es = some t) (hdone : t.requests = []) :
    t.files = e.target.elim s.files fun p => Function.update s.files p.1 p.2 := by
  have hnone (path : String) : NoneOn path es := by
    intro e' he' p hp
    rw [hes e' he'] at hp
    cases hp
  have hdrained (path : String) : Drained path t := fun r hr => by simp [hdone] at hr
  have hother (path : String) (hpath : ∀ p ∈ e.target, p.1 ≠ path) :
      t.files path = s.files path := by
    have hleads := (leads_of_idle hidle path).transition (transition_of_step hstep) hpath
    exact hleads.files_of_run (hnone path) hrun (hdrained path)
  funext path
  cases htarget : e.target with
  | none => exact hother path (by simp [htarget])
  | some p =>
    rw [Option.elim_some]
    by_cases hpath : path = p.1
    · rw [hpath, Function.update_self]
      have hsame : ∀ r ∈ s.requests, r.path = p.1 → ∀ contents ∈ r.final, contents = p.2 :=
        fun r hr => by simp [hidle] at hr
      exact (files_eq_iff_sameTarget htarget hstep).mpr hsame es t (hnone _) hrun (hdrained _)
    · rw [Function.update_of_ne hpath]
      apply hother
      intro q hq
      obtain rfl := Option.some.inj (htarget.symm.trans hq)
      exact Ne.symm hpath

/-- Left to finish, the requests of `replaceMemory` do what the Firebase layer does at once. -/
theorem files_replaceMemory {c : Cloud} {s u t : Storage} {es : List StorageEvent}
    {documentID : DocumentID} {memory : LocalMemory} (hfiles : s.files = c.storage)
    (hidle : s.requests = []) (hstep : s.step (.replaceMemory documentID memory) = some u)
    (hes : ∀ e' ∈ es, e'.target = none) (hrun : run step u es = some t)
    (hdone : t.requests = []) : t.files = (c.putImage documentID memory).storage := by
  rw [files_eq_of_alone hidle hstep hes hrun hdone, Cloud.storage_putImage, hfiles,
    StorageEvent.target]
  cases memory.imageData <;> rfl

/-- Left to finish, the requests of `deleteMemory` do what the Firebase layer does at once. -/
theorem files_deleteMemory {c : Cloud} {s u t : Storage} {es : List StorageEvent}
    {documentID : DocumentID} (uid : Uid) (hfiles : s.files = c.storage)
    (hidle : s.requests = []) (hstep : s.step (.deleteMemory documentID) = some u)
    (hes : ∀ e' ∈ es, e'.target = none) (hrun : run step u es = some t)
    (hdone : t.requests = []) : t.files = (c.deleted uid documentID).storage := by
  rw [files_eq_of_alone hidle hstep hes hrun hdone, Cloud.storage_deleted, hfiles]
  rfl

end Storage

end FeelBetter
