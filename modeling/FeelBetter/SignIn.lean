import FeelBetter.Machine.Simulation
import Mathlib.Data.Nat.Notation
import Mathlib.Logic.Function.Basic

/-!
# The sign-in screen

`SignInViewController` has four text fields for two forms. To create an account the user
gives a name, an email and a password twice. To sign in, the field of the name takes the
email and the field of the email takes the password, and the other two are hidden. So what a
field means depends on the button that was touched last, and this file compares the screen
with a form whose entries have one meaning each.
-/

namespace FeelBetter

open Machine

/-! ### The screen -/

/-- A `UITextField`. -/
structure TextField where
  text : String
  placeholder : String
  isSecureTextEntry : Bool
  isHidden : Bool
  deriving DecidableEq

/-- The text fields of the screen, by their outlets. -/
inductive FieldOutlet where
  | nameField
  | emailField
  | passwordField
  | confirmPassword
  deriving DecidableEq

/-- A request to `Auth`. -/
inductive AuthRequest where
  | signIn (email password : String)
  | createUser (email password : String)
  deriving DecidableEq

/-- The state of a `SignInViewController`. -/
structure SignIn where
  field : FieldOutlet → TextField
  hasAccount : Bool
  /-- The title of `signButton`. -/
  title : String
  /-- The requests under way, in the order in which they were made. -/
  requests : List AuthRequest
  /-- A completion has dismissed the screen. -/
  isDismissed : Bool

/-- What can happen next. -/
inductive SignInEvent where
  /-- The user leaves a field with another text. -/
  | edit (outlet : FieldOutlet) (text : String)
  | selectSignIn
  | selectSignUp
  | sign
  /-- The `i`-th request under way completes, with a user or with an error. -/
  | completed (i : ℕ)
  deriving DecidableEq

namespace SignIn

/-- The screen of the storyboard after `viewDidLoad`. -/
def loaded : SignIn where
  field
    | .nameField => ⟨"", "First Name Last Name", false, false⟩
    | .emailField => ⟨"", "Email", false, false⟩
    | .passwordField => ⟨"", "Password", true, false⟩
    | .confirmPassword => ⟨"", "Confirm Password", true, false⟩
  hasAccount := false
  title := "Create Account"
  requests := []
  isDismissed := false

def selectSignIn (s : SignIn) : SignIn :=
  { s with
    field := fun
      | .nameField => { s.field .nameField with text := "", placeholder := "Email" }
      | .emailField =>
        { s.field .emailField with
          text := "", placeholder := "Password", isSecureTextEntry := true }
      | .passwordField => { s.field .passwordField with isHidden := true }
      | .confirmPassword => { s.field .confirmPassword with isHidden := true }
    hasAccount := true
    title := "Sign In" }

def selectSignUp (s : SignIn) : SignIn :=
  { s with
    field := fun
      | .nameField => { s.field .nameField with text := "", placeholder := "First Name Last Name" }
      | .emailField =>
        { s.field .emailField with text := "", placeholder := "Email", isSecureTextEntry := false }
      | .passwordField =>
        { s.field .passwordField with text := "", isSecureTextEntry := true, isHidden := false }
      | .confirmPassword =>
        { s.field .confirmPassword with text := "", isSecureTextEntry := true, isHidden := false }
    hasAccount := false
    title := "Create Account" }

/-- What `sign` asks `Auth` for, if for anything. `equivalent` is `==` of two strings, which
Swift takes up to canonical equivalence. -/
def sign (equivalent : String → String → Bool) (s : SignIn) : Option AuthRequest :=
  if s.hasAccount then
    if (s.field .nameField).text ≠ "" ∧ (s.field .emailField).text ≠ "" then
      some (.signIn (s.field .nameField).text (s.field .emailField).text)
    else none
  else
    if (s.field .emailField).text ≠ "" ∧ (s.field .passwordField).text ≠ "" ∧
        (s.field .confirmPassword).text ≠ "" then
      if equivalent (s.field .passwordField).text (s.field .confirmPassword).text then
        some (.createUser (s.field .emailField).text (s.field .passwordField).text)
      else none
    else none

/-- One step of the screen: `none` where the event cannot happen. Nobody touches a screen that
is dismissed. A field that was being edited when it was hidden still takes what is typed. -/
def step (equivalent : String → String → Bool) (s : SignIn) : SignInEvent → Option SignIn
  | .edit outlet text =>
    if ¬s.isDismissed then
      some { s with field := Function.update s.field outlet { s.field outlet with text } }
    else none
  | .selectSignIn => if ¬s.isDismissed then some s.selectSignIn else none
  | .selectSignUp => if ¬s.isDismissed then some s.selectSignUp else none
  | .sign =>
    if ¬s.isDismissed then
      some { s with requests := s.requests ++ (s.sign equivalent).toList }
    else none
  | .completed i =>
    if i < s.requests.length then
      some { s with requests := s.requests.eraseIdx i, isDismissed := true }
    else none

/-- What one step can do. -/
inductive Transition (equivalent : String → String → Bool) (s : SignIn) :
    SignInEvent → SignIn → Prop where
  | edit (outlet : FieldOutlet) (text : String) :
    Transition equivalent s (.edit outlet text)
      { s with field := Function.update s.field outlet { s.field outlet with text } }
  | selectSignIn : Transition equivalent s .selectSignIn s.selectSignIn
  | selectSignUp : Transition equivalent s .selectSignUp s.selectSignUp
  | sign :
    Transition equivalent s .sign
      { s with requests := s.requests ++ (s.sign equivalent).toList }
  | completed (i : ℕ) :
    Transition equivalent s (.completed i)
      { s with requests := s.requests.eraseIdx i, isDismissed := true }

/-- Every step is one of the transitions. -/
theorem transition_of_step {equivalent : String → String → Bool} {s t : SignIn} {e : SignInEvent}
    (h : step equivalent s e = some t) : Transition equivalent s e t := by
  cases e with
  | edit outlet text =>
    obtain ⟨-, ⟨⟩⟩ := Option.ite_none_right_eq_some.mp h
    exact .edit outlet text
  | selectSignIn =>
    obtain ⟨-, ⟨⟩⟩ := Option.ite_none_right_eq_some.mp h
    exact .selectSignIn
  | selectSignUp =>
    obtain ⟨-, ⟨⟩⟩ := Option.ite_none_right_eq_some.mp h
    exact .selectSignUp
  | sign =>
    obtain ⟨-, ⟨⟩⟩ := Option.ite_none_right_eq_some.mp h
    exact .sign
  | completed i =>
    obtain ⟨-, ⟨⟩⟩ := Option.ite_none_right_eq_some.mp h
    exact .completed i

end SignIn

/-! ### The form -/

/-- What the user is asked for. -/
inductive FormEntry where
  | name
  | email
  | password
  | confirmation
  deriving DecidableEq

namespace FormEntry

/-- How a field asks for the entry. -/
def placeholder : FormEntry → String
  | .name => "First Name Last Name"
  | .email => "Email"
  | .password => "Password"
  | .confirmation => "Confirm Password"

/-- Nobody may read the entry over the user's shoulder. -/
def isSecret : FormEntry → Bool
  | .name | .email => false
  | .password | .confirmation => true

/-- The form for a user with an account asks for two of the entries. -/
def isAsked (hasAccount : Bool) : FormEntry → Bool
  | .name | .confirmation => !hasAccount
  | .email | .password => true

end FormEntry

/-- A form to sign in with, or to create an account with. -/
structure EntryForm where
  hasAccount : Bool
  entries : FormEntry → String

/-- What the user does with a form. -/
inductive EntryFormEvent where
  /-- The user takes a new form. -/
  | take (hasAccount : Bool)
  | fill (entry : FormEntry) (text : String)
  | submit
  deriving DecidableEq

namespace EntryForm

/-- A new form. -/
def blank (hasAccount : Bool) : EntryForm := ⟨hasAccount, fun _ => ""⟩

def step (form : EntryForm) : EntryFormEvent → Option EntryForm
  | .take hasAccount => some (blank hasAccount)
  | .fill entry text =>
    if entry.isAsked form.hasAccount then
      some { form with entries := Function.update form.entries entry text }
    else none
  | .submit => some form

/-- What is asked of `Auth` with the form: nothing before the email and the password are filled
in, or where a new password is not given twice. -/
def credentials (equivalent : String → String → Bool) (form : EntryForm) : Option AuthRequest :=
  if form.entries .email = "" ∨ form.entries .password = "" then none
  else if form.hasAccount then some (.signIn (form.entries .email) (form.entries .password))
  else if form.entries .confirmation ≠ "" ∧
      equivalent (form.entries .password) (form.entries .confirmation) then
    some (.createUser (form.entries .email) (form.entries .password))
  else none

/-- The requests that an event leads to. -/
def submitted (equivalent : String → String → Bool) (form : EntryForm) (e : EntryFormEvent)
    (_ : EntryForm) : List AuthRequest :=
  match e with
  | .submit => (form.credentials equivalent).toList
  | .take _ | .fill _ _ => []

end EntryForm

/-! ### The screen shows the form -/

namespace SignIn

variable {equivalent : String → String → Bool}

/-- What a field asks for, if it asks for anything. -/
def entry (hasAccount : Bool) : FieldOutlet → Option FormEntry
  | .nameField => some (if hasAccount then .email else .name)
  | .emailField => some (if hasAccount then .password else .email)
  | .passwordField => if hasAccount then none else some .password
  | .confirmPassword => if hasAccount then none else some .confirmation

/-- The fields that ask for an entry show it, with its placeholder, and conceal it where it is
secret. The others are hidden, and are ready for the entry that they ask for in the other form. -/
structure Shows (s : SignIn) (form : EntryForm) : Prop where
  hasAccount : s.hasAccount = form.hasAccount
  title : s.title = if form.hasAccount then "Sign In" else "Create Account"
  shown : ∀ outlet entry, SignIn.entry form.hasAccount outlet = some entry →
    s.field outlet = ⟨form.entries entry, entry.placeholder, entry.isSecret, false⟩
  hidden : ∀ outlet entry, SignIn.entry form.hasAccount outlet = none →
    SignIn.entry false outlet = some entry →
    ∃ text, s.field outlet = ⟨text, entry.placeholder, entry.isSecret, true⟩

/-- What the user does with the form in an event of the screen. -/
def formEvents (s : SignIn) (e : SignInEvent) (_ : SignIn) : List EntryFormEvent :=
  match e with
  | .edit outlet text => (entry s.hasAccount outlet).toList.map (.fill · text)
  | .selectSignIn => [.take true]
  | .selectSignUp => [.take false]
  | .sign => [.submit]
  | .completed _ => []

/-- The requests that an event leads to. -/
def requested (equivalent : String → String → Bool) (s : SignIn) (e : SignInEvent)
    (_ : SignIn) : List AuthRequest :=
  match e with
  | .sign => (s.sign equivalent).toList
  | .edit _ _ | .selectSignIn | .selectSignUp | .completed _ => []

variable {s t : SignIn} {form : EntryForm} {outlet outlet' : FieldOutlet}

theorem shows_loaded : loaded.Shows (.blank false) where
  hasAccount := rfl
  title := rfl
  shown := by
    rintro (_ | _ | _ | _) _ ⟨⟩
    all_goals rfl
  hidden := by
    rintro (_ | _ | _ | _) _ hnone
    all_goals cases hnone

/-- Two fields do not ask for the same entry. -/
theorem entry_inj {hasAccount : Bool} {e : FormEntry} (h : entry hasAccount outlet = some e)
    (h' : entry hasAccount outlet' = some e) : outlet = outlet' := by
  cases hasAccount with
  | false =>
    cases outlet <;> cases h <;> cases outlet' <;> cases h'
    all_goals rfl
  | true =>
    cases outlet <;> cases h <;> cases outlet' <;> cases h'
    all_goals rfl

/-- A field that asks for something asks for what its form asks for. -/
theorem isAsked_of_entry {hasAccount : Bool} {e : FormEntry}
    (h : entry hasAccount outlet = some e) : e.isAsked hasAccount = true := by
  cases hasAccount with
  | false =>
    cases outlet <;> cases h
    all_goals rfl
  | true =>
    cases outlet <;> cases h
    all_goals rfl

/-- An edit of a field fills in its entry. -/
theorem Shows.edit (h : s.Shows form) {e : FormEntry}
    (hentry : entry form.hasAccount outlet = some e) (text : String) :
    Shows { s with field := Function.update s.field outlet { s.field outlet with text } }
      { form with entries := Function.update form.entries e text } where
  hasAccount := h.hasAccount
  title := h.title
  shown outlet' e' hentry' := by
    by_cases houtlet : outlet' = outlet
    · subst houtlet
      obtain rfl : e' = e := Option.some.inj (hentry'.symm.trans hentry)
      simp only [Function.update_self, h.shown outlet' e' hentry]
    · have hne : e' ≠ e := by
        rintro rfl
        exact houtlet (entry_inj hentry' hentry)
      simp only [Function.update_of_ne houtlet, Function.update_of_ne hne]
      exact h.shown outlet' e' hentry'
  hidden outlet' e' hnone hentry' := by
    have houtlet : outlet' ≠ outlet := by
      rintro rfl
      rw [hentry] at hnone
      cases hnone
    simp only [Function.update_of_ne houtlet]
    exact h.hidden outlet' e' hnone hentry'

/-- An edit of a hidden field is none of the form. -/
theorem Shows.edit_hidden (h : s.Shows form) (hnone : entry form.hasAccount outlet = none)
    (text : String) :
    Shows { s with field := Function.update s.field outlet { s.field outlet with text } } form where
  hasAccount := h.hasAccount
  title := h.title
  shown outlet' e hentry := by
    have houtlet : outlet' ≠ outlet := by
      rintro rfl
      rw [hnone] at hentry
      cases hentry
    simp only [Function.update_of_ne houtlet]
    exact h.shown outlet' e hentry
  hidden outlet' e hnone' hentry := by
    obtain ⟨text', htext'⟩ := h.hidden outlet' e hnone' hentry
    by_cases houtlet : outlet' = outlet
    · subst houtlet
      exact ⟨text, by simp only [Function.update_self, htext']⟩
    · exact ⟨text', by simp only [Function.update_of_ne houtlet, htext']⟩

/-- The field of the name is never hidden and never secure. -/
theorem Shows.nameField (h : s.Shows form) :
    ∃ text placeholder, s.field .nameField = ⟨text, placeholder, false, false⟩ := by
  have hfield := h.shown .nameField _ rfl
  cases hasAccount : form.hasAccount with
  | false | true =>
    rw [hasAccount] at hfield
    exact ⟨_, _, hfield⟩

/-- The fields of a new password keep what they ask for while they are hidden. -/
theorem Shows.secret (h : s.Shows form) (outlet : FieldOutlet) {e : FormEntry}
    (hentry : entry false outlet = some e) (hsecret : e.isSecret = true) :
    ∃ text isHidden, s.field outlet = ⟨text, e.placeholder, true, isHidden⟩ := by
  cases hasAccount : form.hasAccount with
  | false =>
    have hfield := h.shown outlet e (hasAccount ▸ hentry)
    exact ⟨_, _, hsecret ▸ hfield⟩
  | true =>
    have hnone : entry form.hasAccount outlet = none := by
      rw [hasAccount]
      cases outlet <;> cases hentry <;> first | rfl | cases hsecret
    obtain ⟨text, hfield⟩ := h.hidden outlet e hnone hentry
    exact ⟨text, true, hsecret ▸ hfield⟩

/-- The user who has an account gets a new form with two fields. -/
theorem Shows.selectSignIn (h : s.Shows form) : s.selectSignIn.Shows (.blank true) where
  hasAccount := rfl
  title := rfl
  shown := by
    obtain ⟨_, _, hname⟩ := h.nameField
    have hemail := h.shown .emailField _ rfl
    rintro (_ | _ | _ | _) _ hentry
    · cases hentry
      simp only [SignIn.selectSignIn, hname]
      rfl
    · cases hentry
      simp only [SignIn.selectSignIn, hemail]
      rfl
    · cases hentry
    · cases hentry
  hidden := by
    obtain ⟨password, _, hpassword⟩ := h.secret .passwordField rfl rfl
    obtain ⟨confirmation, _, hconfirm⟩ := h.secret .confirmPassword rfl rfl
    rintro (_ | _ | _ | _) _ hnone hentry
    · cases hnone
    · cases hnone
    · cases hentry
      exact ⟨password, by simp only [SignIn.selectSignIn, hpassword]; rfl⟩
    · cases hentry
      exact ⟨confirmation, by simp only [SignIn.selectSignIn, hconfirm]; rfl⟩

/-- A new user gets a new form with all of the fields. -/
theorem Shows.selectSignUp (h : s.Shows form) : s.selectSignUp.Shows (.blank false) where
  hasAccount := rfl
  title := rfl
  shown := by
    obtain ⟨_, _, hname⟩ := h.nameField
    have hemail := h.shown .emailField _ rfl
    obtain ⟨_, _, hpassword⟩ := h.secret .passwordField rfl rfl
    obtain ⟨_, _, hconfirm⟩ := h.secret .confirmPassword rfl rfl
    rintro (_ | _ | _ | _) _ hentry
    · cases hentry
      simp only [SignIn.selectSignUp, hname]
      rfl
    · cases hentry
      simp only [SignIn.selectSignUp, hemail]
      rfl
    · cases hentry
      simp only [SignIn.selectSignUp, hpassword]
      rfl
    · cases hentry
      simp only [SignIn.selectSignUp, hconfirm]
      rfl
  hidden := by
    rintro (_ | _ | _ | _) _ hnone
    all_goals cases hnone

/-- `sign` asks for what the form says. -/
theorem Shows.sign (h : s.Shows form) :
    SignIn.sign equivalent s = form.credentials equivalent := by
  unfold SignIn.sign EntryForm.credentials
  cases hasAccount : form.hasAccount with
  | true =>
    have hname := h.shown .nameField .email (by rw [hasAccount]; rfl)
    have hemail := h.shown .emailField .password (by rw [hasAccount]; rfl)
    simp only [h.hasAccount, hasAccount, hname, hemail]
    grind
  | false =>
    have hemail := h.shown .emailField .email (by rw [hasAccount]; rfl)
    have hpassword := h.shown .passwordField .password (by rw [hasAccount]; rfl)
    have hconfirm := h.shown .confirmPassword .confirmation (by rw [hasAccount]; rfl)
    simp only [h.hasAccount, hasAccount, hemail, hpassword, hconfirm]
    grind

/-- The form explains every step of the screen. -/
theorem simulates_entryForm (equivalent : String → String → Bool) :
    Simulates (step equivalent) EntryForm.step Shows (fun _ _ => True) formEvents
      (requested equivalent) (EntryForm.submitted equivalent) := by
  intro s e t form h _ hstep
  cases transition_of_step hstep with
  | edit outlet text =>
    have hevents (t : SignIn) : formEvents s (.edit outlet text) t =
        (entry form.hasAccount outlet).toList.map (.fill · text) := by
      rw [formEvents, h.hasAccount]
    rw [hevents]
    cases hentry : entry form.hasAccount outlet with
    | none => exact ⟨form, rfl, h.edit_hidden hentry text, rfl⟩
    | some entry =>
      have hfill : EntryForm.step form (.fill entry text) =
          some { form with entries := Function.update form.entries entry text } :=
        if_pos (isAsked_of_entry hentry)
      refine ⟨_, run_cons [] hfill, h.edit hentry text, ?_⟩
      simp only [Option.toList_some, List.map_cons, List.map_nil, outputs, hfill]
      rfl
  | selectSignIn => exact ⟨_, rfl, h.selectSignIn, rfl⟩
  | selectSignUp => exact ⟨_, rfl, h.selectSignUp, rfl⟩
  | sign =>
    refine ⟨form, rfl, ⟨h.hasAccount, h.title, h.shown, h.hidden⟩, ?_⟩
    simp only [requested, h.sign, formEvents, outputs, EntryForm.step, EntryForm.submitted,
      List.append_nil]
  | completed i => exact ⟨form, rfl, ⟨h.hasAccount, h.title, h.shown, h.hidden⟩, rfl⟩

/-- **The screen is its form.** In every run of the screen the visible fields show the entries
of a form that the user fills in under their placeholders, with the passwords and nothing
else concealed, and `Auth` is asked for what the form says, in the same order. -/
theorem requests_of_run {es : List SignInEvent} (hrun : run (step equivalent) loaded es = some t) :
    ∃ form, run EntryForm.step (.blank false) (outputs (step equivalent) formEvents loaded es) =
        some form ∧ t.Shows form ∧
      outputs (step equivalent) (requested equivalent) loaded es =
        outputs EntryForm.step (EntryForm.submitted equivalent) (.blank false)
          (outputs (step equivalent) formEvents loaded es) := by
  have hall : Always (step equivalent) (fun _ _ _ => True) loaded es :=
    always_of_forall_mem (fun _ _ => trivial) loaded
  exact (simulates_entryForm equivalent).run_sim shows_loaded hall hrun

/-- A user types a name, then remembers the account and signs in. -/
def remembered : List SignInEvent :=
  [.edit .nameField "Kevin", .edit .passwordField "secret", .selectSignIn, .sign,
    .edit .nameField "kevin@example.com", .edit .emailField "secret", .sign, .completed 0]

/-- What is asked of `Auth` then. -/
theorem requests_remembered : ∃ t, run (step (· == ·)) loaded remembered = some t ∧
    ∃ form, run EntryForm.step (.blank false)
        (outputs (step (· == ·)) formEvents loaded remembered) = some form ∧ t.Shows form ∧
      outputs (step (· == ·)) (requested (· == ·)) loaded remembered =
        outputs EntryForm.step (EntryForm.submitted (· == ·)) (.blank false)
          (outputs (step (· == ·)) formEvents loaded remembered) := by
  obtain ⟨t, ht⟩ : ∃ t, run (step (· == ·)) loaded remembered = some t := ⟨_, rfl⟩
  exact ⟨t, ht, requests_of_run ht⟩

example : outputs (step (· == ·)) (requested (· == ·)) loaded remembered =
    [.signIn "kevin@example.com" "secret"] := by decide

/-! ### Where a text was typed -/

/-- The text of a field was typed while the field asked for the same, and was concealed as it is
now, and nothing was typed into it since. -/
def TypedAsShown (equivalent : String → String → Bool) (es : List SignInEvent) (s : SignIn)
    (outlet : FieldOutlet) : Prop :=
  ∃ before after u, es = before ++ .edit outlet (s.field outlet).text :: after ∧
    run (step equivalent) loaded before = some u ∧
    u.field outlet = { s.field outlet with text := (u.field outlet).text } ∧
    ∀ text, .edit outlet text ∉ after

/-- An event that leaves the field as it is changes nothing about where its text was typed. -/
theorem TypedAsShown.append {es : List SignInEvent} {e : SignInEvent}
    (h : TypedAsShown equivalent es s outlet) (hfield : t.field outlet = s.field outlet)
    (he : ∀ text, e ≠ .edit outlet text) : TypedAsShown equivalent (es ++ [e]) t outlet := by
  obtain ⟨before, after, u, rfl, hrun, hu, hafter⟩ := h
  refine ⟨before, after ++ [e], u, by rw [hfield]; simp, hrun, hfield ▸ hu, fun text hmem => ?_⟩
  rcases List.mem_append.mp hmem with hmem | hmem
  · exact hafter text hmem
  · exact he text (List.mem_singleton.mp hmem).symm

/-- **No text is shown under another label.** What a visible field shows was typed into it while
it had the same placeholder, and was as secure, as now: nothing that was typed into a
concealed field is ever shown to be read. -/
theorem typed_of_run {es : List SignInEvent} (hrun : run (step equivalent) loaded es = some t) :
    ∀ outlet, (t.field outlet).isHidden = false → (t.field outlet).text ≠ "" →
      TypedAsShown equivalent es t outlet := by
  refine run_history (J := fun es t => ∀ outlet, (t.field outlet).isHidden = false →
    (t.field outlet).text ≠ "" → TypedAsShown equivalent es t outlet) ?_ ?_ hrun
  · intro es s e t hes hJ hstep outlet hvisible htext
    cases transition_of_step hstep with
    | edit outlet' text =>
      by_cases houtlet : outlet = outlet'
      · subst houtlet
        simp only [Function.update_self] at hvisible htext
        refine ⟨es, [], s, ?_, hes, ?_, fun _ => List.not_mem_nil⟩
        · simp only [Function.update_self]
        · simp only [Function.update_self]
      · simp only [Function.update_of_ne houtlet] at hvisible htext
        refine (hJ outlet hvisible htext).append (Function.update_of_ne houtlet _ _) ?_
        rintro text' heq
        cases heq
        exact houtlet rfl
    | selectSignIn =>
      -- The fields that stay visible are emptied, the others are hidden.
      cases outlet with
      | nameField | emailField => exact absurd rfl htext
      | passwordField | confirmPassword => cases hvisible
    | selectSignUp =>
      cases outlet
      all_goals exact absurd rfl htext
    | sign => exact (hJ outlet hvisible htext).append rfl (by intro _ heq; cases heq)
    | completed i => exact (hJ outlet hvisible htext).append rfl (by intro _ heq; cases heq)
  · intro outlet _ htext
    cases outlet
    all_goals exact absurd rfl htext

/-- The password of the second form is concealed, as it was when it was typed. -/
theorem typed_remembered : ∃ t, run (step (· == ·)) loaded remembered = some t ∧
    ∀ outlet, (t.field outlet).isHidden = false → (t.field outlet).text ≠ "" →
      TypedAsShown (· == ·) remembered t outlet := by
  obtain ⟨t, ht⟩ : ∃ t, run (step (· == ·)) loaded remembered = some t := ⟨_, rfl⟩
  exact ⟨t, ht, typed_of_run ht⟩

end SignIn

end FeelBetter
