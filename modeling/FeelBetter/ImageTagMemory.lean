import Mathlib.Data.Finset.Sort
import Mathlib.Data.String.Basic
import Mathlib.Logic.Function.Basic

/-!
# The memory of image tags

`ImageTagMemory` keeps the tags of an image and its description in the user
defaults, under two keys that are made of the identifier of the image. A record
counts as present where its tags are. The assignment of `nil` leaves a record
as it is.
-/

namespace FeelBetter

/-- `PHAsset.localIdentifier`. -/
abbrev LocalIdentifier := String

/-- A value of the user defaults, as far as it is read. -/
inductive DefaultsValue where
  | string (s : String)
  | strings (l : List String)
  deriving DecidableEq

/-- `UserDefaults.standard`. -/
abbrev UserDefaults := String → Option DefaultsValue

namespace UserDefaults

/-- `set(_:forKey:)`: `nil` removes the key. -/
def set (defaults : UserDefaults) (value : Option DefaultsValue) (key : String) : UserDefaults :=
  Function.update defaults key value

/-- `stringArray(forKey:)`. -/
def stringArray (defaults : UserDefaults) (key : String) : Option (List String) :=
  match defaults key with
  | some (.strings l) => some l
  | _ => none

/-- `string(forKey:)`. -/
def string (defaults : UserDefaults) (key : String) : Option String :=
  match defaults key with
  | some (.string s) => some s
  | _ => none

end UserDefaults

/-- `ImageTagMemory.ImageTag`. -/
structure ImageTag where
  tags : Finset String
  description : Option String
  deriving DecidableEq

namespace ImageTagMemory

/-- The key of the tags of an image. -/
def tagsKey (identifier : LocalIdentifier) : String := "ImageTagKey_tags_" ++ identifier

/-- The key of the description of an image. -/
def descKey (identifier : LocalIdentifier) : String := "ImageTagKey_desc_" ++ identifier

/-- `tag(of:)`. -/
def tag (defaults : UserDefaults) (identifier : LocalIdentifier) : Option ImageTag :=
  match defaults.stringArray (tagsKey identifier) with
  | some array => some ⟨array.toFinset, defaults.string (descKey identifier)⟩
  | none => none

/-- `setTag(_:for:)`. An array of the elements of a set may have them in any order. -/
def setTag (defaults : UserDefaults) (tag : Option ImageTag) (identifier : LocalIdentifier) :
    UserDefaults :=
  match tag with
  | none => defaults
  | some tag =>
    (defaults.set (some (.strings tag.tags.sort)) (tagsKey identifier)).set
      (tag.description.map .string) (descKey identifier)

/-! ### Records and their keys -/

theorem tagsKey_injective : Function.Injective tagsKey := fun _ _ h =>
  (String.append_right_inj _).mp h

theorem descKey_injective : Function.Injective descKey := fun _ _ h =>
  (String.append_right_inj _).mp h

/-- The keys of tags and the keys of descriptions are apart. -/
theorem tagsKey_ne_descKey (identifier identifier' : LocalIdentifier) :
    tagsKey identifier ≠ descKey identifier' := by
  intro h
  have hlist : ("ImageTagKey_tags_" ++ identifier).toList =
      ("ImageTagKey_desc_" ++ identifier').toList := congrArg _ h
  rw [String.toList_append, String.toList_append] at hlist
  -- two words of the same length in front
  obtain ⟨hwords, -⟩ := List.append_inj hlist (by decide +kernel)
  exact absurd hwords (by decide +kernel)

variable (defaults : UserDefaults) (identifier : LocalIdentifier)

/-- A record is read back as it was assigned. -/
theorem tag_setTag_self (record : ImageTag) :
    tag (setTag defaults (some record) identifier) identifier = some record := by
  have htags : (setTag defaults (some record) identifier).stringArray (tagsKey identifier) =
      some record.tags.sort := by
    simp only [setTag, UserDefaults.set, UserDefaults.stringArray,
      Function.update_of_ne (tagsKey_ne_descKey identifier identifier), Function.update_self]
  have hdesc : (setTag defaults (some record) identifier).string (descKey identifier) =
      record.description := by
    cases hdescription : record.description <;>
      simp only [setTag, UserDefaults.set, UserDefaults.string, hdescription, Function.update_self,
        Option.map_none, Option.map_some]
  unfold tag
  rw [htags, hdesc]
  simp only [Finset.sort_toFinset]

/-- A record is not affected by the assignment of another one. -/
theorem tag_setTag_of_ne (record : Option ImageTag) {identifier identifier' : LocalIdentifier}
    (hne : identifier' ≠ identifier) :
    tag (setTag defaults record identifier) identifier' = tag defaults identifier' := by
  cases record with
  | none => rfl
  | some record =>
    have htags : tagsKey identifier' ≠ tagsKey identifier := tagsKey_injective.ne hne
    have hdesc : descKey identifier' ≠ descKey identifier := descKey_injective.ne hne
    simp only [tag, setTag, UserDefaults.set, UserDefaults.stringArray, UserDefaults.string,
      Function.update_of_ne htags, Function.update_of_ne hdesc,
      Function.update_of_ne (tagsKey_ne_descKey identifier' identifier),
      Function.update_of_ne (tagsKey_ne_descKey identifier identifier').symm]

/-! ### Sequences of assignments -/

/-- The assignment of `tag` to the subscript of the asset with this identifier. -/
structure Assignment where
  identifier : LocalIdentifier
  tag : Option ImageTag
  deriving DecidableEq

/-- The defaults after all of the assignments, in order. -/
def assignAll (defaults : UserDefaults) (assignments : List Assignment) : UserDefaults :=
  assignments.foldl (fun defaults a => setTag defaults a.tag a.identifier) defaults

/-- The last record that is assigned to an identifier; an assignment of `nil` is none. -/
def lastRecord (assignments : List Assignment) (identifier : LocalIdentifier) : Option ImageTag :=
  ((assignments.filter (·.identifier = identifier)).filterMap (·.tag)).getLast?

theorem assignAll_concat (assignments : List Assignment) (a : Assignment) :
    assignAll defaults (assignments ++ [a]) =
      setTag (assignAll defaults assignments) a.tag a.identifier := by
  rw [assignAll, List.foldl_append]
  rfl

theorem lastRecord_concat_of_ne {assignments : List Assignment} {a : Assignment}
    (hne : a.identifier ≠ identifier) :
    lastRecord (assignments ++ [a]) identifier = lastRecord assignments identifier := by
  rw [lastRecord, lastRecord, List.filter_append, List.filter_singleton, decide_eq_false hne,
    Bool.cond_false, List.append_nil]

theorem lastRecord_concat_self (assignments : List Assignment) (tag : Option ImageTag) :
    lastRecord (assignments ++ [⟨identifier, tag⟩]) identifier =
      tag.or (lastRecord assignments identifier) := by
  have hfilter : (assignments ++ [(⟨identifier, tag⟩ : Assignment)]).filter
      (·.identifier = identifier) = assignments.filter (·.identifier = identifier) ++
        [⟨identifier, tag⟩] := by
    rw [List.filter_append, List.filter_singleton]
    simp
  rw [lastRecord, lastRecord, hfilter, List.filterMap_append, List.getLast?_append]
  cases tag <;> rfl

/-- After any assignments the last record assigned is read, or else what was there before. -/
theorem tag_assignAll_eq (assignments : List Assignment) :
    tag (assignAll defaults assignments) identifier =
      (lastRecord assignments identifier).or (tag defaults identifier) := by
  induction assignments using List.reverseRecOn with
  | nil => rfl
  | append_singleton assignments a ih =>
    obtain ⟨assigned, record⟩ := a
    rw [assignAll_concat]
    by_cases hne : assigned = identifier
    · subst hne
      rw [lastRecord_concat_self, Option.or_assoc, ← ih]
      cases record with
      | none => rfl
      | some record => exact tag_setTag_self _ _ record
    · rw [lastRecord_concat_of_ne _ hne, ← ih]
      exact tag_setTag_of_ne _ record (Ne.symm hne)

/-- The assignments to other identifiers do not count. -/
theorem lastRecord_filter (assignments : List Assignment) :
    lastRecord (assignments.filter (·.identifier = identifier)) identifier =
      lastRecord assignments identifier := by
  rw [lastRecord, lastRecord, List.filter_filter]
  simp only [Bool.and_self]

/-- Whatever is assigned and in which order: an image is read with the last record
that was assigned to it, its tags and its description as they were, as if nothing
had been assigned to other images; where no record was, as before. -/
theorem tag_assignAll (assignments : List Assignment) :
    tag (assignAll defaults assignments) identifier =
        (lastRecord assignments identifier).or (tag defaults identifier) ∧
      tag (assignAll defaults (assignments.filter (·.identifier = identifier))) identifier =
        tag (assignAll defaults assignments) identifier := by
  constructor
  · exact tag_assignAll_eq defaults identifier assignments
  · rw [tag_assignAll_eq, tag_assignAll_eq, lastRecord_filter]

/-- The assignment of `nil` is not read back: the record from before it stays. -/
theorem record_stays_after_nil :
    tag (assignAll (fun _ => none) [⟨"beach", some ⟨{"sea"}, some "waves"⟩⟩, ⟨"beach", none⟩])
        "beach" = some ⟨{"sea"}, some "waves"⟩ ∧
      ¬∀ (assignments : List Assignment) (identifier : LocalIdentifier),
        tag (assignAll (fun _ => none) assignments) identifier =
          (assignments.filter (·.identifier = identifier)).getLast?.bind (·.tag) := by
  have hread : tag (assignAll (fun _ => none)
      [⟨"beach", some ⟨{"sea"}, some "waves"⟩⟩, ⟨"beach", none⟩]) "beach" =
        some ⟨{"sea"}, some "waves"⟩ :=
    tag_setTag_self (fun _ => none) "beach" _
  refine ⟨hread, fun h => ?_⟩
  rw [h] at hread
  cases hread

end ImageTagMemory

end FeelBetter
