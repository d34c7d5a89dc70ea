import Mathlib.Data.Option.Basic

/-!
# Pictures made of pieces

A picture gives some positions a value and leaves the others blank. A picture
is composed of pieces when no two of them share a position and its values are
exactly theirs. Putting a piece over a picture that it does not touch keeps
the composition. Positions and values are arbitrary.
-/

/-- Values at some of the positions. -/
abbrev Picture (ι β : Type*) := ι → Option β

namespace Picture

variable {ι β : Type*}

/-- Two pictures share no position. -/
def Apart (q p : Picture ι β) : Prop := ∀ i, q i = none ∨ p i = none

/-- `q` laid over `p`. -/
def overlay (q p : Picture ι β) : Picture ι β := fun i => (q i).or (p i)

/-- A position of `overlay q p` has the value of `q` or, where `q` is blank, of `p`. -/
theorem overlay_eq_some_iff {q p : Picture ι β} {i : ι} {b : β} :
    overlay q p i = some b ↔ q i = some b ∨ q i = none ∧ p i = some b :=
  Option.or_eq_some_iff

/-- Laid over a picture it does not touch, a piece hides nothing. -/
theorem Apart.overlay_eq_some_iff {q p : Picture ι β} (h : Apart q p) {i : ι} {b : β} :
    overlay q p i = some b ↔ q i = some b ∨ p i = some b := by
  rw [Picture.overlay_eq_some_iff]
  constructor
  · rintro (hq | ⟨_, hp⟩)
    · exact .inl hq
    · exact .inr hp
  · rintro (hq | hp)
    · exact .inl hq
    · rcases h i with hnone | hnone
      · exact .inr ⟨hnone, hp⟩
      · rw [hnone] at hp
        cases hp

/-- The picture is the disjoint union of the pieces: no two of them share a position, and
the picture has a value exactly where a piece has it. -/
structure Composed (pieces : List (Picture ι β)) (p : Picture ι β) : Prop where
  apart : pieces.Pairwise Apart
  eq_some_iff : ∀ i b, p i = some b ↔ ∃ q ∈ pieces, q i = some b

/-- The blank picture has no pieces. -/
theorem composed_nil {p : Picture ι β} (h : ∀ i, p i = none) : Composed [] p where
  apart := List.Pairwise.nil
  eq_some_iff := fun i b => by simp [h i]

/-- A piece that is apart from a composed picture is apart from its pieces. -/
theorem Composed.apart_of_mem {pieces : List (Picture ι β)} {p q r : Picture ι β}
    (h : Composed pieces p) (hq : Apart q p) (hr : r ∈ pieces) : Apart q r := by
  intro i
  rcases hq i with hnone | hnone
  · exact .inl hnone
  · right
    by_contra hsome
    obtain ⟨b, hb⟩ := Option.ne_none_iff_exists'.mp hsome
    have hpb : p i = some b := (h.eq_some_iff i b).mpr ⟨r, hr, hb⟩
    rw [hnone] at hpb
    cases hpb

/-- A piece is apart from a composed picture where it is apart from each of its pieces. -/
theorem Composed.apart_iff {pieces : List (Picture ι β)} {p q : Picture ι β}
    (h : Composed pieces p) : Apart q p ↔ ∀ r ∈ pieces, Apart q r := by
  refine ⟨fun hq r hr => h.apart_of_mem hq hr, fun hq i => ?_⟩
  cases hp : p i with
  | none => exact .inr rfl
  | some b =>
    obtain ⟨r, hr, hb⟩ := (h.eq_some_iff i b).mp hp
    refine .inl ((hq r hr i).resolve_right ?_)
    rw [hb]
    exact Option.some_ne_none b

/-- A piece that touches nothing can be laid over. -/
theorem Composed.overlay {pieces : List (Picture ι β)} {p q : Picture ι β}
    (h : Composed pieces p) (hq : Apart q p) : Composed (q :: pieces) (overlay q p) where
  apart := List.pairwise_cons.mpr ⟨fun _ hr => h.apart_of_mem hq hr, h.apart⟩
  eq_some_iff := by
    intro i b
    rw [hq.overlay_eq_some_iff, h.eq_some_iff]
    simp

end Picture
