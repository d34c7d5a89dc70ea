import FeelBetter.WordCloud.Strides

/-!
# What the collision test inspects

The start point of a word is drawn from a range of whole numbers that rounds the
space beside the word down, while the loops of `intersected` run over a bitmap
that rounds the word up. The image of the canvas is rounded up too, but only
until the first word is accepted: `join` rounds it down. A word inside the canvas
may then be inspected beyond the image, and a word larger than the canvas always
may.
-/

namespace FeelBetter

open Machine

/-- A size that is not empty. -/
def CGSize.Positive (size : CGSize) : Prop := 0 < size.width ∧ 0 < size.height

/-- UIKit allocates bitmaps of the size asked for, rounded up to whole pixels, and drawing on
a bitmap keeps its size. -/
structure CoreGraphics.Allocates (cg : CoreGraphics) : Prop where
  emptyImage_size : ∀ size : CGSize, size.Positive →
    (cg.emptyImage size).width = ⌈size.width⌉₊ ∧ (cg.emptyImage size).height = ⌈size.height⌉₊
  wordImage_size : ∀ word : Word, word.size.Positive →
    (cg.wordImage word).width = ⌈word.size.width⌉₊ ∧
      (cg.wordImage word).height = ⌈word.size.height⌉₊
  draw_size : ∀ context image rect, (cg.draw context image rect).width = context.width ∧
    (cg.draw context image rect).height = context.height

/-- A search for an element ends at the first one. -/
theorem any_take_findIdx {α : Type} (p : α → Bool) (l : List α) :
    (l.take (l.findIdx p + 1)).any p = l.any p := by
  induction l with
  | nil => rfl
  | cons a l ih =>
    rw [List.findIdx_cons]
    cases ha : p a with
    | true => simp [ha]
    | false => simp [ha, ih]

namespace Canvas

/-! ### The loops of `intersected` -/

section Loops

variable (word : WordImage) (image : CGImage)

/-- The positions of the two loops of `intersected`, in order. -/
def positions : List (ℤ × ℤ) :=
  (List.range word.image.height).flatMap fun row : ℕ =>
    (List.range word.image.width).map fun column : ℕ =>
      (truncate word.point.x + column, truncate word.point.y + row)

/-- `imageOffset` in `intersected`. -/
def imageOffset (p : ℤ × ℤ) : ℤ := (image.width * p.2 + p.1) * 4

/-- `wordOffset` in `intersected`. -/
def wordOffset (p : ℤ × ℤ) : ℤ :=
  (word.image.width * (p.2 - truncate word.point.y) + (p.1 - truncate word.point.x)) * 4

/-- The condition on which `intersected` returns `true`. -/
def clash (p : ℤ × ℤ) : Bool :=
  word.image.byte (wordOffset word p + 3) != 0 && image.byte (imageOffset image p + 3) != 0

/-- The positions that `intersected` visits: the loops end at the first clash. -/
def visited : List (ℤ × ℤ) :=
  (positions word).take ((positions word).findIdx (clash word image) + 1)

/-- `intersected` looks for a clash at the positions that it visits. -/
theorem intersected_eq_any :
    intersected word image = (visited word image).any (clash word image) := by
  have hall : intersected word image = (positions word).any (clash word image) := by
    simp only [intersected, positions, List.any_flatMap, List.any_map]
    rfl
  rw [hall, visited, any_take_findIdx]

/-- What `intersected` inspects is inside the bitmap, and inside the buffers where rows are
`4 * width` bytes. -/
structure InBounds : Prop where
  contains : ∀ p ∈ visited word image, image.Contains p.1 p.2
  imageOffset_lt : ∀ p ∈ visited word image,
    0 ≤ imageOffset image p ∧ imageOffset image p + 3 < 4 * image.width * image.height
  wordOffset_lt : ∀ p ∈ visited word image,
    0 ≤ wordOffset word p ∧ wordOffset word p + 3 < 4 * word.image.width * word.image.height

end Loops

variable {word : WordImage} {image : CGImage}

theorem mem_positions_iff {p : ℤ × ℤ} :
    p ∈ positions word ↔
      word.image.Contains (p.1 - truncate word.point.x) (p.2 - truncate word.point.y) := by
  simp only [positions, List.mem_flatMap, List.mem_map, List.mem_range]
  constructor
  · rintro ⟨row, hrow, column, hcolumn, rfl⟩
    refine ⟨?_, ?_, ?_, ?_⟩ <;> dsimp only <;> omega
  · rintro ⟨hx, hxw, hy, hyh⟩
    refine ⟨(p.2 - truncate word.point.y).toNat, by omega,
      (p.1 - truncate word.point.x).toNat, by omega, ?_⟩
    apply Prod.ext
    · show truncate word.point.x + ((p.1 - truncate word.point.x).toNat : ℤ) = p.1
      omega
    · show truncate word.point.y + ((p.2 - truncate word.point.y).toNat : ℤ) = p.2
      omega

/-- The offsets of the pixels of a bitmap without padding are inside its buffer. -/
theorem offset_lt {width height x y : ℤ} (hx : 0 ≤ x) (hxw : x < width) (hy : 0 ≤ y)
    (hyh : y < height) :
    0 ≤ (width * y + x) * 4 ∧ (width * y + x) * 4 + 3 < 4 * width * height := by
  have hrow : 0 ≤ width * y := mul_nonneg (by omega) hy
  have hrows : width * (y + 1) ≤ width * height := mul_le_mul_of_nonneg_left hyh (by omega)
  constructor
  · linarith
  · linarith

/-- A word inside the bitmap is inspected inside the bitmap. -/
theorem inBounds_of_inside (h : word.Inside image) : InBounds word image := by
  have hword {p : ℤ × ℤ} (hp : p ∈ visited word image) :
      word.image.Contains (p.1 - truncate word.point.x) (p.2 - truncate word.point.y) :=
    mem_positions_iff.mp (List.mem_of_mem_take hp)
  constructor
  · intro p hp
    exact h.contains (hword hp)
  · intro p hp
    obtain ⟨hx, hxw, hy, hyh⟩ := h.contains (hword hp)
    exact offset_lt hx hxw hy hyh
  · intro p hp
    obtain ⟨hx, hxw, hy, hyh⟩ := hword hp
    exact offset_lt hx hxw hy hyh

/-- On transparent bitmaps all positions are visited. -/
theorem visited_of_clear (h : ∀ p ∈ positions word, clash word image p = false) :
    visited word image = positions word := by
  have hend : (positions word).findIdx (clash word image) = (positions word).length := by
    apply List.findIdx_eq_length.mpr
    simpa using h
  rw [visited, hend]
  exact List.take_of_length_le (Nat.le_succ _)

/-- What a transparent bitmap holds. -/
def clearContents : Contents := ⟨.rgba, fun _ _ => .clear, fun _ => 0⟩

theorem byte_clear (offset : ℤ) : (image.fill clearContents).byte offset = 0 := by
  rw [CGImage.byte_fill]
  split
  · simp [clearContents, Pixel.byte, Pixel.clear]
  · rfl

/-- A word is inspected inside the bitmap, whatever the two hold, exactly where it is inside. -/
theorem inBounds_fill_iff (hwidth : 0 < word.image.width) (hheight : 0 < word.image.height)
    (hleft : 0 ≤ truncate word.point.x) (htop : 0 ≤ truncate word.point.y) :
    (∀ wordContents contents, InBounds (word.fill wordContents) (image.fill contents)) ↔
      word.Inside image := by
  constructor
  · intro h
    have hclear : visited (word.fill clearContents) (image.fill clearContents) =
        positions (word.fill clearContents) := by
      apply visited_of_clear
      intro p _
      simp [clash, byte_clear]
    -- the last pixel of the word is visited
    have hlast : (truncate word.point.x + (word.image.width - 1),
        truncate word.point.y + (word.image.height - 1)) ∈
          positions (word.fill clearContents) := by
      apply mem_positions_iff.mpr
      show word.image.Contains
        (truncate word.point.x + (word.image.width - 1) - truncate word.point.x)
        (truncate word.point.y + (word.image.height - 1) - truncate word.point.y)
      rw [add_sub_cancel_left, add_sub_cancel_left]
      exact ⟨by omega, by omega, by omega, by omega⟩
    rw [← hclear] at hlast
    have hcontains : image.Contains _ _ := (h clearContents clearContents).contains _ hlast
    obtain ⟨-, hright, -, hbottom⟩ := hcontains
    exact ⟨hleft, by omega, htop, by omega⟩
  · intro h wordContents contents
    exact inBounds_of_inside (h.fill wordContents contents)

/-! ### Where a word can start -/

variable {cg : CoreGraphics}

/-- All start pixels of a word put it inside the bitmap exactly where the last ones do. -/
theorem forall_inside_place_iff (hcg : cg.Allocates) {size : CGSize} {word : Word}
    (hword : word.size.Positive) :
    (∀ startPixel, CanStart size word startPixel → (place cg word startPixel).Inside image) ↔
      ((truncate (size.width - word.size.width)).natAbs : ℤ) + ⌈word.size.width⌉ ≤ image.width ∧
      ((truncate (size.height - word.size.height)).natAbs : ℤ) + ⌈word.size.height⌉ ≤
        image.height := by
  obtain ⟨hwidth, hheight⟩ := hcg.wordImage_size word hword
  have hcolumns : ((cg.wordImage word).width : ℤ) = ⌈word.size.width⌉ := by
    rw [hwidth]
    exact Int.natCast_ceil_eq_ceil hword.1.le
  have hrows : ((cg.wordImage word).height : ℤ) = ⌈word.size.height⌉ := by
    rw [hheight]
    exact Int.natCast_ceil_eq_ceil hword.2.le
  rw [← hcolumns, ← hrows]
  have hx (startPixel : ℕ × ℕ) : truncate (place cg word startPixel).point.x = startPixel.1 :=
    truncate_natCast _
  have hy (startPixel : ℕ × ℕ) : truncate (place cg word startPixel).point.y = startPixel.2 :=
    truncate_natCast _
  constructor
  · intro h
    obtain ⟨-, hright, -, hbottom⟩ := h (_, _) ⟨le_rfl, le_rfl⟩
    rw [hx] at hright
    rw [hy] at hbottom
    exact ⟨hright, hbottom⟩
  · rintro ⟨hright, hbottom⟩ startPixel ⟨hcolumn, hrow⟩
    constructor
    · rw [hx]
      omega
    · rw [hx]
      show (startPixel.1 : ℤ) + (cg.wordImage word).width ≤ image.width
      omega
    · rw [hy]
      omega
    · rw [hy]
      show (startPixel.2 : ℤ) + (cg.wordImage word).height ≤ image.height
      omega

end Canvas

namespace WordCloud

variable {cg : CoreGraphics}

/-- A length has room in another one that was rounded down. -/
def RoomTruncated (c w : ℚ) : Prop := w ≤ c ∧ (Int.fract w = 0 ∨ Int.fract c < Int.fract w)

instance (c w : ℚ) : Decidable (RoomTruncated c w) := inferInstanceAs (Decidable (_ ∧ _))

/-- The word has room wherever it starts: rounded up it is no larger than the canvas rounded
up, as long as no word was accepted; later it is no larger than the canvas, and its
width and height are whole or have a greater fractional part than those of the canvas. -/
def Admits (s : WordCloud) (word : Word) : Prop :=
  if s.accepted = [] then
    ⌈word.size.width⌉ ≤ ⌈s.canvas.size.width⌉ ∧ ⌈word.size.height⌉ ≤ ⌈s.canvas.size.height⌉
  else RoomTruncated s.canvas.size.width word.size.width ∧
    RoomTruncated s.canvas.size.height word.size.height

instance (s : WordCloud) (word : Word) : Decidable (s.Admits word) :=
  inferInstanceAs (Decidable (ite _ _ _))

/-- The image of the canvas is rounded up until a word is accepted, and rounded down from then
on. -/
structure Sized (size : CGSize) (s : WordCloud) : Prop where
  size_eq : s.canvas.size = size
  image_empty : s.accepted = [] → (s.canvas.currentImage.width : ℤ) = ⌈size.width⌉ ∧
    (s.canvas.currentImage.height : ℤ) = ⌈size.height⌉
  image_joined : s.accepted ≠ [] → (s.canvas.currentImage.width : ℤ) = ⌊size.width⌋ ∧
    (s.canvas.currentImage.height : ℤ) = ⌊size.height⌋

theorem sized_start (hcg : cg.Allocates) {size : CGSize} (hsize : size.Positive) :
    Sized size (start cg size) := by
  obtain ⟨hwidth, hheight⟩ := hcg.emptyImage_size size hsize
  refine ⟨rfl, ?_, ?_⟩
  · intro _
    show ((cg.emptyImage size).width : ℤ) = _ ∧ ((cg.emptyImage size).height : ℤ) = _
    rw [hwidth, hheight]
    exact ⟨Int.natCast_ceil_eq_ceil hsize.1.le, Int.natCast_ceil_eq_ceil hsize.2.le⟩
  · intro h
    exact absurd rfl h

theorem Sized.step (hcg : cg.Allocates) {size : CGSize} (hsize : size.Positive) {s t : WordCloud}
    {addition : Addition} (h : Sized size s) (hstep : s.step cg addition = some t) :
    Sized size t := by
  obtain ⟨-, ⟨-, rfl⟩ | ⟨-, rfl⟩⟩ := step_cases hstep
  · exact h
  · refine ⟨h.size_eq, ?_, ?_⟩
    · intro hempty
      cases hempty
    · intro _
      have hdraw (context image : CGImage) (rect : CGRect) := hcg.draw_size context image rect
      simp only [Canvas.join, hdraw, h.size_eq, Canvas.newContext, CGImage.blank]
      rw [truncate_of_nonneg hsize.1.le, truncate_of_nonneg hsize.2.le]
      exact ⟨Int.toNat_of_nonneg (Int.floor_nonneg.mpr hsize.1.le),
        Int.toNat_of_nonneg (Int.floor_nonneg.mpr hsize.2.le)⟩

theorem Sized.of_run (hcg : cg.Allocates) {size : CGSize} (hsize : size.Positive)
    {additions : List Addition} {s : WordCloud}
    (hrun : run (WordCloud.step cg) (start cg size) additions = some s) : Sized size s :=
  run_invariant (fun _ _ _ h hstep => h.step hcg hsize hstep) (sized_start hcg hsize) hrun

/-- A word has room exactly where all its start pixels put it inside the image. -/
theorem Sized.admits_iff (hcg : cg.Allocates) {size : CGSize} {s : WordCloud}
    (h : Sized size s) {word : Word} (hword : word.size.Positive) :
    s.Admits word ↔ ∀ startPixel, Canvas.CanStart s.canvas.size word startPixel →
      (Canvas.place cg word startPixel).Inside s.canvas.currentImage := by
  rw [Canvas.forall_inside_place_iff hcg hword, h.size_eq]
  unfold Admits RoomTruncated
  rw [h.size_eq]
  by_cases hempty : s.accepted = []
  · obtain ⟨hwidth, hheight⟩ := h.image_empty hempty
    rw [if_pos hempty, hwidth, hheight, natAbs_truncate_add_ceil_le_ceil_iff,
      natAbs_truncate_add_ceil_le_ceil_iff]
  · obtain ⟨hwidth, hheight⟩ := h.image_joined hempty
    rw [if_neg hempty, hwidth, hheight, natAbs_truncate_add_ceil_le_floor_iff,
      natAbs_truncate_add_ceil_le_floor_iff]

/-- **What is inspected is inside the image** throughout a run in which all words have room,
and in every state that a run reaches a word has room exactly where it is inspected inside
the image from all start pixels and whatever the bitmaps hold. -/
theorem inBounds_of_admits (hcg : cg.Allocates) {size : CGSize} (hsize : size.Positive)
    {additions : List Addition} (hwords : ∀ addition ∈ additions, addition.word.size.Positive) :
    (Always (step cg) (fun s addition _ => s.Admits addition.word) (start cg size) additions →
      Always (step cg) (fun s addition _ => Canvas.InBounds
        (Canvas.place cg addition.word addition.startPixel) s.canvas.currentImage)
        (start cg size) additions) ∧
    ∀ s word, run (step cg) (start cg size) additions = some s → word.size.Positive →
      (s.Admits word ↔ ∀ startPixel, Canvas.CanStart s.canvas.size word startPixel →
        ∀ wordContents contents, Canvas.InBounds
          ((Canvas.place cg word startPixel).fill wordContents)
          (s.canvas.currentImage.fill contents)) := by
  constructor
  · intro hrooms
    have hpositive : Always (step cg) (fun _ addition _ => addition.word.size.Positive)
        (start cg size) additions := always_of_forall_mem hwords _
    refine Always.of_invariant (I := Sized size) ?_ (sized_start hcg hsize)
      (hrooms.and hpositive)
    rintro s addition t hs hstep ⟨hroom, hword⟩
    refine ⟨?_, hs.step hcg hsize hstep⟩
    have hinside := (hs.admits_iff hcg hword).mp hroom
    exact Canvas.inBounds_of_inside (hinside _ (step_cases hstep).1)
  · intro s word hrun hword
    have hs := Sized.of_run hcg hsize hrun
    rw [hs.admits_iff hcg hword]
    obtain ⟨hwidth, hheight⟩ := hcg.wordImage_size word hword
    refine forall_congr' fun startPixel => forall_congr' fun _ => ?_
    refine (Canvas.inBounds_fill_iff ?_ ?_ ?_ ?_).symm
    · show 0 < (cg.wordImage word).width
      rw [hwidth]
      exact Nat.ceil_pos.mpr hword.1
    · show 0 < (cg.wordImage word).height
      rw [hheight]
      exact Nat.ceil_pos.mpr hword.2
    · exact (truncate_natCast startPixel.1).symm ▸ Int.natCast_nonneg _
    · exact (truncate_natCast startPixel.2).symm ▸ Int.natCast_nonneg _

theorem compositor_allocates : compositor.Allocates where
  emptyImage_size := fun _ _ => ⟨rfl, rfl⟩
  wordImage_size := fun _ _ => ⟨rfl, rfl⟩
  draw_size := fun _ _ _ => ⟨rfl, rfl⟩

/-- Two words with room on a canvas that is rounded. -/
def roomyWords : List Addition := [⟨⟨"Hi", ⟨1, 1⟩⟩, (0, 0)⟩, ⟨⟨"Food", ⟨7 / 4, 1⟩⟩, (0, 1)⟩]

theorem inBounds_roomyWords :
    (run (step compositor) (start compositor ⟨5 / 2, 2⟩) roomyWords).isSome ∧
      Always (step compositor) (fun s addition _ => Canvas.InBounds
        (Canvas.place compositor addition.word addition.startPixel) s.canvas.currentImage)
        (start compositor ⟨5 / 2, 2⟩) roomyWords := by
  have hsize : CGSize.Positive ⟨5 / 2, 2⟩ := ⟨by norm_num, by norm_num⟩
  have hwords : ∀ addition ∈ roomyWords, addition.word.size.Positive := by
    simp [roomyWords, CGSize.Positive]
  exact ⟨by decide +kernel,
    (inBounds_of_admits compositor_allocates hsize hwords).1 (by decide +kernel)⟩

/-- The second word is inside the canvas, and inspected beyond the image that `join` made. -/
def cutOffWords : List Addition := [⟨⟨"Hi", ⟨1, 1⟩⟩, (0, 0)⟩, ⟨⟨"Lost", ⟨5 / 4, 1⟩⟩, (1, 1)⟩]

theorem not_inBounds_cutOffWords :
    ¬∀ (size : CGSize) (additions : List Addition), size.Positive →
      (∀ addition ∈ additions, addition.word.size.Positive) →
      Always (step compositor) (fun s addition _ => Canvas.InBounds
        (Canvas.place compositor addition.word addition.startPixel) s.canvas.currentImage)
        (start compositor size) additions := by
  intro h
  have hsize : CGSize.Positive ⟨5 / 2, 2⟩ := ⟨by norm_num, by norm_num⟩
  have hwords : ∀ addition ∈ cutOffWords, addition.word.size.Positive := by
    simp [cutOffWords, CGSize.Positive]
  have hrun := h ⟨5 / 2, 2⟩ cutOffWords hsize hwords
  have hcontained : Always (step compositor) (fun s addition _ =>
      ∀ p ∈ Canvas.visited (Canvas.place compositor addition.word addition.startPixel)
        s.canvas.currentImage, s.canvas.currentImage.Contains p.1 p.2)
      (start compositor ⟨5 / 2, 2⟩) cutOffWords :=
    hrun.mono fun _ _ _ hbounds => hbounds.contains
  exact absurd hcontained (by decide +kernel)

end WordCloud

end FeelBetter
