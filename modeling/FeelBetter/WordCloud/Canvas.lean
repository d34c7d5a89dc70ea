import FeelBetter.Machine.Runs
import FeelBetter.WordCloud.CoreGraphics

/-!
# The word cloud

`Canvas.add` draws a word at a random place, unless a pixel of it would fall on
a pixel that is taken. The test reads the two buffers row by row from the
top; the drawing goes through a rectangle counted from the bottom. On
canvases and words of whole pixels the two speak of the same pixels, so the
image is at any time the disjoint union of the words that were accepted.
-/

namespace FeelBetter

open Machine

/-- A word, with the size that UIKit measures for it. The text stands for all that its bitmap
depends on, which are its font and its color, too. -/
structure Word where
  text : String
  size : CGSize
  deriving DecidableEq

/-- A word drawn into a bitmap of its own, and the point where it is to go. -/
structure WordImage where
  point : CGPoint
  image : CGImage
  word : Word

/-- `WordImage.rect`. -/
def WordImage.rect (w : WordImage) : CGRect := ⟨w.point, w.word.size⟩

/-- The drawing functions of the system. -/
structure CoreGraphics where
  /-- The image of a new UIKit context of a size. -/
  emptyImage : CGSize → CGImage
  /-- The image of a UIKit context of the word's size in which the word was drawn. -/
  wordImage : Word → CGImage
  /-- `context.draw(image, in: rect)` on the bitmap of a context. -/
  draw : CGImage → CGImage → CGRect → CGImage

namespace CoreGraphics

/-- A size of whole pixels. -/
def WholePixel (size : CGSize) : Prop :=
  ∃ width height : ℕ, 0 < width ∧ 0 < height ∧ size = ⟨width, height⟩

/-- What is documented about drawing with whole pixels: UIKit allocates bitmaps of the size
asked for, an image in which nothing was drawn is transparent, and drawing an image into
a rectangle of its own size composites it pixel by pixel, with the rectangle
counted from the bottom of the context. -/
structure Documented (cg : CoreGraphics) : Prop where
  emptyImage_size : ∀ width height : ℕ, 0 < width → 0 < height →
    (cg.emptyImage ⟨width, height⟩).width = width ∧ (cg.emptyImage ⟨width, height⟩).height = height
  emptyImage_pixel : ∀ size x y, (cg.emptyImage size).pixel x y = .clear
  wordImage_size : ∀ (word : Word) (width height : ℕ), 0 < width → 0 < height →
    word.size = ⟨width, height⟩ →
    (cg.wordImage word).width = width ∧ (cg.wordImage word).height = height
  draw_context : ∀ context image rect, (cg.draw context image rect).width = context.width ∧
    (cg.draw context image rect).height = context.height ∧
    (cg.draw context image rect).bytesPerRow = context.bytesPerRow
  draw_pixel : ∀ (context image : CGImage) (left bottom x y : ℤ), context.Contains x y →
    let drawn := cg.draw context image ⟨⟨left, bottom⟩, ⟨image.width, image.height⟩⟩
    let top := context.height - (bottom + image.height)
    (image.Contains (x - left) (y - top) →
      Pixel.SourceOver (image.pixel (x - left) (y - top)) (context.pixel x y) (drawn.pixel x y)) ∧
    (¬image.Contains (x - left) (y - top) → drawn.pixel x y = context.pixel x y)

/-- The rows of the bitmaps that UIKit allocates are not padded. -/
structure Unpadded (cg : CoreGraphics) : Prop where
  emptyImage : ∀ size, (cg.emptyImage size).bytesPerRow = 4 * (cg.emptyImage size).width
  wordImage : ∀ word, (cg.wordImage word).bytesPerRow = 4 * (cg.wordImage word).width

end CoreGraphics

/-- The canvas of a word cloud. -/
structure Canvas where
  size : CGSize
  currentImage : CGImage

namespace Canvas

/-- `Canvas.intersected(word:image:)`: the two loops, with the offsets as the source
computes them. -/
def intersected (word : WordImage) (image : CGImage) : Bool :=
  (List.range word.image.height).any fun row => (List.range word.image.width).any fun column =>
    let y := truncate word.point.y + row
    let x := truncate word.point.x + column
    let imageOffset := (image.width * y + x) * 4
    let wordOffset :=
      (word.image.width * (y - truncate word.point.y) + (x - truncate word.point.x)) * 4
    let wordAlpha := word.image.byte (wordOffset + 3)
    let backgroundAlpha := image.byte (imageOffset + 3)
    wordAlpha != 0 && backgroundAlpha != 0

variable (cg : CoreGraphics)

/-- The bitmap of `CGContext(data: nil, width:height:…)` in `Canvas.join`. -/
def newContext (size : CGSize) : CGImage :=
  .blank (truncate size.width).toNat (truncate size.height).toNat
    (4 * (truncate size.width).toNat) .rgba le_rfl

/-- The size has pixels, so that a context of it can be made. -/
def HasContext (size : CGSize) : Prop := 0 < truncate size.width ∧ 0 < truncate size.height

instance (size : CGSize) : Decidable (HasContext size) := inferInstanceAs (Decidable (_ ∧ _))

/-- `Canvas.join(image:word:)`, on a size that has a context. -/
def join (canvas : Canvas) (image : CGImage) (word : WordImage) : CGImage :=
  let context := newContext canvas.size
  let context := cg.draw context image ⟨⟨0, 0⟩, canvas.size⟩
  cg.draw context word.image (word.rect.reversedY canvas.size)

/-- The word as `Canvas.add` would place it at a start pixel. -/
def place (word : Word) (startPixel : ℕ × ℕ) : WordImage where
  point := ⟨startPixel.1, startPixel.2⟩
  image := cg.wordImage word
  word

/-- `Canvas.add(word:)`, with the start pixel that was drawn at random. -/
def add (canvas : Canvas) (word : Word) (startPixel : ℕ × ℕ) : Canvas :=
  let wordRepresentation := place cg word startPixel
  if intersected wordRepresentation canvas.currentImage then canvas
  else { canvas with currentImage := canvas.join cg canvas.currentImage wordRepresentation }

/-- The start pixels that `Int.random(in:)` can draw for a word. -/
def CanStart (size : CGSize) (word : Word) (startPixel : ℕ × ℕ) : Prop :=
  startPixel.1 ≤ (truncate (size.width - word.size.width)).natAbs ∧
    startPixel.2 ≤ (truncate (size.height - word.size.height)).natAbs

instance (size : CGSize) (word : Word) (startPixel : ℕ × ℕ) :
    Decidable (CanStart size word startPixel) :=
  inferInstanceAs (Decidable (_ ∧ _))

end Canvas

/-- A word that is added, and the start pixel that is drawn for it. -/
structure Addition where
  word : Word
  startPixel : ℕ × ℕ

/-- A canvas with the words that it has accepted, the latest first. -/
structure WordCloud where
  canvas : Canvas
  accepted : List WordImage

namespace WordCloud

variable (cg : CoreGraphics)

/-- One call of `Canvas.add`; `none` where the start pixel cannot be drawn, and where a word
is accepted and no context can be made for it. -/
def step (s : WordCloud) (addition : Addition) : Option WordCloud :=
  if Canvas.CanStart s.canvas.size addition.word addition.startPixel then
    let placed := Canvas.place cg addition.word addition.startPixel
    if Canvas.intersected placed s.canvas.currentImage then some s
    else if Canvas.HasContext s.canvas.size then
      some {
        canvas := s.canvas.add cg addition.word addition.startPixel
        accepted := placed :: s.accepted }
    else none
  else none

/-- A new canvas. Its image is made when it is first read. -/
def start (size : CGSize) : WordCloud where
  canvas := ⟨size, cg.emptyImage size⟩
  accepted := []

variable {cg}

/-- What a call of `add` does: a word that meets another one changes nothing, and another word
is drawn. -/
theorem step_cases {s t : WordCloud} {addition : Addition} (h : s.step cg addition = some t) :
    Canvas.CanStart s.canvas.size addition.word addition.startPixel ∧
      (Canvas.intersected (Canvas.place cg addition.word addition.startPixel)
          s.canvas.currentImage = true ∧ t = s ∨
        Canvas.intersected (Canvas.place cg addition.word addition.startPixel)
          s.canvas.currentImage = false ∧
        t = ⟨⟨s.canvas.size, s.canvas.join cg s.canvas.currentImage
            (Canvas.place cg addition.word addition.startPixel)⟩,
          Canvas.place cg addition.word addition.startPixel :: s.accepted⟩) := by
  unfold step at h
  split at h
  · rename_i hstart
    refine ⟨hstart, ?_⟩
    cases hclash : Canvas.intersected (Canvas.place cg addition.word addition.startPixel)
        s.canvas.currentImage with
    | true =>
      left
      simp only [hclash, if_true, Option.some.injEq] at h
      exact ⟨rfl, h.symm⟩
    | false =>
      right
      simp only [hclash, Bool.false_eq_true, if_false] at h
      split at h
      · simp only [Canvas.add, hclash, Bool.false_eq_true, if_false, Option.some.injEq] at h
        exact ⟨rfl, h.symm⟩
      · cases h
  · cases h

end WordCloud

end FeelBetter
