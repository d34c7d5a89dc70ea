import FeelBetter.Picture
import FeelBetter.Rounding

/-!
# Bitmaps

What the word cloud uses of CoreGraphics and UIKit. A bitmap is a grid of
premultiplied pixels, row 0 at the top, stored row by row in a buffer whose rows
may be padded. The drawing functions of the system are parameters; what is
documented about them is stated for rectangles of whole pixels.
-/

namespace FeelBetter

structure CGPoint where
  x : CGFloat
  y : CGFloat
  deriving DecidableEq

structure CGSize where
  width : CGFloat
  height : CGFloat
  deriving DecidableEq

structure CGRect where
  origin : CGPoint
  size : CGSize
  deriving DecidableEq

/-- `CGRect.reversedY(with:)`. -/
def CGRect.reversedY (rect : CGRect) (size : CGSize) : CGRect where
  origin := ⟨rect.origin.x, size.height - rect.origin.y - rect.size.height⟩
  size := rect.size

/-- A pixel with premultiplied colour components, which do not exceed the alpha component. -/
@[ext]
structure Pixel where
  red : UInt8
  green : UInt8
  blue : UInt8
  alpha : UInt8
  red_le : red ≤ alpha
  green_le : green ≤ alpha
  blue_le : blue ≤ alpha
  deriving DecidableEq

namespace Pixel

/-- The transparent pixel. -/
def clear : Pixel where
  red := 0
  green := 0
  blue := 0
  alpha := 0
  red_le := by decide
  green_le := by decide
  blue_le := by decide

/-- A pixel without alpha has no colour either. -/
theorem eq_clear_of_alpha {p : Pixel} (h : p.alpha = 0) : p = clear := by
  have hzero {c : UInt8} (hc : c ≤ p.alpha) : c = 0 := by
    rw [h] at hc
    exact UInt8.le_antisymm hc UInt8.zero_le
  apply Pixel.ext
  · exact hzero p.red_le
  · exact hzero p.green_le
  · exact hzero p.blue_le
  · exact h

/-- One component of source-over compositing, `source + dest * (1 - alpha)` up to the rounding
to a byte. -/
def ComponentOver (source alpha dest out : UInt8) : Prop :=
  |255 * (out.toNat : ℤ) - (255 * source.toNat + dest.toNat * (255 - alpha.toNat))| < 255

/-- `out` is `source` composited over `dest`. -/
structure SourceOver (source dest out : Pixel) : Prop where
  red : ComponentOver source.red source.alpha dest.red out.red
  green : ComponentOver source.green source.alpha dest.green out.green
  blue : ComponentOver source.blue source.alpha dest.blue out.blue
  alpha : ComponentOver source.alpha source.alpha dest.alpha out.alpha

theorem componentOver_zero {alpha source out : UInt8}
    (h : ComponentOver source alpha 0 out) : out = source := by
  unfold ComponentOver at h
  rw [abs_lt] at h
  have hzero : (0 : UInt8).toNat = 0 := rfl
  apply UInt8.toNat_inj.mp
  rw [hzero] at h
  omega

theorem zero_componentOver {dest out : UInt8} (h : ComponentOver 0 0 dest out) : out = dest := by
  unfold ComponentOver at h
  rw [abs_lt] at h
  have hzero : (0 : UInt8).toNat = 0 := rfl
  apply UInt8.toNat_inj.mp
  rw [hzero] at h
  omega

/-- Over a transparent pixel every pixel keeps its value. -/
theorem SourceOver.eq_source {source out : Pixel} (h : SourceOver source clear out) :
    out = source := by
  apply Pixel.ext
  · exact componentOver_zero h.red
  · exact componentOver_zero h.green
  · exact componentOver_zero h.blue
  · exact componentOver_zero h.alpha

/-- Under a transparent pixel every pixel keeps its value. -/
theorem SourceOver.eq_dest {dest out : Pixel} (h : SourceOver clear dest out) : out = dest := by
  apply Pixel.ext
  · exact zero_componentOver h.red
  · exact zero_componentOver h.green
  · exact zero_componentOver h.blue
  · exact zero_componentOver h.alpha

end Pixel

/-- The order of the colour components in a pixel. The alpha component is the last byte
in both. -/
inductive BitmapInfo where
  /-- Big-endian, premultiplied last: what `Canvas.join` asks for. -/
  | rgba
  /-- Little-endian, premultiplied first: what UIKit allocates. -/
  | bgra
  deriving DecidableEq

/-- The `k`-th byte of a pixel. -/
def Pixel.byte (bitmapInfo : BitmapInfo) (p : Pixel) (k : ℤ) : UInt8 :=
  match bitmapInfo with
  | .rgba => if k = 0 then p.red else if k = 1 then p.green else if k = 2 then p.blue else p.alpha
  | .bgra => if k = 0 then p.blue else if k = 1 then p.green else if k = 2 then p.red else p.alpha

/-- A bitmap. Rows may be longer than their pixels; what the padding and the memory around
the buffer hold is not known. -/
structure CGImage where
  width : ℕ
  height : ℕ
  bytesPerRow : ℕ
  bitmapInfo : BitmapInfo
  /-- The pixels by column and row, the top row first. -/
  pixel : ℤ → ℤ → Pixel
  /-- The bytes that belong to no pixel, by their offset. -/
  padding : ℤ → UInt8
  width_le : 4 * width ≤ bytesPerRow

namespace CGImage

/-- The position is in the bitmap. -/
def Contains (image : CGImage) (x y : ℤ) : Prop :=
  0 ≤ x ∧ x < image.width ∧ 0 ≤ y ∧ y < image.height

instance (image : CGImage) (x y : ℤ) : Decidable (image.Contains x y) :=
  inferInstanceAs (Decidable (_ ∧ _))

/-- The byte at an offset from the start of the buffer, `CFDataGetBytePtr(_:)[offset]`. -/
def byte (image : CGImage) (offset : ℤ) : UInt8 :=
  let x := offset % image.bytesPerRow / 4
  let y := offset / image.bytesPerRow
  if image.Contains x y then
    (image.pixel x y).byte image.bitmapInfo (offset % image.bytesPerRow % 4)
  else image.padding offset

/-- The alpha component of a pixel is byte 3 of the four bytes of the pixel. -/
theorem byte_alpha {image : CGImage} {x y : ℤ} (h : image.Contains x y) :
    image.byte (y * image.bytesPerRow + 4 * x + 3) = (image.pixel x y).alpha := by
  obtain ⟨hx, hxw, hy, hyh⟩ := h
  have hstride : (4 * image.width : ℤ) ≤ image.bytesPerRow := by exact_mod_cast image.width_le
  have hrow : (y * image.bytesPerRow + 4 * x + 3) % image.bytesPerRow = 4 * x + 3 := by
    rw [add_assoc, Int.add_comm, Int.add_mul_emod_self_right]
    exact Int.emod_eq_of_lt (by omega) (by omega)
  have hcolumn : (y * image.bytesPerRow + 4 * x + 3) / image.bytesPerRow = y := by
    rw [add_assoc, Int.add_comm, Int.add_mul_ediv_right _ _ (by omega)]
    rw [Int.ediv_eq_zero_of_lt (by omega) (by omega), zero_add]
  have hx' : (4 * x + 3) / 4 = x := by omega
  have hk : (4 * x + 3) % 4 = 3 := by omega
  unfold byte
  rw [hrow, hcolumn, hx', hk, if_pos ⟨hx, hxw, hy, hyh⟩]
  cases image.bitmapInfo <;> rfl

/-- The pixels that are not transparent, by position. -/
def ink (image : CGImage) : Picture (ℤ × ℤ) Pixel := fun p =>
  if image.Contains p.1 p.2 ∧ (image.pixel p.1 p.2).alpha ≠ 0 then some (image.pixel p.1 p.2)
  else none

/-- A position has no ink where it is outside the bitmap or transparent. -/
theorem ink_eq_none_iff {image : CGImage} {x y : ℤ} :
    image.ink (x, y) = none ↔ (image.Contains x y → (image.pixel x y).alpha = 0) := by
  unfold ink
  split
  · rename_i h
    simp only [reduceCtorEq, false_iff]
    exact fun himp => h.2 (himp h.1)
  · rename_i h
    simp only [true_iff]
    intro hin
    by_contra halpha
    exact h ⟨hin, halpha⟩

/-- The ink at a position depends on the pixel there alone. -/
theorem ink_congr {a b : CGImage} {x y x' y' : ℤ} (hin : a.Contains x y ↔ b.Contains x' y')
    (hpixel : a.pixel x y = b.pixel x' y') : a.ink (x, y) = b.ink (x', y') := by
  unfold ink
  simp only [hin, hpixel]

/-- A transparent bitmap. -/
def blank (width height : ℕ) (bytesPerRow : ℕ) (bitmapInfo : BitmapInfo)
    (h : 4 * width ≤ bytesPerRow) : CGImage where
  width
  height
  bytesPerRow
  bitmapInfo
  pixel := fun _ _ => .clear
  padding := fun _ => 0
  width_le := h

end CGImage

end FeelBetter
