import FeelBetter.WordCloud.Canvas

/-!
# A compositor

Drawing functions that do what is documented about those of the system: bitmaps
rounded up to whole pixels, unpadded rows, and compositing that rounds down.
Words are drawn as solid blocks.
-/

namespace FeelBetter

namespace Pixel

/-- A component of `source` over `dest`, rounded down. -/
def componentOver (source alpha dest : UInt8) : ℕ :=
  (255 * source.toNat + dest.toNat * (255 - alpha.toNat)) / 255

/-- Compositing keeps the colour components below the alpha component. -/
theorem componentOver_le {source alpha dest destAlpha : UInt8} (hsource : source ≤ alpha)
    (hdest : dest ≤ destAlpha) :
    componentOver source alpha dest ≤ componentOver alpha alpha destAlpha := by
  unfold componentOver
  rw [UInt8.le_iff_toNat_le] at hsource hdest
  have hcolour : dest.toNat * (255 - alpha.toNat) ≤ destAlpha.toNat * (255 - alpha.toNat) :=
    Nat.mul_le_mul_right _ hdest
  apply Nat.div_le_div_right
  omega

theorem componentOver_lt {source alpha dest : UInt8} (hsource : source ≤ alpha) :
    componentOver source alpha dest < 256 := by
  unfold componentOver
  rw [UInt8.le_iff_toNat_le] at hsource
  have halpha := alpha.toNat_lt
  have hdest := dest.toNat_lt
  have hcolour : dest.toNat * (255 - alpha.toNat) ≤ 255 * (255 - alpha.toNat) :=
    Nat.mul_le_mul_right _ (by omega)
  omega

/-- `source` over `dest`. -/
def composite (source dest : Pixel) : Pixel where
  red := UInt8.ofNat (componentOver source.red source.alpha dest.red)
  green := UInt8.ofNat (componentOver source.green source.alpha dest.green)
  blue := UInt8.ofNat (componentOver source.blue source.alpha dest.blue)
  alpha := UInt8.ofNat (componentOver source.alpha source.alpha dest.alpha)
  red_le := by
    rw [UInt8.le_iff_toNat_le, UInt8.toNat_ofNat_of_lt' (componentOver_lt source.red_le),
      UInt8.toNat_ofNat_of_lt' (componentOver_lt (UInt8.le_refl _))]
    exact componentOver_le source.red_le dest.red_le
  green_le := by
    rw [UInt8.le_iff_toNat_le, UInt8.toNat_ofNat_of_lt' (componentOver_lt source.green_le),
      UInt8.toNat_ofNat_of_lt' (componentOver_lt (UInt8.le_refl _))]
    exact componentOver_le source.green_le dest.green_le
  blue_le := by
    rw [UInt8.le_iff_toNat_le, UInt8.toNat_ofNat_of_lt' (componentOver_lt source.blue_le),
      UInt8.toNat_ofNat_of_lt' (componentOver_lt (UInt8.le_refl _))]
    exact componentOver_le source.blue_le dest.blue_le

theorem componentOver_correct {source alpha dest : UInt8} (hsource : source ≤ alpha) :
    ComponentOver source alpha dest (UInt8.ofNat (componentOver source alpha dest)) := by
  unfold ComponentOver
  rw [UInt8.toNat_ofNat_of_lt' (componentOver_lt hsource), abs_lt]
  have halpha := alpha.toNat_lt
  have hcast : ((dest.toNat * (255 - alpha.toNat) : ℕ) : ℤ) =
      dest.toNat * (255 - alpha.toNat) := by
    rw [Nat.cast_mul, Nat.cast_sub (by omega)]
    rfl
  rw [← hcast]
  unfold componentOver
  omega

theorem sourceOver_composite (source dest : Pixel) :
    SourceOver source dest (composite source dest) where
  red := componentOver_correct source.red_le
  green := componentOver_correct source.green_le
  blue := componentOver_correct source.blue_le
  alpha := componentOver_correct (UInt8.le_refl _)

/-- An opaque black pixel. -/
def black : Pixel where
  red := 0
  green := 0
  blue := 0
  alpha := 255
  red_le := by decide
  green_le := by decide
  blue_le := by decide

end Pixel

/-- Bitmaps of the size rounded up, words as black blocks, and compositing by `Pixel.composite`. -/
def compositor : CoreGraphics where
  emptyImage := fun size =>
    .blank ⌈size.width⌉₊ ⌈size.height⌉₊ (4 * ⌈size.width⌉₊) .bgra le_rfl
  wordImage := fun word =>
    { CGImage.blank ⌈word.size.width⌉₊ ⌈word.size.height⌉₊ (4 * ⌈word.size.width⌉₊) .bgra
        le_rfl with
      pixel := fun _ _ => .black }
  draw := fun context image rect =>
    let left := truncate rect.origin.x
    let top := context.height - (truncate rect.origin.y + image.height)
    { context with
      pixel := fun x y =>
        if image.Contains (x - left) (y - top) then
          (image.pixel (x - left) (y - top)).composite (context.pixel x y)
        else context.pixel x y }

theorem compositor_documented : compositor.Documented where
  emptyImage_size := fun width height _ _ => ⟨Nat.ceil_natCast width, Nat.ceil_natCast height⟩
  emptyImage_pixel := fun _ _ _ => rfl
  wordImage_size := by
    intro word width height _ _ hsize
    constructor
    · show ⌈word.size.width⌉₊ = width
      rw [hsize]
      exact Nat.ceil_natCast width
    · show ⌈word.size.height⌉₊ = height
      rw [hsize]
      exact Nat.ceil_natCast height
  draw_context := fun _ _ _ => ⟨rfl, rfl, rfl⟩
  draw_pixel := by
    intro context image left bottom x y _
    simp only [compositor, truncate_intCast]
    constructor
    · intro hin
      rw [if_pos hin]
      exact Pixel.sourceOver_composite _ _
    · intro hout
      rw [if_neg hout]

theorem compositor_unpadded : compositor.Unpadded where
  emptyImage := fun _ => rfl
  wordImage := fun _ => rfl

end FeelBetter
