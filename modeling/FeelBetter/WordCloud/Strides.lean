import FeelBetter.WordCloud.Placement

/-!
# Padded rows

`Canvas.intersected` takes the rows of a bitmap to be `4 * width` bytes apart, which
the system does not promise: only `join` fixes the distance. Where the rows are
further apart, a byte of a later row is read from the wrong place, and a word
whose last pixel alone is drawn is never seen there.
-/

namespace FeelBetter

/-- What a bitmap holds. -/
structure Contents where
  bitmapInfo : BitmapInfo
  pixel : ℤ → ℤ → Pixel
  padding : ℤ → UInt8

namespace CGImage

/-- A bitmap of the same layout with other contents. -/
def fill (image : CGImage) (contents : Contents) : CGImage where
  width := image.width
  height := image.height
  bytesPerRow := image.bytesPerRow
  bitmapInfo := contents.bitmapInfo
  pixel := contents.pixel
  padding := contents.padding
  width_le := image.width_le

variable {image : CGImage} {contents : Contents}

@[simp] theorem fill_bytesPerRow : (image.fill contents).bytesPerRow = image.bytesPerRow := rfl

theorem byte_fill (offset : ℤ) :
    (image.fill contents).byte offset =
      if image.Contains (offset % image.bytesPerRow / 4) (offset / image.bytesPerRow) then
        (contents.pixel (offset % image.bytesPerRow / 4) (offset / image.bytesPerRow)).byte
          contents.bitmapInfo (offset % image.bytesPerRow % 4)
      else contents.padding offset := rfl

/-- The offset of the alpha component of a pixel. -/
def alphaOffset (image : CGImage) (column row : ℤ) : ℤ := row * image.bytesPerRow + 4 * column + 3

end CGImage

/-- One black pixel. -/
def Contents.dot (column row : ℤ) : Contents where
  bitmapInfo := .rgba
  pixel := fun x y => if x = column ∧ y = row then .black else .clear
  padding := fun _ => 0

namespace CGImage

variable {image : CGImage}

/-- The pixel is seen at its place. -/
theorem byte_dot_ne_zero {column row : ℤ} (hin : image.Contains column row) :
    (image.fill (.dot column row)).byte (image.alphaOffset column row) ≠ 0 := by
  have halpha : ((image.fill (.dot column row)).pixel column row).alpha = 255 := by
    show ((Contents.dot column row).pixel column row).alpha = 255
    simp [Contents.dot, Pixel.black]
  have hin' : (image.fill (.dot column row)).Contains column row := hin
  have hbyte := byte_alpha hin'
  rw [halpha] at hbyte
  rw [alphaOffset, ← fill_bytesPerRow, hbyte]
  decide

/-- The bytes of a bitmap with one black pixel are all zero but the alpha component of the
pixel. -/
theorem eq_alphaOffset_of_byte_dot {column row offset : ℤ}
    (h : (image.fill (.dot column row)).byte offset ≠ 0) :
    offset = image.alphaOffset column row := by
  by_contra hne
  apply h
  rw [byte_fill]
  split
  · unfold Contents.dot
    dsimp only
    split
    · rename_i hpixel
      obtain ⟨hcolumn, hrow⟩ := hpixel
      -- another byte of the black pixel, and so a colour component
      have hk : offset % image.bytesPerRow % 4 ≠ 3 := by
        intro hk
        apply hne
        have hoffset := Int.mul_ediv_add_emod offset image.bytesPerRow
        rw [hrow] at hoffset
        unfold alphaOffset
        rw [mul_comm row]
        omega
      have hcolour : offset % image.bytesPerRow % 4 = 0 ∨ offset % image.bytesPerRow % 4 = 1 ∨
          offset % image.bytesPerRow % 4 = 2 := by omega
      rcases hcolour with hk | hk | hk <;> simp [Pixel.byte, Pixel.black, hk]
    · simp [Pixel.byte, Pixel.clear]
  · rfl

/-- An offset of `intersected` finds the last pixel of the rows that are read only if these
are packed. -/
theorem packedRows_of_offset_eq {x y column rows : ℤ} (hx : x ≤ column) (hy : y ≤ rows - 1)
    (h : (image.width * y + x) * 4 + 3 = image.alphaOffset column (rows - 1)) :
    image.PackedRows rows := by
  by_cases hrows : rows ≤ 1
  · exact .inr hrows
  · left
    have hstride : (4 * image.width : ℤ) ≤ image.bytesPerRow := by exact_mod_cast image.width_le
    have hwidth : (0 : ℤ) ≤ image.width := Int.natCast_nonneg _
    have hread : (rows - 1) * image.bytesPerRow ≤ (rows - 1) * (4 * image.width) := by
      unfold alphaOffset at h
      have hle : image.width * y ≤ image.width * (rows - 1) := mul_le_mul_of_nonneg_left hy hwidth
      linarith
    have hle : (image.bytesPerRow : ℤ) ≤ 4 * image.width :=
      le_of_mul_le_mul_left hread (by omega)
    exact_mod_cast le_antisymm hle hstride

end CGImage

namespace WordImage

/-- The placed word with other contents. -/
def fill (w : WordImage) (contents : Contents) : WordImage :=
  { w with image := w.image.fill contents }

/-- Some position is not transparent in the word and in the canvas under it, by the bytes
of the two bitmaps. -/
def Overlaps (w : WordImage) (image : CGImage) : Prop :=
  ∃ column row, w.image.Contains column row ∧
    w.image.byte (w.image.alphaOffset column row) ≠ 0 ∧
    image.byte (image.alphaOffset (truncate w.point.x + column) (truncate w.point.y + row)) ≠ 0

/-- The collision test is exact. -/
def Exact (w : WordImage) (image : CGImage) : Prop :=
  Canvas.intersected w image = true ↔ w.Overlaps image

/-- The collision test is exact whatever the two bitmaps hold. -/
def ExactLayout (w : WordImage) (image : CGImage) : Prop :=
  ∀ wordContents contents, (w.fill wordContents).Exact (image.fill contents)

variable {w : WordImage} {image : CGImage}

/-- Whatever the two hold, the word is inside the bitmap. -/
theorem Inside.fill (h : w.Inside image) (wordContents contents : Contents) :
    (w.fill wordContents).Inside (image.fill contents) :=
  ⟨h.left, h.right, h.top, h.bottom⟩

/-- A pixel of a word inside a bitmap is over a pixel of the bitmap. -/
theorem Inside.contains_add (h : w.Inside image) {column row : ℤ}
    (hin : w.image.Contains column row) :
    image.Contains (truncate w.point.x + column) (truncate w.point.y + row) := by
  apply h.contains
  rwa [add_sub_cancel_left, add_sub_cancel_left]

/-- Overlapping in the bytes is overlapping in the alpha components of the pixels. -/
theorem overlaps_iff (hinside : w.Inside image) :
    w.Overlaps image ↔ ∃ x y,
      w.image.Contains (x - truncate w.point.x) (y - truncate w.point.y) ∧
      (w.image.pixel (x - truncate w.point.x) (y - truncate w.point.y)).alpha ≠ 0 ∧
      (image.pixel x y).alpha ≠ 0 := by
  constructor
  · rintro ⟨column, row, hin, hword, himage⟩
    refine ⟨truncate w.point.x + column, truncate w.point.y + row, ?_⟩
    rw [add_sub_cancel_left, add_sub_cancel_left]
    rw [CGImage.alphaOffset, CGImage.byte_alpha hin] at hword
    rw [CGImage.alphaOffset, CGImage.byte_alpha (hinside.contains_add hin)] at himage
    exact ⟨hin, hword, himage⟩
  · rintro ⟨x, y, hin, hword, himage⟩
    refine ⟨x - truncate w.point.x, y - truncate w.point.y, hin, ?_, ?_⟩
    · rwa [CGImage.alphaOffset, CGImage.byte_alpha hin]
    · rwa [add_sub_cancel, add_sub_cancel, CGImage.alphaOffset,
        CGImage.byte_alpha (hinside.contains hin)]

/-- Rows that are read where they are make the test exact. -/
theorem exact_of_packedRows (hinside : w.Inside image)
    (hword : w.image.PackedRows w.image.height)
    (himage : image.PackedRows (truncate w.point.y + w.image.height)) : w.Exact image := by
  unfold Exact
  rw [Canvas.intersected_eq_true_iff hinside hword himage, overlaps_iff hinside]

/-- A word without pixels meets nothing, and no test is made. -/
theorem exact_of_empty (hempty : ¬(0 < w.image.width ∧ 0 < w.image.height)) : w.Exact image := by
  have hnone (column row : ℤ) : ¬w.image.Contains column row := by
    rintro ⟨hx, hxw, hy, hyh⟩
    omega
  have hrows : Canvas.intersected w image = false := by
    simp only [Canvas.intersected, List.any_eq_false, List.mem_range]
    intro row hrow hany
    obtain ⟨column, hcolumn, -⟩ := List.any_eq_true.mp hany
    have hcolumn' := List.mem_range.mp hcolumn
    exact hnone column row ⟨by omega, by omega, by omega, by omega⟩
  constructor
  · intro h
    rw [hrows] at h
    cases h
  · rintro ⟨column, row, hin, -⟩
    exact absurd hin (hnone column row)

/-- A test that is exact for the last pixel of the word reads packed rows: with padding
no offset reaches that pixel. -/
theorem packedRows_of_exact (hinside : w.Inside image) (hwidth : 0 < w.image.width)
    (hheight : 0 < w.image.height) (hexact : w.ExactLayout image) :
    w.image.PackedRows w.image.height ∧
      image.PackedRows (truncate w.point.y + w.image.height) := by
  let column : ℤ := w.image.width - 1
  let row : ℤ := w.image.height - 1
  let left := truncate w.point.x
  let top := truncate w.point.y
  have hin : w.image.Contains column row := ⟨by omega, by omega, by omega, by omega⟩
  have hdots := hexact (.dot column row) (.dot (left + column) (top + row))
  have hoverlaps : (w.fill (.dot column row)).Overlaps
      (image.fill (.dot (left + column) (top + row))) :=
    ⟨column, row, hin, CGImage.byte_dot_ne_zero hin,
      CGImage.byte_dot_ne_zero (hinside.contains_add hin)⟩
  -- the offsets at which the test saw the two pixels
  have hseen := hdots.mpr hoverlaps
  simp only [Canvas.intersected, List.any_eq_true, List.mem_range, Bool.and_eq_true,
    bne_iff_ne] at hseen
  obtain ⟨r, hr, c, hc, hword, himage⟩ := hseen
  have hr' : r < w.image.height := hr
  have hc' : c < w.image.width := hc
  have hword' := CGImage.eq_alphaOffset_of_byte_dot hword
  have himage' := CGImage.eq_alphaOffset_of_byte_dot himage
  constructor
  · refine CGImage.packedRows_of_offset_eq ?_ ?_ hword'
    · show truncate w.point.x + c - truncate w.point.x ≤ (w.image.width - 1 : ℤ)
      omega
    · show truncate w.point.y + r - truncate w.point.y ≤ (w.image.height - 1 : ℤ)
      omega
  · have hlast : top + row = truncate w.point.y + w.image.height - 1 := by
      show truncate w.point.y + (w.image.height - 1 : ℤ) = _
      ring
    rw [hlast] at himage'
    refine CGImage.packedRows_of_offset_eq ?_ ?_ himage'
    · show truncate w.point.x + c ≤ truncate w.point.x + (w.image.width - 1 : ℤ)
      omega
    · show truncate w.point.y + r ≤ truncate w.point.y + w.image.height - 1
      omega

/-- **The layouts on which the test is exact**: those without padding, but for rows that are
never reached, and the words without pixels. -/
theorem exactLayout_iff (hinside : w.Inside image) :
    w.ExactLayout image ↔ (0 < w.image.width → 0 < w.image.height →
      w.image.PackedRows w.image.height ∧
        image.PackedRows (truncate w.point.y + w.image.height)) := by
  constructor
  · intro hexact hwidth hheight
    exact packedRows_of_exact hinside hwidth hheight hexact
  · intro hpacked wordContents contents
    by_cases hsize : 0 < w.image.width ∧ 0 < w.image.height
    · obtain ⟨hword, himage⟩ := hpacked hsize.1 hsize.2
      exact exact_of_packedRows (hinside.fill wordContents contents) hword himage
    · exact exact_of_empty hsize

/-- A bitmap of one column and two rows of 16 bytes, as they are aligned, whose lower pixel
is black. -/
def alignedImage : CGImage :=
  (CGImage.blank 1 2 16 .bgra (by decide)).fill (.dot 0 1)

/-- A word in such a bitmap. -/
def alignedWord : WordImage := ⟨⟨0, 0⟩, alignedImage, ⟨"I", ⟨1, 2⟩⟩⟩

/-- The canvas has no padding and the word has one row. -/
theorem exactLayout_oneRow :
    ExactLayout ⟨⟨1, 1⟩, .blank 2 1 32 .bgra (by decide), ⟨"Hi", ⟨2, 1⟩⟩⟩
      (.blank 4 3 16 .rgba (by decide)) :=
  (exactLayout_iff ⟨by decide +kernel, by decide +kernel, by decide +kernel,
    by decide +kernel⟩).mpr fun _ _ => by decide +kernel

/-- Two black pixels, one over the other, are not seen behind the padding. -/
theorem not_exact_aligned :
    ¬∀ (w : WordImage) (image : CGImage), w.Inside image → w.Exact image := by
  intro h
  have hinside : alignedWord.Inside alignedImage :=
    ⟨by decide +kernel, by decide +kernel, by decide +kernel, by decide +kernel⟩
  have hoverlaps : alignedWord.Overlaps alignedImage :=
    ⟨0, 1, by decide, by decide +kernel, by decide +kernel⟩
  have hseen := (h alignedWord alignedImage hinside).mpr hoverlaps
  exact absurd hseen (by decide +kernel)

end WordImage

end FeelBetter
