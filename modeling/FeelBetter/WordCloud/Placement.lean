import FeelBetter.WordCloud.Compositor

/-!
# Where the words of a cloud are

A word that the canvas accepts is drawn on pixels that were tested, and only on
those. So the words never share a pixel, and a word that is drawn stays as it was
drawn.
-/

namespace FeelBetter

open Machine

namespace WordImage

/-- The pixels of the placed word that are not transparent, by their position on the canvas. -/
def ink (w : WordImage) : Picture (ℤ × ℤ) Pixel := fun p =>
  w.image.ink (p.1 - truncate w.point.x, p.2 - truncate w.point.y)

/-- The placed word lies inside the bitmap. -/
structure Inside (w : WordImage) (image : CGImage) : Prop where
  left : 0 ≤ truncate w.point.x
  right : truncate w.point.x + w.image.width ≤ image.width
  top : 0 ≤ truncate w.point.y
  bottom : truncate w.point.y + w.image.height ≤ image.height

/-- The pixels of a word inside a bitmap are pixels of the bitmap. -/
theorem Inside.contains {w : WordImage} {image : CGImage} (h : w.Inside image) {x y : ℤ}
    (hin : w.image.Contains (x - truncate w.point.x) (y - truncate w.point.y)) :
    image.Contains x y := by
  obtain ⟨hleft, hright, htop, hbottom⟩ := h
  obtain ⟨hx, hxw, hy, hyh⟩ := hin
  exact ⟨by omega, by omega, by omega, by omega⟩

end WordImage

/-- The first rows are where the offsets of `intersected`, which are those of rows without
padding, expect them. -/
def CGImage.PackedRows (image : CGImage) (rows : ℤ) : Prop :=
  image.bytesPerRow = 4 * image.width ∨ rows ≤ 1

instance (image : CGImage) (rows : ℤ) : Decidable (image.PackedRows rows) :=
  inferInstanceAs (Decidable (_ ∨ _))

/-- In such rows the alpha component of a pixel is at the offset of `intersected`. -/
theorem CGImage.PackedRows.byte_alpha {image : CGImage} {rows x y : ℤ}
    (h : image.PackedRows rows) (hin : image.Contains x y) (hy : y < rows) :
    image.byte ((image.width * y + x) * 4 + 3) = (image.pixel x y).alpha := by
  have hrow : 4 * (image.width * y) = y * image.bytesPerRow := by
    rcases h with hbytes | hrows
    · rw [hbytes]
      push_cast
      ring
    · have hzero : y = 0 := by
        have := hin.2.2.1
        omega
      simp [hzero]
  rw [← CGImage.byte_alpha hin, ← hrow]
  congr 1
  ring

namespace Canvas

/-- The bytes that `intersected` reads are the alpha components of the pixels of the word and
of the canvas under it. -/
theorem intersected_eq_true_iff {w : WordImage} {image : CGImage} (hinside : w.Inside image)
    (hword : w.image.PackedRows w.image.height)
    (himage : image.PackedRows (truncate w.point.y + w.image.height)) :
    intersected w image = true ↔ ∃ x y,
      w.image.Contains (x - truncate w.point.x) (y - truncate w.point.y) ∧
      (w.image.pixel (x - truncate w.point.x) (y - truncate w.point.y)).alpha ≠ 0 ∧
      (image.pixel x y).alpha ≠ 0 := by
  have hwordByte {column row : ℤ} (hin : w.image.Contains column row) :
      w.image.byte ((w.image.width * row + column) * 4 + 3) = (w.image.pixel column row).alpha :=
    hword.byte_alpha hin hin.2.2.2
  have himageByte {x y : ℤ} (hin : image.Contains x y)
      (hy : y < truncate w.point.y + w.image.height) :
      image.byte ((image.width * y + x) * 4 + 3) = (image.pixel x y).alpha :=
    himage.byte_alpha hin hy
  simp only [intersected, List.any_eq_true, List.mem_range, Bool.and_eq_true, bne_iff_ne]
  constructor
  · rintro ⟨row, hrow, column, hcolumn, hwordAlpha, himageAlpha⟩
    have hx : truncate w.point.x + column - truncate w.point.x = column := by ring
    have hy : truncate w.point.y + row - truncate w.point.y = row := by ring
    have hin : w.image.Contains column row := by
      refine ⟨?_, ?_, ?_, ?_⟩ <;> omega
    rw [hx, hy, hwordByte hin] at hwordAlpha
    have hin' : image.Contains (truncate w.point.x + column) (truncate w.point.y + row) :=
      hinside.contains (by rwa [hx, hy])
    rw [himageByte hin' (by omega)] at himageAlpha
    exact ⟨_, _, by rwa [hx, hy], by rwa [hx, hy], himageAlpha⟩
  · rintro ⟨x, y, hin, hwordAlpha, himageAlpha⟩
    obtain ⟨column, hcolumn⟩ := Int.eq_ofNat_of_zero_le hin.1
    obtain ⟨row, hrow⟩ := Int.eq_ofNat_of_zero_le hin.2.2.1
    have hx : truncate w.point.x + column = x := by omega
    have hy : truncate w.point.y + row = y := by omega
    have hcolumn' : column < w.image.width := by have := hin.2.1; omega
    have hrow' : row < w.image.height := by have := hin.2.2.2; omega
    refine ⟨row, hrow', column, hcolumn', ?_, ?_⟩
    · rw [hx, hy, hwordByte hin]
      exact hwordAlpha
    · rw [hx, hy, himageByte (hinside.contains hin) (by omega)]
      exact himageAlpha

/-- The test passes exactly where the ink of the word is apart from the ink of the canvas. -/
theorem intersected_eq_false_iff {w : WordImage} {image : CGImage} (hinside : w.Inside image)
    (hword : w.image.bytesPerRow = 4 * w.image.width)
    (himage : image.bytesPerRow = 4 * image.width) :
    intersected w image = false ↔ Picture.Apart w.ink image.ink := by
  rw [← Bool.not_eq_true, intersected_eq_true_iff hinside (.inl hword) (.inl himage)]
  constructor
  · rintro hnone ⟨x, y⟩
    rw [WordImage.ink, CGImage.ink_eq_none_iff, CGImage.ink_eq_none_iff]
    by_contra hboth
    push Not at hboth
    obtain ⟨⟨hin, hwordAlpha⟩, ⟨_, himageAlpha⟩⟩ := hboth
    exact hnone ⟨x, y, hin, hwordAlpha, himageAlpha⟩
  · rintro hapart ⟨x, y, hin, hwordAlpha, himageAlpha⟩
    rcases hapart (x, y) with hnone | hnone
    · exact hwordAlpha (CGImage.ink_eq_none_iff.mp hnone hin)
    · exact himageAlpha (CGImage.ink_eq_none_iff.mp hnone (hinside.contains hin))

/-- The bitmap is as large as the canvas, and its rows are not padded. -/
structure Fits (image : CGImage) (width height : ℕ) : Prop where
  width_eq : image.width = width
  height_eq : image.height = height
  bytesPerRow_eq : image.bytesPerRow = 4 * width

variable {cg : CoreGraphics}

/-- Drawing keeps the bitmap as large as it is. -/
theorem Fits.draw {context : CGImage} {width height : ℕ} (h : Fits context width height)
    (hcg : cg.Documented) (image : CGImage) (rect : CGRect) :
    Fits (cg.draw context image rect) width height := by
  obtain ⟨hwidth, hheight, hbytes⟩ := hcg.draw_context context image rect
  exact ⟨hwidth.trans h.width_eq, hheight.trans h.height_eq, hbytes.trans h.bytesPerRow_eq⟩

theorem fits_newContext (width height : ℕ) : Fits (newContext ⟨width, height⟩) width height := by
  have hwidth : (truncate (width : ℚ)).toNat = width := by simp
  have hheight : (truncate (height : ℚ)).toNat = height := by simp
  constructor
  · exact hwidth
  · exact hheight
  · show 4 * (truncate (width : ℚ)).toNat = 4 * width
    rw [hwidth]

/-- What `join` makes is as large as the canvas. -/
theorem fits_join (hcg : cg.Documented) (width height : ℕ) (image : CGImage) (w : WordImage) :
    Fits ((Canvas.mk ⟨width, height⟩ image).join cg image w) width height :=
  ((fits_newContext width height).draw hcg _ _).draw hcg _ _

theorem Fits.contains_iff {image : CGImage} {width height : ℕ} (h : Fits image width height)
    {x y : ℤ} : image.Contains x y ↔ 0 ≤ x ∧ x < width ∧ 0 ≤ y ∧ y < height := by
  unfold CGImage.Contains
  rw [h.width_eq, h.height_eq]

/-- `join` first copies the image of the canvas, pixel by pixel. -/
theorem pixel_copy (hcg : cg.Documented) {image : CGImage} {width height : ℕ}
    (h : Fits image width height) {x y : ℤ} (hin : image.Contains x y) :
    (cg.draw (newContext ⟨width, height⟩) image ⟨⟨0, 0⟩, ⟨width, height⟩⟩).pixel x y =
      image.pixel x y := by
  have hcontext := fits_newContext width height
  have hin' : (newContext ⟨width, height⟩).Contains x y :=
    hcontext.contains_iff.mpr (h.contains_iff.mp hin)
  obtain ⟨hover, _⟩ := hcg.draw_pixel _ image 0 0 x y hin'
  have htop : ((newContext ⟨width, height⟩).height : ℤ) - (0 + image.height) = 0 := by
    rw [hcontext.height_eq, h.height_eq]
    omega
  rw [htop, sub_zero, sub_zero, h.width_eq, h.height_eq, Int.cast_zero] at hover
  exact (hover hin).eq_source

/-- `join` then composites the word at its place: the rectangle that is counted from the
bottom is the place that was tested from the top. -/
theorem pixel_join (hcg : cg.Documented) {image : CGImage} {width height : ℕ}
    (h : Fits image width height) {word : Word} (startPixel : ℕ × ℕ) {x y : ℤ}
    (hsize : word.size = ⟨(cg.wordImage word).width, (cg.wordImage word).height⟩)
    (hin : image.Contains x y) :
    let w := place cg word startPixel
    let joined := (Canvas.mk ⟨width, height⟩ image).join cg image w
    (w.image.Contains (x - truncate w.point.x) (y - truncate w.point.y) →
      Pixel.SourceOver (w.image.pixel (x - truncate w.point.x) (y - truncate w.point.y))
        (image.pixel x y) (joined.pixel x y)) ∧
    (¬w.image.Contains (x - truncate w.point.x) (y - truncate w.point.y) →
      joined.pixel x y = image.pixel x y) := by
  intro w joined
  let copied := cg.draw (newContext ⟨width, height⟩) image ⟨⟨0, 0⟩, ⟨width, height⟩⟩
  have hcopied : Fits copied width height := (fits_newContext width height).draw hcg _ _
  have hpixel : copied.pixel x y = image.pixel x y := pixel_copy hcg h hin
  have hin' : copied.Contains x y := hcopied.contains_iff.mpr (h.contains_iff.mp hin)
  have hx : truncate w.point.x = startPixel.1 := truncate_natCast _
  have hy : truncate w.point.y = startPixel.2 := truncate_natCast _
  have hjoined : joined = cg.draw copied w.image
      ⟨⟨((startPixel.1 : ℤ) : ℚ), ((height - startPixel.2 - w.image.height : ℤ) : ℚ)⟩,
        ⟨w.image.width, w.image.height⟩⟩ := by
    show cg.draw copied w.image (w.rect.reversedY ⟨width, height⟩) = _
    congr 1
    unfold CGRect.reversedY WordImage.rect
    have hw : w.word.size = ⟨w.image.width, w.image.height⟩ := hsize
    rw [hw]
    simp [w, place]
  have htop : (copied.height : ℤ) - (height - startPixel.2 - w.image.height + w.image.height) =
      startPixel.2 := by
    rw [hcopied.height_eq]
    omega
  have hdraw := hcg.draw_pixel copied w.image startPixel.1
    (height - startPixel.2 - w.image.height) x y hin'
  rw [htop, hpixel] at hdraw
  rw [hx, hy, hjoined]
  exact hdraw

/-- Where the word is apart from the image, `join` lays the ink of the word over the ink of
the image. -/
theorem ink_join (hcg : cg.Documented) {image : CGImage} {width height : ℕ}
    (h : Fits image width height) {word : Word} {startPixel : ℕ × ℕ}
    (hsize : word.size = ⟨(cg.wordImage word).width, (cg.wordImage word).height⟩)
    (hinside : (place cg word startPixel).Inside image)
    (hapart : Picture.Apart (place cg word startPixel).ink image.ink) :
    ((Canvas.mk ⟨width, height⟩ image).join cg image (place cg word startPixel)).ink =
      Picture.overlay (place cg word startPixel).ink image.ink := by
  have hjoined : Fits ((Canvas.mk ⟨width, height⟩ image).join cg image (place cg word startPixel))
      width height := fits_join hcg width height image _
  funext ⟨x, y⟩
  unfold Picture.overlay
  by_cases hin : image.Contains x y
  · have hin' := hjoined.contains_iff.mpr (h.contains_iff.mp hin)
    obtain ⟨hover, houtside⟩ := pixel_join hcg h startPixel hsize hin
    by_cases hword : (place cg word startPixel).image.Contains
        (x - truncate (place cg word startPixel).point.x)
        (y - truncate (place cg word startPixel).point.y)
    · have hsource := hover hword
      rcases hapart (x, y) with hnone | hnone
      · -- the word is transparent here and the image shows through
        have hclear := Pixel.eq_clear_of_alpha (CGImage.ink_eq_none_iff.mp hnone hword)
        rw [hclear] at hsource
        rw [hnone, Option.none_or]
        exact CGImage.ink_congr (iff_of_true hin' hin) hsource.eq_dest
      · -- the image is transparent here and takes the pixel of the word
        have hclear := Pixel.eq_clear_of_alpha (CGImage.ink_eq_none_iff.mp hnone hin)
        rw [hclear] at hsource
        rw [hnone, Option.or_none]
        exact CGImage.ink_congr (iff_of_true hin' hword) hsource.eq_source
    · have hnone : (place cg word startPixel).ink (x, y) = none :=
        CGImage.ink_eq_none_iff.mpr fun hcontains => absurd hcontains hword
      rw [hnone, Option.none_or]
      exact CGImage.ink_congr (iff_of_true hin' hin) (houtside hword)
  · have hout : ((Canvas.mk ⟨width, height⟩ image).join cg image
        (place cg word startPixel)).ink (x, y) = none := by
      apply CGImage.ink_eq_none_iff.mpr
      intro hcontains
      exact absurd (h.contains_iff.mpr (hjoined.contains_iff.mp hcontains)) hin
    have himage : image.ink (x, y) = none :=
      CGImage.ink_eq_none_iff.mpr fun hcontains => absurd hcontains hin
    have hword : (place cg word startPixel).ink (x, y) = none :=
      CGImage.ink_eq_none_iff.mpr fun hcontains => absurd (hinside.contains hcontains) hin
    rw [hout, himage, hword, Option.none_or]

/-- A start pixel that can be drawn for a word no larger than the canvas puts the word inside. -/
theorem inside_of_canStart (hcg : cg.Documented) {image : CGImage} {width height w h : ℕ}
    (himage : Fits image width height) {word : Word} {startPixel : ℕ × ℕ} (hw : 0 < w) (hh : 0 < h)
    (hsize : word.size = ⟨w, h⟩) (hwidth : w ≤ width) (hheight : h ≤ height)
    (hstart : CanStart ⟨width, height⟩ word startPixel) :
    (place cg word startPixel).Inside image := by
  obtain ⟨hwordWidth, hwordHeight⟩ := hcg.wordImage_size word w h hw hh hsize
  obtain ⟨hx, hy⟩ := hstart
  have hcolumns : truncate ((width : ℚ) - w) = (width : ℤ) - w := by
    rw [← truncate_intCast ((width : ℤ) - w)]
    push_cast
    rfl
  have hrows : truncate ((height : ℚ) - h) = (height : ℤ) - h := by
    rw [← truncate_intCast ((height : ℤ) - h)]
    push_cast
    rfl
  rw [hsize] at hx hy
  simp only [hcolumns, hrows] at hx hy
  have hleft : truncate (place cg word startPixel).point.x = startPixel.1 := truncate_natCast _
  have htop : truncate (place cg word startPixel).point.y = startPixel.2 := truncate_natCast _
  have himageWidth : (place cg word startPixel).image.width = w := hwordWidth
  have himageHeight : (place cg word startPixel).image.height = h := hwordHeight
  constructor
  · omega
  · rw [himage.width_eq]
    omega
  · omega
  · rw [himage.height_eq]
    omega

end Canvas

namespace WordCloud

variable {cg : CoreGraphics}

/-- The word has whole pixels and is no larger than the canvas. -/
def WordFits (size : CGSize) (word : Word) : Prop :=
  CoreGraphics.WholePixel word.size ∧ word.size.width ≤ size.width ∧
    word.size.height ≤ size.height

/-- The image of the canvas is the disjoint union of the accepted words. -/
structure Placed (width height : ℕ) (s : WordCloud) : Prop where
  size : s.canvas.size = ⟨width, height⟩
  fits : Canvas.Fits s.canvas.currentImage width height
  composed : Picture.Composed (s.accepted.map WordImage.ink) s.canvas.currentImage.ink

theorem placed_start (hcg : cg.Documented) (hrows : cg.Unpadded) {width height : ℕ}
    (hwidth : 0 < width) (hheight : 0 < height) :
    Placed width height (start cg ⟨width, height⟩) := by
  obtain ⟨hw, hh⟩ := hcg.emptyImage_size width height hwidth hheight
  have hbytes := hrows.emptyImage ⟨width, height⟩
  rw [hw] at hbytes
  refine ⟨rfl, ⟨hw, hh, hbytes⟩, Picture.composed_nil ?_⟩
  rintro ⟨x, y⟩
  apply CGImage.ink_eq_none_iff.mpr
  intro _
  show ((cg.emptyImage ⟨width, height⟩).pixel x y).alpha = 0
  rw [hcg.emptyImage_pixel]
  rfl

/-- A call of `add` keeps the image the disjoint union of the accepted words. -/
theorem Placed.step (hcg : cg.Documented) (hrows : cg.Unpadded) {width height : ℕ}
    {s t : WordCloud} {addition : Addition} (h : Placed width height s)
    (hword : WordFits ⟨width, height⟩ addition.word) (hstep : s.step cg addition = some t) :
    Placed width height t := by
  obtain ⟨⟨w, hgt, hw, hh, hsize⟩, hwidth, hheight⟩ := hword
  rw [hsize] at hwidth hheight
  have hwidth' : w ≤ width := Nat.cast_le.mp hwidth
  have hheight' : hgt ≤ height := Nat.cast_le.mp hheight
  obtain ⟨⟨size, image⟩, accepted⟩ := s
  obtain ⟨word, startPixel⟩ := addition
  have hcanvas : size = ⟨width, height⟩ := h.size
  subst hcanvas
  have hfits : Canvas.Fits image width height := h.fits
  obtain ⟨hstart, hcases⟩ := step_cases hstep
  have hinside := Canvas.inside_of_canStart hcg hfits hw hh hsize hwidth' hheight' hstart
  have himage : image.bytesPerRow = 4 * image.width := by
    rw [hfits.bytesPerRow_eq, hfits.width_eq]
  have htest := Canvas.intersected_eq_false_iff hinside (hrows.wordImage word) himage
  rcases hcases with ⟨-, rfl⟩ | ⟨hclash, rfl⟩
  · exact h
  · have hapart := htest.mp hclash
    obtain ⟨hwordWidth, hwordHeight⟩ := hcg.wordImage_size word w hgt hw hh hsize
    have hsize' : word.size = ⟨(cg.wordImage word).width, (cg.wordImage word).height⟩ := by
      rw [hwordWidth, hwordHeight, hsize]
    have hink := Canvas.ink_join hcg hfits hsize' hinside hapart
    refine ⟨rfl, Canvas.fits_join hcg width height image _, ?_⟩
    have hcomposed := Picture.Composed.overlay h.composed hapart
    rw [← hink] at hcomposed
    exact hcomposed

/-- **No two words share a pixel and no word is damaged**: after any sequence of calls of
`add` the image is the disjoint union of the words that were accepted, each pixel
with the value it has in its word, and a word that is rejected changes nothing. -/
theorem composed_of_run (hcg : cg.Documented) (hrows : cg.Unpadded) {size : CGSize}
    (hsize : CoreGraphics.WholePixel size) (additions : List Addition)
    (hwords : ∀ addition ∈ additions, WordFits size addition.word) {s : WordCloud}
    (hrun : run (step cg) (start cg size) additions = some s) :
    Picture.Composed (s.accepted.map WordImage.ink) s.canvas.currentImage.ink ∧
    ∀ word startPixel,
      Canvas.intersected (Canvas.place cg word startPixel) s.canvas.currentImage = true →
      (s.canvas.add cg word startPixel).currentImage = s.canvas.currentImage := by
  obtain ⟨width, height, hwidth, hheight, rfl⟩ := hsize
  constructor
  · have hplaced : Placed width height s := by
      refine Always.invariant (fun s addition t hs hstep hword => ?_)
        (placed_start hcg hrows hwidth hheight) (always_of_forall_mem hwords _) hrun
      exact hs.step hcg hrows hword hstep
    exact hplaced.composed
  · intro word startPixel hclash
    simp [Canvas.add, hclash]

/-- Two words find a place, a third between them does not. -/
def threeWords : List Addition :=
  [⟨⟨"Happy", ⟨2, 1⟩⟩, (0, 0)⟩, ⟨⟨"Food", ⟨2, 1⟩⟩, (1, 0)⟩, ⟨⟨"WOW", ⟨2, 1⟩⟩, (2, 1)⟩]

theorem composed_threeWords :
    ∃ s, run (step compositor) (start compositor ⟨4, 2⟩) threeWords = some s ∧
      s.accepted.length = 2 ∧
      Picture.Composed (s.accepted.map WordImage.ink) s.canvas.currentImage.ink := by
  have hsize : CoreGraphics.WholePixel ⟨4, 2⟩ := ⟨4, 2, by decide, by decide, rfl⟩
  have hfits (text : String) : WordFits ⟨4, 2⟩ ⟨text, ⟨2, 1⟩⟩ :=
    ⟨⟨2, 1, by decide, by decide, by norm_num⟩, by norm_num, by norm_num⟩
  have hwords : ∀ addition ∈ threeWords, WordFits ⟨4, 2⟩ addition.word := by
    simp [threeWords, hfits]
  have hrun : (run (step compositor) (start compositor ⟨4, 2⟩) threeWords).map
      (fun s => s.accepted.length) = some 2 := by decide +kernel
  obtain ⟨s, hrun, hlength⟩ := Option.map_eq_some_iff.mp hrun
  refine ⟨s, hrun, hlength, ?_⟩
  exact (composed_of_run compositor_documented compositor_unpadded hsize threeWords hwords hrun).1

end WordCloud

end FeelBetter
