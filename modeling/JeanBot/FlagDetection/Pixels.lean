/-
# Pixels and images

The two bytes of a pixel are its big-endian word, so a line of bytes and a line of pixels
are the same thing (`pixelLine_bijective`), and every line of colours is shown by an image
(`colorLine_imageOf`): what happens in `extract_color_bands` and `extract_flag` on some line
of colours happens on a camera image.  In particular every flag is recognised in some image
(`getFlag_flagImage`).

`get_color` tests for red, blue and green in this order, but at most one of the tests can
succeed (`getColor_iff`), and they compare the channels with one
another.  Light that is added to a pixel, the same on each channel, therefore changes
neither a colour nor white, and `get_flag` returns the same for two images that differ by
such light, be it different from pixel to pixel (`getFlag_brighter`).
-/

import JeanBot.FlagDetection.Background

namespace JeanBot
namespace FlagDetection

open Lib

/-! ### Bytes -/

/-- The bytes of a line of pixels, as the camera stores them. -/
def capture (px : CArray imageBufferSize (BitVec 16)) : ImageBuffer := fun j =>
  let pixel := px ⟨j.val / 2, by omega⟩
  if j.val % 2 = 0 then (pixel >>> 8).setWidth 8 else pixel.setWidth 8

/-- The bytes of a word make the word again, the first byte being the high one. -/
theorem word_bytes (pixel : BitVec 16) :
    (0#16 ||| ((pixel >>> 8).setWidth 8).setWidth 16 <<< 8) ||| (pixel.setWidth 8).setWidth 16 =
      pixel := by
  have hlt := pixel.isLt
  apply BitVec.eq_of_toNat_eq
  rw [word_eq, BitVec.toNat_ofNat, BitVec.toNat_setWidth, BitVec.toNat_setWidth,
    BitVec.toNat_ushiftRight, Nat.shiftRight_eq_div_pow]
  omega

/-- The first byte of a word made of two bytes is the one that was shifted. -/
theorem highByte_word (hi lo : BitVec 8) :
    (((0#16 ||| hi.setWidth 16 <<< 8) ||| lo.setWidth 16) >>> 8).setWidth 8 = hi := by
  have hhi := hi.isLt
  have hlo := lo.isLt
  apply BitVec.eq_of_toNat_eq
  rw [word_eq, BitVec.toNat_setWidth, BitVec.toNat_ushiftRight, BitVec.toNat_ofNat,
    Nat.shiftRight_eq_div_pow]
  omega

/-- The second byte of a word made of two bytes is the one that was not shifted. -/
theorem lowByte_word (hi lo : BitVec 8) :
    ((0#16 ||| hi.setWidth 16 <<< 8) ||| lo.setWidth 16).setWidth 8 = lo := by
  have hhi := hi.isLt
  have hlo := lo.isLt
  apply BitVec.eq_of_toNat_eq
  rw [word_eq, BitVec.toNat_setWidth, BitVec.toNat_ofNat]
  omega

/-- A line of pixels is read back from its bytes by the first loop of `get_flag`. -/
theorem pixelLine_capture (px : CArray imageBufferSize (BitVec 16)) :
    pixelLine (capture px) = px := by
  funext i
  have hhi : capture px ⟨2 * i, highByte_lt i⟩ = (px i >>> 8).setWidth 8 := by
    simp [capture]
  have hlo : capture px ⟨2 * i + 1, lowByte_lt i⟩ = (px i).setWidth 8 := by
    have hdiv : (2 * i.val + 1) / 2 = i.val := by omega
    simp [capture, hdiv]
  rw [pixelLine, hhi, hlo, word_bytes]

/-- The bytes of an image are made of its words, and of nothing else: each byte belongs to one
of them. -/
theorem capture_pixelLine (img : ImageBuffer) : capture (pixelLine img) = img := by
  funext j
  unfold capture pixelLine
  dsimp only
  split_ifs with hj
  · rw [highByte_word]
    congr 1
    exact Fin.ext (by simp only; omega)
  · rw [lowByte_word]
    congr 1
    exact Fin.ext (by simp only; omega)

/-- **Bytes and pixels**: the first loop of `get_flag` loses nothing, and every line of pixels
is some line of bytes. -/
theorem pixelLine_bijective : Function.Bijective pixelLine :=
  Function.bijective_iff_has_inverse.2 ⟨capture, capture_pixelLine, pixelLine_capture⟩

/-- A pixel of the colour. -/
def Color.pixel : Color → BitVec 16
  | .undefinedColor => 0x0000#16
  | .red => 0xF800#16
  | .green => 0x07E0#16
  | .blue => 0x001F#16
  | .white => 0xFFFF#16

/-- `get_color` recognises the pixel that is chosen for each colour, so every colour is that of
some pixel. -/
theorem getColor_pixel (c : Color) : getColor c.pixel = c := by cases c <;> decide

/-- An image of the line. -/
def imageOf (line : CArray imageBufferSize Color) : ImageBuffer := capture fun i => (line i).pixel

/-- **Every line of colours is shown by an image**, the one of the pixels that are chosen for
its colours. -/
theorem colorLine_imageOf (line : CArray imageBufferSize Color) :
    colorLine (imageOf line) = line := by
  funext i
  rw [colorLine, imageOf, pixelLine_capture, getColor_pixel]

/-- Three blocks of the colours of the flag. -/
def flagBlocks (f : Flag) : List (Color × ℕ) :=
  [((flagColors f).1, 200), ((flagColors f).2.1, 220), ((flagColors f).2.2, 220)]

/-- An image of the flag. -/
def flagImage (f : Flag) : ImageBuffer := imageOf (groupLine (flagBlocks f))

/-- **Every flag is recognised in some image**, and in some image none is: an image of its three
bands, and one in which no pixel has a colour. -/
theorem getFlag_flagImage (f : Flag) : getFlag (flagImage f) = some f := by
  have hlen : (flagBlocks f).length ≤ maxNumColorBands := show 3 ≤ maxNumColorBands by decide
  have hwide : ∀ g ∈ flagBlocks f, minColorBandWidth ≤ g.2 := by
    simp [flagBlocks, minColorBandWidth]
  have hcolors : firstBands ((runs ((flagBlocks f).map Prod.fst)).map Prod.fst) = f := by
    cases f <;> rfl
  rw [flagImage, getFlag_eq_lineFlag, colorLine_imageOf, lineFlag_groupLine hlen rfl hwide, hcolors]

/-! ### Colours -/

/-- The red channel of a pixel, on the scale of `get_color`. -/
def redOf (pixel : BitVec 16) : ℕ := ((pixel &&& 0xF800#16) >>> 11).toNat * 8 % 2 ^ 8

/-- The green channel. -/
def greenOf (pixel : BitVec 16) : ℕ := ((pixel &&& 0x07E0#16) >>> 5).toNat * 4 % 2 ^ 8

/-- The blue channel. -/
def blueOf (pixel : BitVec 16) : ℕ := ((pixel &&& 0x001F#16) >>> 0).toNat * 8 % 2 ^ 8

/-- The channel `x` is the largest of the three by more than `margin`. -/
def Dominates (margin x y z : ℕ) : Prop := y + margin < x ∧ z + margin < x

instance (margin x y z : ℕ) : Decidable (Dominates margin x y z) :=
  inferInstanceAs (Decidable (_ ∧ _))

/-- At most one channel dominates: if a channel is brighter than both others by a margin,
neither of them is brighter than it. -/
theorem Dominates.not_dominates {m m' x y z : ℕ} (h : Dominates m x y z) :
    ¬Dominates m' y x z ∧ ¬Dominates m' z x y ∧ ¬Dominates m' z y x := by
  obtain ⟨h₁, h₂⟩ := h
  unfold Dominates
  omega

/-- The same light on all channels changes nothing, because only differences of channels are
compared. -/
theorem dominates_add_iff (m x y z k : ℕ) :
    Dominates m (x + k) (y + k) (z + k) ↔ Dominates m x y z := by
  unfold Dominates
  omega

/-- The tests of `get_color`: three times whether a channel dominates, with the margin for that
channel, and then whether all are bright. -/
theorem getColor_eq (pixel : BitVec 16) : getColor pixel =
    if Dominates 15 (redOf pixel) (blueOf pixel) (greenOf pixel) then .red
    else if Dominates 20 (blueOf pixel) (redOf pixel) (greenOf pixel) then .blue
    else if Dominates 20 (greenOf pixel) (redOf pixel) (blueOf pixel) then .green
    else if 80 < redOf pixel ∧ 80 < blueOf pixel ∧ 80 < greenOf pixel then .white
    else .undefinedColor := rfl

/-- **The order of the tests of `get_color` does not matter**: a pixel has the colour of the
channel that dominates, and it is white if none does and all are bright. -/
theorem getColor_iff (pixel : BitVec 16) :
    (getColor pixel = .red ↔ Dominates 15 (redOf pixel) (blueOf pixel) (greenOf pixel)) ∧
      (getColor pixel = .blue ↔ Dominates 20 (blueOf pixel) (redOf pixel) (greenOf pixel)) ∧
      (getColor pixel = .green ↔ Dominates 20 (greenOf pixel) (redOf pixel) (blueOf pixel)) ∧
      (getColor pixel = .white ↔
        (80 < redOf pixel ∧ 80 < blueOf pixel ∧ 80 < greenOf pixel) ∧
          ¬Dominates 15 (redOf pixel) (blueOf pixel) (greenOf pixel) ∧
          ¬Dominates 20 (blueOf pixel) (redOf pixel) (greenOf pixel) ∧
          ¬Dominates 20 (greenOf pixel) (redOf pixel) (blueOf pixel)) := by
  rw [getColor_eq]
  split_ifs with hred hblue hgreen hwhite
  · simp [hred, hred.not_dominates]
  · simp [hred, hblue, hblue.not_dominates]
  · simp [hred, hblue, hgreen]
  · simp [hred, hblue, hgreen, hwhite]
  · simp [hred, hblue, hgreen, hwhite]

/-- The pixel `p'` is `p` with `k` more on each channel. -/
structure Brighter (p p' : BitVec 16) (k : ℕ) : Prop where
  red : redOf p' = redOf p + k
  green : greenOf p' = greenOf p + k
  blue : blueOf p' = blueOf p + k

/-- **Light changes no colour**, it only makes dark pixels white: a channel that dominates still
does, and one that does not still does not. -/
theorem Brighter.getColor_eq {p p' : BitVec 16} {k : ℕ} (h : Brighter p p' k) :
    getColor p' = getColor p ∨ getColor p = .undefinedColor ∧ getColor p' = .white := by
  rw [FlagDetection.getColor_eq, FlagDetection.getColor_eq, h.red, h.green, h.blue]
  simp only [dominates_add_iff]
  split_ifs <;> first | exact Or.inl rfl | exact Or.inr ⟨rfl, rfl⟩ | omega

/-- **Light does not change the flag**: for two images of which one has more light, whatever
the light on each pixel, `get_flag` returns the same, unless it makes a dark pixel white. -/
theorem getFlag_brighter {img img' : ImageBuffer}
    (h : ∀ i, ∃ k, Brighter (pixelLine img i) (pixelLine img' i) k)
    (hdark : ∀ i, colorLine img i = .undefinedColor → colorLine img' i ≠ .white) :
    getFlag img' = getFlag img := by
  have hline : colorLine img' = colorLine img := by
    funext i
    obtain ⟨k, hk⟩ := h i
    rcases hk.getColor_eq with he | ⟨hu, hw⟩
    · exact he
    · exact absurd hw (hdark i hu)
  rw [getFlag_eq_lineFlag, getFlag_eq_lineFlag, hline]

/-- The French flag in dim light. -/
def dimPixel (j : ℕ) : BitVec 16 :=
  if j < 200 then 0x0010#16 else if j < 420 then 0x738E#16 else 0x8000#16

/-- The same flag with light on the left half of each band. -/
def litPixel (j : ℕ) : BitVec 16 :=
  if j < 100 then 0x2114#16 else if j < 200 then 0x0010#16
  else if j < 310 then 0x9492#16 else if j < 420 then 0x738E#16
  else if j < 530 then 0xA104#16 else 0x8000#16

/-- The light that was added. -/
def lightOn (j : ℕ) : ℕ :=
  if j < 100 then 32 else if j < 200 then 0
  else if j < 310 then 32 else if j < 420 then 0 else if j < 530 then 32 else 0

/-- The lit pixel has the light of its position on each channel, and none of them overflows. -/
theorem brighter_litPixel (j : ℕ) : Brighter (dimPixel j) (litPixel j) (lightOn j) := by
  unfold dimPixel litPixel lightOn
  split_ifs <;> first | omega | exact ⟨by decide, by decide, by decide⟩

/-- No pixel turns white by the light on it, or changes its colour in any other way. -/
theorem getColor_litPixel (j : ℕ) : getColor (litPixel j) = getColor (dimPixel j) := by
  unfold dimPixel litPixel
  split_ifs <;> first | omega | decide

/-- The light on the left halves of the bands does not change what `get_flag` does, although it
differs from pixel to pixel. -/
theorem getFlag_brighter_lit :
    getFlag (capture fun i => litPixel i) = getFlag (capture fun i => dimPixel i) := by
  refine getFlag_brighter (fun i => ⟨lightOn i, ?_⟩) fun i hu => ?_
  · rw [pixelLine_capture, pixelLine_capture]
    exact brighter_litPixel i
  · rw [colorLine, pixelLine_capture] at hu ⊢
    rw [getColor_litPixel, hu]
    decide

end FlagDetection
end JeanBot
