/-
# Many windows of noise

A line is `Noisy` by `W` pixels if it comes from the original one by any number of
noise windows, `W` pixels in all, each of fewer than `MIN_GROUP_SIZE` pixels and, when
it is made, between stretches of at least as many.  Every window moves the borders of
the cleaned stretches by no more than its own width (`NoiseWindow.near`), so all of
them together by no more than `W`, and what `extract_color_bands` writes and the flag
that `get_flag` returns are those of the original line as long as no stretch of it is
within `W` of `MIN_COLOR_BAND_WIDTH` (`getFlag_noisy`).
-/

import JeanBot.FlagDetection.Invariance
import JeanBot.FlagDetection.Pixels

namespace JeanBot
namespace FlagDetection

open Lib

variable {x y z : CArray imageBufferSize Color} {lo v w : ℕ}

/-- The line `y` is `x` after noise windows of `w` pixels in all. -/
inductive Noisy (x : CArray imageBufferSize Color) : ℕ → CArray imageBufferSize Color → Prop
  | refl : Noisy x 0 x
  | window {v w lo : ℕ} {y z : CArray imageBufferSize Color} :
      Noisy x v y → NoiseWindow y z lo w → Noisy x (v + w) z

/-- The borders of the cleaned stretches move by at most the pixels of all windows: each window
moves them by its own width, and the differences add up. -/
theorem Noisy.near (h : Noisy x w y) :
    Near w (runs (cleanLine (List.ofFn x))) (runs (cleanLine (List.ofFn y))) := by
  induction h with
  | refl => exact .refl _
  | window _ hw ih => exact ih.trans hw.near

/-- **A flag is recognised through any number of noise windows**, and no flag is seen in
the noise: `get_flag` does the same on both images, as long as no stretch of the cleaned
original is so close to `MIN_COLOR_BAND_WIDTH` that all the noise together decides
about it. -/
theorem getFlag_noisy {img img' : ImageBuffer} (h : Noisy (colorLine img) w (colorLine img'))
    (hwidth : ∀ g ∈ runs (cleanLine (List.ofFn (colorLine img))),
      g.2 + w < minColorBandWidth ∨ minColorBandWidth + w ≤ g.2) :
    getFlag img' = getFlag img := by
  rw [getFlag, getFlag, extractColorBands_of_near h.near hwidth]

/-- The noisy French flag, with eight more green pixels on the border of the blue band. -/
def noisierLine : CArray imageBufferSize Color := fun i =>
  if 196 ≤ i.val ∧ i.val < 204 then .green else noisyLine i

/-- The line comes from the French one by two windows, of five and of eight pixels, the second
one in what the first has left. -/
theorem noisy_noisierLine : Noisy frenchLine 13 noisierLine := by
  have h : NoiseWindow noisyLine noisierLine 196 8 :=
    { pos := by decide
      small := by decide
      inside := by decide
      agree := by decide +kernel
      left := Or.inr ⟨by decide, .blue, by decide +kernel⟩
      right := Or.inr ⟨by decide, .white, by decide +kernel⟩ }
  exact (Noisy.refl.window noiseWindow_noisyLine).window h

/-- `get_flag` sees the same in the French line and in the one with both windows, since thirteen
pixels decide about none of its bands. -/
theorem getFlag_noisy_noisierLine :
    getFlag (imageOf noisierLine) = getFlag (imageOf frenchLine) := by
  have h : Noisy (colorLine (imageOf frenchLine)) 13 (colorLine (imageOf noisierLine)) := by
    rw [colorLine_imageOf, colorLine_imageOf]
    exact noisy_noisierLine
  refine getFlag_noisy h ?_
  rw [colorLine_imageOf]
  decide +kernel

end FlagDetection
end JeanBot
