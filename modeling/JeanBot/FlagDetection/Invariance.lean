/-
# What the bands do not depend on

Two laws that relate two runs of `extract_color_bands`.

`extractColorBands_reverse`: on the reversed line it writes the reversed sequence.
The passes treat the two ends of the arrays differently, but cleaning, encoding and
fusing do not.

`extractColorBands_noise`: it writes the same for two lines that differ in a window
of `w < MIN_GROUP_SIZE` pixels, if the window stands between stretches of at least
`MIN_GROUP_SIZE` pixels of one colour and no band is so close to
`MIN_COLOR_BAND_WIDTH` that `w` pixels decide about it.  Both cleaned lines are that
of the line without the window, with some runs longer by at most `w`
(`Lib.grows_window`), so the window moves the borders of the cleaned stretches by at
most `w` (`NoiseWindow.near`), and the passes do not see what is moved by so little
(`extractColorBands_of_near`).
-/

import JeanBot.FlagDetection.Reference

namespace JeanBot
namespace FlagDetection

open Lib

/-! ### The reversed line -/

/-- Cleaning does not depend on the direction: a run has the same pixels from either end. -/
theorem cleanLine_reverse (l : List Color) : cleanLine l.reverse = (cleanLine l).reverse :=
  dropShort_reverse l

/-- The bands of the reversed line are those of the line, reversed: its runs are, and the width
of a run decides about its colour from either end. -/
theorem bandList_reverse (l : List Color) : bandList l.reverse = (bandList l).reverse := by
  rw [bandList_eq_runs, bandList_eq_runs, cleanLine_reverse, runs_reverse, List.map_reverse,
    runs_reverse, List.map_reverse]

/-- The same bands are written for the reversed line, since the number of runs decides whether
any are. -/
theorem writtenBands_reverse (l : List Color) :
    writtenBands l.reverse = (writtenBands l).reverse := by
  rw [writtenBands, writtenBands, cleanLine_reverse, runs_reverse, List.length_reverse,
    bandList_reverse]
  split_ifs <;> rfl

/-- The colours that fill an array are those written. -/
theorem map_snd_fillWrites (l : List Color) : (fillWrites l).map Prod.snd = l := by
  induction l using List.reverseRecOn with
  | nil => rfl
  | append_singleton l c ih => rw [fillWrites_snoc, List.map_append, ih]; rfl

/-- **Mirror symmetry.**  For the reversed line, `extract_color_bands` writes the reverse of
what it writes for the line, although each of its loops goes from left to right. -/
theorem extractColorBands_reverse (line : CArray imageBufferSize Color) :
    ∃ writes writes', extractColorBands line = some writes ∧
      extractColorBands (fun i => line i.rev) = some writes' ∧
      writes'.map Prod.snd = (writes.map Prod.snd).reverse := by
  refine ⟨_, _, extractColorBands_eq line, extractColorBands_eq _, ?_⟩
  rw [map_snd_fillWrites, map_snd_fillWrites, ofFn_rev, writtenBands_reverse]

/-! ### A window of noise -/

/-- The lines `x` and `y` agree outside the `w` pixels from `lo` on, and the stretch
of one colour on each side of this window has at least `MIN_GROUP_SIZE` pixels, if
the window does not touch the end of the line. -/
structure NoiseWindow (x y : CArray imageBufferSize Color) (lo w : ℕ) : Prop where
  pos : 0 < w
  small : w < minGroupSize
  inside : lo + w ≤ imageBufferSize
  agree : ∀ i : Fin imageBufferSize, i.val < lo ∨ lo + w ≤ i.val → y i = x i
  left : lo = 0 ∨ minGroupSize ≤ lo ∧
    ∃ a, ∀ i : Fin imageBufferSize, lo - minGroupSize ≤ i.val → i.val < lo → x i = a
  right : lo + w = imageBufferSize ∨ lo + w + minGroupSize ≤ imageBufferSize ∧
    ∃ b, ∀ i : Fin imageBufferSize, lo + w ≤ i.val → i.val < lo + w + minGroupSize → x i = b

variable {x y : CArray imageBufferSize Color} {lo w : ℕ}

/-- What stands in front of the window is empty or ends with a long block, which survives step 2
whatever the window holds. -/
theorem NoiseWindow.longEnd (h : NoiseWindow x y lo w) :
    LongEnd minGroupSize ((List.ofFn x).take lo) := by
  obtain rfl | ⟨hlo, a, ha⟩ := h.left
  · exact Or.inl rfl
  · refine Or.inr ⟨_, a, _, ?_, take_ofFn_of_const x (Nat.sub_le lo minGroupSize)
      ((Nat.le_add_right lo w).trans h.inside) ha⟩
    omega

/-- What stands behind the window is empty or starts with a long block, as in front of it. -/
theorem NoiseWindow.longStart (h : NoiseWindow x y lo w) :
    LongStart minGroupSize ((List.ofFn x).drop (lo + w)) := by
  obtain hend | ⟨hhi, b, hb⟩ := h.right
  · exact Or.inl (List.drop_eq_nil_of_le (by rw [List.length_ofFn, hend]))
  · refine Or.inr ⟨b, _, _, ?_, drop_ofFn_of_const x (Nat.le_add_right _ minGroupSize) hhi hb⟩
    omega

/-- What the passes keep of a line with a short window between long stretches: the
line without the window, some runs of it longer by at most `w`. -/
theorem grows_cleanLine {l : List Color} (hl : lo + w ≤ l.length) (hw : w < minGroupSize)
    (hP : LongEnd minGroupSize (l.take lo)) (hQ : LongStart minGroupSize (l.drop (lo + w))) :
    Grows w (runs (cleanLine (l.take lo) ++ cleanLine (l.drop (lo + w)))) (runs (cleanLine l)) := by
  have hV : ((l.drop lo).take w).length = w := by
    rw [List.length_take, List.length_drop]
    omega
  have hsplit : l.take lo ++ ((l.drop lo).take w ++ l.drop (lo + w)) = l := by
    rw [← List.drop_drop, List.take_append_drop, List.take_append_drop]
  have h := grows_window (V := (l.drop lo).take w) (hV.trans_lt hw) hP hQ
  rwa [hV, hsplit] at h

/-- A window moves the borders of the cleaned stretches by at most its width: both cleaned
lines have grown by no more than that from the line without the window. -/
theorem NoiseWindow.near (h : NoiseWindow x y lo w) :
    Near w (runs (cleanLine (List.ofFn x))) (runs (cleanLine (List.ofFn y))) := by
  have hleft : (List.ofFn y).take lo = (List.ofFn x).take lo :=
    take_ofFn_congr fun i hi => h.agree i (Or.inl hi)
  have hright : (List.ofFn y).drop (lo + w) = (List.ofFn x).drop (lo + w) :=
    drop_ofFn_congr fun i hi => h.agree i (Or.inr hi)
  have hP := h.longEnd
  have hQ := h.longStart
  have hx := grows_cleanLine (h.inside.trans_eq List.length_ofFn.symm) h.small hP hQ
  rw [← hleft] at hP
  rw [← hright] at hQ
  have hy := grows_cleanLine (h.inside.trans_eq List.length_ofFn.symm) h.small hP hQ
  rw [hleft, hright] at hy
  exact hx.near hy

/-- Runs that are near have the same band colours, if none is so close to
`MIN_COLOR_BAND_WIDTH` that the difference decides about it. -/
theorem map_bandColor_of_near {gs hs : List (Color × ℕ)} (h : Near w gs hs)
    (hwidth : ∀ g ∈ gs, g.2 + w < minColorBandWidth ∨ minColorBandWidth + w ≤ g.2) :
    gs.map bandColor = hs.map bandColor := by
  induction h with
  | nil => rfl
  | @cons g k gs hs hg _ ih =>
    obtain ⟨h₁, h₂, h₃⟩ := hg
    have hcol : bandColor g = bandColor k := by
      have hwg := hwidth g (List.mem_cons_self ..)
      unfold bandColor
      rw [← h₁]
      exact if_congr (by omega) rfl rfl
    rw [List.map_cons, List.map_cons, hcol, ih fun g hg => hwidth g (List.mem_cons_of_mem _ hg)]

/-- The passes do the same on two lines whose cleaned stretches are near, if none of them is
so close to `MIN_COLOR_BAND_WIDTH` that the difference decides about it: the number of the
stretches and their band colours are all that the band list is made of. -/
theorem extractColorBands_of_near
    (h : Near w (runs (cleanLine (List.ofFn x))) (runs (cleanLine (List.ofFn y))))
    (hwidth : ∀ g ∈ runs (cleanLine (List.ofFn x)),
      g.2 + w < minColorBandWidth ∨ minColorBandWidth + w ≤ g.2) :
    extractColorBands y = extractColorBands x := by
  have hlen := h.length_eq
  have hbands : bandList (List.ofFn y) = bandList (List.ofFn x) := by
    rw [bandList, bandList, map_bandColor_of_near h hwidth]
  rw [extractColorBands_eq, extractColorBands_eq, writtenBands, writtenBands, ← hlen, hbands]

/-- **Noise tolerance.**  `extract_color_bands` writes the same for two lines that
differ in a short window between long stretches, if no stretch of the cleaned line is
so close to `MIN_COLOR_BAND_WIDTH` that the window decides about it. -/
theorem extractColorBands_noise (h : NoiseWindow x y lo w)
    (hwidth : ∀ g ∈ runs (cleanLine (List.ofFn x)),
      ¬ (minColorBandWidth - w ≤ g.2 ∧ g.2 < minColorBandWidth + w)) :
    ∃ writes, extractColorBands x = some writes ∧ extractColorBands y = some writes := by
  have hw : w < minColorBandWidth := h.small.trans (by decide)
  have hfar : ∀ g ∈ runs (cleanLine (List.ofFn x)),
      g.2 + w < minColorBandWidth ∨ minColorBandWidth + w ≤ g.2 := by
    intro g hg
    have hg := hwidth g hg
    omega
  refine ⟨_, extractColorBands_eq x, ?_⟩
  rw [extractColorBands_of_near h.near hfar, extractColorBands_eq]

/-- 200 blue pixels, 220 white, 220 red. -/
def frenchLine : CArray imageBufferSize Color := fun i =>
  if i.val < 200 then .blue else if i.val < 420 then .white else .red

/-- The same line with five green pixels in the white band. -/
def noisyLine : CArray imageBufferSize Color := fun i =>
  if 300 ≤ i.val ∧ i.val < 305 then .green else frenchLine i

/-- The green pixels of the noisy line are a window of five: they stand between long stretches
of white. -/
theorem noiseWindow_noisyLine : NoiseWindow frenchLine noisyLine 300 5 where
  pos := by decide
  small := by decide
  inside := by decide
  agree := by decide +kernel
  left := Or.inr ⟨by decide, .white, by decide +kernel⟩
  right := Or.inr ⟨by decide, .white, by decide +kernel⟩

/-- Five green pixels inside the white band of the French flag change nothing of what is
written. -/
theorem extractColorBands_noisyLine :
    NoiseWindow frenchLine noisyLine 300 5 ∧
      ∃ writes, extractColorBands frenchLine = some writes ∧
        extractColorBands noisyLine = some writes :=
  ⟨noiseWindow_noisyLine, extractColorBands_noise noiseWindow_noisyLine (by decide +kernel)⟩

end FlagDetection
end JeanBot
