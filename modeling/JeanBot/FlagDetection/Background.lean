/-
# A flag in front of a plain background

A line that consists of blocks of at least `MIN_COLOR_BAND_WIDTH` pixels loses
nothing in the five passes but the borders between blocks of one colour
(`bandList_expand`), so the flag that is found depends on the colours of the blocks
alone (`lineFlag_groupLine`).

A flag in front of a background is such a line.  Its colours are then not the only
three in a row: a band of the background with two of the flag makes another three,
and `extract_flag` tests France, Italy, Japan and Switzerland in this order.  In
front of blue the left two bands of Japan complete the French flag, in front of
green the Italian one, and in front of white the outer bands of Switzerland are
those of Japan.  Every other flag is found as itself (`lineFlag_onBackground`).
-/

import JeanBot.FlagDetection.Detector

namespace JeanBot
namespace FlagDetection

open Lib

/-! ### Lines of wide blocks -/

/-- The line that groups of 640 pixels stand for. -/
def groupLine (gs : List (Color × ℕ)) : CArray imageBufferSize Color := fun i =>
  (expand gs).getD i .undefinedColor

/-- Groups of 640 pixels in all fill the line, so it is what they stand for, with no pixel past
the last group. -/
theorem ofFn_groupLine {gs : List (Color × ℕ)}
    (hsum : (gs.map Prod.snd).sum = imageBufferSize) : List.ofFn (groupLine gs) = expand gs := by
  rw [← length_expand] at hsum
  refine List.ext_getElem (List.length_ofFn.trans hsum.symm) fun i _ hi => ?_
  rw [List.getElem_ofFn]
  exact List.getD_eq_getElem _ _ hi

/-- Large groups survive the cleaning, and those of one colour that are neighbours become one
run. -/
theorem runs_cleanLine_expand {gs : List (Color × ℕ)} (h : ∀ g ∈ gs, minGroupSize ≤ g.2) :
    runs (cleanLine (expand gs)) = fuse gs := by
  have hpos : ∀ g ∈ gs, 0 < g.2 := fun g hg =>
    (by decide : 0 < minGroupSize).trans_le (h g hg)
  have hlarge : (fuse gs).filter isLarge = fuse gs :=
    List.filter_eq_self.2 fun g hg => decide_eq_true (le_of_mem_fuse h g hg)
  rw [runs_cleanLine, runs_expand hpos, hlarge, fuse_of_isChain (isChain_fuse gs)]

/-- **The bands of wide blocks are their colours**, neighbours of one colour counted
once. -/
theorem bandList_expand {gs : List (Color × ℕ)} (h : ∀ g ∈ gs, minColorBandWidth ≤ g.2) :
    bandList (expand gs) = (runs (gs.map Prod.fst)).map Prod.fst := by
  have hcol : (fuse gs).map bandColor = (fuse gs).map Prod.fst :=
    List.map_congr_left fun g hg => if_neg (Nat.not_lt.2 (le_of_mem_fuse h g hg))
  have hlarge : ∀ g ∈ gs, minGroupSize ≤ g.2 := fun g hg =>
    (by decide : minGroupSize ≤ minColorBandWidth).trans (h g hg)
  rw [bandList_eq_runs, runs_cleanLine_expand hlarge, hcol,
    map_fst_runs_of_isChain ((List.isChain_map _).2 (isChain_fuse gs)), map_fst_fuse]

/-- **The flag found on wide blocks depends on their colours alone.**  Up to ten of them fit
into the array, and how wide they are beyond `MIN_COLOR_BAND_WIDTH` makes no difference. -/
theorem lineFlag_groupLine {gs : List (Color × ℕ)} (hlen : gs.length ≤ maxNumColorBands)
    (hsum : (gs.map Prod.snd).sum = imageBufferSize) (h : ∀ g ∈ gs, minColorBandWidth ≤ g.2) :
    lineFlag (groupLine gs) = some (firstBands ((runs (gs.map Prod.fst)).map Prod.fst)) := by
  have hbands := bandList_expand h
  have hfit : (bandList (expand gs)).length ≤ maxNumColorBands := by
    rw [hbands, ← map_fst_fuse, List.length_map]
    exact (length_fuse_le gs).trans hlen
  rw [← ofFn_groupLine hsum] at hfit
  rw [lineFlag_eq _ hfit, firstShown_cleanLine, ofFn_groupLine hsum, hbands]

/-! ### The background -/

/-- A flag with bands of `w₁`, `w₂` and `w₃` pixels in front of a background of
colour `b`, of which `w₀` pixels show on the left and `w₄` on the right. -/
def onBackground (f : Flag) (b : Color) (w₀ w₁ w₂ w₃ w₄ : ℕ) : List (Color × ℕ) :=
  [(b, w₀), ((flagColors f).1, w₁), ((flagColors f).2.1, w₂), ((flagColors f).2.2, w₃), (b, w₄)]

/-- The flag that is found in front of a background: itself, but for the three
backgrounds that complete the colours of a flag that is tested earlier. -/
def foundOn (f : Flag) (b : Color) : Flag :=
  if f = .japan ∧ b = .blue then .france
  else if f = .japan ∧ b = .green then .italy
  else if f = .switzerland ∧ b = .white then .japan
  else f

/-- **A flag in front of a plain background.**  Whatever the widths of the bands, from
`MIN_COLOR_BAND_WIDTH` on, the flag is found as itself unless it is Japan in front of
blue or green or Switzerland in front of white. -/
theorem lineFlag_onBackground {f : Flag} (hf : f ∈ flagOrder) (b : Color)
    {w₀ w₁ w₂ w₃ w₄ : ℕ} (hw : ∀ w ∈ [w₀, w₁, w₂, w₃, w₄], minColorBandWidth ≤ w)
    (hsum : w₀ + w₁ + w₂ + w₃ + w₄ = imageBufferSize) :
    lineFlag (groupLine (onBackground f b w₀ w₁ w₂ w₃ w₄)) = some (foundOn f b) := by
  have hlen : (onBackground f b w₀ w₁ w₂ w₃ w₄).length ≤ maxNumColorBands :=
    show 5 ≤ maxNumColorBands by decide
  have hwide : ∀ g ∈ onBackground f b w₀ w₁ w₂ w₃ w₄, minColorBandWidth ≤ g.2 := fun g hg =>
    hw g.2 (List.mem_map_of_mem hg)
  have hsum' : ((onBackground f b w₀ w₁ w₂ w₃ w₄).map Prod.snd).sum = imageBufferSize := by
    rw [← hsum]
    simp [onBackground, Nat.add_assoc]
  -- the colours are all that is left, five of them for each flag and background
  have hcolors : firstBands ((runs ((onBackground f b w₀ w₁ w₂ w₃ w₄).map Prod.fst)).map
      Prod.fst) = foundOn f b := by
    cases f with
    | france => cases b <;> rfl
    | italy => cases b <;> rfl
    | japan => cases b <;> rfl
    | switzerland => cases b <;> rfl
    | undefinedFlag => exact absurd hf (by decide)
  rw [lineFlag_groupLine hlen hsum' hwide, hcolors]

/-- The Italian flag in front of red, with bands of 100 pixels, is found as itself: its red band
is one with the background. -/
theorem lineFlag_italyOnRed :
    (∀ w ∈ [150, 100, 100, 100, 190], minColorBandWidth ≤ w) ∧
      150 + 100 + 100 + 100 + 190 = imageBufferSize ∧
      lineFlag (groupLine (onBackground .italy .red 150 100 100 100 190)) = some .italy :=
  have hw : ∀ w ∈ [150, 100, 100, 100, 190], minColorBandWidth ≤ w := by decide
  have hsum : 150 + 100 + 100 + 100 + 190 = imageBufferSize := rfl
  ⟨hw, hsum, lineFlag_onBackground (by decide) .red hw hsum⟩

/-- **The Japanese flag in front of blue is taken for the French one**: with the background,
blue, white and red stand side by side, and France is looked for first. -/
theorem lineFlag_japanOnBlue :
    (∀ w ∈ [128, 128, 128, 128, 128], minColorBandWidth ≤ w) ∧
      128 + 128 + 128 + 128 + 128 = imageBufferSize ∧
      lineFlag (groupLine (onBackground .japan .blue 128 128 128 128 128)) = some .france ∧
      lineFlag (groupLine (onBackground .japan .blue 128 128 128 128 128)) ≠ some .japan := by
  have hflag : lineFlag (groupLine (onBackground .japan .blue 128 128 128 128 128)) =
      some .france :=
    lineFlag_groupLine (by decide) rfl (by decide)
  exact ⟨by decide, rfl, hflag, hflag ▸ by decide⟩

end FlagDetection
end JeanBot
