/-
# The bands a line shows

What `extract_color_bands` is for, said on the pixels: delete every maximal run
of fewer than `MIN_GROUP_SIZE` pixels (`cleanLine`), take the runs of what is
left, read a run narrower than `MIN_COLOR_BAND_WIDTH` as `UNDEFINED_COLOR`, and
keep one of neighbouring `UNDEFINED_COLOR`s (`bandList`).

`extractColorBands_eq` is the refinement: the five passes write the band list
from the first entry on, where the cleaned line has at least two runs, and
nothing where it has fewer.  So the code departs from the band list on a line
that is one single run, whose only band it does not write, and nowhere else.

A band is a wide run of a defined colour, or a gap between such runs
(`length_bandList`).
-/

import JeanBot.FlagDetection.Passes
import JeanBot.Lib.ShortRuns

namespace JeanBot
namespace FlagDetection

open Lib

/-- The line with every maximal run of fewer than `MIN_GROUP_SIZE` pixels
deleted. -/
def cleanLine (l : List Color) : List Color := dropShort minGroupSize l

/-- The colours of the runs of the cleaned line, narrow runs undefined and
neighbouring undefined runs counted once. -/
def bandList (l : List Color) : List Color :=
  collapse .undefinedColor ((runs (cleanLine l)).map bandColor)

/-- A run that is a band of its colour. -/
def isBand (g : Color × ℕ) : Bool := minColorBandWidth ≤ g.2 ∧ g.1 ≠ .undefinedColor

/-- A run that is a band of its colour is read as its colour, any other as
undefined. -/
theorem bandColor_eq_undefined_iff (g : Color × ℕ) :
    bandColor g = .undefinedColor ↔ isBand g = false := by
  unfold bandColor isBand
  split_ifs with h
  · simp [Nat.not_le.2 h]
  · simp [Nat.not_lt.1 h]

/-- A wide run of a defined colour is read as its colour: step 4 leaves it alone. -/
theorem bandColor_of_isBand {g : Color × ℕ} (h : isBand g = true) : bandColor g = g.1 := by
  have h' : minColorBandWidth ≤ g.2 ∧ g.1 ≠ .undefinedColor := by simpa [isBand] using h
  exact if_neg (Nat.not_lt.2 h'.1)

/-- Neighbouring runs that are read as one colour are both undefined, since their own colours
differ: only the recolouring can make them equal. -/
theorem isChain_map_bandColor {gs : List (Color × ℕ)} (h : gs.IsChain fun g h => g.1 ≠ h.1) :
    (gs.map bandColor).IsChain fun a b => a = b → a = .undefinedColor := by
  rw [List.isChain_map]
  refine h.imp fun g k hne he => ?_
  by_contra hu
  have hg : isBand g = true := by rwa [bandColor_eq_undefined_iff, Bool.not_eq_false] at hu
  have hk : isBand k = true := by
    rwa [he, bandColor_eq_undefined_iff, Bool.not_eq_false] at hu
  rw [bandColor_of_isBand hg, bandColor_of_isBand hk] at he
  exact hne he

/-- The runs of the cleaned line are its large runs, fused where the short ones between them
have been deleted: this is what steps 2 and 3 leave. -/
theorem runs_cleanLine (l : List Color) :
    runs (cleanLine l) = fuse ((runs l).filter isLarge) :=
  runs_dropShort l

/-- The pixels of the large runs are among those of the line, so no sum of their sizes reaches
`2 ^ 16`. -/
theorem sum_filter_isLarge_le (l : List Color) :
    (((runs l).filter isLarge).map Prod.snd).sum ≤ l.length :=
  (sum_filter_le isLarge (runs l)).trans_eq (sum_runs l)

/-- The bands are the runs of the colours of the runs: neighbours of one colour, which can only
be narrow runs, make one band. -/
theorem bandList_eq_runs (l : List Color) :
    bandList l = (runs ((runs (cleanLine l)).map bandColor)).map Prod.fst :=
  (map_fst_runs_eq_collapse (isChain_map_bandColor (isChain_runs _))).symm

/-- What the five passes write: the band list of a line whose cleaned line has at least
two runs, and nothing otherwise. -/
def writtenBands (l : List Color) : List Color :=
  if 2 ≤ (runs (cleanLine l)).length then bandList l else []

/-- From two runs of the cleaned line on, all bands are written. -/
theorem writtenBands_of_two_le {l : List Color} (h : 2 ≤ (runs (cleanLine l)).length) :
    writtenBands l = bandList l := if_pos h

/-- With fewer than two runs nothing is written, even if the only run is a band: steps 3 and 5
flush inside of their loops, which start at the second group. -/
theorem writtenBands_of_lt_two {l : List Color} (h : (runs (cleanLine l)).length < 2) :
    writtenBands l = [] := if_neg (Nat.not_le.2 h)

/-- **The five passes write the band list**, one colour after the other from the first position
on.  Where the cleaned line is a single run or empty, they write nothing. -/
theorem extractColorBands_eq (line : CArray imageBufferSize Color) :
    extractColorBands line = some (fillWrites (writtenBands (List.ofFn line))) := by
  obtain ⟨g₁, n, h₁, hn, he₁⟩ := step1_spec line
  obtain ⟨g₂, m, h₂, hm, he₂⟩ := step2_spec g₁ hn
  rw [he₁] at he₂
  have hlen₂ : ((runs (List.ofFn line)).filter isLarge).length = m := by
    rw [← he₂, g₂.length_entries (hm.trans hn)]
  simp only [extractColorBands, h₁, h₂, Option.bind_eq_bind, Option.bind_some]
  rcases Nat.lt_or_ge m 2 with hm2 | hm2
  · have hfew : (runs (cleanLine (List.ofFn line))).length < 2 := by
      rw [runs_cleanLine]
      exact (length_fuse_le _).trans_lt (hlen₂ ▸ hm2)
    obtain ⟨g₄, h₄, -⟩ := step4_spec g₂ (Nat.zero_le imageBufferSize)
    simp only [step3_of_lt_two g₂ hm2, h₄, Option.bind_some, step5_of_lt_two g₄ Nat.two_pos,
      writtenBands_of_lt_two hfew]
    rfl
  · have hsum : ((g₂.entries m).map Prod.snd).sum < 2 ^ 16 := by
      have h := sum_filter_isLarge_le (List.ofFn line)
      rw [List.length_ofFn] at h
      exact he₂ ▸ h.trans_lt imageBufferSize_lt
    obtain ⟨g₃, k, h₃, hk, he₃⟩ := step3_spec g₂ hm2 (hm.trans hn) hsum
    have hkn : k ≤ imageBufferSize := hk.trans (hm.trans hn)
    obtain ⟨g₄, h₄, hcol⟩ := step4_spec g₃ hkn
    rw [he₂, ← runs_cleanLine] at he₃
    have hlen₃ : (runs (cleanLine (List.ofFn line))).length = k := by
      rw [← he₃, g₃.length_entries hkn]
    simp only [h₃, h₄, Option.bind_some]
    rcases Nat.lt_or_ge k 2 with hk2 | hk2
    · rw [step5_of_lt_two g₄ hk2, writtenBands_of_lt_two (hlen₃.trans_lt hk2)]
      rfl
    · rw [step5_spec g₄ hk2 hkn, writtenBands_of_two_le (hk2.trans_eq hlen₃.symm), hcol, he₃,
        bandList_eq_runs]

/-- There are at most as many bands as runs of the cleaned line, since neighbouring narrow runs
share one. -/
theorem length_bandList_le (l : List Color) :
    (bandList l).length ≤ (runs (cleanLine l)).length := by
  rw [bandList_eq_runs, List.length_map]
  refine (length_fuse_le _).trans ?_
  rw [List.length_map, List.length_map]

/-- The runs of a list that are bands of their colour. -/
def wideRuns (gs : List (Color × ℕ)) : ℕ := gs.countP isBand

/-- The stretches of runs between them, before the first and after the last. -/
def gaps (gs : List (Color × ℕ)) : ℕ := stretches (fun g => !isBand g) gs

/-- **The number of bands**: each wide run is one of its own, and each gap, before, between or
after them, is one more. -/
theorem length_bandList (l : List Color) :
    (bandList l).length = wideRuns (runs (cleanLine l)) + gaps (runs (cleanLine l)) := by
  have hne : ∀ g, decide (bandColor g ≠ .undefinedColor) = isBand g := fun g => by
    have h := bandColor_eq_undefined_iff g
    cases hb : isBand g <;> simp_all
  have heq : ∀ g, decide (bandColor g = .undefinedColor) = !isBand g := fun g => by
    have h := bandColor_eq_undefined_iff g
    cases hb : isBand g <;> simp_all
  rw [bandList, length_collapse, List.countP_map, stretches_map, wideRuns, gaps]
  congr 2
  · exact funext hne
  · exact funext heq

end FlagDetection
end JeanBot
