/-
# How many bands fit into `color_bands`

`get_flag` allocates `MAX_NUM_COLOR_BANDS` entries and `extract_color_bands`
bounds its index by nothing.  A line has more bands than that when its cleaned
runs alternate: six red bands of 80 pixels with gaps of 15 pixels around them
are thirteen bands in 585 pixels, and step 5 then writes past the end of the
array (`crowdedLine_overflows`).  Exactly the lines of at most
`MAX_NUM_COLOR_BANDS` bands are safe (`writes_lt_iff`).

No line has more than thirteen (`extractColorBands_budget`).  The passes leave
groups out, add sizes of fused groups and keep one of neighbouring undefined
groups, so distinct bands stand for disjoint pixels of the line, at least
`MIN_GROUP_SIZE` for a gap and `MIN_COLOR_BAND_WIDTH` for any other band.  Gaps
are not neighbours, and six bands with seven gaps are the most that 640 pixels
pay for.
-/

import JeanBot.FlagDetection.Reference

namespace JeanBot
namespace FlagDetection

open Lib

theorem length_fillWrites (l : List Color) : (fillWrites l).length = l.length :=
  List.length_mapIdx

/-- The indices of the writes that fill `l` are the positions of `l`, so they stay below `m`
exactly when `l` is no longer than that. -/
theorem fillWrites_lt_iff (l : List Color) (m : ℕ) :
    (∀ w ∈ fillWrites l, w.1 < m) ↔ l.length ≤ m := by
  constructor
  · intro h
    rcases Nat.eq_zero_or_pos l.length with h0 | hpos
    · omega
    · have hlast : l.length - 1 < (fillWrites l).length := by rw [length_fillWrites]; omega
      have hw := h _ (List.getElem_mem hlast)
      simp only [fillWrites, List.getElem_mapIdx] at hw
      omega
  · intro h w hw
    obtain ⟨i, hi, rfl⟩ := List.getElem_of_mem hw
    rw [length_fillWrites] at hi
    simp only [fillWrites, List.getElem_mapIdx]
    omega

/-- **The writes of step 5 stay inside the array exactly on the lines of at most
`MAX_NUM_COLOR_BANDS` bands**, a band being a wide run of the cleaned line or a
gap between wide runs. -/
theorem writes_lt_iff (line : CArray imageBufferSize Color) :
    ∃ writes, extractColorBands line = some writes ∧
      ((∀ w ∈ writes, w.1 < maxNumColorBands) ↔
        wideRuns (runs (cleanLine (List.ofFn line))) + gaps (runs (cleanLine (List.ofFn line)))
          ≤ maxNumColorBands) := by
  refine ⟨_, extractColorBands_eq line, ?_⟩
  rw [fillWrites_lt_iff, ← length_bandList, writtenBands]
  split_ifs with h
  · exact Iff.rfl
  · have hle := length_bandList_le (List.ofFn line)
    have hten : 10 ≤ maxNumColorBands := le_rfl
    exact iff_of_true (Nat.zero_le _) (by omega)

/-! ### The pixels behind the bands -/

/-- The pixels a band stands for at least: a gap holds a run that survives step 2,
any other band is a run that survives step 4. -/
def bandPixels (c : Color) : ℕ := if c = .undefinedColor then minGroupSize else minColorBandWidth

/-- A run of the cleaned line has the pixels of the band that it is read as: a wide run of a
defined colour is a band of its own, and any other run has survived step 2. -/
theorem bandPixels_bandColor_le {g : Color × ℕ} (h : minGroupSize ≤ g.2) :
    bandPixels (bandColor g) ≤ g.2 := by
  unfold bandPixels
  split_ifs with hu
  · exact h
  · rw [bandColor_eq_undefined_iff, Bool.not_eq_false, isBand, decide_eq_true_iff] at hu
    exact hu.1

/-- The pixels that bands stand for at least, counted by kind: `MIN_COLOR_BAND_WIDTH` for one of
a colour and `MIN_GROUP_SIZE` for an undefined one. -/
theorem sum_bandPixels (bands : List Color) : (bands.map bandPixels).sum =
    minColorBandWidth * bands.countP (fun c => c ≠ .undefinedColor) +
      minGroupSize * bands.countP (fun c => c = .undefinedColor) := by
  induction bands with
  | nil => rfl
  | cons c bands ih =>
    rw [List.map_cons, List.sum_cons, ih, List.countP_cons, List.countP_cons, bandPixels]
    by_cases hu : c = .undefinedColor
    · simp [hu, Nat.mul_add]
      omega
    · simp [hu, Nat.mul_add]
      omega

/-- A run of the cleaned line has at least `MIN_GROUP_SIZE` pixels: it is fused of runs that
step 2 has kept. -/
theorem minGroupSize_le_of_mem (l : List Color) : ∀ g ∈ runs (cleanLine l), minGroupSize ≤ g.2 := by
  rw [runs_cleanLine]
  exact le_of_mem_fuse fun g hg => by simpa [isLarge] using List.of_mem_filter hg

/-- The bands of a line share its pixels: every band is at least one run of the cleaned line,
and its pixels are pixels of the line. -/
theorem sum_bandPixels_bandList_le (l : List Color) :
    ((bandList l).map bandPixels).sum ≤ l.length := by
  calc ((bandList l).map bandPixels).sum
      ≤ (((runs (cleanLine l)).map bandColor).map bandPixels).sum :=
        ((collapse_sublist _ _).map bandPixels).sum_le_sum fun _ _ => Nat.zero_le _
    _ ≤ ((runs (cleanLine l)).map Prod.snd).sum := by
        rw [List.map_map]
        exact List.sum_le_sum fun g hg => bandPixels_bandColor_le (minGroupSize_le_of_mem l g hg)
    _ ≤ l.length := by
        rw [runs_cleanLine, sum_fuse]
        exact sum_filter_isLarge_le l

/-- The bands that are written share the pixels of the line, as they are all of its bands or
none. -/
theorem sum_bandPixels_writtenBands_le (l : List Color) :
    ((writtenBands l).map bandPixels).sum ≤ l.length := by
  unfold writtenBands
  split_ifs
  · exact sum_bandPixels_bandList_le l
  · exact Nat.zero_le _

/-- No band is followed by one of its colour, an undefined one neither: step 5 writes one entry
per stretch. -/
theorem isChain_writtenBands (l : List Color) : (writtenBands l).IsChain fun a b => a ≠ b := by
  unfold writtenBands
  split_ifs
  · rw [bandList_eq_runs, List.isChain_map]
    exact isChain_runs _
  · exact List.IsChain.nil

/-- Alternating bands on 640 pixels: between two undefined ones there is a wide one, and there
is room for at most six wide ones with seven gaps. -/
theorem length_le_thirteen {bands : List Color} (hchain : bands.IsChain fun a b => a ≠ b)
    (hsum : (bands.map bandPixels).sum ≤ imageBufferSize) : bands.length ≤ 13 := by
  have hlen : bands.length = bands.countP (fun c => c = .undefinedColor) +
      bands.countP (fun c => c ≠ .undefinedColor) := by
    simpa using List.length_eq_countP_add_countP (fun c => c = .undefinedColor) (l := bands)
  have hu : bands.countP (fun c => c = .undefinedColor) ≤
      bands.countP (fun c => c ≠ .undefinedColor) + 1 := by
    refine (countP_eq_le_of_isChain _ hchain).trans (Nat.add_le_add_left ?_ _)
    split_ifs <;> omega
  rw [sum_bandPixels] at hsum
  have hsum : 80 * bands.countP (fun c => c ≠ .undefinedColor) +
      15 * bands.countP (fun c => c = .undefinedColor) ≤ 640 := hsum
  omega

/-- Six red bands and the seven gaps around them. -/
def crowdedGroups : List (Color × ℕ) :=
  [(.undefinedColor, 15), (.red, 80), (.undefinedColor, 15), (.red, 80), (.undefinedColor, 15),
    (.red, 80), (.undefinedColor, 15), (.red, 80), (.undefinedColor, 15), (.red, 80),
    (.undefinedColor, 15), (.red, 80), (.undefinedColor, 70)]

/-- A camera image of `crowdedGroups`: the red pixels are the words `0xF800`, the
others black. -/
def crowdedImage : ImageBuffer := fun j =>
  if j.val % 2 = 0 ∧ 15 ≤ j.val / 2 % 95 ∧ j.val / 2 < 570 then 0xF8#8 else 0#8

/-- The image shows these groups, one after the other from the first pixel on. -/
theorem colorLine_crowdedImage : List.ofFn (colorLine crowdedImage) = expand crowdedGroups := by
  decide +kernel

/-- The bands of the image are thirteen: six red ones, with a gap before, between and after
them. -/
theorem bandList_crowdedGroups : bandList (expand crowdedGroups) =
    [.undefinedColor, .red, .undefinedColor, .red, .undefinedColor, .red, .undefinedColor, .red,
      .undefinedColor, .red, .undefinedColor, .red, .undefinedColor] := by
  decide +kernel

/-- All thirteen bands are written, since the line has more than one run. -/
theorem extractColorBands_crowdedImage : extractColorBands (colorLine crowdedImage) =
    some (fillWrites (bandList (expand crowdedGroups))) := by
  rw [extractColorBands_eq, colorLine_crowdedImage, writtenBands_of_two_le (by decide +kernel)]

/-- **On a camera image of thirteen bands step 5 writes at index 12** of an array of 10, so the
writes of the last three bands are past its end. -/
theorem crowdedLine_overflows :
    ∃ writes, extractColorBands (colorLine crowdedImage) = some writes ∧
      (12, Color.undefinedColor) ∈ writes ∧ ¬ ∀ w ∈ writes, w.1 < maxNumColorBands := by
  refine ⟨_, extractColorBands_crowdedImage, ?_⟩
  rw [bandList_crowdedGroups]
  decide

/-- **The pixel budget.**  The bands written alternate, `c` of a colour and `u`
undefined ones take `80 c + 15 u` of the 640 pixels, and so there are at most
thirteen.  A camera image has as many. -/
theorem extractColorBands_budget :
    (∀ line : CArray imageBufferSize Color, ∃ bands,
      extractColorBands line = some (fillWrites bands) ∧
        (bands.IsChain fun a b => a ≠ b) ∧
        minColorBandWidth * bands.countP (fun c => c ≠ .undefinedColor) +
          minGroupSize * bands.countP (fun c => c = .undefinedColor) ≤ imageBufferSize ∧
        bands.length ≤ 13) ∧
      ∃ line bands, extractColorBands line = some (fillWrites bands) ∧ bands.length = 13 := by
  constructor
  · intro line
    have hchain := isChain_writtenBands (List.ofFn line)
    have hsum : ((writtenBands (List.ofFn line)).map bandPixels).sum ≤ imageBufferSize :=
      (sum_bandPixels_writtenBands_le _).trans_eq List.length_ofFn
    exact ⟨_, extractColorBands_eq line, hchain, sum_bandPixels _ ▸ hsum,
      length_le_thirteen hchain hsum⟩
  · refine ⟨_, _, extractColorBands_crowdedImage, ?_⟩
    rw [bandList_crowdedGroups]
    rfl

end FlagDetection
end JeanBot
