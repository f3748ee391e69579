/-
# Which flag the camera sees

`extract_flag` scans the band array for the three colours of France, Italy,
Japan and Switzerland, in that order, and `get_flag` chains decoding,
classification, `extract_color_bands` and the scan.

`getFlag_eq` is its meaning on the pixels.  Let `s` be the cleaned line: as long
as the bands fit into the array, `get_flag` returns the first of the four flags
whose three colours stand in `s` as neighbouring blocks of at least
`MIN_COLOR_BAND_WIDTH` pixels, and `UNDEFINED_FLAG` when none does.  Three such
blocks are three neighbouring runs (`exists_block_infix_iff`), three neighbouring
runs of bands are three neighbouring bands (`triple_infix_bandList_iff`), and the
padding of the array is `UNDEFINED_COLOR`, which is in no flag.

A line that is one single band is the only one whose bands do not reach the array
(`colorBands_iff`); no flag is lost by it.
-/

import JeanBot.FlagDetection.Reference
import Mathlib.Data.List.Find
import Mathlib.Data.List.GetD

namespace JeanBot
namespace FlagDetection

open Lib

/-- The three nested tests of `extract_flag` at entry `i`. -/
def bandsAt (bands : CArray maxNumColorBands Color) (c₁ c₂ c₃ : Color) (i : ℕ) : Bool :=
  load bands i = some c₁ ∧ load bands (i + 1) = some c₂ ∧ load bands (i + 2) = some c₃

/-- One loop of `extract_flag`. -/
def hasBands (bands : CArray maxNumColorBands Color) (c₁ c₂ c₃ : Color) : Bool :=
  (List.range (maxNumColorBands - 2)).any (bandsAt bands c₁ c₂ c₃)

/-- `extract_flag`. -/
def extractFlag (bands : CArray maxNumColorBands Color) : Flag :=
  if hasBands bands .blue .white .red then .france
  else if hasBands bands .green .white .red then .italy
  else if hasBands bands .white .red .white then .japan
  else if hasBands bands .red .white .red then .switzerland
  else .undefinedFlag

/-- The writes of `extract_color_bands`, carried out on the zeroed array of
`get_flag`. -/
def writeBands (writes : List (ℕ × Color)) : Option (CArray maxNumColorBands Color) :=
  writes.foldlM (fun bands w => store bands w.1 w.2) fun _ => .undefinedColor

/-- The array of `get_flag` after `extract_color_bands`. -/
def colorBands (line : CArray imageBufferSize Color) :
    Option (CArray maxNumColorBands Color) := do
  let writes ← extractColorBands line
  writeBands writes

/-- `extract_color_bands` and `extract_flag` on a line of colours. -/
def lineFlag (line : CArray imageBufferSize Color) : Option Flag := do
  let bands ← colorBands line
  return extractFlag bands

/-- `get_flag` on the image that `wait_image_ready` waited for. -/
def getFlag (img : ImageBuffer) : Option Flag := do
  let writes ← extractColorBands (colorLine img)
  let bands ← writeBands writes
  return extractFlag bands

/-! ### Pixels -/

/-- The line an image shows: pixel `i` is the big-endian word of bytes `2i` and
`2i + 1`, classified. -/
def decodedLine (img : ImageBuffer) : List Color :=
  List.ofFn fun i : Fin imageBufferSize => getColor (BitVec.ofNat 16
    (256 * (img ⟨2 * i, highByte_lt i⟩).toNat + (img ⟨2 * i + 1, lowByte_lt i⟩).toNat))

/-- The shifts and ors of `get_flag` make the big-endian word of the two bytes, with no bit of
one in the other. -/
theorem word_eq (hi lo : BitVec 8) : (0#16 ||| hi.setWidth 16 <<< 8) ||| lo.setWidth 16 =
    BitVec.ofNat 16 (256 * hi.toNat + lo.toNat) := by
  have hhi := hi.isLt
  have hlo := lo.isLt
  apply BitVec.eq_of_toNat_eq
  rw [BitVec.zero_or, BitVec.toNat_or, BitVec.toNat_shiftLeft, BitVec.toNat_setWidth,
    BitVec.toNat_setWidth, BitVec.toNat_ofNat, Nat.shiftLeft_eq, Nat.mod_eq_of_lt (by omega),
    Nat.mod_eq_of_lt (by omega), Nat.mod_eq_of_lt (by omega), Nat.mod_eq_of_lt (by omega),
    ← Nat.shiftLeft_eq, ← Nat.shiftLeft_add_eq_or_of_lt hlo, Nat.shiftLeft_eq, Nat.mul_comm]

/-- The colours that `get_flag` computes with its shifts and masks are those of the big-endian
words, pixel by pixel. -/
theorem decodedLine_eq (img : ImageBuffer) : decodedLine img = List.ofFn (colorLine img) := by
  refine congrArg List.ofFn (funext fun i => ?_)
  rw [colorLine, pixelLine, word_eq]

/-- After its first loop `get_flag` uses only the line of colours, so everything behind it is a
statement about lines. -/
theorem getFlag_eq_lineFlag (img : ImageBuffer) : getFlag img = lineFlag (colorLine img) := by
  rw [getFlag, lineFlag, colorBands]
  simp only [bind_assoc]

/-! ### The array -/

/-- The array that `l` was written into holds `l`, and `UNDEFINED_COLOR` from there on, as its
initialiser has set it. -/
theorem writeBands_fillWrites {l : List Color} (h : l.length ≤ maxNumColorBands) :
    ∃ bands, writeBands (fillWrites l) = some bands ∧ ∀ i, load bands i =
      if i < maxNumColorBands then some (l.getD i .undefinedColor) else none := by
  induction l using List.reverseRecOn with
  | nil =>
    refine ⟨_, rfl, fun i => ?_⟩
    simp [load]
  | append_singleton l c ih =>
    rw [List.length_append, List.length_singleton] at h
    obtain ⟨bands, hb, hload⟩ := ih (by omega)
    have hl : l.length < maxNumColorBands := by omega
    refine ⟨Function.update bands ⟨l.length, hl⟩ c, ?_, fun i => ?_⟩
    · rw [writeBands] at hb
      rw [fillWrites_snoc, writeBands, List.foldlM_append, hb]
      simp [store_of_lt _ hl]
    · rcases lt_trichotomy i l.length with hi | rfl | hi
      · rw [load_update_of_ne _ hl _ hi.ne, hload, List.getD_append _ _ _ _ hi]
      · rw [load_update_self, if_pos hl]
        simp
      · rw [load_update_of_ne _ hl _ hi.ne', hload, List.getD_eq_default _ _ hi.le,
          List.getD_eq_default _ _ (by rw [List.length_append, List.length_singleton]; omega)]

/-- The array after `extract_color_bands`: where the bands fit, it holds those that were
written, and `UNDEFINED_COLOR` behind them. -/
theorem colorBands_eq (line : CArray imageBufferSize Color)
    (h : (bandList (List.ofFn line)).length ≤ maxNumColorBands) :
    (writtenBands (List.ofFn line)).length ≤ maxNumColorBands ∧
      ∃ bands, colorBands line = some bands ∧ ∀ i, load bands i = if i < maxNumColorBands
        then some ((writtenBands (List.ofFn line)).getD i .undefinedColor) else none := by
  have hlen : (writtenBands (List.ofFn line)).length ≤ maxNumColorBands := by
    unfold writtenBands
    split_ifs
    · exact h
    · exact Nat.zero_le _
  obtain ⟨bands, hb, hload⟩ := writeBands_fillWrites hlen
  refine ⟨hlen, bands, ?_, hload⟩
  rw [colorBands, extractColorBands_eq, Option.bind_eq_bind, Option.bind_some, hb]

/-! ### The scan -/

/-- The scan finds three defined colours where they are neighbours in what was written: in the
undefined rest of the array there is none of them. -/
theorem hasBands_iff {l : List Color} (h : l.length ≤ maxNumColorBands)
    {bands : CArray maxNumColorBands Color}
    (hb : ∀ i, load bands i =
      if i < maxNumColorBands then some (l.getD i .undefinedColor) else none)
    {c₁ c₂ c₃ : Color} (h₁ : c₁ ≠ .undefinedColor) (h₂ : c₂ ≠ .undefinedColor)
    (h₃ : c₃ ≠ .undefinedColor) :
    hasBands bands c₁ c₂ c₃ = true ↔ [c₁, c₂, c₃] <:+: l := by
  have hget : ∀ i c, c ≠ Color.undefinedColor → (load bands i = some c ↔ l[i]? = some c) := by
    intro i c hc
    rw [hb]
    rcases Nat.lt_or_ge i l.length with hi | hi
    · rw [if_pos (by omega), List.getD_eq_getElem?_getD, List.getElem?_eq_getElem hi,
        Option.getD_some]
    · rw [List.getD_eq_default _ _ hi, List.getElem?_eq_none hi]
      split_ifs
      · exact iff_of_false (fun he => hc (Option.some.inj he).symm) (by simp)
      · simp
  rw [triple_infix_iff, hasBands, List.any_eq_true]
  simp only [bandsAt, decide_eq_true_eq, hget _ _ h₁, hget _ _ h₂, hget _ _ h₃]
  constructor
  · rintro ⟨i, -, hi⟩
    exact ⟨i, hi⟩
  · rintro ⟨i, hi⟩
    have hlt : i + 2 < l.length := (List.getElem?_eq_some_iff.1 hi.2.2).1
    exact ⟨i, List.mem_range.2 (by omega), hi⟩

/-! ### Bands, runs and pixels -/

/-- A run that is read as a defined colour is a wide run of it, and the other way round. -/
theorem bandColor_eq_iff {c : Color} (hc : c ≠ .undefinedColor) (g : Color × ℕ) :
    bandColor g = c ↔ minColorBandWidth ≤ g.2 ∧ g.1 = c := by
  unfold bandColor
  split_ifs with h
  · exact iff_of_false (Ne.symm hc) fun h' => by omega
  · exact ⟨fun he => ⟨Nat.not_lt.1 h, he⟩, fun he => he.2⟩

/-- **Neighbouring bands are neighbouring wide runs.**  Between two bands of a defined colour
that are neighbours no narrow run stands, as it would be an undefined band of its own. -/
theorem triple_infix_bandList_iff {c₁ c₂ c₃ : Color} (h₁ : c₁ ≠ .undefinedColor)
    (h₂ : c₂ ≠ .undefinedColor) (h₃ : c₃ ≠ .undefinedColor) (l : List Color) :
    [c₁, c₂, c₃] <:+: bandList l ↔ ∃ i j k, minColorBandWidth ≤ i ∧ minColorBandWidth ≤ j ∧
      minColorBandWidth ≤ k ∧ [(c₁, i), (c₂, j), (c₃, k)] <:+: runs (cleanLine l) := by
  rw [bandList, triple_infix_collapse_iff h₁ h₂ h₃, triple_infix_iff]
  simp only [List.getElem?_map, Option.map_eq_some_iff, bandColor_eq_iff h₁, bandColor_eq_iff h₂,
    bandColor_eq_iff h₃, triple_infix_iff]
  constructor
  · rintro ⟨n, ⟨⟨_, i⟩, hi, hwi, rfl⟩, ⟨⟨_, j⟩, hj, hwj, rfl⟩, ⟨⟨_, k⟩, hk, hwk, rfl⟩⟩
    exact ⟨i, j, k, hwi, hwj, hwk, n, hi, hj, hk⟩
  · rintro ⟨i, j, k, hwi, hwj, hwk, n, hi, hj, hk⟩
    exact ⟨n, ⟨_, hi, hwi, rfl⟩, ⟨_, hj, hwj, rfl⟩, ⟨_, hk, hwk, rfl⟩⟩

/-- The three colours of a flag, from the left. -/
def flagColors : Flag → Color × Color × Color
  | .france => (.blue, .white, .red)
  | .italy => (.green, .white, .red)
  | .japan => (.white, .red, .white)
  | .switzerland => (.red, .white, .red)
  | .undefinedFlag => (.undefinedColor, .undefinedColor, .undefinedColor)

/-- The pixels `s` show the flag `f`: its colours are neighbouring blocks of at
least `MIN_COLOR_BAND_WIDTH` pixels. -/
def Shows (s : List Color) (f : Flag) : Prop :=
  ∃ i j k, minColorBandWidth ≤ i ∧ minColorBandWidth ≤ j ∧ minColorBandWidth ≤ k ∧
    List.replicate i (flagColors f).1 ++ List.replicate j (flagColors f).2.1 ++
      List.replicate k (flagColors f).2.2 <:+: s

/-- The order in which `extract_flag` looks for the flags. -/
def flagOrder : List Flag := [.france, .italy, .japan, .switzerland]

/-- The colours of a flag are defined, and neighbours differ, so a flag takes three runs and no
two of them are fused. -/
theorem flagColors_ne {f : Flag} (hf : f ∈ flagOrder) :
    ((flagColors f).1 ≠ .undefinedColor ∧ (flagColors f).2.1 ≠ .undefinedColor ∧
      (flagColors f).2.2 ≠ .undefinedColor) ∧
      (flagColors f).1 ≠ (flagColors f).2.1 ∧ (flagColors f).2.1 ≠ (flagColors f).2.2 := by
  revert f
  decide

/-- A cleaned line shows a flag where its bands do: the blocks of `Shows` are parts of wide
runs, and these are bands. -/
theorem shows_iff {f : Flag} (hf : f ∈ flagOrder) (l : List Color) :
    Shows (cleanLine l) f ↔
      [(flagColors f).1, (flagColors f).2.1, (flagColors f).2.2] <:+: bandList l := by
  obtain ⟨⟨h₁, h₂, h₃⟩, h₁₂, h₂₃⟩ := flagColors_ne hf
  rw [triple_infix_bandList_iff h₁ h₂ h₃, Shows, exists_block_infix_iff h₁₂ h₂₃ (by decide)]

/-- A list of fewer than two runs has no three neighbouring bands, so for flags it does no harm
that nothing is written then. -/
theorem not_triple_infix_of_lt_two {c₁ c₂ c₃ : Color} {l : List Color}
    (h : (bandList l).length < 2) : ¬ [c₁, c₂, c₃] <:+: bandList l := fun hi => by
  have hlen := hi.length_le
  simp only [List.length_cons, List.length_nil] at hlen
  omega

open Classical in
/-- The first of the four flags that the pixels show. -/
noncomputable def firstShown (s : List Color) : Flag :=
  (flagOrder.find? fun f => decide (Shows s f)).getD .undefinedFlag

open Classical in
/-- Nothing is shown exactly where none of the four flags is. -/
theorem firstShown_eq_undefined_iff (s : List Color) :
    firstShown s = .undefinedFlag ↔ ∀ f ∈ flagOrder, ¬ Shows s f := by
  unfold firstShown
  cases h : flagOrder.find? fun f => decide (Shows s f) with
  | none =>
    rw [List.find?_eq_none] at h
    exact iff_of_true rfl fun f hf hs => h f hf (decide_eq_true hs)
  | some f =>
    have hf : f ∈ flagOrder := List.mem_of_find?_eq_some h
    have hs : Shows s f := by simpa using List.find?_some h
    refine iff_of_false ?_ fun hn => hn f hf hs
    rintro rfl
    exact absurd hf (by decide)

/-- The first of the four flags whose colours are neighbouring bands. -/
def firstBands (bands : List Color) : Flag :=
  (flagOrder.find? fun f => decide
    ([(flagColors f).1, (flagColors f).2.1, (flagColors f).2.2] <:+: bands)).getD .undefinedFlag

/-- The first flag a line shows is read off its bands: lines with the same bands show the same
flag. -/
theorem firstShown_cleanLine (l : List Color) :
    firstShown (cleanLine l) = firstBands (bandList l) := by
  rw [firstShown, firstBands, List.find?_congr fun f hf => decide_eq_decide.2 (shows_iff hf l)]

/-- `extract_flag` is a search through the four flags in their order: of its four loops the
first one that finds its colours returns. -/
theorem extractFlag_eq_find? (bands : CArray maxNumColorBands Color) :
    extractFlag bands = (flagOrder.find? fun f =>
      hasBands bands (flagColors f).1 (flagColors f).2.1 (flagColors f).2.2).getD
        .undefinedFlag := by
  simp only [extractFlag, flagOrder, List.find?_cons, List.find?_nil, flagColors]
  cases hasBands bands .blue .white .red
  · cases hasBands bands .green .white .red
    · cases hasBands bands .white .red .white
      · cases hasBands bands .red .white .red <;> rfl
      · rfl
    · rfl
  · rfl

open Classical in
/-- The scan of the padded array finds the first flag shown, if what was written has the three
colours of a flag side by side exactly where the line shows it. -/
theorem extractFlag_eq {l out : List Color} (hout : out.length ≤ maxNumColorBands)
    {bands : CArray maxNumColorBands Color}
    (hb : ∀ i, load bands i =
      if i < maxNumColorBands then some (out.getD i .undefinedColor) else none)
    (h : ∀ f ∈ flagOrder, [(flagColors f).1, (flagColors f).2.1, (flagColors f).2.2] <:+: out ↔
      Shows (cleanLine l) f) : extractFlag bands = firstShown (cleanLine l) := by
  have hscan : ∀ f ∈ flagOrder, hasBands bands (flagColors f).1 (flagColors f).2.1
      (flagColors f).2.2 = decide (Shows (cleanLine l) f) := fun f hf => by
    obtain ⟨⟨h₁, h₂, h₃⟩, -, -⟩ := flagColors_ne hf
    rw [Bool.eq_iff_iff, hasBands_iff hout hb h₁ h₂ h₃, h f hf, decide_eq_true_iff]
  rw [extractFlag_eq_find?, firstShown, List.find?_congr hscan]

/-- On every line whose bands fit into the array, the flag found is the first that the
cleaned line shows. -/
theorem lineFlag_eq (line : CArray imageBufferSize Color)
    (h : (bandList (List.ofFn line)).length ≤ maxNumColorBands) :
    lineFlag line = some (firstShown (cleanLine (List.ofFn line))) := by
  obtain ⟨hlen, bands, hb, hload⟩ := colorBands_eq line h
  have hshow : ∀ f ∈ flagOrder, [(flagColors f).1, (flagColors f).2.1, (flagColors f).2.2]
      <:+: writtenBands (List.ofFn line) ↔ Shows (cleanLine (List.ofFn line)) f := fun f hf => by
    rw [shows_iff hf, writtenBands]
    split_ifs with h2
    · exact Iff.rfl
    · have hle := length_bandList_le (List.ofFn line)
      exact iff_of_false (by simp) (not_triple_infix_of_lt_two (by omega))
  rw [lineFlag, hb, Option.bind_eq_bind, Option.bind_some, extractFlag_eq hlen hload hshow]
  rfl

/-- The writes of `extract_color_bands` succeed only where they fit: the first one past the end
of the array has no result. -/
theorem length_le_of_writeBands {l : List Color} {bands : CArray maxNumColorBands Color}
    (h : writeBands (fillWrites l) = some bands) : l.length ≤ maxNumColorBands := by
  rcases List.eq_nil_or_concat' l with rfl | ⟨l, c, rfl⟩
  · exact Nat.zero_le _
  · rw [fillWrites_snoc, writeBands, List.foldlM_append] at h
    obtain ⟨bands', -, h⟩ := Option.bind_eq_some_iff.1 h
    rw [List.length_append, List.length_singleton]
    by_contra hlen
    have hstore : store bands' l.length c = none := dif_neg (by omega)
    rw [List.foldlM_cons, hstore] at h
    cases h

/-- **What `get_flag` returns, it has recognised**: it returns only where the bands fit into
the array, and then the first flag that the cleaned line shows. -/
theorem eq_of_getFlag {img : ImageBuffer} {f : Flag} (h : getFlag img = some f) :
    (bandList (decodedLine img)).length ≤ maxNumColorBands ∧
      firstShown (cleanLine (decodedLine img)) = f := by
  have hfit : (bandList (List.ofFn (colorLine img))).length ≤ maxNumColorBands := by
    rw [getFlag, extractColorBands_eq, Option.bind_eq_bind, Option.bind_some] at h
    obtain ⟨bands, hb, -⟩ := Option.bind_eq_some_iff.1 h
    have hlen := length_le_of_writeBands hb
    unfold writtenBands at hlen
    split_ifs at hlen with h2
    · exact hlen
    · have hle := length_bandList_le (List.ofFn (colorLine img))
      have hten : 10 ≤ maxNumColorBands := le_rfl
      omega
  rw [getFlag_eq_lineFlag, lineFlag_eq _ hfit] at h
  rw [decodedLine_eq]
  exact ⟨hfit, Option.some.inj h⟩

/-- `get_flag` returns exactly where the bands fit into the array. -/
theorem getFlag_isSome_iff (img : ImageBuffer) :
    (getFlag img).isSome = true ↔ (bandList (decodedLine img)).length ≤ maxNumColorBands := by
  rw [decodedLine_eq]
  constructor
  · intro h
    obtain ⟨f, hf⟩ := Option.isSome_iff_exists.1 h
    exact decodedLine_eq img ▸ (eq_of_getFlag hf).1
  · intro h
    rw [getFlag_eq_lineFlag, lineFlag_eq _ h]
    rfl

open Classical in
/-- A flag that is recognised is shown, and is one of the four that are looked for. -/
theorem shows_of_firstShown {s : List Color} {f : Flag} (h : firstShown s = f)
    (hf : f ≠ .undefinedFlag) : f ∈ flagOrder ∧ Shows s f := by
  unfold firstShown at h
  cases hfind : flagOrder.find? fun f => decide (Shows s f) with
  | none =>
    rw [hfind] at h
    exact absurd h.symm hf
  | some g =>
    rw [hfind] at h
    obtain rfl : g = f := h
    exact ⟨List.mem_of_find?_eq_some hfind, by simpa using List.find?_some hfind⟩

/-- **The recognition law.**  On every image whose bands fit into the array,
`get_flag` returns the first flag that the cleaned line shows, and
`UNDEFINED_FLAG` exactly when it shows none. -/
theorem getFlag_eq (img : ImageBuffer)
    (h : (bandList (decodedLine img)).length ≤ maxNumColorBands) :
    getFlag img = some (firstShown (cleanLine (decodedLine img))) ∧
      (getFlag img = some .undefinedFlag ↔
        ∀ f ∈ flagOrder, ¬ Shows (cleanLine (decodedLine img)) f) := by
  have hget : getFlag img = some (firstShown (cleanLine (decodedLine img))) := by
    rw [decodedLine_eq] at h ⊢
    rw [getFlag_eq_lineFlag, lineFlag_eq _ h]
  refine ⟨hget, ?_⟩
  rw [hget, ← firstShown_eq_undefined_iff]
  exact ⟨Option.some.inj, congrArg some⟩

/-- An image of the French flag: 200 blue pixels, 220 white, 220 red. -/
def frenchImage : ImageBuffer := fun j =>
  if j.val < 400 then (if j.val % 2 = 0 then 0x00#8 else 0x1F#8)
  else if j.val < 840 then 0xFF#8
  else if j.val % 2 = 0 then 0xF8#8 else 0x00#8

/-- The cleaned line of the French flag consists of three runs, each wide enough for a band. -/
theorem runs_frenchImage : runs (cleanLine (decodedLine frenchImage)) =
    [(.blue, 200), (.white, 220), (.red, 220)] := by
  decide +kernel

/-- The bands of the French flag are its three colours. -/
theorem bandList_frenchImage : bandList (decodedLine frenchImage) = [.blue, .white, .red] := by
  rw [bandList, runs_frenchImage]
  rfl

/-- The recognition law applies to the image of the French flag: its three bands fit into the
array. -/
theorem getFlag_frenchImage : (bandList (decodedLine frenchImage)).length ≤ maxNumColorBands ∧
    getFlag frenchImage = some (firstShown (cleanLine (decodedLine frenchImage))) ∧
      (getFlag frenchImage = some .undefinedFlag ↔
        ∀ f ∈ flagOrder, ¬ Shows (cleanLine (decodedLine frenchImage)) f) :=
  have h : (bandList (decodedLine frenchImage)).length ≤ maxNumColorBands := by
    rw [bandList_frenchImage]
    decide
  ⟨h, getFlag_eq frenchImage h⟩

/-! ### The band that is not written -/

/-- A block of a defined colour, wide enough for a band, is the line of one band. -/
theorem exists_block_iff (l : List Color) :
    (∃ c n, c ≠ .undefinedColor ∧ minColorBandWidth ≤ n ∧ l = List.replicate n c) ↔
      ∃ g, isBand g = true ∧ runs l = [g] := by
  constructor
  · rintro ⟨c, n, hc, hn, rfl⟩
    have hpos : 0 < minColorBandWidth := by decide
    exact ⟨(c, n), decide_eq_true ⟨hn, hc⟩, runs_replicate (hpos.trans_le hn)⟩
  · rintro ⟨g, hg, hr⟩
    obtain ⟨hn, hc⟩ := of_decide_eq_true hg
    refine ⟨g.1, g.2, hc, hn, ?_⟩
    rw [← expand_runs l, hr, expand_cons, expand_nil, List.append_nil]

/-- What is written stands in the array like the band list, unless it leaves out a band: where a
single run that is no band is left out, the padding stands for it. -/
theorem rightpad_writtenBands_iff (l : List Color) :
    (writtenBands l).rightpad maxNumColorBands .undefinedColor =
      (bandList l).rightpad maxNumColorBands .undefinedColor ↔
    ¬ ∃ g, isBand g = true ∧ runs (cleanLine l) = [g] := by
  match hr : runs (cleanLine l) with
  | [] =>
    rw [writtenBands_of_lt_two (hr ▸ Nat.two_pos), bandList, hr]
    exact iff_of_true rfl (by simp)
  | [g] =>
    have hcol : [].rightpad maxNumColorBands Color.undefinedColor =
        [bandColor g].rightpad maxNumColorBands .undefinedColor ↔
          bandColor g = .undefinedColor := by
      cases bandColor g <;> decide
    rw [writtenBands_of_lt_two (hr ▸ Nat.one_lt_two), bandList, hr, List.map_singleton,
      collapse_singleton, hcol, bandColor_eq_undefined_iff]
    simp
  | g :: k :: gs =>
    rw [writtenBands_of_two_le (hr ▸ Nat.le_add_left 2 gs.length)]
    exact iff_of_true rfl (by simp)

/-- **The array holds the bands of a line, then `UNDEFINED_COLOR`, exactly when the
cleaned line is not a single band.**  The loops of steps 3 and 5 start at the second
group and flush the last one in their body, so they do not flush the only one. -/
theorem colorBands_iff (line : CArray imageBufferSize Color)
    (h : (bandList (List.ofFn line)).length ≤ maxNumColorBands) :
    (∃ bands, colorBands line = some bands ∧
      List.ofFn bands = (bandList (List.ofFn line)).rightpad maxNumColorBands .undefinedColor) ↔
    ¬ ∃ c n, c ≠ .undefinedColor ∧ minColorBandWidth ≤ n ∧
      cleanLine (List.ofFn line) = List.replicate n c := by
  obtain ⟨hlen, bands, hb, hload⟩ := colorBands_eq line h
  have hpad : (∃ bands, colorBands line = some bands ∧
      List.ofFn bands = (bandList (List.ofFn line)).rightpad maxNumColorBands .undefinedColor) ↔
      (writtenBands (List.ofFn line)).rightpad maxNumColorBands .undefinedColor =
        (bandList (List.ofFn line)).rightpad maxNumColorBands .undefinedColor := by
    rw [← ofFn_eq_rightpad hlen hload, hb]
    simp
  rw [hpad, rightpad_writtenBands_iff, exists_block_iff]

/-- The line of the French flag is not of that kind, so the array holds its bands. -/
theorem colorBands_frenchImage :
    (bandList (List.ofFn (colorLine frenchImage))).length ≤ maxNumColorBands ∧
      ∃ bands, colorBands (colorLine frenchImage) = some bands ∧
        List.ofFn bands = (bandList (List.ofFn (colorLine frenchImage))).rightpad
          maxNumColorBands .undefinedColor := by
  have h : (bandList (List.ofFn (colorLine frenchImage))).length ≤ maxNumColorBands := by
    rw [← decodedLine_eq, bandList_frenchImage]
    decide
  refine ⟨h, (colorBands_iff _ h).2 fun hblock => ?_⟩
  obtain ⟨g, -, hg⟩ := (exists_block_iff _).1 hblock
  rw [← decodedLine_eq, runs_frenchImage] at hg
  cases hg

/-- A line of red pixels. -/
def redLine : CArray imageBufferSize Color := fun _ => .red

/-- The cleaned red line is a single run, and this is a band. -/
theorem runs_redLine : runs (cleanLine (List.ofFn redLine)) = [(.red, 640)] := by
  have hred : List.ofFn redLine = List.replicate imageBufferSize .red := List.ofFn_const _ _
  rw [runs_cleanLine, hred, runs_replicate (by decide)]
  rfl

/-- **The red line has a band, and nothing is written**: the array stays undefined throughout,
and so does not hold the band. -/
theorem redLine_writes_nothing : bandList (List.ofFn redLine) = [.red] ∧
    colorBands redLine = some (fun _ => .undefinedColor) ∧
    ¬ ∃ bands, colorBands redLine = some bands ∧
      List.ofFn bands =
        (bandList (List.ofFn redLine)).rightpad maxNumColorBands .undefinedColor := by
  have hbands : bandList (List.ofFn redLine) = [.red] := by
    rw [bandList, runs_redLine]
    rfl
  have hwrite : colorBands redLine = some (fun _ => .undefinedColor) := by
    rw [colorBands, extractColorBands_eq, writtenBands_of_lt_two (runs_redLine ▸ Nat.one_lt_two)]
    rfl
  refine ⟨hbands, hwrite, ?_⟩
  rintro ⟨bands, hb, hpad⟩
  obtain rfl := Option.some.inj (hwrite.symm.trans hb)
  rw [hbands] at hpad
  revert hpad
  decide

end FlagDetection
end JeanBot
