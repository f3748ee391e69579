/-
# From a camera line to colour bands

`flag_detection.c`: `get_color`, the two decoding loops of `get_flag`, and
`extract_color_bands`, which turns a line of 640 colours into the sequence of
its colour bands in five passes over two arrays, `color_groups` and
`size_of_groups`:

| step | pass |
| --- | --- |
| 1 | split the line into groups of one colour and their sizes |
| 2 | move the groups of at least `MIN_GROUP_SIZE` to the front |
| 3 | fuse neighbouring groups of one colour |
| 4 | turn groups below `MIN_COLOR_BAND_WIDTH` into `UNDEFINED_COLOR` |
| 5 | fuse neighbouring `UNDEFINED_COLOR` and write the bands |

Steps 1, 3 and 5 start at the second entry and flush the last group inside the
body, when the counter reaches the last index: on a single group they write
nothing.  `extract_color_bands` knows its output only as a pointer, so the model
returns the writes made through it, in order; `get_flag`, which owns the array
of `MAX_NUM_COLOR_BANDS` entries, carries them out.  An access outside one of
the arrays is a result `none`.  `uint16_t` counters and sizes wrap (`u16`).
-/

import JeanBot.Lib.Arrays

namespace JeanBot
namespace FlagDetection

open Lib

/-- `IMAGE_BUFFER_SIZE`, the pixels of a line. -/
def imageBufferSize : ℕ := 640

/-- `MIN_GROUP_SIZE`. -/
def minGroupSize : ℕ := 15

/-- `MIN_COLOR_BAND_WIDTH`. -/
def minColorBandWidth : ℕ := 80

/-- `MAX_NUM_COLOR_BANDS`, the size of the array `get_flag` allocates. -/
def maxNumColorBands : ℕ := 10

/-- `Color`. -/
inductive Color
  | undefinedColor
  | white
  | red
  | green
  | blue
  deriving DecidableEq, Repr

/-- `Flag`. -/
inductive Flag
  | undefinedFlag
  | france
  | italy
  | japan
  | switzerland
  deriving DecidableEq, Repr

/-- A `uint16_t` holding `k`. -/
def u16 (k : ℕ) : ℕ := k % 2 ^ 16

theorem u16_of_lt {k : ℕ} (h : k < 2 ^ 16) : u16 k = k := Nat.mod_eq_of_lt h

/-! ### Pixels -/

/-- `get_color`: the three channels of an RGB565 pixel on a scale of 0 to 255,
then the first test that holds. -/
def getColor (pixel : BitVec 16) : Color :=
  let red := ((pixel &&& 0xF800#16) >>> 11).toNat * 8 % 2 ^ 8
  let green := ((pixel &&& 0x07E0#16) >>> 5).toNat * 4 % 2 ^ 8
  let blue := ((pixel &&& 0x001F#16) >>> 0).toNat * 8 % 2 ^ 8
  if red > blue + 15 ∧ red > green + 15 then .red
  else if blue > red + 20 ∧ blue > green + 20 then .blue
  else if green > red + 20 ∧ green > blue + 20 then .green
  else if red > 80 ∧ blue > 80 ∧ green > 80 then .white
  else .undefinedColor

/-- The bytes of a line of the image. -/
abbrev ImageBuffer := CArray (2 * imageBufferSize) (BitVec 8)

/-- The first byte of a pixel is inside the line, so `get_flag` reads it without leaving the
buffer. -/
theorem highByte_lt (i : Fin imageBufferSize) : 2 * i.val < 2 * imageBufferSize := by omega

/-- The second byte of a pixel is inside the line, also that of the last pixel. -/
theorem lowByte_lt (i : Fin imageBufferSize) : 2 * i.val + 1 < 2 * imageBufferSize := by omega

/-- The first loop of `get_flag`: pixel `i` is `img_buff_ptr[2*i] << 8` or-ed
with `img_buff_ptr[2*i+1]`. -/
def pixelLine (img : ImageBuffer) : CArray imageBufferSize (BitVec 16) := fun i =>
  (0#16 ||| (img ⟨2 * i, highByte_lt i⟩).setWidth 16 <<< 8) |||
    (img ⟨2 * i + 1, lowByte_lt i⟩).setWidth 16

/-- The second loop of `get_flag`. -/
def colorLine (img : ImageBuffer) : CArray imageBufferSize Color := fun i =>
  getColor (pixelLine img i)

/-! ### The five passes -/

/-- The arrays `color_groups` and `size_of_groups`. -/
structure Groups where
  colorGroups : CArray imageBufferSize Color
  sizeOfGroups : CArray imageBufferSize ℕ

/-- The locals of steps 1 and 3: the arrays, the write cursor and the pending
group. -/
structure Scan where
  groups : Groups
  colorGroupIndex : ℕ
  currentColor : Color
  currentGroupSize : ℕ

/-- The three statements with which steps 1 and 3 write the pending group. -/
def Scan.flush (s : Scan) : Option Scan := do
  let colorGroups ← store s.groups.colorGroups s.colorGroupIndex s.currentColor
  let sizeOfGroups ← store s.groups.sizeOfGroups s.colorGroupIndex s.currentGroupSize
  return { s with
    groups := ⟨colorGroups, sizeOfGroups⟩
    colorGroupIndex := u16 (s.colorGroupIndex + 1) }

/-- Lines 91-102 of step 1: pixel `i` starts a group or adds to the pending one. -/
def nextPixel (line : CArray imageBufferSize Color) (i : ℕ) (s : Scan) : Option Scan := do
  let c ← load line i
  if c ≠ s.currentColor then
    let s ← s.flush
    let c ← load line i
    return { s with currentColor := c, currentGroupSize := 1 }
  else
    return { s with currentGroupSize := u16 (s.currentGroupSize + 1) }

/-- The body of the loop of step 1 (lines 91-110), which writes the last group in
the pass that may also have written the one before. -/
def step1Body (line : CArray imageBufferSize Color) (i : ℕ) (s : Scan) : Option Scan := do
  let s ← nextPixel line i s
  if i = imageBufferSize - 1 then s.flush else return s

/-- Step 1: the arrays and `number_of_groups`. -/
def step1 (line : CArray imageBufferSize Color) : Option (Groups × ℕ) := do
  let c ← load line 0
  let s ← forRange 1 imageBufferSize (step1Body line)
    ⟨⟨fun _ => .undefinedColor, fun _ => 0⟩, 0, c, 1⟩
  return (s.groups, s.colorGroupIndex)

/-- The body of the loop of step 2 (lines 122-127), on the arrays and the write
cursor. -/
def step2Body (i : ℕ) (s : Groups × ℕ) : Option (Groups × ℕ) := do
  let size ← load s.1.sizeOfGroups i
  if minGroupSize ≤ size then
    let c ← load s.1.colorGroups i
    let colorGroups ← store s.1.colorGroups s.2 c
    let size ← load s.1.sizeOfGroups i
    let sizeOfGroups ← store s.1.sizeOfGroups s.2 size
    return (⟨colorGroups, sizeOfGroups⟩, u16 (s.2 + 1))
  else
    return s

/-- Step 2. -/
def step2 (groups : Groups) (numberOfGroups : ℕ) : Option (Groups × ℕ) :=
  forRange 0 numberOfGroups step2Body (groups, 0)

/-- Lines 139-150 of step 3: group `i` is fused with the pending one or replaces
it.  The arrays are read where they are written. -/
def nextGroup (i : ℕ) (s : Scan) : Option Scan := do
  let c ← load s.groups.colorGroups i
  if c ≠ s.currentColor then
    let s ← s.flush
    let c ← load s.groups.colorGroups i
    let size ← load s.groups.sizeOfGroups i
    return { s with currentColor := c, currentGroupSize := size }
  else
    let size ← load s.groups.sizeOfGroups i
    return { s with currentGroupSize := u16 (s.currentGroupSize + size) }

/-- The body of the loop of step 3 (lines 139-158). -/
def step3Body (numberOfGroups i : ℕ) (s : Scan) : Option Scan := do
  let s ← nextGroup i s
  if i + 1 = numberOfGroups then s.flush else return s

/-- Step 3. -/
def step3 (groups : Groups) (numberOfGroups : ℕ) : Option (Groups × ℕ) := do
  let c ← load groups.colorGroups 0
  let size ← load groups.sizeOfGroups 0
  let s ← forRange 1 numberOfGroups (step3Body numberOfGroups) ⟨groups, 0, c, size⟩
  return (s.groups, s.colorGroupIndex)

/-- The body of the loop of step 4 (lines 168-171). -/
def step4Body (i : ℕ) (groups : Groups) : Option Groups := do
  let size ← load groups.sizeOfGroups i
  if size < minColorBandWidth then
    let colorGroups ← store groups.colorGroups i .undefinedColor
    return { groups with colorGroups := colorGroups }
  else
    return groups

/-- Step 4. -/
def step4 (groups : Groups) (numberOfGroups : ℕ) : Option Groups :=
  forRange 0 numberOfGroups step4Body groups

/-- The locals of step 5, and the writes made so far through `color_bands`. -/
structure BandScan where
  colorGroupIndex : ℕ
  currentColor : Color
  written : List (ℕ × Color)

/-- `color_bands[color_group_index] = current_color`. -/
def BandScan.write (s : BandScan) : BandScan :=
  { s with written := s.written ++ [(s.colorGroupIndex, s.currentColor)] }

/-- Lines 181-186 of step 5: entry `i` ends the pending band where its colour is
another one. -/
def nextBand (groups : Groups) (i : ℕ) (s : BandScan) : Option BandScan := do
  let c ← load groups.colorGroups i
  if c ≠ s.currentColor then
    let s := s.write
    return { s with colorGroupIndex := u16 (s.colorGroupIndex + 1), currentColor := c }
  else
    return s

/-- The body of the loop of step 5 (lines 181-192). -/
def step5Body (groups : Groups) (numberOfGroups i : ℕ) (s : BandScan) : Option BandScan := do
  let s ← nextBand groups i s
  return if i + 1 = numberOfGroups then s.write else s

/-- Step 5: the writes through `color_bands`. -/
def step5 (groups : Groups) (numberOfGroups : ℕ) : Option (List (ℕ × Color)) := do
  let c ← load groups.colorGroups 0
  let s ← forRange 1 numberOfGroups (step5Body groups numberOfGroups) ⟨0, c, []⟩
  return s.written

/-- `extract_color_bands`: the writes it makes through `color_bands`, in order. -/
def extractColorBands (line : CArray imageBufferSize Color) : Option (List (ℕ × Color)) := do
  let (groups, numberOfGroups) ← step1 line
  let (groups, numberOfGroups) ← step2 groups numberOfGroups
  let (groups, numberOfGroups) ← step3 groups numberOfGroups
  let groups ← step4 groups numberOfGroups
  step5 groups numberOfGroups

end FlagDetection
end JeanBot
