/-
# The four songs

`music.c`, `music.h` and the look up table of `dance.c`.  A `Music` is two arrays
of `MUSIC_SIZE` entries, the durations in milliseconds and the frequencies; a
silence has frequency 0, and so have the entries after the end of a song.  The
constructors of the songs write the durations in sixteenths and then multiply
each by `NOTE_TO_MS / tempo`.

The frequencies are the constants of `play_melody.h`, which is a parameter
`freq` here; `Audible freq` says that each is a positive `uint16_t`.

`WellScored` is what the thread `Dance` lives on: entry 0 is a note, and every
note lasts longer than the offset that detaches it from the next one
(`wellScored_lutFlagToMusic`).
-/

import JeanBot.FlagDetection.ColorBands

namespace JeanBot
namespace Dancing

open Lib FlagDetection

/-- `MUSIC_SIZE`. -/
def musicSize : ℕ := 55

/-- `music_position` does not overflow inside a song, so its increment is that of natural
numbers. -/
theorem u16_succ {v : ℕ} (h : v < musicSize) : u16 (v + 1) = v + 1 :=
  u16_of_lt (by unfold musicSize at h; omega)

/-- `NOTE_TO_MS`. -/
def noteToMs : ℕ := 15000

/-- `note_offset`. -/
def noteOffset : ℕ := 20

/-- `DOUBLE_CROCHE`. -/
def doubleCroche : ℕ := 1

/-- `CROCHE`. -/
def croche : ℕ := 2

/-- `CROCHE_POINTEE`. -/
def crochePointee : ℕ := 3

/-- `NOIRE`. -/
def noire : ℕ := 4

/-- `NOIRE_POINTEE`. -/
def noirePointee : ℕ := 6

/-- `BLANCHE`. -/
def blanche : ℕ := 8

/-- The notes of the songs. -/
inductive Note
  | a3
  | a4
  | as3
  | b3
  | c3
  | c4
  | cs3
  | cs4
  | d3
  | d4
  | ds3
  | ds4
  | e3
  | e4
  | f4
  | fs3
  | fs4
  | g3
  | g4
  | gs3
  deriving DecidableEq, Repr

/-- `SILENCE`. -/
def silence : Option Note := none

/-- `Music`. -/
structure Music where
  rythm : CArray musicSize ℕ
  notes : CArray musicSize ℕ

/-- The frequency at position `k`, and 0 past the end. -/
def Music.noteAt (m : Music) (k : ℕ) : ℕ := (load m.notes k).getD 0

/-- The duration at position `k`, and 0 past the end. -/
def Music.rythmAt (m : Music) (k : ℕ) : ℕ := (load m.rythm k).getD 0

/-- Inside of the array, `noteAt` is the entry that the program reads; outside of it the program
has no step, and `noteAt` is 0. -/
theorem Music.noteAt_of_load {m : Music} {k f : ℕ} (h : load m.notes k = some f) :
    m.noteAt k = f := by
  rw [noteAt, h, Option.getD_some]

/-- Inside of the array, `rythmAt` is the entry that the program reads, as `noteAt` is in the
other one. -/
theorem Music.rythmAt_of_load {m : Music} {k d : ℕ} (h : load m.rythm k = some d) :
    m.rythmAt k = d := by
  rw [rythmAt, h, Option.getD_some]

/-- `NO_MUSIC`. -/
def noMusic : Music := ⟨fun _ => 0, fun _ => 0⟩

section Songs

variable (freq : Note → ℕ)

/-- The arrays that a constructor of a song leaves: the entries that it writes,
zeros after them, and every duration times `NOTE_TO_MS / tempo`. -/
def ofScore (tempo : ℕ) (score : List (ℕ × Option Note)) : Music where
  rythm i := match score[i.val]? with
    | some (d, _) => u16 (d * (noteToMs / tempo))
    | none => 0
  notes i := match score[i.val]? with
    | some (_, some n) => u16 (freq n)
    | _ => 0

/-- `MARSEILLAISE`. -/
def marseillaise : Music :=
  ofScore freq 110
    [(doubleCroche, some .d3), (crochePointee, some .d3), (doubleCroche, some .d3),
     (noire, some .g3), (noire, some .g3), (noire, some .a3), (noire, some .a3),
     (noirePointee, some .d4), (croche, some .b3), (croche, some .g3), (doubleCroche, silence),
     (doubleCroche, some .g3), (crochePointee, some .b3), (doubleCroche, some .g3),
     (noire, some .e3), (blanche, some .c4), (crochePointee, some .a3), (doubleCroche, some .fs3),
     (blanche, some .g3), (noire, silence), (crochePointee, some .g3), (doubleCroche, some .a3),
     (noire, some .b3), (noire, some .b3), (noire, some .b3), (crochePointee, some .c4),
     (doubleCroche, some .b3), (noire, some .b3), (noire, some .a3), (noire, silence),
     (crochePointee, some .a3), (doubleCroche, some .b3), (noire, some .c4), (noire, some .c4),
     (noire, some .c4), (crochePointee, some .d4), (doubleCroche, some .c4), (blanche, some .b3),
     (noire, silence), (crochePointee, some .d4), (doubleCroche, some .d4), (noire, some .d4),
     (crochePointee, some .b3), (doubleCroche, some .g3), (noire, some .d4),
     (crochePointee, some .b3), (doubleCroche, some .g3), (croche, some .d3),
     (doubleCroche, some .d3), (doubleCroche, some .d3), (croche, some .ds3), (croche, some .d3),
     (croche, silence), (croche, some .fs3), (croche, some .g3)]

/-- `BELLA_CIAO`, whose last 12 entries stay zero. -/
def bellaCiao : Music :=
  ofScore freq 136
    [(croche, some .e3), (croche, some .a3), (croche, some .b3), (croche, some .c4),
     (noire, some .a3), (noire, silence), (croche, some .e3), (croche, some .a3),
     (croche, some .b3), (croche, some .c4), (noire, some .a3), (noire, silence),
     (croche, some .e3), (croche, some .a3), (croche, some .b3), (noire, some .c4),
     (croche, some .b3), (croche, some .a3), (noire, some .c4), (croche, some .b3),
     (croche, some .a3), (noire, some .e4), (noire, some .e4), (noire, some .e4),
     (croche, some .d4), (croche, some .e4), (croche, some .f4), (noire, some .f4),
     (noire, silence), (croche, some .f4), (croche, some .e4), (croche, some .d4),
     (croche, some .f4), (noire, some .e4), (noire, silence), (croche, some .e4),
     (croche, some .d4), (croche, some .c4), (noire, some .b3), (noire, some .e4),
     (noire, some .c4), (noire, some .b3), (blanche, some .a3)]

/-- `WII_THEME`. -/
def wiiTheme : Music :=
  ofScore freq 114
    [(croche, some .fs3), (croche, silence), (croche, some .a3), (croche, some .cs4),
     (croche, silence), (croche, some .a3), (croche, silence), (croche, some .fs3),
     (croche, some .d3), (croche, some .d3), (croche, some .d3), (blanche, silence),
     (croche, some .cs3), (croche, some .d3), (croche, some .fs3), (croche, some .a3),
     (croche, some .cs4), (croche, silence), (croche, some .a3), (croche, silence),
     (croche, some .fs3), (noirePointee, some .e4), (croche, some .ds4), (croche, some .d4),
     (noirePointee, silence), (croche, some .gs3), (croche, silence), (croche, some .cs4),
     (croche, some .fs3), (croche, silence), (croche, some .cs4), (croche, silence),
     (croche, some .gs3), (croche, silence), (croche, some .cs4), (croche, silence),
     (croche, some .g3), (croche, some .fs3), (croche, silence), (croche, some .e3),
     (croche, silence), (croche, some .c3), (croche, some .c3), (croche, some .c3),
     (noirePointee, silence), (croche, some .c3), (croche, some .c3), (croche, some .c3),
     (blanche, silence), (croche, some .as3), (croche, some .b3), (croche, some .cs4),
     (croche, some .d4), (croche, some .fs4), (croche, some .a4)]

/-- `LA_DANSE_DES_CANARDS`, whose last 5 entries stay zero. -/
def laDanseDesCanards : Music :=
  ofScore freq 192
    [(croche, some .d4), (croche, some .d4), (croche, some .e4), (croche, some .e4),
     (croche, some .b3), (croche, some .b3), (noire, some .d4), (croche, some .d4),
     (croche, some .d4), (croche, some .e4), (croche, some .e4), (croche, some .b3),
     (croche, some .b3), (noire, some .d4), (croche, some .d4), (croche, some .d4),
     (croche, some .e4), (croche, some .e4), (croche, some .g4), (croche, some .g4),
     (noire, some .fs4), (noire, some .fs4), (noire, some .e4), (noire, some .d4),
     (noire, some .c4), (croche, some .c4), (croche, some .c4), (croche, some .d4),
     (croche, some .d4), (croche, some .a3), (croche, some .a3), (noire, some .c4),
     (croche, some .c4), (croche, some .c4), (croche, some .d4), (croche, some .d4),
     (croche, some .a3), (croche, some .a3), (noire, some .c4), (croche, some .d4),
     (croche, some .d4), (croche, some .e4), (croche, some .e4), (croche, some .fs4),
     (croche, some .fs4), (noire, some .g4), (noire, some .e4), (noire, some .d4),
     (noire, some .b3), (noire, some .g3)]

/-- `LUT_flag_to_music`. -/
def lutFlagToMusic : Flag → Music
  | .undefinedFlag => noMusic
  | .france => marseillaise freq
  | .italy => bellaCiao freq
  | .japan => wiiTheme freq
  | .switzerland => laDanseDesCanards freq

end Songs

/-! ### What every song contains -/

/-- The constants of `play_melody.h`: positive frequencies that a `uint16_t`
holds. -/
def Audible (freq : Note → ℕ) : Prop := ∀ n, 0 < freq n ∧ freq n < 2 ^ 16

/-- Concert pitch, in whole hertz. -/
def concertPitch : Note → ℕ
  | .c3 => 131
  | .cs3 => 139
  | .d3 => 147
  | .ds3 => 156
  | .e3 => 165
  | .fs3 => 185
  | .g3 => 196
  | .gs3 => 208
  | .a3 => 220
  | .as3 => 233
  | .b3 => 247
  | .c4 => 262
  | .cs4 => 277
  | .d4 => 294
  | .ds4 => 311
  | .e4 => 330
  | .f4 => 349
  | .fs4 => 370
  | .g4 => 392
  | .a4 => 440

/-- At concert pitch the frequency of every note is positive and fits into a `uint16_t`. -/
theorem audible_concertPitch : Audible concertPitch := by
  intro n
  cases n <;> decide

/-- The first entry is a note, and every note is longer than `note_offset`. -/
structure WellScored (m : Music) : Prop where
  first : m.noteAt 0 ≠ 0
  long : ∀ k, m.noteAt k ≠ 0 → noteOffset < m.rythmAt k

/-- A duration of `n` sixteenths, up to a `BLANCHE`, is longer than `note_offset` and
does not overflow. -/
theorem noteOffset_lt_duration {tempo n : ℕ} (hmin : noteOffset < noteToMs / tempo)
    (hmax : noteToMs / tempo < 2 ^ 13) (hpos : 0 < n) (hle : n ≤ blanche) :
    noteOffset < u16 (n * (noteToMs / tempo)) := by
  have hprod : n * (noteToMs / tempo) < 2 ^ 16 := calc
    n * (noteToMs / tempo) ≤ blanche * (noteToMs / tempo) := Nat.mul_le_mul_right _ hle
    _ < blanche * 2 ^ 13 := Nat.mul_lt_mul_of_pos_left hmax (by decide)
    _ = 2 ^ 16 := rfl
  have hlong : noteToMs / tempo ≤ n * (noteToMs / tempo) := Nat.le_mul_of_pos_left _ hpos
  rw [u16_of_lt hprod]
  omega

/-- **A score of whole sixteenths that starts with a note is well scored** at
every tempo at which a sixteenth is longer than `note_offset`. -/
theorem wellScored_ofScore {freq : Note → ℕ} (hf : Audible freq) {tempo d : ℕ} {n : Note}
    {score : List (ℕ × Option Note)} (hmin : noteOffset < noteToMs / tempo)
    (hmax : noteToMs / tempo < 2 ^ 13)
    (hscore : ∀ x ∈ (d, some n) :: score, 0 < x.1 ∧ x.1 ≤ blanche) :
    WellScored (ofScore freq tempo ((d, some n) :: score)) := by
  constructor
  · have h0 : (0 : ℕ) < musicSize := by decide
    rw [Music.noteAt, load_of_lt _ h0, Option.getD_some]
    have hu : u16 (freq n) ≠ 0 := by
      rw [u16_of_lt (hf n).2]
      exact (hf n).1.ne'
    exact hu
  · intro k hk
    rcases Nat.lt_or_ge k musicSize with hlt | hge
    · rw [Music.noteAt, load_of_lt _ hlt, Option.getD_some] at hk
      rw [Music.rythmAt, load_of_lt _ hlt, Option.getD_some]
      simp only [ofScore] at hk ⊢
      cases hx : ((d, some n) :: score)[k]? with
      | none => rw [hx] at hk; exact absurd rfl hk
      | some x =>
        obtain ⟨hpos, hle⟩ := hscore x (List.mem_of_getElem? hx)
        exact noteOffset_lt_duration hmin hmax hpos hle
    · rw [Music.noteAt, load, dif_neg (Nat.not_lt.2 hge)] at hk
      exact absurd rfl hk

/-- In a score of whole sixteenths, an entry past the end has duration 0, and every
other one, a silence too, is longer than `note_offset`. -/
theorem rythmAt_ofScore {freq : Note → ℕ} {tempo : ℕ} {score : List (ℕ × Option Note)}
    (hmin : noteOffset < noteToMs / tempo) (hmax : noteToMs / tempo < 2 ^ 13)
    (hscore : ∀ x ∈ score, 0 < x.1 ∧ x.1 ≤ blanche) (k : ℕ) :
    (ofScore freq tempo score).rythmAt k = 0 ∨
      noteOffset < (ofScore freq tempo score).rythmAt k := by
  rcases Nat.lt_or_ge k musicSize with hlt | hge
  · rw [Music.rythmAt, load_of_lt _ hlt, Option.getD_some]
    simp only [ofScore]
    cases hx : score[k]? with
    | none => exact Or.inl rfl
    | some x =>
      obtain ⟨hpos, hle⟩ := hscore x (List.mem_of_getElem? hx)
      exact Or.inr (noteOffset_lt_duration hmin hmax hpos hle)
  · rw [Music.rythmAt, load, dif_neg (Nat.not_lt.2 hge)]
    exact Or.inl rfl

/-- The durations are of type `uint16_t`, those of a score as well as the zeroes past its end.
-/
theorem rythmAt_ofScore_lt (freq : Note → ℕ) (tempo : ℕ) (score : List (ℕ × Option Note)) (k : ℕ) :
    (ofScore freq tempo score).rythmAt k < 2 ^ 16 := by
  unfold Music.rythmAt load
  split_ifs
  · rw [Option.getD_some]
    simp only [ofScore]
    split
    · exact Nat.mod_lt _ (by decide)
    · decide
  · exact Nat.two_pow_pos 16

theorem rythmAt_noMusic (k : ℕ) : noMusic.rythmAt k = 0 := by
  unfold Music.rythmAt load
  split_ifs <;> rfl

/-- A duration is a `uint16_t`, so it is much shorter than one turn of the clock. -/
theorem rythmAt_lutFlagToMusic_lt (freq : Note → ℕ) (country : Flag) (k : ℕ) :
    (lutFlagToMusic freq country).rythmAt k < 2 ^ 16 := by
  cases country with
  | undefinedFlag => exact (rythmAt_noMusic k).trans_lt (by decide)
  | _ => exact rythmAt_ofScore_lt ..

/-- No song of the table has an entry that is at most `note_offset` long, but for the empty ones
past its end. -/
theorem rythmAt_lutFlagToMusic (freq : Note → ℕ) (country : Flag) (k : ℕ) :
    (lutFlagToMusic freq country).rythmAt k = 0 ∨
      noteOffset < (lutFlagToMusic freq country).rythmAt k := by
  cases country with
  | undefinedFlag => exact Or.inl (rythmAt_noMusic k)
  | france => exact rythmAt_ofScore (by decide) (by decide) (by decide) k
  | italy => exact rythmAt_ofScore (by decide) (by decide) (by decide) k
  | japan => exact rythmAt_ofScore (by decide) (by decide) (by decide) k
  | switzerland => exact rythmAt_ofScore (by decide) (by decide) (by decide) k

/-- **Every song of the look up table is well scored**: at the tempo of each, a sixteenth is
longer than `note_offset` and a `BLANCHE` fits into 16 bits, and each starts with a note. -/
theorem wellScored_lutFlagToMusic {freq : Note → ℕ} (hf : Audible freq) {country : Flag}
    (h : country ≠ .undefinedFlag) : WellScored (lutFlagToMusic freq country) := by
  cases country with
  | undefinedFlag => exact absurd rfl h
  | france => exact wellScored_ofScore hf (by decide) (by decide) (by decide)
  | italy => exact wellScored_ofScore hf (by decide) (by decide) (by decide)
  | japan => exact wellScored_ofScore hf (by decide) (by decide) (by decide)
  | switzerland => exact wellScored_ofScore hf (by decide) (by decide) (by decide)

end Dancing
end JeanBot
