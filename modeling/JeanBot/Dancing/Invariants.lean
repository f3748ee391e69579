/-
# What holds in every run

Three invariants of the two threads from power-up, none of which restricts the
schedule:

| invariant | what it says |
| --- | --- |
| `MsInv` | what `ManageStates` knows at each of its statements |
| `PosInv` | positions, also those that `Dance` holds in a register |
| `SongInv` | the song is well scored, or none was ever started |

`DanceStep.frame` and `MsStep.frame` say which variables each thread leaves
alone: `Dance` writes `is_dancing` only to clear it, and neither the song nor
`ROBOT_STATE`, so what `ManageStates` knows at a blocking call still holds when it
wakes up.
-/

import JeanBot.Dancing.Steps

namespace JeanBot
namespace Dancing

open Lib FlagDetection

variable {freq : Note → ℕ} {s u : Robot} {i : Input}

/-- The robot gets from power-up to `s`. -/
def Reachable (freq : Note → ℕ) (s : Robot) : Prop :=
  ∃ tr, Run (threads freq).step powerUp tr s

/-! ### Frames -/

/-- What `Dance` leaves alone. -/
structure DanceFrame (s u : Robot) : Prop where
  msPc : u.msPc = s.msPc
  country : u.country = s.country
  robotState : u.robotState = s.robotState
  currentSong : u.currentSong = s.currentSong
  lastSelector : u.lastSelector = s.lastSelector
  isDancing : u.isDancing = true → s.isDancing = true

/-- **The frame of `Dance`**: it leaves `ManageStates`, `country`, the state, the song and
`last_selector` alone, and it does not set `is_dancing`.  What `ManageStates` knows before a
blocking call it therefore knows after it. -/
theorem DanceStep.frame (h : DanceStep s i u) : DanceFrame s u := by
  cases h with
  | stop p hpc => cases p <;> constructor <;> simp [StopPc.exec]
  | _ => constructor <;> simp

/-- **The frame of `ManageStates`**: it does not move `Dance`, it writes no position but 0, and
it changes the song at one statement only. -/
theorem MsStep.frame (h : MsStep freq s i u) :
    u.dancePc = s.dancePc ∧ (u.musicPosition = s.musicPosition ∨ u.musicPosition = 0) ∧
      (s.msPc ≠ .restartSong → u.currentSong = s.currentSong) := by
  cases h with
  | stop p hpc => cases p <;> simp [StopPc.exec]
  | restartSong hpc => simp [hpc]
  | _ => simp

/-! ### What `ManageStates` knows -/

/-- What holds when `ManageStates` is at each of its statements.  It sets
`FLAG_DETECTION` and `DANCE` itself and takes both back before it sleeps, and
`country` is defined only between the detection and the restart. -/
def MsInv (freq : Note → ℕ) (s : Robot) : Prop :=
  match s.msPc with
  | .start | .init => s.country = .undefinedFlag ∧ s.robotState = .wait
  | .obstacle | .panicLeft | .panicRight | .setPause | .setWait | .sleep =>
    s.country = .undefinedFlag ∧ s.robotState ≠ .flagDetection
  | .testSelector | .stop .flag => s.country = .undefinedFlag ∧ s.robotState = .wait
  | .stop _ | .takeSelector | .setDetection =>
    s.country = .undefinedFlag ∧ s.robotState = .wait ∧ s.isDancing = false
  | .testDetection =>
    s.country = .undefinedFlag ∧
      (s.robotState = .wait ∨ s.robotState = .flagDetection ∧ s.isDancing = false)
  | .readStart | .waitImage =>
    s.country = .undefinedFlag ∧ s.robotState = .flagDetection ∧ s.isDancing = false
  | .testWindow | .setFound => s.robotState = .flagDetection ∧ s.isDancing = false
  | .takeSelectorAgain =>
    s.robotState = (if s.country = .undefinedFlag then .wait else .dance) ∧ s.isDancing = false
  | .testDance =>
    s.country = .undefinedFlag ∧ s.robotState = .wait ∨
      s.country ≠ .undefinedFlag ∧ s.robotState = .dance ∧ s.isDancing = false
  | .restartPosition =>
    s.country ≠ .undefinedFlag ∧ s.robotState = .dance ∧ s.isDancing = false
  | .restartSong =>
    s.country ≠ .undefinedFlag ∧ s.robotState = .dance ∧ s.isDancing = false ∧
      s.musicPosition = 0
  | .restartFlag =>
    s.country ≠ .undefinedFlag ∧ s.robotState = .dance ∧ s.isDancing = false ∧
      s.musicPosition = 0 ∧ s.currentSong = lutFlagToMusic freq s.country
  | .clearCountry =>
    s.country ≠ .undefinedFlag ∧ s.robotState = .dance ∧ s.isDancing = true ∧
      s.musicPosition = 0 ∧ s.currentSong = lutFlagToMusic freq s.country

/-- The loop around `get_flag` goes on only while no flag was found, so a flag that was found is
never overwritten by a later call. -/
theorem country_of_windowOpen {start now : BitVec 32} {country : Flag}
    (h : windowOpen start now country = true) : country = .undefinedFlag := by
  simp only [windowOpen, Bool.and_eq_true, decide_eq_true_eq] at h
  exact h.2

/-- `ManageStates` keeps it: what is known at a statement follows from what was known at the one
before, and from the test or the assignment between them. -/
theorem MsStep.msInv (h : MsStep freq s i u) (hs : MsInv freq s) : MsInv freq u := by
  cases h with
  | stop p hpc => cases p <;> simp_all [MsInv, StopPc.exec, StopPc.next]
  | openWindow hpc hw =>
    have hc := country_of_windowOpen hw
    simp_all [MsInv]
  | takeSelectorAgain hpc =>
    by_cases hc : s.country = .undefinedFlag <;> simp_all [MsInv]
  | restart hpc hd => simp_all [MsInv]
  | _ hpc => simp_all [MsInv]

/-- `Dance` keeps it too, although it may run in between: it writes none of these variables but
`is_dancing`, which it only clears, and at a blocking call nothing is known that needs a dance
to be on. -/
theorem DanceStep.msInv (h : DanceStep s i u) (hb : s.msPc.blocked = true)
    (hs : MsInv freq s) : MsInv freq u := by
  have hf := h.frame
  have hd : s.isDancing = false → u.isDancing = false := fun hd =>
    Bool.eq_false_iff.2 fun hu => Bool.eq_false_iff.1 hd (hf.isDancing hu)
  cases hpc : s.msPc <;> simp_all [MsInv, MsPc.blocked, hf.msPc, hf.country, hf.robotState]

/-! ### Positions -/

/-- The positions that `Dance` holds are inside the song, and `music_position` is
unless the song has just ended. -/
def PosInv (s : Robot) : Prop :=
  match s.dancePc with
  | .testRead k | .playRead k | .rythmRead k | .deadlineRead k | .incStore k =>
    k < musicSize ∧ s.musicPosition < musicSize
  | .testEnd | .stop .flag | .stop .position => s.musicPosition ≤ musicSize
  | _ => s.musicPosition < musicSize

/-- A reset of the position keeps the invariant, wherever `Dance` is: the positions that it
holds in a register do not change. -/
theorem PosInv.reset (h : PosInv s) (hpc : u.dancePc = s.dancePc) (hu : u.musicPosition = 0) :
    PosInv u := by
  have h0 : 0 < musicSize := by decide
  unfold PosInv at h ⊢
  rw [hpc, hu]
  split <;> simp_all

/-- `ManageStates` writes no position but 0, which lies inside every song. -/
theorem MsStep.posInv (h : MsStep freq s i u) (hs : PosInv s) : PosInv u := by
  obtain ⟨hpc, hm | hm, -⟩ := h.frame
  · rwa [PosInv, hpc, hm]
  · exact hs.reset hpc hm

/-- `Dance` increments only a position inside the song, and it tests for the end before it reads
an entry with the result. -/
theorem DanceStep.posInv (h : DanceStep s i u) (hs : PosInv s) : PosInv u := by
  have h0 : 0 < musicSize := by decide
  cases h with
  | incStore v hpc =>
    have hv : v < musicSize := by simp_all [PosInv]
    show u16 (v + 1) ≤ musicSize
    rw [u16_succ hv]
    exact hv
  | stop p hpc => cases p <;> simp_all [PosInv, StopPc.exec, StopPc.next]
  | _ => simp_all [PosInv]

/-- **`Dance` is never stuck**: at each of its statements there is a next step, since every
entry that it reads lies inside of the song. -/
theorem PosInv.exists_dance (h : PosInv s) (i : Input) : ∃ u, dance s i = some u := by
  cases hpc : s.dancePc <;> simp only [dance, hpc]
  case testRead k =>
    have hk : k < musicSize := by rw [PosInv, hpc] at h; exact h.1
    rw [load_of_lt _ hk]
    by_cases hn : s.currentSong.notes ⟨k, hk⟩ = 0
    · exact ⟨_, if_neg (not_not.2 hn)⟩
    · exact ⟨_, if_pos hn⟩
  case playRead k =>
    have hk : k < musicSize := by rw [PosInv, hpc] at h; exact h.1
    rw [load_of_lt _ hk]
    exact ⟨_, rfl⟩
  case rythmRead k =>
    have hk : k < musicSize := by rw [PosInv, hpc] at h; exact h.1
    rw [load_of_lt _ hk]
    by_cases hn : noteOffset < s.currentSong.rythm ⟨k, hk⟩
    · exact ⟨_, if_pos hn⟩
    · exact ⟨_, if_neg hn⟩
  case deadlineRead k =>
    have hk : k < musicSize := by rw [PosInv, hpc] at h; exact h.1
    rw [load_of_lt _ hk]
    exact ⟨_, rfl⟩
  all_goals (try split_ifs) <;> exact ⟨_, rfl⟩

/-! ### The song -/

/-- `Dance` is outside the guarded branch and cannot enter it unless `is_dancing`
is read as true. -/
def DancePc.outside : DancePc → Bool
  | .loop => true
  | .readState d => !d
  | .readDancing _ => true
  | .idle => true
  | _ => false

/-- The song is one of the four, or no dance was started. -/
def SongInv (s : Robot) : Prop :=
  WellScored s.currentSong ∨ s.isDancing = false ∧ s.dancePc.outside = true

/-- The song is replaced at one statement of the restart, where `country` is known to be one of
the four flags. -/
theorem MsStep.songInv (hf : Audible freq) (h : MsStep freq s i u) (hm : MsInv freq s)
    (hs : SongInv s) : SongInv u := by
  obtain ⟨hpc, -, hsong⟩ := h.frame
  cases h with
  | restartSong hr =>
    have hc : s.country ≠ .undefinedFlag := by simp_all [MsInv]
    exact Or.inl (wellScored_lutFlagToMusic hf hc)
  | restartFlag hr =>
    have hc : s.country ≠ .undefinedFlag ∧ s.currentSong = lutFlagToMusic freq s.country := by
      simp_all [MsInv]
    refine Or.inl ?_
    show WellScored s.currentSong
    rw [hc.2]
    exact wellScored_lutFlagToMusic hf hc.1
  | stop p hr =>
    rcases hs with hs | hs
    · left; cases p <;> exact hs
    · right; cases p <;> simp_all [StopPc.exec]
  | _ => exact hs

/-- `Dance` does not replace the song, and it does not enter the guarded branch as long as no
dance was started. -/
theorem DanceStep.songInv (h : DanceStep s i u) (hs : SongInv s) : SongInv u := by
  rcases hs with hs | ⟨hd, ho⟩
  · exact Or.inl (h.frame.currentSong ▸ hs)
  · right
    cases h with
    | stop p hpc => simp_all [DancePc.outside]
    | _ => simp_all [DancePc.outside]

/-! ### Runs -/

/-- The three invariants together. -/
structure Inv (freq : Note → ℕ) (s : Robot) : Prop where
  ms : MsInv freq s
  pos : PosInv s
  song : SongInv s

/-- At power-up nothing is danced, the position is 0 and no flag was found. -/
theorem inv_powerUp : Inv freq powerUp := by
  constructor <;> simp [MsInv, PosInv, SongInv, powerUp, musicSize, DancePc.outside]

/-- A step of `ManageStates` keeps the three invariants; the one about the song uses what is
known about `country`. -/
theorem MsStep.inv (hf : Audible freq) (h : MsStep freq s i u) (hs : Inv freq s) : Inv freq u :=
  ⟨h.msInv hs.ms, h.posInv hs.pos, h.songInv hf hs.ms hs.song⟩

/-- A step of `Dance`, which it makes while `ManageStates` is blocked, keeps the three
invariants. -/
theorem DanceStep.inv (h : DanceStep s i u) (hb : s.msPc.blocked = true) (hs : Inv freq s) :
    Inv freq u :=
  ⟨h.msInv hb hs.ms, h.posInv hs.pos, h.songInv hs.song⟩

/-- **The invariant rule of the two threads**: to carry `P` through a run whose steps meet `C`,
it is enough to carry it through the branches of each thread, with the three invariants at hand.
The invariants about pauses, stops and accesses are all instances of it. -/
theorem run_invariant {P : Robot → Prop} {C : Robot → Priority × Input → Prop}
    {tr : List (Robot × (Priority × Input))} {t : Robot} (hf : Audible freq)
    (h : Run (threads freq).step s tr t) (hC : ∀ x ∈ tr, C x.1 x.2) (hs : Inv freq s) (h₀ : P s)
    (hms : ∀ s i u, Inv freq s → P s → C s (.high, i) → MsStep freq s i u → P u)
    (hdance : ∀ s i u, Inv freq s → P s → C s (.low, i) → s.msPc.blocked = true →
      DanceStep s i u → P u) :
    Inv freq t ∧ P t := by
  refine Threads.invariant h (P := fun t => Inv freq t ∧ P t) hC ⟨hs, h₀⟩ ?_ ?_
  · rintro t i u ⟨hi, hP⟩ hCt hu
    have hu' := MsStep.of_manageStates hu
    exact ⟨hu'.inv hf hi, hms t i u hi hP hCt hu'⟩
  · rintro t i u ⟨hi, hP⟩ hCt hb hu
    have hu' := DanceStep.of_dance hu
    exact ⟨hu'.inv hb hi, hdance t i u hi hP hCt hb hu'⟩

/-- What `ManageStates` knows and what the positions are holds in every reachable state, for any
frequencies of the notes. -/
theorem Reachable.msInv (h : Reachable freq s) : MsInv freq s ∧ PosInv s := by
  obtain ⟨tr, h⟩ := h
  refine Threads.invariant h (P := fun s => MsInv freq s ∧ PosInv s) (C := fun _ _ => True)
    (fun _ _ => trivial) ⟨inv_powerUp.ms, (@inv_powerUp freq).pos⟩ ?_ ?_
  · rintro s i u ⟨hm, hp⟩ - hu
    have hu' := MsStep.of_manageStates hu
    exact ⟨hu'.msInv hm, hu'.posInv hp⟩
  · rintro s i u ⟨hm, hp⟩ - hb hu
    have hu' := DanceStep.of_dance hu
    exact ⟨hu'.msInv hb hm, hu'.posInv hp⟩

/-- The three invariants hold in every reachable state, if every note has a frequency: the song
then starts with something to be heard. -/
theorem Reachable.inv (hf : Audible freq) (h : Reachable freq s) : Inv freq s := by
  obtain ⟨tr, h⟩ := h
  exact (run_invariant (P := fun _ => True) (C := fun _ _ => True) hf h (fun _ _ => trivial)
    inv_powerUp trivial (fun _ _ _ _ _ _ _ => trivial) fun _ _ _ _ _ _ _ _ => trivial).1

end Dancing
end JeanBot
