/-
# What is heard

`played` is the position that `Dance` tests; what is heard is the frequency with which it
then calls `dac_play`, several steps later and after it has read `music_position` and the
entry of `notes` once more.  In a playback (`Playback`) the two reads agree, whatever
obstacles and preemptions there are between them: the frequencies heard are the notes at
the positions played, without the silences, but for the one that `Dance` is about to
start (`Playback.sounded_pending`).  What is heard is therefore a prefix of the melody of
the flag that was found, and the whole melody when the dance has ended, with one dance
figure for each tone (`melody`).
-/

import JeanBot.Dancing.Bounds
import JeanBot.Dancing.Playback

namespace JeanBot
namespace Dancing

open Lib FlagDetection

variable {freq : Note → ℕ} {s u t : Robot} {i : Input} {tr : List (Robot × (Priority × Input))}

/-- The notes at the first `n` positions of the song, without the silences. -/
def tones (song : Music) (n : ℕ) : List ℕ := ((List.range n).map song.noteAt).filter (· ≠ 0)

/-- One more position is one more tone, unless it holds a silence. -/
theorem tones_succ (song : Music) (n : ℕ) :
    tones song (n + 1) = tones song n ++ [song.noteAt n].filter (· ≠ 0) := by
  rw [tones, List.range_succ, List.map_append, List.filter_append]
  rfl

/-- The tones up to a position are the first ones of those up to any later position. -/
theorem tones_mono (song : Music) {m n : ℕ} (h : m ≤ n) : tones song m <+: tones song n :=
  ((range_prefix_range h).map song.noteAt).filter _

/-- The frequency that `Dance` is about to play. -/
def pendingTone (s : Robot) : List ℕ :=
  match s.dancePc with
  | .playLoad => [s.currentSong.noteAt s.musicPosition]
  | .playRead k => [s.currentSong.noteAt k]
  | .play f => [f]
  | _ => []

/-- A step of `Dance` that tests no position passes a pending tone on, from the load of the
position to the call of `dac_play`, or has none. -/
theorem DanceStep.pendingTone (h : DanceStep s i u) (hk : s.dancePc.tested = none) :
    Dancing.pendingTone s = (sounded s (.low, i)).toList ++ Dancing.pendingTone u := by
  cases h with
  | stop p hpc => cases p <;> simp [Dancing.pendingTone, sounded, hpc, StopPc.next]
  | note k hpc => simp [DancePc.tested, hpc] at hk
  | rest k hpc => simp [DancePc.tested, hpc] at hk
  | _ hpc => simp_all [Dancing.pendingTone, sounded]

/-- A test makes the tone of its position pending, if that is no silence.  The position is read
again for it, and it is the same one: it moves only after the note. -/
theorem DanceStep.pendingTone_tested (h : DanceStep s i u) {n k : ℕ} (hs : Playing s n)
    (hk : s.dancePc.tested = some k) : sounded s (.low, i) = none ∧
      Dancing.pendingTone s = [] ∧
      Dancing.pendingTone u = [s.currentSong.noteAt k].filter (· ≠ 0) := by
  have hpc := tested_eq_some hk
  simp only [Playing, hpc] at hs
  obtain ⟨-, hpos, -, rfl⟩ := hs
  cases h with
  | note j hj _ hn => simp_all [Dancing.pendingTone, sounded]
  | rest j hj _ hn => simp_all [Dancing.pendingTone, sounded]
  | _ hj => simp_all

/-- `ManageStates` leaves the pending tone as it is while the player and the song stay: the
position that `Dance` is about to load again cannot have been reset. -/
theorem MsStep.pendingTone (h : MsStep freq s i u) {n : ℕ} (hs : Playing s n)
    (hu : Playing u n) (hsong : u.currentSong = s.currentSong) :
    Dancing.pendingTone u = Dancing.pendingTone s := by
  have hpc := h.frame.1
  have hpos : s.dancePc = .playLoad → u.musicPosition = s.musicPosition := by
    intro hload
    rw [Playing, hload] at hs
    rw [Playing, hpc, hload] at hu
    have hk : s.musicPosition + 1 = n := hs.2.1
    have hk' : u.musicPosition + 1 = n := hu.2.1
    omega
  rw [Dancing.pendingTone, Dancing.pendingTone, hpc, hsong]
  cases hd : s.dancePc with
  | playLoad => rw [hpos hd]
  | _ => rfl

/-- **What is heard is what is played**: with the tone that `Dance` is about to start, the
frequencies given to `dac_play` are the notes at the positions played, without the silences. -/
theorem Playback.sounded_pending (h : Playback freq s tr t) :
    events sounded tr ++ pendingTone t = tones s.currentSong (events played tr).length := by
  obtain ⟨hr, hpc, hidle, hrun, hsel⟩ := h
  induction hrun with
  | nil => simp [events, pendingTone, hidle, tones]
  | @snoc tr t a u hrun hs ih =>
    have hsel' : ∀ x ∈ tr, x.2.1 = .high → x.2.2.selector = s.lastSelector :=
      fun x hx => hsel x (List.mem_append_left _ hx)
    have h : Playback freq s tr t := ⟨hr, hpc, hidle, hrun, hsel'⟩
    have h' : Playback freq s (tr ++ [(t, a)]) u := ⟨hr, hpc, hidle, hrun.snoc hs, hsel⟩
    obtain ⟨n, he, -, hplay⟩ := h.played_eq
    obtain ⟨m, he', -, hplay'⟩ := h'.played_eq
    obtain ⟨-, -, -, hsong⟩ := h.simulates
    obtain ⟨-, -, -, hsong'⟩ := h'.simulates
    have hlen : m = n + (played t a).toList.length := by
      rw [← List.length_range (n := m), ← he', events_snoc, List.length_append, he,
        List.length_range]
    rw [he, List.length_range] at ih
    rw [he', List.length_range, hlen, events_snoc, List.append_assoc]
    obtain ⟨i, rfl, hu⟩ | ⟨i, rfl, -, hu⟩ := step_cases hs
    · have hm : m = n := hlen
      have hsound : sounded t (.high, i) = none := rfl
      have hplayed : played t (.high, i) = none := rfl
      rw [hsound, hplayed, hu.pendingTone hplay (hm ▸ hplay') (hsong'.trans hsong.symm)]
      exact ih hsel'
    · have hplayed : played t (.low, i) = t.dancePc.tested := rfl
      rw [hplayed]
      cases hk : t.dancePc.tested with
      | none =>
        rw [← hu.pendingTone hk]
        exact ih hsel'
      | some k =>
        obtain ⟨hsound, hnone, hnext⟩ := hu.pendingTone_tested hplay hk
        have hkn : k = n := by
          have hd := tested_eq_some hk
          simp only [Playing, hd] at hplay
          exact hplay.2.2.2
        have hs' := ih hsel'
        rw [hnone, List.append_nil] at hs'
        rw [hsound, hnext, hs', hsong, hkn]
        exact (tones_succ _ n).symm

/-! ### Figures -/

/-- The figure that `change_figure` chooses in the step. -/
def figured (s : Robot) (a : Priority × Input) : Option Figure :=
  match a.1, s.dancePc with
  | .low, .figureLeft => some (changeFigure a.2.rand)
  | _, _ => none

/-- The tone whose figure is not chosen yet. -/
def pendingFigure (s : Robot) : ℕ := if s.dancePc = .figureLeft then 1 else 0

/-- A `dac_play` makes a figure pending, the choice of `change_figure` settles it, and no other
step of `Dance` does either. -/
theorem DanceStep.pendingFigure (h : DanceStep s i u) :
    (figured s (.low, i)).toList.length + Dancing.pendingFigure u =
      Dancing.pendingFigure s + (sounded s (.low, i)).toList.length := by
  cases h with
  | stop p hpc => cases p <;> simp [Dancing.pendingFigure, figured, sounded, hpc, StopPc.next]
  | _ => simp_all [Dancing.pendingFigure, figured, sounded]

/-- **Every tone has its figure**: in any run, `change_figure` was called once for each
`dac_play`, but for the tone that was just started at either end of the run, whose figure is
still to come. -/
theorem figured_pending (h : Run (threads freq).step s tr t) :
    (events figured tr).length + pendingFigure t =
      pendingFigure s + (events sounded tr).length := by
  induction h with
  | nil => rw [Nat.add_comm]; rfl
  | @snoc tr t a u hrun hs ih =>
    rw [events_snoc, events_snoc, List.length_append, List.length_append]
    obtain ⟨i, rfl, hu⟩ | ⟨i, rfl, -, hu⟩ := step_cases hs
    · have hfig : figured t (.high, i) = none := rfl
      have hsound : sounded t (.high, i) = none := rfl
      have hpend : pendingFigure u = pendingFigure t := by
        rw [pendingFigure, hu.frame.1]
        rfl
      rw [hfig, hsound, hpend]
      exact ih
    · have hnext := hu.pendingFigure
      omega

/-! ### The melody -/

/-- A dance that has ended has neither a tone nor a figure pending. -/
theorem Playing.pending_eq {n : ℕ} (h : Playing t n) (hd : t.isDancing = false) :
    pendingTone t = [] ∧ pendingFigure t = 0 := by
  unfold Playing at h
  split at h <;> simp_all [pendingTone, pendingFigure]

/-- **The melody of the flag is heard.**  After a restart that finds `Dance` idle and while
`ManageStates` keeps reading the value that `last_selector` holds, whatever obstacles and
preemptions there are: the song is that of the flag found, the frequencies heard are a
prefix of its notes without the silences, and when the dance has ended they are all of them
and `change_figure` was called once for each. -/
theorem melody (h : Playback freq s tr t) :
    s.currentSong = lutFlagToMusic freq s.country ∧
      events sounded tr <+: tones s.currentSong musicSize ∧
      (t.isDancing = false → events sounded tr = tones s.currentSong musicSize ∧
        (events figured tr).length = (events sounded tr).length) := by
  have hm := h.reachable.msInv.1
  simp only [MsInv, h.restarted] at hm
  obtain ⟨n, he, hle, hplay⟩ := h.played_eq
  have hall := h.sounded_pending
  rw [he, List.length_range] at hall
  refine ⟨hm.2.2.2.2, ?_, fun hd => ?_⟩
  · have hprefix : events sounded tr <+: tones s.currentSong n := hall ▸ List.prefix_append _ _
    exact hprefix.trans (tones_mono _ hle)
  · obtain ⟨hnone, hzero⟩ := hplay.pending_eq hd
    have hfig := figured_pending h.run
    have hidle : pendingFigure s = 0 := by rw [pendingFigure, h.idle]; rfl
    rw [hnone, List.append_nil, hplay.eq_musicSize hd] at hall
    exact ⟨hall, by omega⟩

/-- The Italian song, played to its end with an obstacle in the first note. -/
def pausedSong : List (Priority × Input) :=
  msFor 7 (clear 1 .undefinedFlag) ++ danceFor 15 (clear 1 .undefinedFlag) ++ msFor 5 (near 1) ++
    danceFor 10 (clear 1 .undefinedFlag) ++ msFor 6 (clear 1 .undefinedFlag) ++
    danceFor 1020 (clear 1 .undefinedFlag)

/-- The whole song is heard, with a figure for each of its tones. -/
theorem melody_pausedSong : ∃ s tr t, Playback concertPitch s tr t ∧ s.country = .italy ∧
    t.isDancing = false ∧ (events figured tr).length = 39 ∧
      events sounded tr = tones (lutFlagToMusic concertPitch s.country) musicSize := by
  obtain ⟨s, tr, t, hplay, hf, hd, hlen⟩ := exists_playback pausedSong
    (P := fun s tr t => s.country = .italy ∧ t.isDancing = false ∧ (events figured tr).length = 39)
    (by decide +kernel)
  obtain ⟨hsong, -, hend⟩ := melody hplay
  exact ⟨s, tr, t, hplay, hf, hd, hlen, hsong ▸ (hend hd).1⟩

end Dancing
end JeanBot
