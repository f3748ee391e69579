/-
# Pausing is transparent to the music

A restart that finds `Dance` idle, after which `ManageStates` keeps reading the value
that `last_selector` holds: obstacles come and go, `ManageStates` preempts `Dance`
wherever it likes, and the music is still that of a player that knows nothing of this.
`player` plays the positions of the song one after the other; `Playing` relates the
robot to the next position of the player, and every step of the robot is silent or the
next step of the player.  What was played is therefore `0, 1, 2, …` (`playback`).

That the selector stands still after the restart is not enough: `last_selector` is read
before `restart_dance`, so a turn in between is found by the first test after the
restart, which stops the dance before its first note (`turnedBeforeRestart_stops`).
-/

import JeanBot.Dancing.Restart
import Mathlib.Data.List.Induction

namespace JeanBot
namespace Dancing

open Lib FlagDetection

variable {freq : Note → ℕ} {s u t : Robot} {i : Input} {tr : List (Robot × (Priority × Input))}

/-! ### The player -/

/-- The abstract player: position `n` is next, and position `k` is played. -/
def player (n k : ℕ) : Option ℕ := if k = n ∧ n < musicSize then some (n + 1) else none

/-- The player plays the next position and no other, as long as there is one. -/
theorem player_eq_some {n k m : ℕ} : player n k = some m ↔ k = n ∧ n < musicSize ∧ m = n + 1 := by
  unfold player
  split_ifs with h
  · simp [h, eq_comm]
  · exact iff_of_false nofun fun hk => h ⟨hk.1, hk.2.1⟩

/-- The player plays the positions in order, none twice and none past the end: whatever it has
played is counted up from 0. -/
theorem eq_range_of_player {es : List ℕ} {n : ℕ} (h : es.foldlM player 0 = some n) :
    es = List.range n ∧ n ≤ musicSize := by
  induction es using List.reverseRecOn generalizing n with
  | nil =>
    obtain rfl := Option.some.inj h
    exact ⟨rfl, Nat.zero_le _⟩
  | append_singleton es k ih =>
    rw [List.foldlM_append] at h
    obtain ⟨m, hm, hk⟩ := Option.bind_eq_some_iff.1 h
    rw [List.foldlM_cons] at hk
    obtain ⟨n', hn', hk⟩ := Option.bind_eq_some_iff.1 hk
    obtain rfl := Option.some.inj hk
    obtain ⟨rfl, hlt, rfl⟩ := player_eq_some.1 hn'
    obtain ⟨rfl, -⟩ := ih hm
    exact ⟨List.range_succ.symm, hlt⟩

/-! ### The robot and the player -/

/-- `Dance` is about to play position `n`, or has played the last one. -/
def Playing (t : Robot) (n : ℕ) : Prop :=
  match t.dancePc with
  | .loop | .idle | .readDancing _ =>
    if t.isDancing then t.musicPosition = n ∧ n < musicSize else n = musicSize
  | .readState d =>
    t.isDancing = d ∧ if d then t.musicPosition = n ∧ n < musicSize else n = musicSize
  | .getTime | .testLoad => t.isDancing = true ∧ t.musicPosition = n ∧ n < musicSize
  | .testRead k => t.isDancing = true ∧ t.musicPosition = n ∧ n < musicSize ∧ k = n
  | .incStore v => t.isDancing = true ∧ v + 1 = n ∧ n ≤ musicSize
  | .testEnd => t.isDancing = true ∧ t.musicPosition = n ∧ n ≤ musicSize
  | .stop .flag => t.isDancing = true ∧ n = musicSize
  | .stop _ => t.isDancing = false ∧ n = musicSize
  | _ => t.isDancing = true ∧ t.musicPosition + 1 = n ∧ n ≤ musicSize

/-- A step of `Dance` that plays nothing leaves the player where it is.  The increment at the
end of a note makes the position of the robot that of the player again. -/
theorem DanceStep.playing (h : DanceStep s i u) {n : ℕ} (hs : Playing s n)
    (hk : s.dancePc.tested = none) : Playing u n := by
  cases h with
  | stop p hpc => cases p <;> simp_all [Playing, StopPc.exec, StopPc.next]
  | note k hpc => simp [DancePc.tested, hpc] at hk
  | rest k hpc => simp [DancePc.tested, hpc] at hk
  | incStore v hpc =>
    simp only [Playing, hpc] at hs
    obtain ⟨hd, hv, hn⟩ := hs
    exact ⟨hd, (u16_succ (by omega)).trans hv, hn⟩
  | ended hpc he =>
    simp only [Playing, hpc] at hs
    exact ⟨hs.1, le_antisymm hs.2.2 (hs.2.1 ▸ he)⟩
  | _ hpc => simp_all [Playing]

/-- A step of `Dance` that plays a position is the next step of the player: the position that
was loaded for the test is the one that is next. -/
theorem DanceStep.played_playing (h : DanceStep s i u) {n k : ℕ} (hs : Playing s n)
    (hk : s.dancePc.tested = some k) : ∃ m, player n k = some m ∧ Playing u m := by
  have hpc := tested_eq_some hk
  simp only [Playing, hpc] at hs
  obtain ⟨hd, hpos, hlt, rfl⟩ := hs
  refine ⟨k + 1, player_eq_some.2 ⟨rfl, hlt, rfl⟩, ?_⟩
  cases h with
  | note j hj hjlt hn => exact ⟨hd, congrArg (· + 1) hpos, hlt⟩
  | rest j hj hjlt hn => exact ⟨hd, congrArg (· + 1) hpos, hlt⟩
  | _ hj => simp_all

/-- A step of `ManageStates` that reads the selector where it was leaves the player where it is,
whether it pauses the robot or takes it back to `WAIT`. -/
theorem MsStep.playing (h : MsStep freq s i u) {n : ℕ} (hs : Playing s n) (hm : MsQuiet s)
    (hsel : i.selector = s.lastSelector) (hne : s.msPc ≠ .stop .flag) :
    Playing u n ∧ MsQuiet u ∧ u.msPc ≠ .stop .flag := by
  obtain ⟨hm', hpos, -, hd, -⟩ := h.quiet hm hne
  refine ⟨?_, hm', ?_⟩
  · unfold Playing at hs ⊢
    rwa [h.frame.1, hpos, hd]
  · cases h with
    | turned hpc ht => exact absurd hsel ht
    | stop p hpc => cases p <;> simp_all [MsQuiet]
    | _ => simp

/-! ### Runs -/

/-- A run `tr` from `s`, where a restart has just found `Dance` idle, during which
`ManageStates` keeps reading the value that `last_selector` holds: the one that it read
last before the restart. -/
structure Playback (freq : Note → ℕ) (s : Robot) (tr : List (Robot × (Priority × Input)))
    (t : Robot) : Prop where
  reachable : Reachable freq s
  restarted : s.msPc = .clearCountry
  idle : s.dancePc = .idle
  run : Run (threads freq).step s tr t
  unturned : ∀ x ∈ tr, x.2.1 = .high → x.2.2.selector = s.lastSelector

/-- **The robot simulates the player.**  Every step of a playback is silent or the next step of
the player, so the positions that were played take the player from 0 to where it is now, and the
song is the one that was installed. -/
theorem Playback.simulates (h : Playback freq s tr t) :
    ∃ n, (events played tr).foldlM player 0 = some n ∧ Playing t n ∧
      t.currentSong = s.currentSong := by
  obtain ⟨hr, hpc, hidle, hrun, hsel⟩ := h
  have hm := hr.msInv.1
  simp only [MsInv, hpc] at hm
  obtain ⟨-, -, hd, hpos, -⟩ := hm
  have h0 : Playing s 0 := by simp [Playing, hidle, hd, hpos, musicSize]
  have hquiet : MsQuiet s := by rw [MsQuiet, hpc]; trivial
  have hne : s.msPc ≠ .stop .flag := by simp [hpc]
  let R : Robot → ℕ → Prop := fun t n => Playing t n ∧ MsQuiet t ∧ t.msPc ≠ .stop .flag ∧
    t.lastSelector = s.lastSelector ∧ t.currentSong = s.currentSong
  have hsilent : ∀ t n a u, R t n → (a.1 = .high → a.2.selector = s.lastSelector) →
      (threads freq).step t a = some u → played t a = none → R u n := by
    rintro t n a u ⟨hplay, hm, hne, hlast, hsong⟩ hC hstep hev
    obtain ⟨i, rfl, hu⟩ | ⟨i, rfl, hb, hu⟩ := step_cases hstep
    · obtain ⟨hplay', hm', hne'⟩ := hu.playing hplay hm ((hC rfl).trans hlast.symm) hne
      obtain ⟨-, -, hsong', -, hlast'⟩ := hu.quiet hm hne
      exact ⟨hplay', hm', hne', hlast'.trans hlast, hsong'.trans hsong⟩
    · have hf := hu.frame
      exact ⟨hu.playing hplay hev, hu.msQuiet hm, hf.msPc ▸ hne,
        hf.lastSelector.trans hlast, hf.currentSong.trans hsong⟩
  have hevent : ∀ t n a u k, R t n → (a.1 = .high → a.2.selector = s.lastSelector) →
      (threads freq).step t a = some u → played t a = some k →
      ∃ m, player n k = some m ∧ R u m := by
    rintro t n a u k ⟨hplay, hm, hne, hlast, hsong⟩ - hstep hev
    obtain ⟨i, rfl, hu⟩ | ⟨i, rfl, hb, hu⟩ := step_cases hstep
    · cases hev
    · have hf := hu.frame
      obtain ⟨m, hm', hplay'⟩ := hu.played_playing hplay hev
      exact ⟨m, hm', hplay', hu.msQuiet hm, hf.msPc ▸ hne,
        hf.lastSelector.trans hlast, hf.currentSong.trans hsong⟩
  obtain ⟨n, hn, hplay, -, -, -, hsong⟩ := hrun.simulates (R := R)
    (C := fun _ a => a.1 = .high → a.2.selector = s.lastSelector) hsel
    ⟨h0, hquiet, hne, rfl, rfl⟩ hsilent hevent
  exact ⟨n, hn, hplay, hsong⟩

/-- The positions played are an initial stretch of the song, and the robot is about to play the
position behind it. -/
theorem Playback.played_eq (h : Playback freq s tr t) :
    ∃ n, events played tr = List.range n ∧ n ≤ musicSize ∧ Playing t n := by
  obtain ⟨n, hn, hplay, -⟩ := h.simulates
  obtain ⟨he, hle⟩ := eq_range_of_player hn
  exact ⟨n, he, hle, hplay⟩

theorem range_prefix_range {m n : ℕ} (h : m ≤ n) : List.range m <+: List.range n := by
  rw [← min_eq_left h, ← List.take_range]
  exact List.take_prefix m _

/-- A dance that has ended has been played to the end: in a playback only `Dance` itself clears
`is_dancing`, behind the last position. -/
theorem Playing.eq_musicSize {n : ℕ} (h : Playing t n) (hd : t.isDancing = false) :
    n = musicSize := by
  unfold Playing at h
  split at h <;> simp_all

/-- **Pausing is transparent to the music.**  After a restart that finds `Dance` idle
and while `ManageStates` keeps reading the value that `last_selector` holds, whatever
obstacles and preemptions there are: the positions played are a prefix of
`0, …, MUSIC_SIZE - 1`, the song stays, `is_dancing` becomes false only after the last
position, and of two such runs one plays a prefix of what the other plays. -/
theorem playback (h : Playback freq s tr t) :
    events played tr <+: List.range musicSize ∧ t.currentSong = s.currentSong ∧
      (t.isDancing = false → musicSize - 1 ∈ events played tr) ∧
      ∀ s' tr' t', Playback freq s' tr' t' →
        events played tr <+: events played tr' ∨ events played tr' <+: events played tr := by
  obtain ⟨n, he, hle, hplay⟩ := h.played_eq
  refine ⟨?_, ?_, fun hd => ?_, fun s' tr' t' h' => ?_⟩
  · rw [he]
    exact range_prefix_range hle
  · obtain ⟨-, -, -, hsong⟩ := h.simulates
    exact hsong
  · rw [he, hplay.eq_musicSize hd]
    exact List.mem_range.2 (by decide)
  · obtain ⟨m, he', -, -⟩ := h'.played_eq
    rw [he, he']
    exact (le_total n m).imp range_prefix_range range_prefix_range

/-- A schedule from the restart of `restartIdle` on is a playback, if it reads the selector where
`last_selector` has it. -/
theorem exists_playback (as : List (Priority × Input))
    {P : Robot → List (Robot × (Priority × Input)) → Robot → Prop}
    (h : ∃ s ∈ restartIdle.foldlM (threads concertPitch).step powerUp,
      ∃ t ∈ as.foldlM (threads concertPitch).step s,
        (s.msPc = .clearCountry ∧ s.dancePc = .idle) ∧
          (∀ x ∈ trace (threads concertPitch).step s as, x.2.2.selector = s.lastSelector) ∧
          P s (trace (threads concertPitch).step s as) t) :
    ∃ s tr t, Playback concertPitch s tr t ∧ P s tr t := by
  obtain ⟨s, hs, t, ht, ⟨hpc, hidle⟩, hsel, hP⟩ := h
  have hreach : Reachable concertPitch s := ⟨_, run_of_foldlM hs⟩
  exact ⟨s, _, t, ⟨hreach, hpc, hidle, run_of_foldlM ht, fun x hx _ => hsel x hx⟩, hP⟩

/-- Two positions are played, with an obstacle in the middle of the first note. -/
def pausedPlayback : List (Priority × Input) :=
  msFor 7 (clear 1 .undefinedFlag) ++ danceFor 15 (clear 1 .undefinedFlag) ++ msFor 5 (near 1) ++
    danceFor 10 (clear 1 .undefinedFlag) ++ msFor 6 (clear 1 .undefinedFlag) ++
    danceFor 12 (clear 1 .undefinedFlag)

/-- The obstacle in the middle of the note neither loses nor repeats a position. -/
theorem playback_paused : ∃ s tr t, Playback concertPitch s tr t ∧ events played tr = [0, 1] ∧
    events played tr <+: List.range musicSize := by
  obtain ⟨s, tr, t, hplay, hev⟩ := exists_playback pausedPlayback
    (P := fun _ tr _ => events played tr = [0, 1]) (by decide +kernel)
  exact ⟨s, tr, t, hplay, hev, (playback hplay).1⟩

/-- `ManageStates` is about to start the first dance: the selector stood at 1 at the end of
the detection, and `Dance` is idle. -/
def beforeRestart : List (Priority × Input) :=
  danceFor 2 (clear 0 .undefinedFlag) ++ msFor 3 (clear 0 .undefinedFlag) ++
    msFor 17 (clear 1 .italy)

/-- **A turn before the restart stops the dance after it**: the selector is turned once
more between the end of the detection and `restart_dance`, and from the first statement of
the restart on it stands still.  The dance is started and then stopped by the first test of
the selector, and no position was played. -/
theorem turnedBeforeRestart_stops : ∃ s tr t, Reachable concertPitch s ∧
    s.msPc = .restartPosition ∧ s.country = .italy ∧ s.dancePc = .idle ∧
      Run (threads concertPitch).step s tr t ∧ (∀ x ∈ tr, x.2.2.selector = 2) ∧
      (∃ x ∈ tr, x.1.isDancing = true) ∧ t.isDancing = false ∧ events played tr = [] := by
  obtain ⟨s, tr, t, hs, h, ⟨hpc, hc, hidle⟩, hsel, hd, hoff, hev⟩ := exists_run_run
    (threads concertPitch).step powerUp beforeRestart (fun _ => msFor 9 (clear 2 .undefinedFlag))
    (P := fun s tr t => (s.msPc = .restartPosition ∧ s.country = .italy ∧ s.dancePc = .idle) ∧
      (∀ x ∈ tr, x.2.2.selector = 2) ∧ (∃ x ∈ tr, x.1.isDancing = true) ∧
      t.isDancing = false ∧ events played tr = [])
    (by decide +kernel)
  exact ⟨s, tr, t, ⟨_, hs⟩, hpc, hc, hidle, h, hsel, hd, hoff, hev⟩

end Dancing
end JeanBot
