/-
# The entries that `Dance` reads

`Dance` tests an entry of the song and then uses it, and each time it reads
`music_position` and the entry afresh.  Between a test and its use `ManageStates`
may reset the position, which is harmless: entry 0 of every song is a note, and
longer than `note_offset`.  It may also replace the song.  Then the position is 0,
but `Dance` may have read it before, and still has to read the entry: the old
position in the new song can be a silence, or past its end.

`accesses_safe`: if no restart replaces the song by one with such an entry between
the two reads, no access is out of bounds, `dac_play` is called with a frequency
other than 0, and the duration in a deadline is larger than `note_offset`.
`plays_silence` is a run with `dac_play(0)`, and `exists_unsafe_access` finds a
wrong access after every other restart.
-/

import JeanBot.Dancing.Invariants

namespace JeanBot
namespace Dancing

open Lib FlagDetection

variable {freq : Note → ℕ} {s u t : Robot} {i : Input} {tr : List (Robot × (Priority × Input))}

/-- The index of the access to `notes` or `rythm` that is the next statement. -/
def DancePc.index : DancePc → Option ℕ
  | .testRead k => some k
  | .playRead k => some k
  | .rythmRead k => some k
  | .deadlineRead k => some k
  | _ => none

/-- `ManageStates` does not replace the song under an entry that `Dance` has tested,
unless the new entry passes the test too. -/
def restartSafe (freq : Note → ℕ) (s : Robot) : Bool :=
  match s.msPc, s.dancePc with
  | .restartSong, .playRead k => (lutFlagToMusic freq s.country).noteAt k ≠ 0
  | .restartSong, .deadlineRead k => noteOffset < (lutFlagToMusic freq s.country).rythmAt k
  | _, _ => true

/-- What the tests of `Dance` say about the entries that it is about to use. -/
def AccessInv (s : Robot) : Prop :=
  match s.dancePc with
  | .testRead k =>
    s.currentSong.noteAt k ≠ 0 → s.currentSong.noteAt s.musicPosition ≠ 0
  | .playLoad => s.currentSong.noteAt s.musicPosition ≠ 0
  | .playRead k => s.currentSong.noteAt k ≠ 0
  | .play f => f ≠ 0
  | .rythmRead k =>
    noteOffset < s.currentSong.rythmAt k →
      noteOffset < s.currentSong.rythmAt s.musicPosition
  | .deadlineLoad => noteOffset < s.currentSong.rythmAt s.musicPosition
  | .deadlineRead k => noteOffset < s.currentSong.rythmAt k
  | _ => True

/-- Outside the guarded branch no entry was tested, and none is about to be used. -/
theorem AccessInv.of_outside (h : s.dancePc.outside = true) : AccessInv s := by
  cases hd : s.dancePc <;> simp_all [AccessInv, DancePc.outside]

/-- A reset of the position keeps what the tests say: entry 0 of the song passes each of them,
and a position in a register does not change. -/
theorem AccessInv.reset (hs : AccessInv s) (hw : SongInv s) (hpc : u.dancePc = s.dancePc)
    (hsong : u.currentSong = s.currentSong) (hpos : u.musicPosition = 0) : AccessInv u := by
  rcases hw with hw | ⟨-, ho⟩
  · have h₁ := hw.first
    have h₂ := hw.long 0 h₁
    cases hd : s.dancePc <;> simp_all [AccessInv]
  · exact .of_outside (hpc ▸ ho)

/-- `ManageStates` resets the position, and entry 0 passes both tests.  When it replaces the
song, the position is 0, and an entry that `Dance` has still to read at a position loaded before
passes the test by `restartSafe`. -/
theorem MsStep.accessInv (hf : Audible freq) (h : MsStep freq s i u) (hi : Inv freq s)
    (hs : AccessInv s) (hC : restartSafe freq s = true) : AccessInv u := by
  cases h with
  | stop p hpc =>
    cases p with
    | position => exact hs.reset hi.song rfl rfl rfl
    | _ => exact hs
  | restartPosition hpc => exact hs.reset hi.song rfl rfl rfl
  | restartSong hpc =>
    have hm := hi.ms
    simp only [MsInv, hpc] at hm
    obtain ⟨hc, -, -, hpos⟩ := hm
    have hw := wellScored_lutFlagToMusic hf hc
    have h₁ := hw.first
    have h₂ := hw.long 0 h₁
    cases hd : s.dancePc <;> simp_all [AccessInv, restartSafe]
  | _ => exact hs

/-- `Dance` learns it from its tests, and carries it from the load of `music_position` to the
use of the entry. -/
theorem DanceStep.accessInv (h : DanceStep s i u) (hs : AccessInv s) : AccessInv u := by
  cases h with
  | stop p hpc => cases p <;> trivial
  | _ => simp_all [AccessInv]

/-- **No interleaving breaks the note accesses**, as long as no restart replaces the song under
an entry that `Dance` has tested by one whose entry fails the test: every index is below
`MUSIC_SIZE`, `dac_play` is never called with frequency 0, and the duration read for a deadline
is larger than `note_offset`.  Every access reads `music_position` and the entry afresh, so a
reset between the test and the use is among the interleavings. -/
theorem accesses_safe (hf : Audible freq) (h : Run (threads freq).step powerUp tr t)
    (hC : ∀ x ∈ tr, restartSafe freq x.1 = true) :
    (∀ k, t.dancePc.index = some k → k < musicSize) ∧ (∀ f, t.dancePc = .play f → f ≠ 0) ∧
      ∀ k, t.dancePc = .deadlineRead k → noteOffset < t.currentSong.rythmAt k := by
  obtain ⟨hi, ha⟩ := run_invariant (C := fun s _ => restartSafe freq s = true) hf h hC inv_powerUp
    (P := AccessInv) trivial (fun s i u hi hs hC hu => hu.accessInv hf hi hs hC)
    fun s i u hi hs _ _ hu => hu.accessInv hs
  refine ⟨fun k hk => ?_, fun f hpc => ?_, fun k hpc => ?_⟩
  · have hp := hi.pos
    cases hd : t.dancePc <;> simp_all [PosInv, DancePc.index]
  · rwa [AccessInv, hpc] at ha
  · rwa [AccessInv, hpc] at ha

/-- A second dance is started between the test of the first note and its use. -/
def restartBeforeUse : List (Priority × Input) :=
  startDance .france ++ danceFor 5 (clear 1 .undefinedFlag) ++ msFor 23 (clear 2 .italy) ++
    danceFor 2 (clear 2 .undefinedFlag)

/-- What `Dance` plays then is the first note of the second song. -/
theorem accesses_safe_beforeUse : ∃ tr t, Run (threads concertPitch).step powerUp tr t ∧
    (∀ x ∈ tr, restartSafe concertPitch x.1 = true) ∧ t.dancePc = .play (concertPitch .e3) ∧
      ∀ f, t.dancePc = .play f → f ≠ 0 := by
  obtain ⟨t, h, hpc⟩ := exists_run (threads concertPitch).step powerUp restartBeforeUse
    (P := fun t => t.dancePc = .play (concertPitch .e3)) (by decide +kernel)
  have hC : ∀ x ∈ trace (threads concertPitch).step powerUp restartBeforeUse,
      restartSafe concertPitch x.1 = true := by decide +kernel
  exact ⟨_, t, h, hC, hpc, (accesses_safe audible_concertPitch h hC).2.1⟩

/-- A second dance is started when `Dance` has tested the second note and read
`music_position` for `dac_play`, but not the entry. -/
def restartInAccess : List (Priority × Input) :=
  startDance .france ++ danceFor 26 (clear 1 .undefinedFlag) ++ msFor 23 (clear 2 .japan) ++
    danceFor 1 (clear 2 .undefinedFlag)

/-- **`Dance` plays a silence**: a restart replaces the song between the load of the position
and the read of the entry, and the next statement is `dac_play(0)`. -/
theorem plays_silence : ∃ tr t, Run (threads concertPitch).step powerUp tr t ∧
    t.dancePc = .play 0 :=
  ⟨_, exists_run _ _ restartInAccess (by decide +kernel)⟩

/-- A restart that is not safe finds `Dance` with a loaded position in hand, behind one of its
tests, and the entry of the new song at that position fails the test. -/
theorem restartSafe_eq_false (h : restartSafe freq s = false) : s.msPc = .restartSong ∧ ∃ k,
    (s.dancePc = .playRead k ∧ (lutFlagToMusic freq s.country).noteAt k = 0) ∨
      s.dancePc = .deadlineRead k ∧
        ¬noteOffset < (lutFlagToMusic freq s.country).rythmAt k := by
  unfold restartSafe at h
  split at h
  · rename_i k hpc hd
    exact ⟨hpc, k, Or.inl ⟨hd, by simpa using h⟩⟩
  · rename_i k hpc hd
    exact ⟨hpc, k, Or.inr ⟨hd, of_decide_eq_false h⟩⟩
  · cases h

/-- **Every restart that is not safe can fail**: there is a schedule in which a silence is
played, or a deadline is computed with a duration that is not larger than `note_offset`.  So the
condition of `accesses_safe` leaves out no restart without need. -/
theorem exists_unsafe_access (h : Reachable freq s) (hC : restartSafe freq s = false) :
    ∃ tr t, Run (threads freq).step s tr t ∧ (t.dancePc = .play 0 ∨
      ∃ k, t.dancePc = .deadlineRead k ∧ ¬noteOffset < t.currentSong.rythmAt k) := by
  obtain ⟨hpc, k, ⟨hd, hk⟩ | ⟨hd, hk⟩⟩ := restartSafe_eq_false hC
  · have hlt : k < musicSize := by
      have hp := h.msInv.2
      rw [PosInv, hd] at hp
      exact hp.1
    let s' : Robot := { s with
      currentSong := lutFlagToMusic freq s.country
      isDancing := true
      country := .undefinedFlag
      msPc := .sleep }
    have hms : (msFor 3 (clear 0 .undefinedFlag)).foldlM (threads freq).step s = some s' := by
      simp [msFor, List.replicate, Threads.step, threads, manageStates, hpc, s']
    have hdance : dance s' (clear 0 .undefinedFlag) = some { s' with dancePc := .play 0 } := by
      have hload : load s'.currentSong.notes k = some 0 := by
        rw [load_of_lt _ hlt]
        simpa [Music.noteAt, load_of_lt _ hlt] using hk
      rw [dance, hd]
      simp [hload]
    exact ⟨_, _, (run_of_foldlM hms).snoc (step_low rfl hdance), Or.inl rfl⟩
  · have hms : (threads freq).step s (.high, clear 0 .undefinedFlag) = some
        { s with currentSong := lutFlagToMusic freq s.country, msPc := .restartFlag } := by
      simp [Threads.step, threads, manageStates, hpc]
    exact ⟨_, _, Run.nil.snoc hms, Or.inr ⟨k, hd, hk⟩⟩

end Dancing
end JeanBot
