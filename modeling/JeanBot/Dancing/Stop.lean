/-
# A stopped dance stays stopped

`stop_dancing` clears `is_dancing` and `music_position` and stops the motors and
the DAC.  When `ManageStates` calls it, `Dance` may be on its way to `dac_play`
and `change_figure` (`stopArmed`): then both are switched on after the stop, and
the idle branch of `Dance` never switches the motors off.

| invariant | needs | says |
| --- | --- | --- |
| `StopInv` | no stop while `stopArmed` | what `stop_dancing` has switched off stays off |
| `SoundInv` | the same | the DAC is off outside a note |
| `StillInv` | also no `panic` while `armed`, no restart while `restartArmed` | idle motors |

`stopped_stays_stopped` is the first row, for every state in which `ManageStates`
is not in the middle of `stop_dancing` itself, and the three together for every
state.  `moves_while_stopped` is a run in which the first note starts after the
stop, and `exists_moving_while_stopped` finds one for every stop that is armed.
-/

import JeanBot.Dancing.Pause

namespace JeanBot
namespace Dancing

open Lib FlagDetection

variable {freq : Note → ℕ} {s u t : Robot} {i : Input} {tr : List (Robot × (Priority × Input))}

/-- `Dance` comes to `dac_play` and `change_figure` although `is_dancing` is
cleared and the position is reset. -/
def stopArmed (s : Robot) : Bool :=
  match s.dancePc with
  | .readState true | .getTime | .testLoad => true
  | .testRead k => s.currentSong.noteAt k ≠ 0
  | .playLoad | .playRead _ | .play _ | .figureLeft | .figureRight _ => true
  | _ => false

/-- `Dance` comes to `dac_play` and `change_figure` in the state `DANCE`, once a
restart has installed its song and sets `is_dancing`. -/
def restartArmed (s : Robot) : Bool :=
  match s.dancePc with
  | .readDancing true => true
  | .testRead k => s.currentSong.noteAt k ≠ 0
  | _ => false

/-- Motors and DAC are off. -/
def Silent (s : Robot) : Prop := s.leftSpeed = 0 ∧ s.rightSpeed = 0 ∧ s.dac = none

/-- What is off where a thread is about to execute statement `p` of
`stop_dancing`, which it called when `before` held. -/
def OffAt (s : Robot) (before : Prop) : StopPc → Prop
  | .flag => before
  | .position | .left => True
  | .right => s.leftSpeed = 0
  | .dac => s.leftSpeed = 0 ∧ s.rightSpeed = 0

/-- What is off while `is_dancing` is false and `ManageStates` is not inside
`stop_dancing`. -/
def DanceOff (s : Robot) : Prop :=
  match s.dancePc with
  | .stop p => OffAt s (Silent s) p
  | _ => Silent s

/-- What is off while `is_dancing` is false. -/
def Off (s : Robot) : Prop :=
  match s.msPc with
  | .stop p => OffAt s (DanceOff s) p
  | _ => DanceOff s

/-- `ManageStates` is between its `stop_dancing` and the end of the detection or
the restart that follows. -/
def detecting (s : Robot) : Bool :=
  match s.msPc with
  | .takeSelector | .setDetection | .readStart | .testWindow | .waitImage | .setFound
  | .takeSelectorAgain | .restartPosition | .restartSong | .restartFlag => true
  | .testDetection | .testDance => s.robotState ≠ .wait
  | _ => false

/-- While `is_dancing` is false, what `stop_dancing` has switched off is off, and
`Dance` is not on its way to a note, except that a restart may just have replaced
the song under the test of a note. -/
structure StopInv (s : Robot) : Prop where
  off : s.isDancing = false → Off s
  silent : s.isDancing = false → detecting s = true → Silent s
  unarmed : s.isDancing = false → stopArmed s = false ∨
    s.msPc = .restartFlag ∧ ∃ k, s.dancePc = .testRead k

/-- Where motors and DAC are off, so is whatever a statement of `stop_dancing` must find off. -/
theorem Silent.danceOff (h : Silent s) : DanceOff s := by
  unfold DanceOff
  split
  · rename_i p _
    cases p <;> simp_all [OffAt, Silent]
  · exact h

/-- Switching a motor off keeps what is off, so `panic` does no harm to it. -/
theorem DanceOff.mono (h : DanceOff s) (hpc : u.dancePc = s.dancePc)
    (hl : s.leftSpeed = 0 → u.leftSpeed = 0) (hr : s.rightSpeed = 0 → u.rightSpeed = 0)
    (hd : u.dac = s.dac) : DanceOff u := by
  unfold DanceOff at h ⊢
  rw [hpc]
  split at h
  · rename_i p _
    cases p <;> simp_all [OffAt, Silent]
  · exact ⟨hl h.1, hr h.2.1, hd ▸ h.2.2⟩

/-- Whether `Dance` is armed depends on the song only where it is about to test an entry. -/
theorem stopArmed_congr (hpc : u.dancePc = s.dancePc)
    (h : u.currentSong = s.currentSong ∨ ∀ k, s.dancePc ≠ .testRead k) :
    stopArmed u = stopArmed s := by
  unfold stopArmed
  rw [hpc]
  split <;> simp_all

/-- `ManageStates` clears `is_dancing` where `Dance` is not armed, and then switches off motor
after motor and the DAC. From there on no statement of it switches anything on; the song that a
restart installs may only arm the test of a note. -/
theorem MsStep.stopInv (h : MsStep freq s i u) (hm : MsInv freq s) (hs : StopInv s)
    (hC : s.msPc = .stop .flag → stopArmed s = false) : StopInv u := by
  obtain ⟨hoff, hsil, hun⟩ := hs
  have hun' : s.isDancing = false → s.msPc ≠ .restartFlag → stopArmed s = false :=
    fun hd hne => (hun hd).resolve_right fun hr => hne hr.1
  cases h with
  | stop p hpc =>
    have ha : s.isDancing = false → stopArmed s = false := fun hd => hun' hd (by simp [hpc])
    cases p with
    | flag =>
      exact ⟨fun _ => trivial, fun _ hd => Bool.noConfusion hd, fun _ => Or.inl (hC hpc)⟩
    | position =>
      exact ⟨fun _ => trivial, fun _ hd => Bool.noConfusion hd, fun hd => Or.inl (ha hd)⟩
    | left =>
      exact ⟨fun _ => rfl, fun _ hd => Bool.noConfusion hd, fun hd => Or.inl (ha hd)⟩
    | right =>
      have hl : s.isDancing = false → s.leftSpeed = 0 := by simpa [Off, OffAt, hpc] using hoff
      exact ⟨fun hd => ⟨hl hd, rfl⟩, fun _ hd => Bool.noConfusion hd, fun hd => Or.inl (ha hd)⟩
    | dac =>
      have hu : s.isDancing = false → Silent { s with dac := none, msPc := .takeSelector } := by
        intro hd
        have hlr : s.leftSpeed = 0 ∧ s.rightSpeed = 0 := by
          simpa [Off, OffAt, hpc] using hoff hd
        exact ⟨hlr.1, hlr.2, rfl⟩
      exact ⟨fun hd => (hu hd).danceOff, fun hd _ => hu hd, fun hd => Or.inl (ha hd)⟩
  | panicLeft hpc =>
    simp only [Off, hpc] at hoff
    exact ⟨fun hd => (hoff hd).mono rfl (fun _ => rfl) id rfl, fun _ hd => Bool.noConfusion hd,
      fun hd => Or.inl (hun' hd (by simp [hpc]))⟩
  | panicRight hpc =>
    simp only [Off, hpc] at hoff
    exact ⟨fun hd => (hoff hd).mono rfl id (fun _ => rfl) rfl, fun _ hd => Bool.noConfusion hd,
      fun hd => Or.inl (hun' hd (by simp [hpc]))⟩
  | restartSong hpc =>
    simp only [Off, hpc] at hoff
    refine ⟨hoff, fun hd _ => hsil hd (by simp [detecting, hpc]), fun hd => ?_⟩
    have ha : stopArmed s = false := hun' hd (by simp [hpc])
    by_cases hk : ∃ k, s.dancePc = .testRead k
    · exact Or.inr ⟨rfl, hk⟩
    · refine Or.inl ?_
      rw [← ha]
      exact stopArmed_congr rfl (Or.inr (not_exists.1 hk))
  | restartFlag hpc =>
    exact ⟨fun hd => Bool.noConfusion hd, fun hd => Bool.noConfusion hd,
      fun hd => Bool.noConfusion hd⟩
  | _ hpc =>
    simp only [Off, hpc] at hoff
    refine ⟨hoff, fun hd hdet => hsil hd ?_, fun hd => Or.inl (hun' hd (by simp [hpc]))⟩
    simp_all [detecting, MsInv]

/-- What the invariant says where `Dance` can run: `ManageStates` is in none of its stops then,
and in no restart. -/
theorem StopInv.of_blocked (hs : StopInv s) (hb : s.msPc.blocked = true)
    (hd : s.isDancing = false) : DanceOff s ∧ stopArmed s = false := by
  have hoff := hs.off hd
  have hun := hs.unarmed hd
  rcases MsPc.blocked_cases hb with hpc | hpc | hpc <;> simp_all [Off]

/-- `Dance` keeps what is off while `is_dancing` is false, and switches all off where it clears
`is_dancing` itself. -/
theorem DanceStep.danceOff (h : DanceStep s i u) (hd : u.isDancing = false)
    (hs : s.isDancing = false → DanceOff s ∧ stopArmed s = false) :
    DanceOff u ∧ stopArmed u = false := by
  cases h with
  | stop p hpc =>
    cases p <;> simp_all [StopPc.exec, StopPc.next, DanceOff, OffAt, stopArmed, Silent]
  | _ => simp_all [DanceOff, OffAt, stopArmed, Silent]

/-- `Dance` switches nothing on unless it is armed, so motors and DAC that are off stay off. -/
theorem DanceStep.silent (h : DanceStep s i u) (ha : stopArmed s = false) (hs : Silent s) :
    Silent u := by
  cases h with
  | stop p hpc => cases p <;> simp_all [StopPc.exec, Silent]
  | _ => simp_all [stopArmed, Silent]

/-- A `Dance` that is not armed switches nothing on, and its own `stop_dancing` switches all of
it off, so the invariant holds again when it is through. -/
theorem DanceStep.stopInv (h : DanceStep s i u) (hm : MsInv freq s)
    (hb : s.msPc.blocked = true) (hs : StopInv s) : StopInv u := by
  have hu := fun hd => h.danceOff hd (hs.of_blocked hb)
  refine ⟨fun hd => ?_, fun _ hdet => ?_, fun hd => Or.inl (hu hd).2⟩
  · rw [Off, h.frame.msPc]
    rcases MsPc.blocked_cases hb with hpc | hpc | hpc <;> rw [hpc] <;> exact (hu hd).1
  · rw [detecting, h.frame.msPc] at hdet
    rcases MsPc.blocked_cases hb with hpc | hpc | hpc <;> rw [hpc] at hdet
    · cases hdet
    · have hd : s.isDancing = false := by simp_all [MsInv]
      have hdet' : detecting s = true := by rw [detecting, hpc]
      exact h.silent (hs.of_blocked hb hd).2 (hs.silent hd hdet')
    · cases hdet

/-! ### The DAC -/

/-- The DAC is off outside a note, and where it may be on the entry that decides
about the end of the note is a note. -/
def SoundInv (s : Robot) : Prop :=
  match s.dancePc with
  | .playLoad | .playRead _ | .play _ =>
    s.dac = none ∧ s.currentSong.noteAt s.musicPosition ≠ 0
  | .figureLeft | .figureRight _ => s.currentSong.noteAt s.musicPosition ≠ 0
  | .testRead k =>
    s.dac = none ∧
      (s.currentSong.noteAt k ≠ 0 → s.currentSong.noteAt s.musicPosition ≠ 0)
  | .rythmLoad => s.dac = none ∨ s.currentSong.noteAt s.musicPosition ≠ 0
  | .rythmRead k => s.dac = none ∨ s.currentSong.noteAt k ≠ 0
  | .deadlineLoad | .deadlineRead _ | .sleepUntil _ | .noteStop => True
  | _ => s.dac = none

/-- A reset of the position keeps it, since entry 0 of every song is a note: where the DAC may
be on, the entry that decides about the end of the note is still one. -/
theorem SoundInv.reset (hs : SoundInv s) (hw : SongInv s) (hpc : u.dancePc = s.dancePc)
    (hd : u.dac = s.dac) (hsong : u.currentSong = s.currentSong) (hpos : u.musicPosition = 0) :
    SoundInv u := by
  rcases hw with hw | ⟨-, ho⟩
  · have h0 := hw.first
    cases hdp : s.dancePc <;> simp_all [SoundInv]
  · cases hdp : s.dancePc <;> simp_all [SoundInv, DancePc.outside]

/-- `ManageStates` switches the DAC off and never on.  When it replaces the song, the dance was
stopped, so the DAC is off and no entry under a sounding note changes. -/
theorem MsStep.soundInv (hf : Audible freq) (h : MsStep freq s i u) (hi : Inv freq s)
    (hstop : StopInv s) (hs : SoundInv s) : SoundInv u := by
  cases h with
  | stop p hpc =>
    cases p with
    | position => exact hs.reset hi.song rfl rfl rfl rfl
    | dac => cases hdp : s.dancePc <;> simp_all [SoundInv, StopPc.exec]
    | _ => exact hs
  | restartPosition hpc => exact hs.reset hi.song rfl rfl rfl rfl
  | restartSong hpc =>
    have hm := hi.ms
    simp only [MsInv, hpc] at hm
    obtain ⟨hc, -, hd, hpos⟩ := hm
    have h0 := (wellScored_lutFlagToMusic hf hc).first
    have hoff : DanceOff s := by simpa [Off, hpc] using hstop.off hd
    have ha : stopArmed s = false := by simpa [hpc] using hstop.unarmed hd
    cases hdp : s.dancePc <;> simp_all [SoundInv, DanceOff, Silent, stopArmed]
  | _ => exact hs

/-- `Dance` switches the DAC on for a note only.  A note is longer than `note_offset`, so
`Dance` goes through the sleep and the `dac_stop` after it before it leaves the note. -/
theorem DanceStep.soundInv (h : DanceStep s i u) (hw : SongInv s) (hs : SoundInv s) :
    SoundInv u := by
  cases h with
  | stop p hpc => cases p <;> simp_all [StopPc.exec, StopPc.next, SoundInv]
  | short k hpc hk hr =>
    have hw' : WellScored s.currentSong := by simpa [SongInv, hpc, DancePc.outside] using hw
    simp only [SoundInv, hpc] at hs
    exact hs.resolve_right fun hn => hr (hw'.long k hn)
  | _ => simp_all [SoundInv]

/-! ### The motors -/

/-- Both motors stand still. -/
def Still (s : Robot) : Prop := s.leftSpeed = 0 ∧ s.rightSpeed = 0

/-- The motors stand still when `Dance` is idle or about to be, and `Dance` cannot
move them while `ManageStates` sleeps in `PAUSE` or `DANCE`. -/
structure StillInv (s : Robot) : Prop where
  idle : s.dancePc = .idle ∨ s.dancePc = .readState false ∨ s.dancePc = .readDancing false →
    Still s
  left : s.msPc = .panicRight → armed s = false ∧ s.leftSpeed = 0
  still : s.msPc = .setPause ∨ s.msPc = .clearCountry ∨
    s.msPc = .sleep ∧ s.robotState ≠ .wait → armed s = false ∧ Still s

/-- No stop, no `panic` and no restart hits `Dance` on its way to a note. -/
structure CalmStep (s : Robot) : Prop where
  stop : s.msPc = .stop .flag → stopArmed s = false
  panic : s.msPc = .panicLeft → armed s = false
  restart : s.msPc = .restartFlag → restartArmed s = false

/-- A restart that finds `Dance` neither armed by `stop_dancing` nor by the restart leaves it
unarmed: where it is about to test an entry, the entry of the new song is a silence. -/
theorem armed_restartFlag (ha : stopArmed s = false ∨ ∃ k, s.dancePc = .testRead k)
    (hr : restartArmed s = false) (hpc : u.dancePc = s.dancePc)
    (hsong : u.currentSong = s.currentSong) : armed u = false := by
  cases hdp : s.dancePc with
  | readDancing w => cases w <;> simp_all [armed, restartArmed]
  | _ => simp_all [armed, stopArmed, restartArmed]

/-- A calm step of `ManageStates` finds `Dance` unarmed where it is about to sleep in `PAUSE` or
`DANCE`, after it has stopped the motors or found them stopped.  It starts no motor itself. -/
theorem MsStep.stillInv (h : MsStep freq s i u) (hm : MsInv freq s) (hstop : StopInv s)
    (hs : StillInv s) (hC : CalmStep s) : StillInv u := by
  obtain ⟨hidle, hleft, hstill⟩ := hs
  cases h with
  | stop p hpc =>
    cases p with
    | left => exact ⟨fun h => ⟨rfl, (hidle h).2⟩, by simp [StopPc.next], by simp [StopPc.next]⟩
    | right => exact ⟨fun h => ⟨(hidle h).1, rfl⟩, by simp [StopPc.next], by simp [StopPc.next]⟩
    | _ => exact ⟨hidle, by simp [StopPc.next], by simp [StopPc.next]⟩
  | panicLeft hpc => exact ⟨fun h => ⟨rfl, (hidle h).2⟩, fun _ => ⟨hC.panic hpc, rfl⟩, by simp⟩
  | panicRight hpc =>
    obtain ⟨ha, hl⟩ := hleft hpc
    exact ⟨fun h => ⟨(hidle h).1, rfl⟩, by simp, fun _ => ⟨ha, hl, rfl⟩⟩
  | setPause hpc => exact ⟨hidle, by simp, fun _ => hstill (Or.inl hpc)⟩
  | clearCountry hpc => exact ⟨hidle, by simp, fun _ => hstill (Or.inr (Or.inl hpc))⟩
  | restartFlag hpc =>
    have hd : s.isDancing = false := by simp_all [MsInv]
    have hdet : detecting s = true := by rw [detecting, hpc]
    have hsil := hstop.silent hd hdet
    have ha := (hstop.unarmed hd).imp_right And.right
    exact ⟨hidle, by simp, fun _ =>
      ⟨armed_restartFlag ha (hC.restart hpc) rfl rfl, hsil.1, hsil.2.1⟩⟩
  | skipRestart hpc hd =>
    refine ⟨hidle, by simp, ?_⟩
    simp_all [MsInv]
  | _ => exact ⟨hidle, by simp, by simp⟩

/-- Outside `WAIT`, the motors stand still wherever `Dance` can run: in a detection because the
dance was stopped, in `PAUSE` and `DANCE` because they were found or made still before the
sleep. -/
theorem StillInv.of_not_wait (hs : StillInv s) (hm : MsInv freq s) (hstop : StopInv s)
    (hb : s.msPc.blocked = true) (hw : s.robotState ≠ .wait) : Still s := by
  rcases MsPc.blocked_cases hb with hpc | hpc | hpc
  · simp_all [MsInv]
  · have hd : s.isDancing = false := by simp_all [MsInv]
    have hsil := hstop.silent hd (by rw [detecting, hpc])
    exact ⟨hsil.1, hsil.2.1⟩
  · exact (hs.still (Or.inr (Or.inr ⟨hpc, hw⟩))).2

/-- `Dance` comes to its idle sleep with the motors stopped: in `WAIT` because nothing is danced
and all is off, outside of `WAIT` because it was not armed there. -/
theorem DanceStep.stillInv (h : DanceStep s i u) (hm : MsInv freq s)
    (hb : s.msPc.blocked = true) (hstop : StopInv s) (hs : StillInv s) : StillInv u := by
  have hf := h.frame
  have hwait := hs.of_not_wait hm hstop hb
  have hoff : s.isDancing = false → DanceOff s := fun hd => (hstop.of_blocked hb hd).1
  refine ⟨?_, ?_, ?_⟩
  · have hidle := hs.idle
    clear hs hstop hm
    cases h with
    | stop p hpc => cases p <;> simp [StopPc.next]
    | readStateIdle d hpc hd =>
      rcases hd with rfl | hd
      · exact fun _ => hidle (Or.inr (Or.inl hpc))
      · exact fun _ => hwait hd
    | readDancingIdle w hpc hd =>
      rcases hd with rfl | hd
      · exact fun _ => hidle (Or.inr (Or.inr hpc))
      · have hsil := hoff hd
        simp only [DanceOff, hpc] at hsil
        exact fun _ => ⟨hsil.1, hsil.2.1⟩
    | _ => simp_all [Still, DanceOff, Silent]
  · rw [hf.msPc]
    intro hpc
    rw [hpc] at hb
    cases hb
  · rw [hf.msPc, hf.robotState]
    rintro (hpc | hpc | ⟨hpc, hw⟩)
    · rw [hpc] at hb
      cases hb
    · rw [hpc] at hb
      cases hb
    · obtain ⟨ha, hl, hr⟩ := hs.still (Or.inr (Or.inr ⟨hpc, hw⟩))
      exact h.unarmed hw ha hl hr

/-! ### Runs -/

/-- At power-up all is off, and `Dance` is at the head of its loop. -/
theorem stopInv_powerUp : StopInv powerUp := by
  constructor <;> simp [powerUp, Off, DanceOff, Silent, detecting, stopArmed]

/-- In a run from power-up whose stops never find `Dance` armed, what `stop_dancing` has
switched off stays off, and the DAC is off outside of a note. -/
theorem stopInv_run (hf : Audible freq) (h : Run (threads freq).step powerUp tr t)
    (hC : ∀ x ∈ tr, x.1.msPc = .stop .flag → stopArmed x.1 = false) :
    StopInv t ∧ SoundInv t := by
  refine (run_invariant (P := fun s => StopInv s ∧ SoundInv s)
    (C := fun s _ => s.msPc = .stop .flag → stopArmed s = false) hf h hC inv_powerUp
    ⟨stopInv_powerUp, rfl⟩ ?_ ?_).2
  · rintro s i u hi ⟨hstop, hsound⟩ hCs hu
    exact ⟨hu.stopInv hi.ms hstop hCs, hu.soundInv hf hi hstop hsound⟩
  · rintro s i u hi ⟨hstop, hsound⟩ - hb hu
    exact ⟨hu.stopInv hi.ms hb hstop, hu.soundInv hi.song hsound⟩

/-- In a run from power-up in which also no `panic` and no restart finds `Dance` armed, the
motors stand still whenever `Dance` is idle. -/
theorem stillInv_run (hf : Audible freq) (h : Run (threads freq).step powerUp tr t)
    (hC : ∀ x ∈ tr, CalmStep x.1) : StillInv t := by
  have h₀ : StillInv powerUp := by constructor <;> simp [powerUp]
  refine (run_invariant (P := fun s => StopInv s ∧ StillInv s) (C := fun s _ => CalmStep s) hf h hC
    inv_powerUp ⟨stopInv_powerUp, h₀⟩ ?_ ?_).2.2
  · rintro s i u hi ⟨hstop, hstill⟩ hCs hu
    exact ⟨hu.stopInv hi.ms hstop hCs.stop, hu.stillInv hi.ms hstop hstill hCs⟩
  · rintro s i u hi ⟨hstop, hstill⟩ - hb hu
    exact ⟨hu.stopInv hi.ms hb hstop, hu.stillInv hi.ms hb hstop hstill⟩

/-- **A stopped dance stays stopped.**  In a run from power-up in which `ManageStates` never
calls `stop_dancing` while `Dance` is on its way to a note, motors and DAC are off whenever
`is_dancing` is false and `Dance` is idle; in the middle of a `stop_dancing` of `ManageStates`,
if also no `panic` and no restart found `Dance` on its way to a note.  The stops that `Dance`
makes itself need no condition. -/
theorem stopped_stays_stopped (hf : Audible freq) (h : Run (threads freq).step powerUp tr t)
    (hstop : ∀ x ∈ tr, x.1.msPc = .stop .flag → stopArmed x.1 = false)
    (hmid : (∀ p, t.msPc ≠ .stop p) ∨ ∀ x ∈ tr, CalmStep x.1)
    (hd : t.isDancing = false) (hpc : t.dancePc = .idle) :
    t.leftSpeed = 0 ∧ t.rightSpeed = 0 ∧ t.dac = none := by
  obtain ⟨hinv, hsound⟩ := stopInv_run hf h hstop
  rcases hmid with hmid | hcalm
  · have hoff : DanceOff t := by
      have := hinv.off hd
      unfold Off at this
      split at this
      · exact absurd ‹_› (hmid _)
      · exact this
    rw [DanceOff, hpc] at hoff
    exact hoff
  · have hstill := (stillInv_run hf h hcalm).idle (Or.inl hpc)
    have hdac : t.dac = none := by simpa [SoundInv, hpc] using hsound
    exact ⟨hstill.1, hstill.2, hdac⟩

/-- The selector is turned again while the first note sounds, no flag is seen, and
`Dance` comes to its idle branch. -/
def stopInNote : List (Priority × Input) :=
  startDance .france ++ danceFor 14 (clear 1 .undefinedFlag) ++ msFor 14 (clear 2 .undefinedFlag) ++
    danceFor 8 (clear 2 .undefinedFlag)

/-- Nothing turns and nothing sounds while the second flag is looked for. -/
theorem stopped_stays_stopped_inNote : ∃ tr t, Run (threads concertPitch).step powerUp tr t ∧
    (∀ x ∈ tr, x.1.msPc = .stop .flag → stopArmed x.1 = false) ∧ t.isDancing = false ∧
      t.dancePc = .idle ∧ t.leftSpeed = 0 ∧ t.rightSpeed = 0 ∧ t.dac = none := by
  obtain ⟨t, h, hpc, hd, hms⟩ := exists_run (threads concertPitch).step powerUp stopInNote
    (P := fun t => t.dancePc = .idle ∧ t.isDancing = false ∧ t.msPc = .waitImage)
    (by decide +kernel)
  have hC : ∀ x ∈ trace (threads concertPitch).step powerUp stopInNote,
      x.1.msPc = .stop .flag → stopArmed x.1 = false := by decide +kernel
  exact ⟨_, t, h, hC, hd, hpc, stopped_stays_stopped audible_concertPitch h hC
    (Or.inl fun p hp => by rw [hms] at hp; cases hp) hd hpc⟩

/-- The selector is turned again when `Dance` has just passed its guard. -/
def stopAfterGuard : List (Priority × Input) :=
  startDance .france ++ danceFor 2 (clear 1 .undefinedFlag) ++ msFor 14 (clear 2 .undefinedFlag) ++
    danceFor 20 (clear 2 .undefinedFlag)

/-- **A stopped dance moves on**: the stop comes after the guard, `Dance` plays its note all the
same, and then it finds `is_dancing` false and is idle with both motors running. -/
theorem moves_while_stopped : ∃ tr t, Run (threads concertPitch).step powerUp tr t ∧
    t.isDancing = false ∧ t.dancePc = .idle ∧ t.leftSpeed ≠ 0 ∧ t.rightSpeed ≠ 0 :=
  ⟨_, exists_run _ _ stopAfterGuard (by decide +kernel)⟩

/-! ### Every armed stop can fail -/

/-- How many steps `Dance` is at most away from its idle branch, when it reads
`is_dancing` first and finds it false. -/
def DancePc.toIdle : DancePc → ℕ
  | .readDancing _ | .silenceDac | .silenceLeft | .silenceRight | .stop _ => 0
  | .readState d => if d then 22 else 2
  | .getTime => 21
  | .testLoad => 20
  | .testRead _ => 19
  | .playLoad => 18
  | .playRead _ => 17
  | .play _ => 16
  | .figureLeft => 15
  | .figureRight _ => 14
  | .rythmLoad => 13
  | .rythmRead _ => 12
  | .deadlineLoad => 11
  | .deadlineRead _ => 10
  | .sleepUntil _ => 9
  | .noteStop => 8
  | .sleepGap => 7
  | .incLoad => 6
  | .incStore _ => 5
  | .testEnd => 4
  | .loop => 3
  | .idle => 1

/-- The dance is stopped and the motors run, or `Dance` is on its way to a note in
which they do. -/
def Doomed (s : Robot) : Prop :=
  s.isDancing = false ∧ s.robotState = .wait ∧ WellScored s.currentSong ∧
    match s.dancePc with
    | .readState true | .getTime | .testLoad | .playLoad | .playRead _ | .play _
    | .figureLeft | .figureRight _ => s.musicPosition = 0
    | .testRead k => s.musicPosition = 0 ∧ s.currentSong.noteAt k ≠ 0
    | .rythmLoad | .rythmRead _ | .deadlineLoad | .deadlineRead _ | .sleepUntil _
    | .noteStop | .sleepGap | .incLoad => s.musicPosition = 0 ∧ s.rightSpeed ≠ 0
    | .incStore v => v = 0 ∧ s.rightSpeed ≠ 0
    | .testEnd => s.musicPosition = 1 ∧ s.rightSpeed ≠ 0
    | .loop | .readState false | .idle => s.rightSpeed ≠ 0
    | _ => False

/-- A completed stop leaves an armed `Dance` doomed: the position was reset, and entry 0 is a
note. -/
theorem Doomed.of_stopArmed (ha : stopArmed s = true) (hpc : u.dancePc = s.dancePc)
    (hsong : u.currentSong = s.currentSong) (hd : u.isDancing = false)
    (hst : u.robotState = .wait) (hpos : u.musicPosition = 0) (hw : WellScored s.currentSong) :
    Doomed u := by
  refine ⟨hd, hst, hsong ▸ hw, ?_⟩
  unfold stopArmed at ha
  rw [hpc, hsong]
  split at ha <;> simp_all

/-- A doomed `Dance` approaches its idle branch: it plays the note, whose figure starts the
motors, and nothing in the rest of the note stops them. -/
theorem DanceStep.doomed (h : DanceStep s i u) (hs : Doomed s) (hne : s.dancePc ≠ .idle)
    (hi : i.stateFirst = false) : Doomed u ∧ u.dancePc.toIdle < s.dancePc.toIdle := by
  obtain ⟨hd, hst, hw, hpos⟩ := hs
  have h0 := hw.first
  have h1 : ¬musicSize ≤ 1 := by decide
  cases h with
  | stop p hpc => simp [hpc] at hpos
  | readStateIdle d hpc hr => cases d <;> simp_all [Doomed, DancePc.toIdle]
  | readDancingIdle w hpc hr => simp [hpc] at hpos
  | figureLeft r hpc hr => simp_all [Doomed, DancePc.toIdle]
  | figureRight r hpc =>
    have hr := r.right_ne_zero
    simp_all [Doomed, DancePc.toIdle]
  | incStore v hpc =>
    rw [hpc] at hpos ⊢
    obtain ⟨rfl, hr⟩ := hpos
    exact ⟨⟨hd, hst, hw, rfl, hr⟩, by simp [DancePc.toIdle]⟩
  | ended hpc he =>
    rw [hpc] at hpos
    rw [hpos.1] at he
    exact absurd he h1
  | _ => simp_all [Doomed, DancePc.toIdle]

/-- Where `ManageStates` sleeps, a doomed `Dance` alone comes to its idle branch with
its motors running. -/
theorem exists_moving_of_doomed (freq : Note → ℕ) (hp : PosInv s) (hpc : s.msPc = .sleep)
    (hs : Doomed s) : ∃ tr t, Run (threads freq).step s tr t ∧ t.msPc = .sleep ∧
      t.isDancing = false ∧ t.dancePc = .idle ∧ t.rightSpeed ≠ 0 := by
  -- the distance to the idle branch decreases
  induction hn : s.dancePc.toIdle using Nat.strong_induction_on generalizing s with
  | _ n ih =>
    by_cases hidle : s.dancePc = .idle
    · obtain ⟨hd, -, -, hpos⟩ := hs
      rw [hidle] at hpos
      exact ⟨_, s, .nil, hpc, hd, hidle, hpos⟩
    · obtain ⟨u, hu⟩ := hp.exists_dance (clear 0 .undefinedFlag)
      have hd := DanceStep.of_dance hu
      obtain ⟨hs', hlt⟩ := hd.doomed hs hidle rfl
      obtain ⟨tr, t, ht, hrest⟩ := ih _ (hn ▸ hlt) (hd.posInv hp) (hd.frame.msPc.trans hpc) hs' rfl
      exact ⟨_, t, (Run.nil.snoc (step_low hpc hu)).trans ht, hrest⟩

/-- `ManageStates` carries its `stop_dancing` through, one statement after the other. -/
theorem foldlM_stop (freq : Note → ℕ) (i : Input) (hpc : s.msPc = .stop .flag) :
    (msFor 5 i).foldlM (threads freq).step s = some { s with
      isDancing := false
      musicPosition := 0
      leftSpeed := 0
      rightSpeed := 0
      dac := none
      msPc := .takeSelector } := by
  cases s
  cases hpc
  rfl

/-- A detection whose first test comes after the window, and the way back into `WAIT`. -/
theorem foldlM_detection (hpc : s.msPc = .takeSelector) (hc : s.country = .undefinedFlag) :
    (msFor 4 (clear 0 .undefinedFlag) ++
      msFor 4 { clear 0 .undefinedFlag with clock := 10000 }).foldlM (threads freq).step s =
      some { s with lastSelector := 0, robotState := .wait, startTime := 0, msPc := .sleep } := by
  have hclosed : windowOpen 0#32 10000#32 .undefinedFlag = false := by decide
  cases s
  cases hpc
  cases hc
  simp [msFor, List.replicate, Threads.step, threads, manageStates, clear, hclosed]

/-- A stop without a dance to follow, from its first statement on: `ManageStates` sleeps
in `WAIT`, and `Dance` is where it was. -/
theorem exists_run_stop (freq : Note → ℕ) (hpc : s.msPc = .stop .flag)
    (hc : s.country = .undefinedFlag) : ∃ tr u, Run (threads freq).step s tr u ∧
      u.msPc = .sleep ∧ u.robotState = .wait ∧ u.isDancing = false ∧ u.musicPosition = 0 ∧
      u.dancePc = s.dancePc ∧ u.currentSong = s.currentSong := by
  have h₁ := run_of_foldlM (foldlM_stop freq (clear 0 .undefinedFlag) hpc)
  have h₂ := h₁.trans (run_of_foldlM (foldlM_detection rfl hc))
  exact ⟨_, _, h₂, rfl, rfl, rfl, rfl, rfl, rfl⟩

/-- **Every stop that finds `Dance` armed can fail**: the dance is stopped, no flag is found,
and `Dance` comes to its idle branch with its motors running.  So the condition of
`stopped_stays_stopped` leaves out no stop without need. -/
theorem exists_moving_while_stopped (hf : Audible freq) (h : Reachable freq s)
    (hpc : s.msPc = .stop .flag) (ha : stopArmed s = true) :
    ∃ tr t, Run (threads freq).step s tr t ∧ t.msPc = .sleep ∧ t.isDancing = false ∧
      t.dancePc = .idle ∧ t.rightSpeed ≠ 0 := by
  have hi := h.inv hf
  have hc : s.country = .undefinedFlag := by
    have hm := hi.ms
    rw [MsInv, hpc] at hm
    exact hm.1
  have hw : WellScored s.currentSong := by
    refine hi.song.resolve_right fun ho => ?_
    cases hd : s.dancePc <;> simp_all [DancePc.outside, stopArmed]
  obtain ⟨tr₁, u, h₁, hpcu, hst, hd, hpos, hdp, hsong⟩ := exists_run_stop freq hpc hc
  have hdoomed : Doomed u := .of_stopArmed ha hdp hsong hd hst hpos hw
  obtain ⟨tr, t, ht, hrest⟩ := exists_moving_of_doomed freq (hi.pos.reset hdp hpos) hpcu hdoomed
  exact ⟨_, t, h₁.trans ht, hrest⟩

end Dancing
end JeanBot
