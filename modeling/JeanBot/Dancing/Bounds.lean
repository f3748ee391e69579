/-
# How much `Dance` still does

Four counts over whole runs, each from a rank that no step raises
(`Run.length_events_le`):

| run | count |
| --- | --- |
| `ROBOT_STATE` is never `WAIT` | one position, one `dac_play` |
| `is_dancing` is false and no dance is started | one position, one `dac_play` |
| no dance is started | `MUSIC_SIZE` positions |
| `WAIT` and `is_dancing` throughout | 1105 steps of `Dance` |

The first two say how late an obstacle or the selector comes into effect, the third
that a song is not played beyond its end, whatever the stops and preemptions, and
the last that a dance that is not interrupted ends.  `manageStates_yields` is the
count on the other side: `ManageStates` blocks again after at most 21 steps, so
`Dance` is not starved.
-/

import JeanBot.Dancing.Restart

namespace JeanBot
namespace Dancing

open Lib FlagDetection

variable {freq : Note → ℕ} {s u t : Robot} {i : Input} {tr : List (Robot × (Priority × Input))}

/-- The frequency with which a step calls `dac_play`. -/
def sounded (s : Robot) (a : Priority × Input) : Option ℕ :=
  match a.1, s.dancePc with
  | .low, .play f => some f
  | _, _ => none

/-- `dac_play` is called at one statement of `Dance` only, with the frequency that the thread
has read before. -/
theorem sounded_eq_some {a : Priority × Input} {f : ℕ} (h : sounded s a = some f) :
    a.1 = .low ∧ s.dancePc = .play f := by
  unfold sounded at h
  split at h <;> simp_all

/-- A position is played at one statement of `Dance` only: the one that reads its entry for the
test. -/
theorem played_eq_some {a : Priority × Input} {k : ℕ} (h : played s a = some k) :
    a.1 = .low ∧ s.dancePc = .testRead k := by
  obtain ⟨p, i⟩ := a
  cases p with
  | high => cases h
  | low => exact ⟨rfl, tested_eq_some h⟩

/-! ### A guard that stays shut -/

/-- The operand of the guard that `Dance` reads first, if it has read it as true. -/
inductive Passed
  | waiting
  | dancing
  deriving DecidableEq, Repr

/-- `Dance` can come to the test of a position once more, although the other operand
of the guard is false: it has passed the guard, or has read operand `p` as true. -/
def DancePc.canTest (p : Passed) : DancePc → Bool
  | .readDancing w => w && p = .waiting
  | .readState d => d && p = .dancing
  | .getTime | .testLoad | .testRead _ => true
  | _ => false

/-- `Dance` can come to `dac_play` once more. -/
def DancePc.canSound (p : Passed) : DancePc → Bool
  | .playLoad | .playRead _ | .play _ => true
  | pc => pc.canTest p

/-- The guard is shut for a `Dance` that has read operand `p` as false: outside
`WAIT`, or while nothing is danced. -/
def Shut (s : Robot) : Passed → Prop
  | .waiting => s.robotState ≠ .wait
  | .dancing => s.isDancing = false

/-- While the guard is shut, `Dance` can still test a position only if it could before, and a
test is the last one. -/
theorem DanceStep.canTest (h : DanceStep s i u) {p : Passed} (hs : Shut s p)
    (hu : u.dancePc.canTest p = true) :
    s.dancePc.canTest p = true ∧ s.dancePc.tested = none := by
  cases h with
  | stop q hpc => cases q <;> simp_all [DancePc.canTest, StopPc.next]
  | _ => cases p <;> simp_all [DancePc.canTest, DancePc.tested, Shut]

/-- While the guard is shut, `Dance` can still come to `dac_play` only if it could before, and a
call is the last one. -/
theorem DanceStep.canSound (h : DanceStep s i u) {p : Passed} (hs : Shut s p)
    (hu : u.dancePc.canSound p = true) :
    s.dancePc.canSound p = true ∧ ∀ f, s.dancePc ≠ .play f := by
  cases h with
  | stop q hpc => cases q <;> simp_all [DancePc.canSound, DancePc.canTest, StopPc.next]
  | _ => cases p <;> simp_all [DancePc.canSound, DancePc.canTest, Shut]

/-- **A guard that stays shut lets at most one position through.**  In a run in which one
operand of the guard stays false, `Dance` plays at most one position and calls `dac_play` at
most once: it can have passed the guard before, or have read the other operand, and no other way
leads into the branch. -/
theorem length_le_one_of_shut {C : Robot → Priority × Input → Prop} {P : Robot → Prop}
    {p : Passed} (h : Run (threads freq).step s tr t) (hC : ∀ x ∈ tr, C x.1 x.2) (h₀ : P s)
    (hP : ∀ t a u, P t → C t a → (threads freq).step t a = some u → P u)
    (hshut : ∀ t a, P t → C t a → Shut t p) :
    (events played tr).length ≤ 1 ∧ (events sounded tr).length ≤ 1 := by
  constructor
  · refine h.length_events_le_one (fun t => t.dancePc.canTest p) hC h₀ hP ?_ ?_
    · intro t a u hPt hCt hs hu
      obtain ⟨i, rfl, hi⟩ | ⟨i, rfl, hb, hi⟩ := step_cases hs
      · exact ⟨hi.frame.1 ▸ hu, rfl⟩
      · exact hi.canTest (hshut t _ hPt hCt) hu
    · intro t a u k hPt hCt hs hk
      rw [(played_eq_some hk).2, DancePc.canTest]
  · refine h.length_events_le_one (fun t => t.dancePc.canSound p) hC h₀ hP ?_ ?_
    · intro t a u hPt hCt hs hu
      obtain ⟨i, rfl, hi⟩ | ⟨i, rfl, hb, hi⟩ := step_cases hs
      · exact ⟨hi.frame.1 ▸ hu, rfl⟩
      · obtain ⟨hcan, hne⟩ := hi.canSound (hshut t _ hPt hCt) hu
        refine ⟨hcan, Option.eq_none_iff_forall_ne_some.2 fun f hf => ?_⟩
        exact hne f (sounded_eq_some hf).2
    · intro t a u f hPt hCt hs hf
      rw [(sounded_eq_some hf).2, DancePc.canSound]

/-- **Outside `WAIT` at most one position is played**, and at most one `dac_play` is called: the
note that `Dance` was about to start.  So at most one more note is played after an obstacle,
whatever `Dance` was doing when it came. -/
theorem length_le_one_outside_wait (h : Run (threads freq).step s tr t)
    (hC : ∀ x ∈ tr, x.1.robotState ≠ .wait) :
    (events played tr).length ≤ 1 ∧ (events sounded tr).length ≤ 1 :=
  length_le_one_of_shut (p := .waiting) (C := fun t _ => t.robotState ≠ .wait)
    (P := fun _ => True) h hC trivial (fun _ _ _ _ _ _ => trivial) fun _ _ _ hCt => hCt

/-- An obstacle appears when `Dance` has just passed its guard. -/
def pausedEntering : List (Priority × Input) :=
  startDance .france ++ danceFor 2 (clear 1 .france) ++ msFor 5 (near 1)

/-- `Dance` plays the position that it was about to play, and no other. -/
theorem length_le_one_pausedEntering : ∃ s tr t, Run (threads concertPitch).step s tr t ∧
    (∀ x ∈ tr, x.1.robotState ≠ .wait) ∧ events played tr = [0] ∧
      (events played tr).length ≤ 1 ∧ (events sounded tr).length ≤ 1 := by
  obtain ⟨s, tr, t, -, h, hw, hev⟩ := exists_run_run (threads concertPitch).step powerUp
    pausedEntering (fun _ => danceFor 20 (clear 1 .france))
    (P := fun _ tr _ => (∀ x ∈ tr, x.1.robotState ≠ .wait) ∧ events played tr = [0])
    (by decide +kernel)
  exact ⟨s, tr, t, h, hw, hev, length_le_one_outside_wait h hw⟩

/-- The step starts a dance: it is the last assignment of a `restart_dance`. -/
def startsDance (s : Robot) (a : Priority × Input) : Bool :=
  a.1 = .high && s.msPc = .restartFlag

/-- Only the last assignment of a `restart_dance` sets `is_dancing`, so a dance that is on was
on before any other step. -/
theorem isDancing_of_step {a : Priority × Input} (h : (threads freq).step s a = some u)
    (hno : startsDance s a = false) (hu : u.isDancing = true) : s.isDancing = true := by
  obtain ⟨i, rfl, hi⟩ | ⟨i, rfl, hb, hi⟩ := step_cases h
  · cases hi with
    | restartFlag hpc => simp [startsDance, hpc] at hno
    | stop p hpc => cases p <;> simp_all [StopPc.exec]
    | _ => exact hu
  · exact hi.frame.isDancing hu

/-- **After a stop at most one position is played** until the next dance is started, and at most
one `dac_play` is called, whatever `ManageStates` does in the meantime. -/
theorem length_le_one_of_stopped (h : Run (threads freq).step s tr t)
    (hd : s.isDancing = false) (hC : ∀ x ∈ tr, startsDance x.1 x.2 = false) :
    t.isDancing = false ∧ (events played tr).length ≤ 1 ∧ (events sounded tr).length ≤ 1 := by
  have hP : ∀ t a u, t.isDancing = false → startsDance t a = false →
      (threads freq).step t a = some u → u.isDancing = false := fun t a u ht hCt hs =>
    Bool.eq_false_iff.2 fun hu => Bool.eq_false_iff.1 ht (isDancing_of_step hs hCt hu)
  exact ⟨h.invariant (C := fun t a => startsDance t a = false) hC hd hP,
    length_le_one_of_shut (p := .dancing) (C := fun t a => startsDance t a = false) h hC hd hP
      fun _ _ ht _ => ht⟩

/-- The selector is turned when `Dance` has just passed its guard. -/
def stoppedEntering : List (Priority × Input) :=
  startDance .france ++ danceFor 2 (clear 1 .france) ++ msFor 5 (clear 2 .undefinedFlag)

/-- `ManageStates` waits for an image, and `Dance` runs. -/
def waitForImage : List (Priority × Input) :=
  msFor 9 (clear 2 .undefinedFlag) ++ danceFor 20 (clear 2 .undefinedFlag)

/-- `Dance` plays the position that it was about to play, and no other. -/
theorem length_le_one_stoppedEntering : ∃ s tr t, Run (threads concertPitch).step s tr t ∧
    s.isDancing = false ∧ (∀ x ∈ tr, startsDance x.1 x.2 = false) ∧ events played tr = [0] ∧
      t.isDancing = false ∧ (events played tr).length ≤ 1 ∧ (events sounded tr).length ≤ 1 := by
  obtain ⟨s, tr, t, -, h, hd, hC, hev⟩ := exists_run_run (threads concertPitch).step powerUp
    stoppedEntering (fun _ => waitForImage)
    (P := fun s tr _ => s.isDancing = false ∧ (∀ x ∈ tr, startsDance x.1 x.2 = false) ∧
      events played tr = [0])
    (by decide +kernel)
  exact ⟨s, tr, t, h, hd, hC, hev, length_le_one_of_stopped h hd hC⟩

/-! ### A song -/

/-- How many positions `Dance` can still play without a restart. -/
def positionsLeft (s : Robot) : ℕ :=
  if s.isDancing then
    match s.dancePc with
    | .stop .flag => 0
    | .stop .position => musicSize
    | .incStore v => musicSize - (v + 1)
    | pc => musicSize - (s.musicPosition + pc.afterTest.toNat)
  else (s.dancePc.canTest .dancing).toNat

/-- There are never more positions left than a song has, also where the dance was stopped and
`Dance` can only come to one more test. -/
theorem positionsLeft_le (s : Robot) : positionsLeft s ≤ musicSize := by
  have h1 : (1 : ℕ) ≤ musicSize := by decide
  unfold positionsLeft
  split_ifs
  · split <;> omega
  · exact (Bool.toNat_le _).trans h1

/-- While a song is played, a `Dance` that has passed its guard has a position left, which it
may still play when `is_dancing` is cleared. -/
theorem canTest_le_positionsLeft (hp : PosInv s) (hd : s.isDancing = true) :
    (s.dancePc.canTest .dancing).toNat ≤ positionsLeft s := by
  cases hpc : s.dancePc with
  | readState _ | getTime | testLoad | testRead _ =>
    have hpos : s.musicPosition < musicSize := by simp_all [PosInv]
    simp only [positionsLeft, hd, hpc, DancePc.afterTest, if_true, Bool.toNat_false]
    exact (Bool.toNat_le _).trans (Nat.sub_pos_of_lt hpos)
  | readDancing w => simp [DancePc.canTest]
  | _ => exact Nat.zero_le _

/-- `ManageStates` leaves no more positions to play, unless it starts a dance: a reset of the
position comes only when the dance was stopped before. -/
theorem MsStep.positionsLeft_le (h : MsStep freq s i u) (hm : MsInv freq s) (hp : PosInv s)
    (hno : s.msPc ≠ .restartFlag) : positionsLeft u ≤ positionsLeft s := by
  cases h with
  | restartFlag hpc => exact absurd hpc hno
  | restartPosition hpc =>
    rw [MsInv, hpc] at hm
    simp [positionsLeft, hm.2.2]
  | stop p hpc =>
    cases p with
    | flag =>
      cases hd : s.isDancing with
      | false => simp [positionsLeft, StopPc.exec, hd]
      | true => exact canTest_le_positionsLeft hp hd
    | position =>
      rw [MsInv, hpc] at hm
      simp [positionsLeft, StopPc.exec, hm.2.2]
    | _ => exact le_rfl
  | _ => exact le_rfl

/-- `Dance` leaves no more positions to play, and one fewer once it has played one: the position
moves past it, or the guard was shut and it was the last. -/
theorem DanceStep.positionsLeft_le (h : DanceStep s i u) (hp : PosInv s) :
    positionsLeft u + s.dancePc.tested.toList.length ≤ positionsLeft s := by
  cases hd : s.isDancing with
  | false =>
    have hu : u.isDancing = false :=
      Bool.eq_false_iff.2 fun hu => Bool.eq_false_iff.1 hd (h.frame.isDancing hu)
    rw [positionsLeft, positionsLeft, if_neg (Bool.eq_false_iff.1 hd),
      if_neg (Bool.eq_false_iff.1 hu)]
    cases hcan : u.dancePc.canTest .dancing with
    | true =>
      obtain ⟨hs, hk⟩ := h.canTest (p := .dancing) hd hcan
      simp [hs, hk]
    | false =>
      cases hk : s.dancePc.tested with
      | none => exact Nat.zero_le _
      | some k => simp [tested_eq_some hk, DancePc.canTest]
  | true =>
    cases h with
    | note k hpc =>
      have hpos : s.musicPosition < musicSize := by simp_all [PosInv]
      simp [positionsLeft, hd, hpc, DancePc.tested, DancePc.afterTest]
      omega
    | rest k hpc =>
      have hpos : s.musicPosition < musicSize := by simp_all [PosInv]
      simp [positionsLeft, hd, hpc, DancePc.tested, DancePc.afterTest]
      omega
    | incStore v hpc =>
      have hv : v < musicSize := by simp_all [PosInv]
      simp [positionsLeft, hd, hpc, DancePc.tested, DancePc.afterTest, u16_succ hv]
    | stop p hpc =>
      cases p <;> simp [positionsLeft, hd, hpc, DancePc.tested, DancePc.afterTest, StopPc.exec,
        StopPc.next, DancePc.canTest]
    | _ hpc => simp_all [positionsLeft, DancePc.tested, DancePc.afterTest]

/-- **A song is not played beyond its end.**  From any reachable state, `Dance` plays at most
`MUSIC_SIZE` positions until the next dance is started, whatever stops, pauses and preemptions
there are. -/
theorem length_played_le_musicSize (hs : Reachable freq s)
    (h : Run (threads freq).step s tr t) (hC : ∀ x ∈ tr, startsDance x.1 x.2 = false) :
    (events played tr).length ≤ musicSize := by
  have hle := h.length_events_le positionsLeft played
    (P := fun t => MsInv freq t ∧ PosInv t) (C := fun t a => startsDance t a = false) hC hs.msInv ?_
  · have hmax := positionsLeft_le s
    omega
  · rintro t a u ⟨hm, hp⟩ hCt hu
    obtain ⟨i, rfl, hi⟩ | ⟨i, rfl, hb, hi⟩ := step_cases hu
    · have hne : t.msPc ≠ .restartFlag := by simpa [startsDance] using hCt
      exact ⟨⟨hi.msInv hm, hi.posInv hp⟩, hi.positionsLeft_le hm hp hne⟩
    · exact ⟨⟨hi.msInv hb hm, hi.posInv hp⟩, hi.positionsLeft_le hp⟩

/-- Three positions of the Japanese song, from the state in which it was started. -/
theorem length_played_startDance : ∃ s tr t, Reachable concertPitch s ∧
    Run (threads concertPitch).step s tr t ∧ (∀ x ∈ tr, startsDance x.1 x.2 = false) ∧
      events played tr = [0, 1, 2] ∧ (events played tr).length ≤ musicSize := by
  obtain ⟨s, tr, t, hs, h, hC, hev⟩ := exists_run_run (threads concertPitch).step powerUp
    (startDance .japan) (fun _ => danceFor 60 (clear 1 .japan))
    (P := fun _ tr _ => (∀ x ∈ tr, startsDance x.1 x.2 = false) ∧
      events played tr = [0, 1, 2])
    (by decide +kernel)
  exact ⟨s, tr, t, ⟨_, hs⟩, h, hC, hev, length_played_le_musicSize ⟨_, hs⟩ h hC⟩

/-! ### A dance ends -/

/-- How many steps `Dance` is from `loop`, when it is not interrupted. -/
def DancePc.toLoop : DancePc → ℕ
  | .readState d => if d then 20 else 23
  | .readDancing w => if w then 20 else 23
  | .idle => 22
  | .loop => 21
  | .getTime => 19
  | .testLoad => 18
  | .testRead _ => 17
  | .playLoad => 16
  | .playRead _ => 15
  | .play _ => 14
  | .silenceDac => 14
  | .figureLeft => 13
  | .silenceLeft => 13
  | .figureRight _ => 12
  | .silenceRight => 12
  | .rythmLoad => 11
  | .rythmRead _ => 10
  | .deadlineLoad => 9
  | .deadlineRead _ => 8
  | .sleepUntil _ => 7
  | .noteStop => 6
  | .sleepGap => 5
  | .incLoad => 4
  | .incStore _ => 3
  | .testEnd => 2
  | .stop .flag => 1
  | .stop .position => 25
  | .stop .left => 24
  | .stop .right => 23
  | .stop .dac => 22

/-- How many steps `Dance` is at most from the end of the dance: 20 for each position
that is still to come. -/
def stepsLeft (s : Robot) : ℕ :=
  if s.isDancing then
    s.dancePc.toLoop + 20 * match s.dancePc with
      | .stop .flag => 0
      | .stop .position => musicSize - 1
      | .incStore v => musicSize - (v + 1)
      | .testEnd => musicSize - s.musicPosition
      | _ => musicSize - (s.musicPosition + 1)
  else 0

/-- The longest way starts at the second statement of a `stop_dancing` and goes through a whole
note. -/
theorem DancePc.toLoop_le (pc : DancePc) : pc.toLoop ≤ 25 := by
  cases pc with
  | readState d => cases d <;> decide
  | readDancing w => cases w <;> decide
  | stop p => cases p <;> decide
  | _ => show _ ≤ 25; simp [toLoop]

/-- The longest dance, of 1105 steps: a restart has come between the statements of the
`stop_dancing` of the one before. -/
theorem stepsLeft_le (s : Robot) : stepsLeft s ≤ 1105 := by
  have hle := s.dancePc.toLoop_le
  have h55 : musicSize = 55 := rfl
  unfold stepsLeft
  split_ifs
  · split
    case h_4 hpc =>
      rw [hpc, DancePc.toLoop]
      omega
    all_goals omega
  · exact Nat.zero_le _

/-- In `WAIT`, a step of `Dance` brings the end of the dance closer: each entry takes at most 20
steps, and the position moves on after each. -/
theorem DanceStep.stepsLeft_lt (h : DanceStep s i u) (hp : PosInv s) (hd : s.isDancing = true)
    (hw : s.robotState = .wait) : stepsLeft u < stepsLeft s := by
  cases h with
  | incStore v hpc =>
    have hv : v < musicSize := by simp_all [PosInv]
    simp [stepsLeft, hd, hpc, DancePc.toLoop, u16_succ hv]
  | notEnded hpc hlt =>
    simp only [stepsLeft, hd, hpc, DancePc.toLoop, if_true]
    omega
  | stop p hpc =>
    cases p <;> simp_all [stepsLeft, DancePc.toLoop, StopPc.exec, StopPc.next]
  | _ hpc => simp_all [stepsLeft, DancePc.toLoop]

/-- In `WAIT`, `ManageStates` does not put the end of the dance off, since it resets the
position only behind a stop. -/
theorem MsStep.stepsLeft_le (h : MsStep freq s i u) (hm : MsInv freq s)
    (hd : s.isDancing = true) (hw : s.robotState = .wait) : stepsLeft u ≤ stepsLeft s := by
  cases h with
  | stop p hpc => cases p <;> simp_all [stepsLeft, StopPc.exec, MsInv]
  | restartPosition hpc => simp_all [MsInv]
  | restartFlag hpc => simp_all [MsInv]
  | _ => exact le_rfl

/-- A step of `Dance`. -/
def danceSteps (_ : Robot) (a : Priority × Input) : Option Unit :=
  if a.1 = .low then some () else none

/-- **A dance that is not interrupted ends**: from any reachable state, as long as the robot is
in `WAIT`, 1106 steps of `Dance` find `is_dancing` false somewhere.  The number of steps left
decreases with every step of `Dance` while the dance is on, and starts at 1105 at most. -/
theorem dance_ends (hs : Reachable freq s) (h : Run (threads freq).step s tr t)
    (hw : ∀ x ∈ tr, x.1.robotState = .wait) (hlong : 1105 < (events danceSteps tr).length) :
    ∃ x ∈ tr, x.1.isDancing = false := by
  by_contra hno
  have hC : ∀ x ∈ tr, x.1.robotState = .wait ∧ x.1.isDancing = true := fun x hx =>
    ⟨hw x hx, Bool.not_eq_false _ ▸ fun hd => hno ⟨x, hx, hd⟩⟩
  have hle := h.length_events_le stepsLeft danceSteps
    (P := fun t => MsInv freq t ∧ PosInv t)
    (C := fun t _ => t.robotState = .wait ∧ t.isDancing = true) hC hs.msInv ?_
  · have hmax := stepsLeft_le s
    omega
  · rintro t a u ⟨hm, hp⟩ ⟨hwt, hdt⟩ hu
    obtain ⟨i, rfl, hi⟩ | ⟨i, rfl, hb, hi⟩ := step_cases hu
    · exact ⟨⟨hi.msInv hm, hi.posInv hp⟩, hi.stepsLeft_le hm hdt hwt⟩
    · exact ⟨⟨hi.msInv hb hm, hi.posInv hp⟩, hi.stepsLeft_lt hp hdt hwt⟩

/-- The Japanese song, played without an interruption. -/
theorem dance_ends_startDance : ∃ s tr t, Reachable concertPitch s ∧
    Run (threads concertPitch).step s tr t ∧ (∀ x ∈ tr, x.1.robotState = .wait) ∧
      (events danceSteps tr).length = 1106 ∧ ∃ x ∈ tr, x.1.isDancing = false := by
  obtain ⟨s, tr, t, hs, h, hw, hev⟩ := exists_run_run (threads concertPitch).step powerUp
    (startDance .japan) (fun _ => danceFor 1106 (clear 1 .japan))
    (P := fun _ tr _ => (∀ x ∈ tr, x.1.robotState = .wait) ∧
      (events danceSteps tr).length = 1106)
    (by decide +kernel)
  exact ⟨s, tr, t, ⟨_, hs⟩, h, hw, hev, dance_ends ⟨_, hs⟩ h hw (by omega)⟩

/-! ### `ManageStates` blocks -/

/-- How many steps `ManageStates` is at most from its next blocking call. -/
def MsPc.toBlocked : MsPc → ℕ
  | .start => 0
  | .waitImage => 0
  | .sleep => 0
  | .init => 21
  | .obstacle => 20
  | .panicLeft => 3
  | .panicRight => 2
  | .setPause => 1
  | .setWait => 19
  | .testSelector => 18
  | .stop .flag => 17
  | .stop .position => 16
  | .stop .left => 15
  | .stop .right => 14
  | .stop .dac => 13
  | .takeSelector => 12
  | .setDetection => 11
  | .testDetection => 10
  | .readStart => 9
  | .testWindow => 8
  | .setFound => 7
  | .takeSelectorAgain => 6
  | .testDance => 5
  | .restartPosition => 4
  | .restartSong => 3
  | .restartFlag => 2
  | .clearCountry => 1

/-- The longest way to a blocking call is the first one: from the reading before the loop
through a whole detection and a restart. -/
theorem MsPc.toBlocked_le (pc : MsPc) : pc.toBlocked ≤ 21 := by
  cases pc with
  | stop p => cases p <;> decide
  | _ => decide

/-- `ManageStates` comes closer to its next blocking call, whichever branch it takes. -/
theorem MsStep.toBlocked_lt (h : MsStep freq s i u) (hb : s.msPc.blocked = false) :
    u.msPc.toBlocked < s.msPc.toBlocked := by
  cases h with
  | stop p hpc => cases p <;> simp [hpc, MsPc.toBlocked, StopPc.next]
  | _ hpc => simp_all [MsPc.blocked, MsPc.toBlocked]

/-- **`Dance` is not starved**: between two blocking calls `ManageStates` makes at most 21
steps, whatever it reads.  Its only loop is the one around `get_flag`, and that blocks in each
pass. -/
theorem manageStates_yields (h : Run (threads freq).step s tr t)
    (hb : ∀ x ∈ tr, x.1.msPc.blocked = false) : tr.length ≤ 21 := by
  have hle := h.length_events_le (fun t => t.msPc.toBlocked) (fun t a => some (t, a))
    (P := fun _ => True) (C := fun t _ => t.msPc.blocked = false) hb trivial ?_
  · have hmax := s.msPc.toBlocked_le
    rw [events, List.filterMap_some] at hle
    omega
  · intro t a u _ hbt hu
    obtain ⟨i, rfl, hi⟩ | ⟨i, rfl, hb', hi⟩ := step_cases hu
    · exact ⟨trivial, hi.toBlocked_lt hbt⟩
    · rw [hbt] at hb'
      cases hb'

/-- `ManageStates` finds the selector turned and makes 13 steps before it waits for an
image. -/
theorem manageStates_yields_detection : ∃ s tr t, Run (threads concertPitch).step s tr t ∧
    (∀ x ∈ tr, x.1.msPc.blocked = false) ∧ t.msPc = .waitImage ∧ tr.length = 13 ∧
      tr.length ≤ 21 := by
  obtain ⟨s, tr, t, -, h, hb, ht, hlen⟩ := exists_run_run (threads concertPitch).step powerUp
    (msFor 2 (clear 0 .france)) (fun _ => msFor 13 (clear 1 .france))
    (P := fun _ tr t => (∀ x ∈ tr, x.1.msPc.blocked = false) ∧ t.msPc = .waitImage ∧
      tr.length = 13)
    (by decide +kernel)
  exact ⟨s, tr, t, h, hb, ht, hlen, manageStates_yields h hb⟩

end Dancing
end JeanBot
