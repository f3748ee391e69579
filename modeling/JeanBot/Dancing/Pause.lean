/-
# An obstacle stops the motors

`panic` stops both motors and `ROBOT_STATE` becomes `PAUSE`, so that `Dance` does
not enter its guarded branch.  But `Dance` may already be inside: it has passed
the guard, or the test for a silence, and its next steps start the motors again,
while `ManageStates` sleeps.  `armed` is exactly this: `Dance`, running alone and
in `PAUSE`, comes to `change_figure`.

`paused_still`: as long as no obstacle is met while `Dance` is armed, the motors
stand still whenever `ManageStates` sleeps in `PAUSE`.  `moves_in_pause` is a run
in which `Dance` is preempted between its guard and the next statement, and
`exists_moving_in_pause` finds one for every obstacle met while `Dance` is armed.
-/

import JeanBot.Dancing.Invariants

namespace JeanBot
namespace Dancing

open Lib FlagDetection

variable {freq : Note → ℕ} {s u t : Robot} {i : Input} {tr : List (Robot × (Priority × Input))}

/-- `Dance` comes to `change_figure` without passing the guard, or passes the
guard although `ROBOT_STATE` changes. -/
def armed (s : Robot) : Bool :=
  match s.dancePc with
  | .readDancing true => s.isDancing && s.currentSong.noteAt s.musicPosition ≠ 0
  | .getTime | .testLoad => s.currentSong.noteAt s.musicPosition ≠ 0
  | .testRead k => s.currentSong.noteAt k ≠ 0
  | .playLoad | .playRead _ | .play _ | .figureLeft | .figureRight _ => true
  | _ => false

/-- From `panic` on, and while `ManageStates` sleeps in `PAUSE`, `Dance` is not
armed and the motors that were stopped stand still. -/
def PauseInv (s : Robot) : Prop :=
  match s.msPc with
  | .panicRight => armed s = false ∧ s.leftSpeed = 0
  | .setPause => armed s = false ∧ s.leftSpeed = 0 ∧ s.rightSpeed = 0
  | .sleep =>
    s.robotState = .pause → armed s = false ∧ s.leftSpeed = 0 ∧ s.rightSpeed = 0
  | _ => True

/-- Only `panic` leads to a sleep in `PAUSE`: it finds `Dance` unarmed and stops both motors,
one after the other. -/
theorem MsStep.pauseInv (h : MsStep freq s i u) (hm : MsInv freq s) (hs : PauseInv s)
    (hC : s.msPc = .panicLeft → armed s = false) : PauseInv u := by
  cases h with
  | panicLeft hpc => exact ⟨hC hpc, rfl⟩
  | panicRight hpc =>
    simp only [PauseInv, hpc] at hs
    exact ⟨hs.1, hs.2, rfl⟩
  | setPause hpc =>
    simp only [PauseInv, hpc] at hs
    exact fun _ => hs
  | skipRestart hpc hd => simp_all [PauseInv, MsInv]
  | clearCountry hpc => simp_all [PauseInv, MsInv]
  | stop p hpc => cases p <;> trivial
  | _ => trivial

/-- Outside `WAIT`, an unarmed `Dance` stays unarmed and moves no motor: it does not pass its
guard, and within a note it has no `change_figure` in front of it any more. -/
theorem DanceStep.unarmed (h : DanceStep s i u) (hp : s.robotState ≠ .wait)
    (ha : armed s = false) (hl : s.leftSpeed = 0) (hr : s.rightSpeed = 0) :
    armed u = false ∧ u.leftSpeed = 0 ∧ u.rightSpeed = 0 := by
  cases h with
  | stop p hpc => cases p <;> simp_all [armed, StopPc.exec, StopPc.next]
  | _ => simp_all [armed]

/-- Where `Dance` can run, `ManageStates` sleeps, and in `PAUSE` an unarmed `Dance` stays
unarmed and moves nothing. -/
theorem DanceStep.pauseInv (h : DanceStep s i u) (hb : s.msPc.blocked = true)
    (hs : PauseInv s) : PauseInv u := by
  have hf := h.frame
  unfold PauseInv at hs ⊢
  rw [hf.msPc, hf.robotState]
  cases hpc : s.msPc with
  | sleep =>
    rw [hpc] at hs
    intro hp
    obtain ⟨ha, hl, hr⟩ := hs hp
    exact h.unarmed (by simp [hp]) ha hl hr
  | panicRight => rw [hpc] at hb; cases hb
  | setPause => rw [hpc] at hb; cases hb
  | _ => trivial

/-- **An obstacle stops the motors.**  In a run from power-up in which `panic` is never called
while `Dance` is armed, both motors stand still whenever `ManageStates` sleeps in `PAUSE`.  The
condition is one on the states in which `panic` is called, not on the schedule: `panic` may come
anywhere else, and as often as it likes. -/
theorem paused_still (h : Run (threads freq).step powerUp tr t)
    (hC : ∀ x ∈ tr, x.1.msPc = .panicLeft → armed x.1 = false) (hpc : t.msPc = .sleep)
    (hstate : t.robotState = .pause) : t.leftSpeed = 0 ∧ t.rightSpeed = 0 := by
  have hinv : MsInv freq t ∧ PauseInv t := by
    refine Threads.invariant h (P := fun t => MsInv freq t ∧ PauseInv t)
      (C := fun s _ => s.msPc = .panicLeft → armed s = false) hC
      ⟨inv_powerUp.ms, trivial⟩ ?_ ?_
    · rintro s i u ⟨hm, hp⟩ hCs hu
      have hu' := MsStep.of_manageStates hu
      exact ⟨hu'.msInv hm, hu'.pauseInv hm hp hCs⟩
    · rintro s i u ⟨hm, hp⟩ - hb hu
      have hu' := DanceStep.of_dance hu
      exact ⟨hu'.msInv hb hm, hu'.pauseInv hb hp⟩
  have hp := hinv.2
  simp only [PauseInv, hpc] at hp
  exact (hp hstate).2

/-- An obstacle appears while the first note sounds. -/
def pauseInNote : List (Priority × Input) :=
  startDance .france ++ danceFor 16 (clear 1 .france) ++ msFor 5 (near 1)

/-- `Dance` waits for the end of its note then, and nothing turns. -/
theorem paused_still_inNote : ∃ tr t, Run (threads concertPitch).step powerUp tr t ∧
    (∀ x ∈ tr, x.1.msPc = .panicLeft → armed x.1 = false) ∧ t.msPc = .sleep ∧
      t.robotState = .pause ∧ t.isDancing = true ∧ t.leftSpeed = 0 ∧ t.rightSpeed = 0 := by
  obtain ⟨t, h, hpc, hstate, hd⟩ := exists_run (threads concertPitch).step powerUp pauseInNote
    (P := fun t => t.msPc = .sleep ∧ t.robotState = .pause ∧ t.isDancing = true)
    (by decide +kernel)
  have hC : ∀ x ∈ trace (threads concertPitch).step powerUp pauseInNote,
      x.1.msPc = .panicLeft → armed x.1 = false := by decide +kernel
  exact ⟨_, t, h, hC, hpc, hstate, hd, paused_still h hC hpc hstate⟩

/-- An obstacle appears when `Dance` has just passed its guard. -/
def pauseAfterGuard : List (Priority × Input) :=
  startDance .france ++ danceFor 2 (clear 1 .france) ++ msFor 5 (near 1) ++
    danceFor 8 (clear 1 .france)

/-- **The robot moves during a pause**: `Dance` has read both operands of its guard when the
obstacle is met, goes on to `change_figure`, and both motors run while `ManageStates` sleeps in
`PAUSE`. -/
theorem moves_in_pause : ∃ tr t, Run (threads concertPitch).step powerUp tr t ∧
    t.msPc = .sleep ∧ t.robotState = .pause ∧ t.leftSpeed ≠ 0 ∧ t.rightSpeed ≠ 0 :=
  ⟨_, exists_run _ _ pauseAfterGuard (by decide +kernel)⟩

/-! ### Every armed `panic` can fail -/

/-- How many steps an armed `Dance` is at most away from a motor. -/
def DancePc.toMotor : DancePc → ℕ
  | .readDancing _ => 9
  | .getTime => 8
  | .testLoad => 7
  | .testRead _ => 6
  | .playLoad => 5
  | .playRead _ => 4
  | .play _ => 3
  | .figureLeft => 2
  | .figureRight _ => 1
  | _ => 0

/-- An armed `Dance` approaches a motor or moves it, and nothing but a step of `ManageStates`
can take that away from it. -/
theorem DanceStep.armed_step (h : DanceStep s i u) (ha : armed s = true) :
    (armed u = true ∧ u.dancePc.toMotor < s.dancePc.toMotor) ∨ u.leftSpeed ≠ 0 ∨
      u.rightSpeed ≠ 0 := by
  cases h with
  | figureLeft r hpc hr => exact Or.inr (Or.inl r.left_ne_zero)
  | figureRight r hpc => exact Or.inr (Or.inr r.right_ne_zero)
  | readDancingIdle w hpc hw => cases w <;> simp_all [armed]
  | stop p hpc => simp [armed, hpc] at ha
  | _ => simp_all [armed, DancePc.toMotor]

/-- Where `ManageStates` sleeps, an armed `Dance` alone moves a motor: each of its steps brings
it closer to `change_figure`, and every figure turns both wheels. -/
theorem exists_moving_of_armed (freq : Note → ℕ) (hp : PosInv s) (hpc : s.msPc = .sleep)
    (ha : armed s = true) : ∃ tr t, Run (threads freq).step s tr t ∧ t.msPc = .sleep ∧
      t.robotState = s.robotState ∧ (t.leftSpeed ≠ 0 ∨ t.rightSpeed ≠ 0) := by
  -- the distance to the motor decreases
  induction hn : s.dancePc.toMotor using Nat.strong_induction_on generalizing s with
  | _ n ih =>
    obtain ⟨u, hu⟩ := hp.exists_dance (clear 0 .undefinedFlag)
    have hd := DanceStep.of_dance hu
    have hrun : Run (threads freq).step s _ u := Run.nil.snoc (step_low hpc hu)
    have hpcu : u.msPc = .sleep := hd.frame.msPc.trans hpc
    rcases hd.armed_step ha with ⟨ha', hlt⟩ | hmove
    · obtain ⟨tr, t, ht, hpct, hst, hmove⟩ := ih _ (hn ▸ hlt) (hd.posInv hp) hpcu ha' rfl
      exact ⟨_, t, hrun.trans ht, hpct, hst.trans hd.frame.robotState, hmove⟩
    · exact ⟨_, u, hrun, hpcu, hd.frame.robotState, hmove⟩

/-- **Every `panic` that finds `Dance` armed can fail**: there is a schedule after it in which
the robot moves in the pause that follows.  So the condition of `paused_still` leaves out no
`panic` without need. -/
theorem exists_moving_in_pause (h : Reachable freq s) (hpc : s.msPc = .panicLeft)
    (ha : armed s = true) : ∃ tr t, Run (threads freq).step s tr t ∧ t.msPc = .sleep ∧
      t.robotState = .pause ∧ (t.leftSpeed ≠ 0 ∨ t.rightSpeed ≠ 0) := by
  have hp := h.msInv.2
  obtain ⟨tr, t, ht, hpct, hst, hmove⟩ := exists_moving_of_armed freq
    (s := { s with leftSpeed := 0, rightSpeed := 0, robotState := .pause, msPc := .sleep })
    hp rfl ha
  have hms : (msFor 3 (near 0)).foldlM (threads freq).step s = some
      { s with leftSpeed := 0, rightSpeed := 0, robotState := .pause, msPc := .sleep } := by
    simp [msFor, List.replicate, Threads.step, threads, manageStates, hpc]
  exact ⟨_, t, (run_of_foldlM hms).trans ht, hpct, hst, hmove⟩

end Dancing
end JeanBot
