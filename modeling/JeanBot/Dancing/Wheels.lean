/-
# The two wheels

Every figure writes the left motor, then the right one, and so do `stop_motors` and
`panic`.  `ManageStates` may stop both motors between the two writes of a figure, and
then the right wheel turns alone.  The left one never does: wherever `Dance` is not
between the two writes, a left wheel that turns makes one of the four figures with the
right one, and if `ManageStates` has never cut in, the robot stands still or makes one of
the four figures whenever neither thread is between two writes (`wheels`).
-/

import JeanBot.Dancing.Invariants

namespace JeanBot
namespace Dancing

open Lib FlagDetection

variable {freq : Note → ℕ} {s u t : Robot} {i : Input} {tr : List (Robot × (Priority × Input))}

/-- The wheels make a figure. -/
def MakesFigure (s : Robot) : Prop := ∃ r : Figure, s.leftSpeed = r.left ∧ s.rightSpeed = r.right

/-- The figure whose left motor is set and whose right one is not yet. -/
def DancePc.figure : DancePc → Option Figure
  | .figureRight r => some r
  | _ => none

/-- `ManageStates` has stopped the left motor and not yet the right one. -/
def MsPc.stopsRight : MsPc → Bool
  | .panicRight => true
  | .stop .right => true
  | _ => false

/-- `Dance` has stopped the left motor and not yet the right one. -/
def DancePc.stopsRight : DancePc → Bool
  | .silenceRight => true
  | .stop .right => true
  | _ => false

/-- A thread has stopped the left motor and not yet the right one. -/
def betweenStops (s : Robot) : Bool := s.msPc.stopsRight || s.dancePc.stopsRight

/-- `ManageStates` stops the left motor between the two writes of a figure. -/
def cutsIn (s : Robot) (a : Priority × Input) : Bool :=
  a.1 = .high && (s.msPc = .panicLeft || s.msPc = .stop .left) && s.dancePc.figure.isSome

/-- What the wheels do, if `cut` because `ManageStates` may have cut in. -/
structure WheelInv (cut : Prop) (s : Robot) : Prop where
  begun : ∀ r, s.dancePc.figure = some r → s.leftSpeed = r.left ∨ s.leftSpeed = 0 ∧ cut
  stopped : betweenStops s = true → s.leftSpeed = 0
  whole : s.dancePc.figure = none → s.leftSpeed ≠ 0 → MakesFigure s
  still : s.dancePc.figure = none → betweenStops s = false → s.leftSpeed = 0 →
    s.rightSpeed = 0 ∨ cut

variable {cut : Prop}

/-- A step that changes neither the wheels nor what the threads are between keeps the invariant
of the wheels. -/
theorem WheelInv.of_eq (hs : WheelInv cut s) (hl : u.leftSpeed = s.leftSpeed)
    (hr : u.rightSpeed = s.rightSpeed) (hfig : u.dancePc.figure = s.dancePc.figure)
    (hstops : betweenStops u = betweenStops s) : WheelInv cut u := by
  obtain ⟨hbegun, hstopped, hwhole, hstill⟩ := hs
  constructor
  · rwa [hfig, hl]
  · rwa [hstops, hl]
  · rwa [hfig, hl, MakesFigure, hl, hr]
  · rwa [hfig, hstops, hl, hr]

/-- A write that stops the left motor, the right one being next: between the two, only a figure
that was begun before can be cut. -/
theorem WheelInv.stopLeft (hl : u.leftSpeed = 0) (hstops : betweenStops u = true)
    (hcut : u.dancePc.figure.isSome → cut) : WheelInv cut u := by
  constructor
  · intro r hr
    refine Or.inr ⟨hl, hcut ?_⟩
    rw [hr]
    rfl
  · intro _
    exact hl
  · intro _ hne
    exact absurd hl hne
  · intro _ hb
    rw [hstops] at hb
    cases hb

/-- A write that stops the right motor after the left one leaves the robot standing, whatever
the wheels did before. -/
theorem WheelInv.stopRight (hs : WheelInv cut s) (hstops : betweenStops s = true)
    (hl : u.leftSpeed = s.leftSpeed) (hr : u.rightSpeed = 0)
    (hfig : u.dancePc.figure = s.dancePc.figure) : WheelInv cut u := by
  have hzero := hs.stopped hstops
  rw [← hl] at hzero
  constructor
  · rw [hfig, hl]
    exact hs.begun
  · intro _
    exact hzero
  · intro _ hne
    exact absurd hzero hne
  · intro _ _ _
    exact Or.inl hr

/-- `ManageStates` only stops wheels, the left one first.  Where it does so between the two
writes of a figure it cuts in, and the right wheel may go on to turn alone. -/
theorem MsStep.wheelInv (h : MsStep freq s i u) (hs : WheelInv cut s)
    (hcut : cutsIn s (.high, i) = true → cut) : WheelInv cut u := by
  cases h with
  | panicLeft hpc =>
    refine .stopLeft rfl rfl fun hf => hcut ?_
    have hf' : s.dancePc.figure.isSome = true := hf
    simp [cutsIn, hpc, hf']
  | panicRight hpc => exact hs.stopRight (by rw [betweenStops, hpc]; rfl) rfl rfl rfl
  | stop p hpc =>
    cases p with
    | left =>
      refine .stopLeft rfl rfl fun hf => hcut ?_
      have hf' : s.dancePc.figure.isSome = true := hf
      simp [cutsIn, hpc, hf']
    | right => exact hs.stopRight (by rw [betweenStops, hpc]; rfl) rfl rfl rfl
    | _ => exact hs.of_eq rfl rfl rfl (by rw [betweenStops, betweenStops, hpc]; rfl)
  | _ hpc => exact hs.of_eq rfl rfl rfl (by rw [betweenStops, betweenStops, hpc]; rfl)

/-- Where `Dance` runs, `ManageStates` is blocked, so it is not between its two writes to the
motors. -/
theorem MsPc.stopsRight_of_blocked {pc : MsPc} (h : pc.blocked = true) :
    pc.stopsRight = false := by
  obtain rfl | rfl | rfl := MsPc.blocked_cases h <;> rfl

/-- `Dance` writes both wheels of a figure or stops both, the left one first each time.  Between
its two writes only `ManageStates` can have written the left wheel, and then it has cut in. -/
theorem DanceStep.wheelInv (h : DanceStep s i u) (hb : s.msPc.blocked = true)
    (hs : WheelInv cut s) : WheelInv cut u := by
  have hms := MsPc.stopsRight_of_blocked hb
  cases h with
  | figureLeft r hpc hr =>
    constructor
    · intro r' hr'
      obtain rfl : r = r' := Option.some.inj hr'
      exact Or.inl rfl
    · intro hstops
      have hstops' : (s.msPc.stopsRight || false) = true := hstops
      simp [hms] at hstops'
    · intro hnone
      cases hnone
    · intro hnone
      cases hnone
  | figureRight r hpc =>
    have hbegun := hs.begun r (by rw [hpc]; rfl)
    constructor
    · intro r' hr'
      cases hr'
    · intro hstops
      have hstops' : (s.msPc.stopsRight || false) = true := hstops
      simp [hms] at hstops'
    · intro _ hne
      rcases hbegun with hl | ⟨hl, _⟩
      · exact ⟨r, hl, rfl⟩
      · exact absurd hl hne
    · intro _ _ hzero
      rcases hbegun with hl | ⟨_, hcut⟩
      · exact absurd (hl.symm.trans hzero) r.left_ne_zero
      · exact Or.inr hcut
  | silenceLeft hpc => exact .stopLeft rfl (Bool.or_true _) fun hf => by cases hf
  | silenceRight hpc =>
    refine hs.stopRight ?_ rfl rfl (by rw [hpc]; rfl)
    rw [betweenStops, hpc]
    exact Bool.or_true _
  | stop p hpc =>
    cases p with
    | left => exact .stopLeft rfl (Bool.or_true _) fun hf => by cases hf
    | right =>
      refine hs.stopRight ?_ rfl rfl (by rw [hpc]; rfl)
      rw [betweenStops, hpc]
      exact Bool.or_true _
    | _ => exact hs.of_eq rfl rfl (by rw [hpc]; rfl) (by rw [betweenStops, betweenStops, hpc]; rfl)
  | _ => exact hs.of_eq rfl rfl (by simp_all; rfl) (by simp_all [betweenStops]; rfl)

/-- What the wheels do in every run from power-up, with `cut` for what may have happened between
the two writes of a figure. -/
theorem wheelInv_of_run (h : Run (threads freq).step powerUp tr t)
    (hcut : ∀ x ∈ tr, cutsIn x.1 x.2 = true → cut) : WheelInv cut t := by
  refine h.invariant (C := fun s a => cutsIn s a = true → cut) hcut ?_ ?_
  · constructor <;> intros <;> simp_all [powerUp, DancePc.figure]
  · intro s a u hs hCa hstep
    obtain ⟨i, rfl, hu⟩ | ⟨i, rfl, hb, hu⟩ := step_cases hstep
    · exact hu.wheelInv hs hCa
    · exact hu.wheelInv hb hs

/-- **The wheels make the figures and nothing else.**  Wherever `Dance` is not between the
two writes of a figure, a left wheel that turns makes a figure with the right one.  In a run
in which `ManageStates` never stops the left motor between these two writes, the robot
stands still or makes a figure wherever neither thread is between two writes. -/
theorem wheels (h : Run (threads freq).step powerUp tr t) (hfig : t.dancePc.figure = none) :
    (t.leftSpeed ≠ 0 → MakesFigure t) ∧
      ((∀ x ∈ tr, cutsIn x.1 x.2 = false) → betweenStops t = false →
        t.leftSpeed = 0 ∧ t.rightSpeed = 0 ∨ MakesFigure t) := by
  have hinv := wheelInv_of_run h fun x hx hc => (⟨x, hx, hc⟩ : ∃ x ∈ tr, cutsIn x.1 x.2 = true)
  refine ⟨hinv.whole hfig, fun hnever hb => ?_⟩
  by_cases hl : t.leftSpeed = 0
  · refine Or.inl ⟨hl, (hinv.still hfig hb hl).resolve_right ?_⟩
    rintro ⟨x, hx, hc⟩
    rw [hnever x hx] at hc
    cases hc
  · exact Or.inr (hinv.whole hfig hl)

/-- The first figure of a song: the left wheel turns at `DANCE_SPEED`, and the right one makes a
figure with it. -/
theorem wheels_startDance : ∃ tr t, Run (threads concertPitch).step powerUp tr t ∧
    t.dancePc.figure = none ∧ (∀ x ∈ tr, cutsIn x.1 x.2 = false) ∧ betweenStops t = false ∧
      t.leftSpeed = danceSpeed ∧ MakesFigure t ∧
      (t.leftSpeed = 0 ∧ t.rightSpeed = 0 ∨ MakesFigure t) := by
  obtain ⟨t, h, hfig, hl, hb, hnever⟩ := exists_run (threads concertPitch).step powerUp
    (startDance .france ++ danceFor 10 (clear 1 .france))
    (P := fun t => t.dancePc.figure = none ∧ t.leftSpeed = danceSpeed ∧ betweenStops t = false ∧
      ∀ x ∈ trace (threads concertPitch).step powerUp
        (startDance .france ++ danceFor 10 (clear 1 .france)), cutsIn x.1 x.2 = false)
    (by decide +kernel)
  obtain ⟨hwhole, hstill⟩ := wheels h hfig
  have hne : t.leftSpeed ≠ 0 := by
    rw [hl]
    decide
  exact ⟨_, t, h, hfig, hnever, hb, hl, hwhole hne, hstill hnever hb⟩

/-- An obstacle that appears between the two writes of a figure leaves the right wheel to
turn alone in `PAUSE`. -/
theorem exists_right_alone : ∃ tr t, Run (threads concertPitch).step powerUp tr t ∧
    t.robotState = .pause ∧ t.leftSpeed = 0 ∧ t.rightSpeed = danceSpeed := by
  obtain ⟨t, h, ht⟩ := exists_run (threads concertPitch).step powerUp
    (startDance .france ++ danceFor 9 (clear 1 .france) ++ msFor 5 (near 1) ++
      danceFor 1 (clear 1 .france))
    (P := fun t => t.robotState = .pause ∧ t.leftSpeed = 0 ∧ t.rightSpeed = danceSpeed)
    (by decide +kernel)
  exact ⟨_, t, h, ht⟩

end Dancing
end JeanBot
