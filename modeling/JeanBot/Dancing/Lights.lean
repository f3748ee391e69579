/-
# What the lamps show

The commands to the LEDs that `Robot` leaves out: `panic` lights LED1, LED3, LED5, LED7
and the front LED before it stops the motors, `unpanic` clears them, and `ManageStates`
lights the body LED around the detection window.  `lit` is the model of the two threads
with these statements at their places.  The LED functions belong to the board: `set_led`,
`set_front_led` and `set_body_led` set the LED they name, and of `clear_leds` it is only
assumed that LED1 to LED7 are off after it and that it lights none (`ClearsLeds`).

The lamps then tell the state of the robot: whenever `Dance` can run, the red ones are
lit if and only if the robot is in `PAUSE`, which is if the last scan of the proximity
sensors found one above the threshold, and the body LED is lit if and only if the robot is
in `FLAG_DETECTION` (`lamps_tell_state`).  As with any commands to a device that nothing
reads, the robot in `lit` is the robot of `threads` (`lit_reaches_iff`).
-/

import JeanBot.Lib.Commands
import JeanBot.Dancing.Invariants

namespace JeanBot
namespace Dancing

open Lib FlagDetection

/-! ### The LEDs -/

/-- The LEDs that the program uses. -/
inductive Lamp
  | led1
  | led3
  | led5
  | led7
  | front
  | body
  deriving DecidableEq, Repr

/-- Which LEDs are lit. -/
abbrev Lamps := Lamp → Bool

/-- The calls of the LED functions: `set_led`, `set_front_led` and `set_body_led` on the one
hand, `clear_leds` on the other. -/
inductive Command
  | set (lamp : Lamp) (value : Bool)
  | clear
  deriving DecidableEq, Repr

/-- What a call does, `clear_leds` being that of the board. -/
def Command.exec (clearLeds : Lamps → Lamps) : Command → Lamps → Lamps
  | .set lamp value, lamps => Function.update lamps lamp value
  | .clear, lamps => clearLeds lamps

/-- What is assumed of `clear_leds`. -/
structure ClearsLeds (clearLeds : Lamps → Lamps) : Prop where
  off : ∀ lamps, ∀ lamp ∈ [Lamp.led1, .led3, .led5, .led7], clearLeds lamps lamp = false
  lightsNone : ∀ lamps lamp, clearLeds lamps lamp = true → lamps lamp = true

/-- The LEDs in `panic`. -/
def panicLeds : List Command :=
  [.set .led1 true, .set .led3 true, .set .led5 true, .set .led7 true, .set .front true]

/-- `unpanic`. -/
def unpanicLeds : List Command := [.clear, .set .front false]

/-- The calls between two statements of `ManageStates`. -/
def ledCalls (s u : Robot) : List Command :=
  match s.msPc, u.msPc with
  | .obstacle, .panicLeft => panicLeds
  | .obstacle, .setWait => unpanicLeds
  | .testDetection, .readStart => [.set .body true]
  | .takeSelectorAgain, .testDance => [.set .body false]
  | _, _ => []

/-- The two threads with the calls of the LED functions. -/
def lit (freq : Note → ℕ) (clearLeds : Lamps → Lamps) :
    Threads (Commanded Robot Lamps Command) Input :=
  (threads freq).commanding (Command.exec clearLeds) ledCalls

/-- Power-up, all LEDs off. -/
def litPowerUp : Commanded Robot Lamps Command := ⟨powerUp, fun _ => false, []⟩

variable {freq : Note → ℕ} {clearLeds : Lamps → Lamps} {s u : Robot} {i : Input}
  {t : Commanded Robot Lamps Command}
  {tr : List (Commanded Robot Lamps Command × (Priority × Input))}

/-- The model with the LEDs sits on the model without them: by the rule for commands
(`commanding_reaches_iff`) the threads have the same runs in both, so their invariants hold
here. -/
theorem lit_reaches_iff (freq : Note → ℕ) (clearLeds : Lamps → Lamps) (s t : Robot)
    (lamps : Lamps) :
    (∃ tr lamps', Run (lit freq clearLeds).step ⟨s, lamps, []⟩ tr ⟨t, lamps', []⟩) ↔
      ∃ tr, Run (threads freq).step s tr t :=
  commanding_reaches_iff s t lamps

/-! ### Lamps and statements -/

/-- The red lamps at a statement of `ManageStates`. -/
def redLit (s : Robot) : Bool :=
  match s.msPc with
  | .panicLeft | .panicRight | .setPause => true
  | .start | .init | .obstacle | .sleep => s.robotState = .pause
  | _ => false

/-- The body LED at a statement of `ManageStates`. -/
def bodyLit (s : Robot) : Bool :=
  match s.msPc with
  | .readStart | .testWindow | .waitImage | .setFound | .takeSelectorAgain => true
  | _ => false

/-- The lamps at a statement of `ManageStates`. -/
def shownLamps (s : Robot) : Lamps
  | .body => bodyLit s
  | _ => redLit s

/-- `unpanic` puts the red lamps out and leaves the body LED out, if that was out before: it
writes no body LED itself. -/
theorem executed_unpanicLeds (hclear : ClearsLeds clearLeds) {lamps : Lamps}
    (hbody : lamps .body = false) :
    executed (Command.exec clearLeds) lamps unpanicLeds = fun _ => false := by
  have hoff := hclear.off lamps
  have hbody' : clearLeds lamps .body = false :=
    Bool.eq_false_iff.2 fun h => Bool.eq_false_iff.1 hbody (hclear.lightsNone _ _ h)
  funext lamp
  show Function.update (clearLeds lamps) .front false lamp = false
  by_cases hf : lamp = .front
  · rw [hf, Function.update_self]
  · rw [Function.update_of_ne hf]
    cases lamp with
    | front => exact absurd rfl hf
    | body => exact hbody'
    | _ => exact hoff _ (by decide)

/-- What a step leaves the LED functions to do takes the lamps of one statement to those of the
next.  Only the two branches behind the scan and the two ends of the detection call any. -/
theorem MsStep.shownLamps (h : MsStep freq s i u) (hm : MsInv freq s)
    (hclear : ClearsLeds clearLeds) :
    executed (Command.exec clearLeds) (Dancing.shownLamps s) (ledCalls s u) =
      Dancing.shownLamps u := by
  cases h with
  | unpanic hpc =>
    have hbody : Dancing.shownLamps s .body = false := by
      simp [Dancing.shownLamps, bodyLit, hpc]
    simp only [ledCalls, hpc, executed_unpanicLeds hclear hbody]
    funext lamp
    cases lamp <;> rfl
  | stop p hpc =>
    funext lamp
    cases p <;> cases lamp <;>
      simp [executed, ledCalls, hpc, StopPc.next, Dancing.shownLamps, redLit, bodyLit]
  | _ hpc =>
    simp only [MsInv, hpc] at hm
    funext lamp
    cases lamp <;> simp_all [executed, ledCalls, panicLeds, Command.exec, Function.update,
      Dancing.shownLamps, redLit, bodyLit]

/-- `Dance` calls no LED function, and what the lamps should show depends on nothing that it
writes. -/
theorem DanceStep.shownLamps (h : DanceStep s i u) :
    Dancing.shownLamps u = Dancing.shownLamps s := by
  have hf := h.frame
  funext lamp
  cases lamp <;> simp only [Dancing.shownLamps, redLit, bodyLit, hf.msPc, hf.robotState]

/-- In every run the commands that are left make the lamps those of the statement, so where none
is left the lamps are those. -/
theorem lit_settled (hclear : ClearsLeds clearLeds)
    (h : Run (lit freq clearLeds).step litPowerUp tr t) :
    MsInv freq t.state ∧ t.settled (Command.exec clearLeds) = shownLamps t.state := by
  refine commanding_settled h inv_powerUp.ms ?_ ?_ ?_ ?_
  · funext lamp
    cases lamp <;> rfl
  · intro s a u hm hs
    obtain ⟨i, -, hu⟩ | ⟨i, -, hb, hu⟩ := step_cases hs
    · exact hu.msInv hm
    · exact hu.msInv hb hm
  · intro s i u hm hs
    obtain ⟨j, -, hu⟩ | ⟨j, ha, -⟩ := step_cases hs
    · exact hu.shownLamps hm hclear
    · cases (Prod.mk.inj ha).1
  · intro s i u _ hs
    obtain ⟨j, ha, -⟩ | ⟨j, -, -, hu⟩ := step_cases hs
    · cases (Prod.mk.inj ha).1
    · exact hu.shownLamps

/-! ### The last scan -/

/-- The loop of `obstacle_detected` finds a value above `m` exactly where it begins with one or
reads one. -/
theorem lt_foldl_max_iff (f : Fin 8 → ℤ) (l : List (Fin 8)) (a m : ℤ) :
    m < l.foldl (fun maxProximity k => if f k > maxProximity then f k else maxProximity) a ↔
      m < a ∨ ∃ k ∈ l, m < f k := by
  induction l generalizing a with
  | nil => simp
  | cons k l ih =>
    rw [List.foldl_cons, ih]
    simp only [List.mem_cons, exists_eq_or_imp, ← or_assoc]
    refine or_congr_left ?_
    split_ifs <;> omega

/-- An obstacle is detected where one of the eight sensors reads more than the threshold,
whichever of them it is. -/
theorem obstacleDetected_iff (prox : Fin 8 → ℤ) :
    obstacleDetected prox = true ↔ ∃ k, 100 < prox k := by
  rw [obstacleDetected, decide_eq_true_eq, lt_foldl_max_iff]
  simp

/-- The scan of the sensors in the step: whether one was above the threshold. -/
def scanned (c : Commanded Robot Lamps Command) (a : Priority × Input) : Option Bool :=
  if a.1 = .high ∧ c.todo = [] ∧ c.state.msPc = .obstacle then
    some (decide (∃ k, 100 < a.2.prox k)) else none

/-- What the last scan was, by the statement of `ManageStates`. -/
def LastScan (b : Option Bool) (s : Robot) : Prop :=
  match s.msPc with
  | .start | .init => b = none
  | .panicLeft | .panicRight | .setPause => b = some true
  | .obstacle | .sleep => s.robotState = .pause ↔ b = some true
  | _ => b = some false

/-- Until the next scan, `ManageStates` goes the way on which the last one has sent it, and it
sleeps in `PAUSE` exactly when that was the way through `panic`. -/
theorem MsStep.lastScan (h : MsStep freq s i u) (hm : MsInv freq s) {b : Option Bool}
    (hs : LastScan b s) (hne : s.msPc ≠ .obstacle) : LastScan b u := by
  cases h with
  | stop p hpc => cases p <;> simp_all [LastScan, StopPc.next]
  | _ hpc => simp_all [LastScan, MsInv]

/-- The scan itself: it leads to `panic` exactly when one of the sensors reads more than the
threshold, and to `unpanic` otherwise. -/
theorem MsStep.lastScan_obstacle (h : MsStep freq s i u) (hpc : s.msPc = .obstacle) :
    LastScan (some (decide (∃ k, 100 < i.prox k))) u := by
  cases h with
  | panic _ hd => simpa [LastScan] using (obstacleDetected_iff _).1 hd
  | unpanic _ hd =>
    have hnone : ¬∃ k, 100 < i.prox k := fun hk =>
      Bool.eq_false_iff.1 hd ((obstacleDetected_iff _).2 hk)
    simpa [LastScan] using hnone
  | _ => simp_all

/-- `Dance` scans nothing, and it leaves `ManageStates` and `ROBOT_STATE` where they are. -/
theorem DanceStep.lastScan (h : DanceStep s i u) {b : Option Bool} (hs : LastScan b s) :
    LastScan b u := by
  have hf := h.frame
  rw [LastScan, hf.msPc, hf.robotState]
  exact hs

/-- The robot knows what the last scan was: along every run, `ManageStates` goes the way that it
has sent it. -/
theorem lit_lastScan (h : Run (lit freq clearLeds).step litPowerUp tr t) :
    LastScan (events scanned tr).getLast? t.state := by
  refine (h.history (P := fun tr t => MsInv freq t.state ∧
    LastScan (events scanned tr).getLast? t.state) (C := fun _ _ => True) (fun _ _ => trivial)
    ⟨inv_powerUp.ms, rfl⟩ ?_).2
  rintro tr c a e ⟨hm, hl⟩ - hs
  rw [events_snoc, List.getLast?_append]
  rcases commanding_cases hs with ⟨k, ks, htodo, rfl⟩ | ⟨hstep, htodo, -⟩
  · have hnone : scanned c a = none := if_neg fun h => by simp [h.2.1] at htodo
    rw [hnone]
    exact ⟨hm, hl⟩
  · obtain ⟨i, rfl, hu⟩ | ⟨i, rfl, hb, hu⟩ := step_cases hstep
    · refine ⟨hu.msInv hm, ?_⟩
      by_cases hpc : c.state.msPc = .obstacle
      · rw [scanned, if_pos ⟨rfl, htodo, hpc⟩]
        exact hu.lastScan_obstacle hpc
      · rw [scanned, if_neg fun h => hpc h.2.2]
        exact hu.lastScan hm hl hpc
    · refine ⟨hu.msInv hb hm, ?_⟩
      rw [scanned, if_neg fun h => by cases h.1]
      exact hu.lastScan hl

/-- **The lamps tell the state of the robot.**  Whenever `Dance` can run, the red lamps are
lit if and only if the robot is in `PAUSE`, if and only if the last scan found a sensor
above the threshold, and the body LED is lit if and only if it is in `FLAG_DETECTION`. -/
theorem lamps_tell_state (hclear : ClearsLeds clearLeds)
    (h : Run (lit freq clearLeds).step litPowerUp tr t)
    (hb : (lit freq clearLeds).blocked t = true) :
    (∀ lamp ≠ .body, t.device lamp = true ↔ t.state.robotState = .pause) ∧
      (t.state.robotState = .pause ↔ (events scanned tr).getLast? = some true) ∧
      (t.device .body = true ↔ t.state.robotState = .flagDetection) := by
  obtain ⟨hm, hset⟩ := lit_settled hclear h
  have hscan := lit_lastScan h
  obtain ⟨hblocked, htodo⟩ := Bool.and_eq_true_iff.1 hb
  rw [Commanded.settled, List.isEmpty_iff.1 htodo] at hset
  have hdev : t.device = shownLamps t.state := hset
  rw [hdev]
  obtain hpc | hpc | hpc := MsPc.blocked_cases hblocked <;>
    simp only [MsInv, LastScan, hpc] at hm hscan
  · refine ⟨fun lamp hl => ?_, ?_, ?_⟩
    · cases lamp <;> simp_all [shownLamps, redLit]
    · simp [hm, hscan]
    · simp [hm, shownLamps, bodyLit, hpc]
  · refine ⟨fun lamp hl => ?_, ?_, ?_⟩
    · cases lamp <;> simp_all [shownLamps, redLit]
    · simp [hm, hscan]
    · simp [hm, shownLamps, bodyLit, hpc]
  · refine ⟨fun lamp hl => ?_, hscan, ?_⟩
    · cases lamp <;> simp_all [shownLamps, redLit]
    · simp [hm, shownLamps, bodyLit, hpc]

/-- A `clear_leds` that leaves the front and the body LED alone. -/
def clearRing (lamps : Lamps) : Lamps
  | .front => lamps .front
  | .body => lamps .body
  | _ => false

/-- What is assumed of `clear_leds` holds of a function that puts all LEDs out but the front and
the body LED. -/
theorem clearsLeds_clearRing : ClearsLeds clearRing where
  off := fun lamps lamp h => by cases lamp <;> first | rfl | exact absurd h (by decide)
  lightsNone := fun lamps lamp h => by cases lamp <;> first | exact h | cases h

/-- An obstacle appears, and later it is gone and a flag is looked for. -/
def obstacleThenFlag : List (Priority × Input) :=
  msFor 11 (near 0) ++ danceFor 3 (near 0) ++ msFor 17 (clear 1 .undefinedFlag)

/-- While the robot looks for the flag the body LED is lit, and the front LED, lit by the
obstacle, is out again. -/
theorem lamps_tell_state_obstacleThenFlag : ∃ tr t,
    Run (lit concertPitch clearRing).step litPowerUp tr t ∧
      (lit concertPitch clearRing).blocked t = true ∧ t.state.robotState = .flagDetection ∧
      t.device .body = true ∧ t.device .front = false := by
  obtain ⟨t, h, hb, hd⟩ := exists_run (lit concertPitch clearRing).step litPowerUp
    obstacleThenFlag (P := fun t => (lit concertPitch clearRing).blocked t = true ∧
      t.state.robotState = .flagDetection) (by decide +kernel)
  obtain ⟨hred, -, hbody⟩ := lamps_tell_state clearsLeds_clearRing h hb
  refine ⟨_, t, h, hb, hd, hbody.2 hd, Bool.eq_false_iff.2 fun hf => ?_⟩
  have hp := (hred .front (by decide)).1 hf
  rw [hd] at hp
  cases hp

end Dancing
end JeanBot
