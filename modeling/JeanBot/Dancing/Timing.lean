/-
# The two threads against the clock

`Dance` waits in three calls, `ManageStates` in one besides the image:

| call | waits for |
| --- | --- |
| `chThdSleepUntilWindowed(time, d)` | `sleepUntilWindowed time d now` ticks |
| `chThdSleep(note_offset)` | 20 ticks |
| `chThdSleep(100)` | 100 ticks |

`Clocked` is the robot with the true time, in ticks, and a `Moment` is a step with the
time at which the thread comes to the statement and the time at which it has executed
it: it waits at least as long as the call says, and as long as the schedule makes it
wait besides.  The clock that the thread reads is the true time modulo `2 ^ 32`.

A timed run is a run of the two threads (`Clocked.run_threads`), so what holds of all
their runs holds of it.  `sleepUntilWindowed` belongs to the kernel and is a
parameter; `Windowed` is what its documentation says.
-/

import JeanBot.Dancing.Playback
import JeanBot.Lib.Clock

namespace JeanBot
namespace Dancing

open Lib FlagDetection

/-- The robot, the time of the last step, the time of the last step of each thread, the
true time that `Dance` has read into `time`, and how long `Dance` was late in all. -/
structure Clocked where
  robot : Robot
  now : ℕ
  last : Priority → ℕ
  noteStart : ℕ
  lag : ℕ

/-- Power-up at time 0. -/
def Clocked.powerUp : Clocked := ⟨Dancing.powerUp, 0, fun _ => 0, 0, 0⟩

/-- A step: the thread comes to its statement at time `call` and has executed it at
time `time`. -/
structure Moment where
  priority : Priority
  input : Input
  call : ℕ
  time : ℕ

/-- What `chThdSleepUntilWindowed(prev, next)` does at `now`: it sleeps until `next` if
`now` lies between `prev` and `next`, and not at all otherwise. -/
def Windowed (sleepUntilWindowed : BitVec 32 → BitVec 32 → BitVec 32 → ℕ) : Prop :=
  ∀ prev next now, sleepUntilWindowed prev next now = windowedSleep prev next now

section Model

variable (freq : Note → ℕ) (sleepUntilWindowed : BitVec 32 → BitVec 32 → BitVec 32 → ℕ)

/-- The ticks that the statement waits for. -/
def sleepTicks (s : Robot) (m : Moment) : ℕ :=
  match m.priority with
  | .high =>
    match s.msPc with
    | .sleep => 100
    | _ => 0
  | .low =>
    match s.dancePc with
    | .sleepUntil d => sleepUntilWindowed s.time d (BitVec.ofNat 32 m.call)
    | .sleepGap => noteOffset
    | .idle => 100
    | _ => 0

/-- `Dance` is between its clock reading and its windowed sleep. -/
def DancePc.inNote : DancePc → Bool
  | .testLoad | .testRead _ | .playLoad | .playRead _ | .play _ => true
  | .figureLeft | .figureRight _ | .silenceDac | .silenceLeft | .silenceRight => true
  | .rythmLoad | .rythmRead _ | .deadlineLoad | .deadlineRead _ => true
  | _ => false

/-- How long `Dance` waits in a step besides what the statement asks for.  Before a
windowed sleep this is not counted. -/
def lateness (s : Clocked) (m : Moment) : ℕ :=
  match m.priority with
  | .high => 0
  | .low =>
    match s.robot.dancePc with
    | .sleepUntil _ => m.time - (m.call + sleepTicks sleepUntilWindowed s.robot m)
    | pc =>
      if pc.inNote && noteOffset < s.robot.currentSong.rythmAt s.robot.musicPosition then 0
      else m.time - (s.last .low + sleepTicks sleepUntilWindowed s.robot m)

/-- The moment comes after the last one, its thread comes to the statement after its
last step and waits long enough, and reads the time on the clock. -/
def Moment.fits (s : Clocked) (m : Moment) : Bool :=
  s.now ≤ m.time && s.last m.priority ≤ m.call &&
    m.call + sleepTicks sleepUntilWindowed s.robot m ≤ m.time &&
    m.input.clock = BitVec.ofNat 32 m.time

/-- One step of the two threads in time. -/
def Clocked.step (s : Clocked) (m : Moment) : Option Clocked :=
  if m.fits sleepUntilWindowed s then
    ((threads freq).step s.robot (m.priority, m.input)).map fun u =>
      { robot := u
        now := m.time
        last := Function.update s.last m.priority m.time
        noteStart :=
          if m.priority = .low ∧ s.robot.dancePc = .getTime then m.time else s.noteStart
        lag := s.lag + lateness sleepUntilWindowed s m }
  else none

end Model

section Steps

variable {freq : Note → ℕ} {sleepUntilWindowed : BitVec 32 → BitVec 32 → BitVec 32 → ℕ}
  {s u t : Clocked} {m : Moment} {tr : List (Clocked × Moment)}

/-- What a timed step of `ManageStates` can be: nothing that times `Dance` changes. -/
structure MsMoment (freq : Note → ℕ) (s : Clocked) (m : Moment) (u : Clocked) : Prop where
  priority : m.priority = .high
  step : MsStep freq s.robot m.input u.robot
  later : s.now ≤ u.now
  last : u.last .low = s.last .low
  noteStart : u.noteStart = s.noteStart
  lag : u.lag = s.lag

/-- What a timed step of `Dance` can be. -/
structure DanceMoment (sleepUntilWindowed : BitVec 32 → BitVec 32 → BitVec 32 → ℕ) (s : Clocked)
    (m : Moment) (u : Clocked) : Prop where
  priority : m.priority = .low
  blocked : s.robot.msPc.blocked = true
  dance : dance s.robot m.input = some u.robot
  called : s.last .low ≤ m.call
  waited : m.call + sleepTicks sleepUntilWindowed s.robot m ≤ m.time
  clock : m.input.clock = BitVec.ofNat 32 m.time
  later : s.now ≤ u.now
  now : u.now = m.time
  last : u.last .low = m.time
  noteStart : u.noteStart = if s.robot.dancePc = .getTime then m.time else s.noteStart
  lag : u.lag = s.lag + lateness sleepUntilWindowed s m

/-- What one timed step can be: a branch of one of the threads, with what the clock asks of it.
Everything about timed runs is proved from these two cases. -/
theorem Clocked.step_cases (h : Clocked.step freq sleepUntilWindowed s m = some u) :
    MsMoment freq s m u ∨ DanceMoment sleepUntilWindowed s m u := by
  by_cases hfit : m.fits sleepUntilWindowed s = true
  · rw [Clocked.step, if_pos hfit] at h
    obtain ⟨v, hv, rfl⟩ := Option.map_eq_some_iff.1 h
    simp only [Moment.fits, Bool.and_eq_true, decide_eq_true_eq] at hfit
    obtain ⟨⟨⟨hlater, hcall⟩, hwait⟩, hclock⟩ := hfit
    obtain ⟨i, ha, hi⟩ | ⟨i, ha, hb, hi⟩ := Threads.step_cases hv
    · obtain ⟨hp, rfl⟩ := Prod.mk.inj ha
      exact Or.inl ⟨hp, .of_manageStates hi, hlater, by simp [hp], by simp [hp],
        by simp [lateness, hp]⟩
    · obtain ⟨hp, rfl⟩ := Prod.mk.inj ha
      exact Or.inr ⟨hp, hb, hi, hp ▸ hcall, hwait, hclock, hlater, rfl, by simp [hp], by simp [hp],
        rfl⟩
  · rw [Clocked.step, if_neg hfit] at h
    cases h

/-- `Dance` writes the variable `time` only where it reads the clock, at the start of a note. -/
theorem DanceStep.time_eq {s u : Robot} {i : Input} (h : DanceStep s i u)
    (hpc : s.dancePc ≠ .getTime) : u.time = s.time := by
  cases h with
  | getTime h => exact absurd h hpc
  | stop p _ => cases p <;> rfl
  | _ => rfl

/-- `ManageStates` keeps the clock reading of `Dance`: its own `start_time` is another variable.
-/
theorem MsStep.time_eq {s u : Robot} {i : Input} (h : MsStep freq s i u) : u.time = s.time := by
  cases h with
  | stop p _ => cases p <;> rfl
  | _ => rfl

/-- **A timed step is a step** of the two threads at the inputs of the moment: time only
restricts which steps there are. -/
theorem Clocked.step_threads (h : Clocked.step freq sleepUntilWindowed s m = some u) :
    (threads freq).step s.robot (m.priority, m.input) = some u.robot := by
  by_cases hfit : m.fits sleepUntilWindowed s = true
  · rw [Clocked.step, if_pos hfit] at h
    obtain ⟨v, hv, rfl⟩ := Option.map_eq_some_iff.1 h
    exact hv
  · rw [Clocked.step, if_neg hfit] at h
    cases h

/-- **A timed run is a run** of the two threads, with the times left out, so every invariant of
their runs holds along it. -/
theorem Clocked.run_threads (h : Run (Clocked.step freq sleepUntilWindowed) s tr t) :
    Run (threads freq).step s.robot
      (tr.map fun x => (x.1.robot, (x.2.priority, x.2.input))) t.robot :=
  h.map (f := Clocked.robot) (g := fun m => (m.priority, m.input))
    fun _ _ _ hs => Clocked.step_threads hs

/-- What `Dance` has read from the clock is the time of its last reading. -/
structure ClockInv (s : Clocked) : Prop where
  time : s.robot.time = BitVec.ofNat 32 s.noteStart
  started : s.noteStart ≤ s.last .low

/-- `ManageStates` writes neither the clock reading of `Dance` nor the time of its last step. -/
theorem MsMoment.clockInv (h : MsMoment freq s m u) (hs : ClockInv s) : ClockInv u := by
  refine ⟨?_, ?_⟩
  · rw [h.step.time_eq, h.noteStart]
    exact hs.time
  · rw [h.noteStart, h.last]
    exact hs.started

/-- `Dance` reads the clock at one statement, where the reading is the time of the step, and all
its later steps come after it. -/
theorem DanceMoment.clockInv (h : DanceMoment sleepUntilWindowed s m u) (hs : ClockInv s) :
    ClockInv u := by
  have hstarted := hs.started
  have hcall := h.called
  have hwait := h.waited
  by_cases hpc : s.robot.dancePc = .getTime
  · have hd := h.dance
    rw [Dancing.dance, hpc] at hd
    refine ⟨?_, ?_⟩
    · rw [← Option.some.inj hd, h.noteStart, if_pos hpc]
      exact h.clock
    · rw [h.noteStart, if_pos hpc, h.last]
  · refine ⟨?_, ?_⟩
    · rw [(DanceStep.of_dance h.dance).time_eq hpc, h.noteStart, if_neg hpc]
      exact hs.time
    · rw [h.noteStart, if_neg hpc, h.last]
      omega

/-- The robot gets from power-up to `s` in time. -/
def Clocked.Reachable (freq : Note → ℕ)
    (sleepUntilWindowed : BitVec 32 → BitVec 32 → BitVec 32 → ℕ) (s : Clocked) : Prop :=
  ∃ tr, Run (Clocked.step freq sleepUntilWindowed) Clocked.powerUp tr s

/-- What is reached in time is reached by the threads, so their invariants hold there. -/
theorem Clocked.Reachable.robot (h : Clocked.Reachable freq sleepUntilWindowed s) :
    Dancing.Reachable freq s.robot := by
  obtain ⟨tr, h⟩ := h
  exact ⟨_, Clocked.run_threads h⟩

/-- In every state that is reached in time, the variable `time` shows the true time of the last
clock reading, modulo one turn. -/
theorem Clocked.Reachable.clockInv (h : Clocked.Reachable freq sleepUntilWindowed s) :
    ClockInv s := by
  obtain ⟨tr, h⟩ := h
  refine h.invariant (P := ClockInv) (C := fun _ _ => True) (fun _ _ => trivial) ⟨rfl, le_rfl⟩ ?_
  intro t m u ht _ hs
  obtain hu | hu := Clocked.step_cases hs
  · exact hu.clockInv ht
  · exact hu.clockInv ht

end Steps

/-! ### Schedules in time -/

/-- The moments of a schedule with a delay for each step: the thread comes to the statement
that much later than it could, and has executed it when its sleep is over. -/
def delayed (freq : Note → ℕ) (s : Clocked) : List ((Priority × Input) × ℕ) → List Moment
  | [] => []
  | (a, delay) :: as =>
    let call := s.now + delay
    let m : Moment := ⟨a.1, a.2, call, call⟩
    let time := call + sleepTicks windowedSleep s.robot m
    let m' : Moment := ⟨a.1, { a.2 with clock := BitVec.ofNat 32 time }, call, time⟩
    m' :: match Clocked.step freq windowedSleep s m' with
      | some u => delayed freq u as
      | none => []

/-- The moments of a schedule without delays. -/
def promptly (freq : Note → ℕ) (s : Clocked) (as : List (Priority × Input)) : List Moment :=
  delayed freq s (as.map (·, 0))

end Dancing
end JeanBot
