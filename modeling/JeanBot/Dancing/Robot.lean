/-
# The two threads

`ManageStates` (`state.c`) watches the proximity sensors and the selector,
detects flags and starts dances; `Dance` (`dance.c`) plays the song note by
note.  They share `music_position`, `current_song`, `is_dancing`, `ROBOT_STATE`,
the motors and the DAC without a lock.

Each thread is a transition function on the whole `Robot`, driven by its own
program counter.  A step makes at most one access to the shared variables: in
`current_song.notes[music_position]` the position and the entry are read in two
steps, and so are the load and the store of `music_position++`.  What comes from
outside (sensors, selector, clock, detected flag, `rand`) is the `Input` of the
step.

`ManageStates` has the higher priority, so it may step at any time, and `Dance`
only while `ManageStates` is blocked: before it is created, in the
`wait_image_ready` inside `get_flag`, and in its `chThdSleep`.  The LEDs are left
out.  `readDancing` and `readState` are the two orders in which the operands of
the guard `(is_dancing) & (get_robot_state() == WAIT)` may be read.
-/

import JeanBot.Lib.Transition
import JeanBot.Dancing.Songs
import Mathlib.Data.List.FinRange

namespace JeanBot
namespace Dancing

open Lib FlagDetection

/-- `State`. -/
inductive State
  | wait
  | pause
  | flagDetection
  | dance
  deriving DecidableEq, Repr

/-! ### Figures -/

/-- `DANCE_SPEED`, the macros expanded. -/
def danceSpeed : ℤ := (4 * 1000 : ℤ).tdiv 13

/-- `-DANCE_SPEED`, the macros expanded. -/
def negDanceSpeed : ℤ := (-4 * 1000 : ℤ).tdiv 13

/-- `advance`, `reverse`, `rotate_left` and `rotate_right`. -/
inductive Figure
  | advance
  | reverse
  | rotateLeft
  | rotateRight
  deriving DecidableEq, Repr

/-- The speed that a figure sets for the left motor. -/
def Figure.left : Figure → ℤ
  | .advance => danceSpeed
  | .reverse => negDanceSpeed
  | .rotateLeft => negDanceSpeed
  | .rotateRight => danceSpeed

/-- The speed that a figure sets for the right motor. -/
def Figure.right : Figure → ℤ
  | .advance => danceSpeed
  | .reverse => negDanceSpeed
  | .rotateLeft => danceSpeed
  | .rotateRight => negDanceSpeed

/-- The left wheel turns in every figure. -/
theorem Figure.left_ne_zero (r : Figure) : r.left ≠ 0 := by cases r <;> decide

/-- The right wheel turns in every figure. -/
theorem Figure.right_ne_zero (r : Figure) : r.right ≠ 0 := by cases r <;> decide

/-- The choice of `change_figure`. -/
def changeFigure (rand : ℕ) : Figure :=
  if rand % 4 = 0 then .advance
  else if rand % 4 = 1 then .reverse
  else if rand % 4 = 2 then .rotateLeft
  else .rotateRight

/-! ### The state -/

/-- The statements of `stop_dancing`. -/
inductive StopPc
  | flag
  | position
  | left
  | right
  | dac
  deriving DecidableEq, Repr

/-- Where `ManageStates` is: the statement it executes next. -/
inductive MsPc
  | start
  | init
  | obstacle
  | panicLeft
  | panicRight
  | setPause
  | setWait
  | testSelector
  | stop (p : StopPc)
  | takeSelector
  | setDetection
  | testDetection
  | readStart
  | testWindow
  | waitImage
  | setFound
  | takeSelectorAgain
  | testDance
  | restartPosition
  | restartSong
  | restartFlag
  | clearCountry
  | sleep
  deriving DecidableEq, Repr

/-- Where `Dance` is, with the values it has read and not used yet. -/
inductive DancePc
  | loop
  | readState (dancing : Bool)
  | readDancing (waiting : Bool)
  | getTime
  | testLoad
  | testRead (k : ℕ)
  | playLoad
  | playRead (k : ℕ)
  | play (frequency : ℕ)
  | figureLeft
  | figureRight (r : Figure)
  | silenceDac
  | silenceLeft
  | silenceRight
  | rythmLoad
  | rythmRead (k : ℕ)
  | deadlineLoad
  | deadlineRead (k : ℕ)
  | sleepUntil (deadline : BitVec 32)
  | noteStop
  | sleepGap
  | incLoad
  | incStore (v : ℕ)
  | testEnd
  | stop (p : StopPc)
  | idle
  deriving DecidableEq, Repr

/-- The shared variables, the actuators, the statics and locals of the threads
and their program counters. -/
structure Robot where
  musicPosition : ℕ
  currentSong : Music
  isDancing : Bool
  robotState : State
  leftSpeed : ℤ
  rightSpeed : ℤ
  dac : Option ℕ
  country : Flag
  lastSelector : ℤ
  startTime : BitVec 32
  time : BitVec 32
  msPc : MsPc
  dancePc : DancePc

/-- What a step reads from outside: the eight calibrated proximities, the
selector, the clock, the flag that `get_flag` returns, `rand()`, and whether the
guard of `Dance` reads `ROBOT_STATE` before `is_dancing`. -/
structure Input where
  prox : Fin 8 → ℤ
  selector : ℤ
  clock : BitVec 32
  flag : Flag
  rand : ℕ
  stateFirst : Bool

/-- Power-up: the initial values of the statics, motors and DAC off. -/
def powerUp : Robot where
  musicPosition := 0
  currentSong := noMusic
  isDancing := false
  robotState := .wait
  leftSpeed := 0
  rightSpeed := 0
  dac := none
  country := .undefinedFlag
  lastSelector := 0
  startTime := 0
  time := 0
  msPc := .start
  dancePc := .loop

/-! ### `ManageStates` -/

/-- The test of `obstacle_detected` on the highest proximity. -/
def obstacleDetected (prox : Fin 8 → ℤ) : Bool :=
  100 < (List.finRange 8).foldl (fun maxProximity i =>
    if prox i > maxProximity then prox i else maxProximity) 0

/-- `FLAG_DETECTION_DURATION`, in ticks. -/
def flagDetectionDuration : BitVec 32 := 10000

/-- The condition of the loop around `get_flag`. -/
def windowOpen (startTime now : BitVec 32) (country : Flag) : Bool :=
  now < startTime + flagDetectionDuration && country = .undefinedFlag

/-- The effect of one statement of `stop_dancing`. -/
def StopPc.exec (s : Robot) : StopPc → Robot
  | .flag => { s with isDancing := false }
  | .position => { s with musicPosition := 0 }
  | .left => { s with leftSpeed := 0 }
  | .right => { s with rightSpeed := 0 }
  | .dac => { s with dac := none }

/-- The next statement of `stop_dancing`. -/
def StopPc.next : StopPc → Option StopPc
  | .flag => some .position
  | .position => some .left
  | .left => some .right
  | .right => some .dac
  | .dac => none

/-- One step of `ManageStates`. -/
def manageStates (freq : Note → ℕ) (s : Robot) (i : Input) : Option Robot :=
  match s.msPc with
  | .start => some { s with msPc := .init }
  | .init => some { s with lastSelector := i.selector, msPc := .obstacle }
  | .obstacle =>
    if obstacleDetected i.prox then some { s with msPc := .panicLeft }
    else some { s with msPc := .setWait }
  | .panicLeft => some { s with leftSpeed := 0, msPc := .panicRight }
  | .panicRight => some { s with rightSpeed := 0, msPc := .setPause }
  | .setPause => some { s with robotState := .pause, msPc := .sleep }
  | .setWait => some { s with robotState := .wait, msPc := .testSelector }
  | .testSelector =>
    if i.selector ≠ s.lastSelector then some { s with msPc := .stop .flag }
    else some { s with msPc := .testDetection }
  | .stop p => some { p.exec s with msPc := (p.next.map .stop).getD .takeSelector }
  | .takeSelector => some { s with lastSelector := i.selector, msPc := .setDetection }
  | .setDetection => some { s with robotState := .flagDetection, msPc := .testDetection }
  | .testDetection =>
    if s.robotState = .flagDetection then some { s with msPc := .readStart }
    else some { s with msPc := .testDance }
  | .readStart => some { s with startTime := i.clock, msPc := .testWindow }
  | .testWindow =>
    if windowOpen s.startTime i.clock s.country then some { s with msPc := .waitImage }
    else some { s with msPc := .setFound }
  | .waitImage => some { s with country := i.flag, msPc := .testWindow }
  | .setFound =>
    some { s with
      robotState := if s.country = .undefinedFlag then .wait else .dance
      msPc := .takeSelectorAgain }
  | .takeSelectorAgain => some { s with lastSelector := i.selector, msPc := .testDance }
  | .testDance =>
    if s.robotState = .dance then some { s with msPc := .restartPosition }
    else some { s with msPc := .sleep }
  | .restartPosition => some { s with musicPosition := 0, msPc := .restartSong }
  | .restartSong =>
    some { s with currentSong := lutFlagToMusic freq s.country, msPc := .restartFlag }
  | .restartFlag => some { s with isDancing := true, msPc := .clearCountry }
  | .clearCountry => some { s with country := .undefinedFlag, msPc := .sleep }
  | .sleep => some { s with msPc := .obstacle }

/-- The calls in which `ManageStates` lets `Dance` run, and the time before it is
created. -/
def MsPc.blocked : MsPc → Bool
  | .start => true
  | .waitImage => true
  | .sleep => true
  | _ => false

/-! ### `Dance` -/

/-- One step of `Dance`, impossible where it accesses `notes` or `rythm` out of
bounds. -/
def dance (s : Robot) (i : Input) : Option Robot :=
  match s.dancePc with
  | .loop =>
    if i.stateFirst then some { s with dancePc := .readDancing (s.robotState = .wait) }
    else some { s with dancePc := .readState s.isDancing }
  | .readState dancing =>
    if dancing && s.robotState = .wait then some { s with dancePc := .getTime }
    else some { s with dancePc := .idle }
  | .readDancing waiting =>
    if s.isDancing && waiting then some { s with dancePc := .getTime }
    else some { s with dancePc := .idle }
  | .getTime => some { s with time := i.clock, dancePc := .testLoad }
  | .testLoad => some { s with dancePc := .testRead s.musicPosition }
  | .testRead k => do
    let note ← load s.currentSong.notes k
    if note ≠ 0 then some { s with dancePc := .playLoad }
    else some { s with dancePc := .silenceDac }
  | .playLoad => some { s with dancePc := .playRead s.musicPosition }
  | .playRead k => do
    let note ← load s.currentSong.notes k
    some { s with dancePc := .play note }
  | .play frequency => some { s with dac := some frequency, dancePc := .figureLeft }
  | .figureLeft =>
    let r := changeFigure i.rand
    some { s with leftSpeed := r.left, dancePc := .figureRight r }
  | .figureRight r => some { s with rightSpeed := r.right, dancePc := .rythmLoad }
  | .silenceDac => some { s with dac := none, dancePc := .silenceLeft }
  | .silenceLeft => some { s with leftSpeed := 0, dancePc := .silenceRight }
  | .silenceRight => some { s with rightSpeed := 0, dancePc := .rythmLoad }
  | .rythmLoad => some { s with dancePc := .rythmRead s.musicPosition }
  | .rythmRead k => do
    let rythm ← load s.currentSong.rythm k
    if noteOffset < rythm then some { s with dancePc := .deadlineLoad }
    else some { s with dancePc := .incLoad }
  | .deadlineLoad => some { s with dancePc := .deadlineRead s.musicPosition }
  | .deadlineRead k => do
    let rythm ← load s.currentSong.rythm k
    let deadline := s.time + BitVec.ofNat 32 rythm - BitVec.ofNat 32 noteOffset
    some { s with dancePc := .sleepUntil deadline }
  | .sleepUntil _ => some { s with dancePc := .noteStop }
  | .noteStop => some { s with dac := none, dancePc := .sleepGap }
  | .sleepGap => some { s with dancePc := .incLoad }
  | .incLoad => some { s with dancePc := .incStore s.musicPosition }
  | .incStore v => some { s with musicPosition := u16 (v + 1), dancePc := .testEnd }
  | .testEnd =>
    if s.musicPosition ≥ musicSize then some { s with dancePc := .stop .flag }
    else some { s with dancePc := .loop }
  | .stop p => some { p.exec s with dancePc := (p.next.map .stop).getD .loop }
  | .idle => some { s with dancePc := .loop }

/-- The two threads. -/
def threads (freq : Note → ℕ) : Threads Robot Input where
  high := manageStates freq
  low := dance
  blocked s := s.msPc.blocked

/-! ### Schedules -/

/-- Nothing is near, the selector stands at `selector` and the camera sees
`flag`. -/
def clear (selector : ℤ) (flag : Flag) : Input where
  prox := fun _ => 0
  selector := selector
  clock := 0
  flag := flag
  rand := 0
  stateFirst := false

/-- An obstacle is near and the selector stands at `selector`. -/
def near (selector : ℤ) : Input := { clear selector .undefinedFlag with prox := fun _ => 150 }

/-- `ManageStates` makes `n` steps. -/
def msFor (n : ℕ) (i : Input) : List (Priority × Input) := List.replicate n (.high, i)

/-- `Dance` makes `n` steps. -/
def danceFor (n : ℕ) (i : Input) : List (Priority × Input) := List.replicate n (.low, i)

/-- From power-up: the selector is turned to 1, `flag` is found in the first image
and its dance is started.  Then one more iteration of `ManageStates`, back into
`WAIT`, which ends asleep. -/
def startDance (flag : Flag) : List (Priority × Input) :=
  msFor 3 (clear 0 flag) ++ msFor 27 (clear 1 flag)

end Dancing
end JeanBot
