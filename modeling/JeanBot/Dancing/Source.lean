/-
# The two threads as they are written

`manageStates` and `dance` are program-counter machines: their statements are listed by
hand, each with the one that comes next.  Here are the two threads as structured code, with
the conditionals, the loop around `get_flag` and the calls of `state.c` and `dance.c`
where they stand in the source, on variables without program counters.

Every program counter stands for the code that is left to do there (`MsPc.code`,
`DancePc.code`), and the values that it holds are those that the code has read and not
used yet.  Under every schedule and all inputs the machines compute what the code
computes (`source_eq_threads`), so all that is proved of runs of the machines holds of the
code.
-/

import JeanBot.Lib.Structured
import JeanBot.Dancing.Invariants

namespace JeanBot
namespace Dancing

open Lib FlagDetection

/-- The variables of the two threads, and the motors and the DAC. -/
structure Vars where
  musicPosition : ℕ
  currentSong : Music
  isDancing : Bool
  robotState : State
  leftSpeed : ℤ
  rightSpeed : ℤ
  dac : Option ℕ
  country : Flag
  lastSelector : ℤ
  startTime : BitVec 32
  time : BitVec 32

/-- A block of code. -/
abbrev Code := List (Stmt Vars Input)

/-! ### `dance.c` -/

/-- `stop_motors`. -/
def stopMotorsCode : Code :=
  [.set fun v _ => { v with leftSpeed := 0 },
    .set fun v _ => { v with rightSpeed := 0 }]

/-- `stop_dancing`. -/
def stopDancingCode : Code :=
  [.set fun v _ => { v with isDancing := false },
    .set fun v _ => { v with musicPosition := 0 }] ++ stopMotorsCode ++
    [.set fun v _ => { v with dac := none }]

/-- `restart_dance`. -/
def restartDanceCode (freq : Note → ℕ) : Code :=
  [.set fun v _ => { v with musicPosition := 0 },
    .set fun v _ => { v with currentSong := lutFlagToMusic freq v.country },
    .set fun v _ => { v with isDancing := true }]

/-- The entry of `current_song.notes` or `current_song.rythm` at `music_position`. -/
def entryCode (a : Music → CArray musicSize ℕ) (next : ℕ → Code) : Stmt Vars Input :=
  .read (fun v _ => some v.musicPosition) fun k =>
    [.read (fun v _ => load (a v.currentSong) k) next]

/-- `change_figure`: the figure that `rand` chooses sets the two motors. -/
def changeFigureCode : Stmt Vars Input :=
  .access false (fun v i => let r := changeFigure i.rand
    some (r, { v with leftSpeed := r.left })) fun r =>
    [.set fun v _ => { v with rightSpeed := r.right }]

/-- The tone and the figure of a note. -/
def playCode : Code :=
  [entryCode Music.notes fun note => [.set fun v _ => { v with dac := some note }],
    changeFigureCode]

/-- A silence. -/
def silenceCode : Code := .set (fun v _ => { v with dac := none }) :: stopMotorsCode

/-- `chThdSleepUntilWindowed`, which only takes time. -/
def sleepUntilCode (_deadline : BitVec 32) : Stmt Vars Input := .block fun v _ => v

/-- The rest of the note, with its gap. -/
def holdCode : Code :=
  [.read (fun v _ => some v.musicPosition) fun k =>
      [.read (fun v _ => (load v.currentSong.rythm k).map fun rythm =>
        v.time + BitVec.ofNat 32 rythm - BitVec.ofNat 32 noteOffset) fun deadline =>
        [sleepUntilCode deadline]],
    .set fun v _ => { v with dac := none },
    .block fun v _ => v]

/-- `music_position++`. -/
def incCode : Stmt Vars Input :=
  .read (fun v _ => some v.musicPosition) fun k =>
    [.set fun v _ => { v with musicPosition := u16 (k + 1) }]

/-- What `Dance` does for one entry of the song. -/
def noteCode : Code :=
  [.set fun v i => { v with time := i.clock },
    entryCode Music.notes fun note => if note ≠ 0 then playCode else silenceCode,
    entryCode Music.rythm fun rythm => if noteOffset < rythm then holdCode else [],
    incCode,
    .ite (fun v _ => v.musicPosition ≥ musicSize) stopDancingCode []]

/-- The body of the loop of `Dance`.  The operands of `&` are read in either order. -/
def danceCode : Code :=
  [.read (fun v i => some (if i.stateFirst then Sum.inl (decide (v.robotState = .wait))
      else Sum.inr v.isDancing)) fun
    | .inl waiting => [.ite (fun v _ => v.isDancing && waiting) noteCode [.block fun v _ => v]]
    | .inr dancing => [.ite (fun v _ => dancing && v.robotState = .wait) noteCode
        [.block fun v _ => v]]]

/-! ### `state.c` -/

/-- The detection window. -/
def detectionCode : Code :=
  [.set fun v i => { v with startTime := i.clock },
    .loop (fun v i => windowOpen v.startTime i.clock v.country)
      [.block fun v i => { v with country := i.flag }],
    .set fun v _ => { v with
      robotState := if v.country = .undefinedFlag then .wait else .dance },
    .set fun v i => { v with lastSelector := i.selector }]

/-- What `ManageStates` does where `obstacle_detected` returns false. -/
def clearCode (freq : Note → ℕ) : Code :=
  [.set fun v _ => { v with robotState := .wait },
    .ite (fun v i => i.selector ≠ v.lastSelector)
      (stopDancingCode ++ [.set fun v i => { v with lastSelector := i.selector },
        .set fun v _ => { v with robotState := .flagDetection }]) [],
    .ite (fun v _ => v.robotState = .flagDetection) detectionCode [],
    .ite (fun v _ => v.robotState = .dance)
      (restartDanceCode freq ++ [.set fun v _ => { v with country := .undefinedFlag }]) []]

/-- `chThdSleep` in `ManageStates`. -/
def sleepCode : Code := [.block fun v _ => v]

/-- The body of the loop of `ManageStates`.  `obstacle_detected` calls `panic`, which stops
the motors, before it returns true. -/
def manageStatesCode (freq : Note → ℕ) : Code :=
  .ite (fun _ i => obstacleDetected i.prox)
    (stopMotorsCode ++ [.set fun v _ => { v with robotState := .pause }])
    (clearCode freq) :: sleepCode

/-- The code before the loop of `ManageStates`, which begins when the thread is created. -/
def prologueCode : Code :=
  [.block fun v _ => v, .set fun v i => { v with lastSelector := i.selector }]

/-- The two threads as they are written. -/
def source (freq : Note → ℕ) : Threads (Coded Vars Input) Input :=
  codeThreads (manageStatesCode freq) danceCode

/-! ### Program counters -/

/-- What is left of `stop_dancing`. -/
def StopPc.code : StopPc → Code
  | .flag => stopDancingCode
  | .position => stopDancingCode.drop 1
  | .left => stopDancingCode.drop 2
  | .right => stopDancingCode.drop 3
  | .dac => stopDancingCode.drop 4

/-- What is left to do at a program counter of `ManageStates`. -/
def MsPc.code (freq : Note → ℕ) : MsPc → Code
  | .start => prologueCode
  | .init => prologueCode.drop 1
  | .obstacle => manageStatesCode freq
  | .panicLeft => stopMotorsCode ++ [.set fun v _ => { v with robotState := .pause }] ++ sleepCode
  | .panicRight =>
    stopMotorsCode.drop 1 ++ [.set fun v _ => { v with robotState := .pause }] ++ sleepCode
  | .setPause => [.set fun v _ => { v with robotState := .pause }] ++ sleepCode
  | .setWait => clearCode freq ++ sleepCode
  | .testSelector => (clearCode freq).drop 1 ++ sleepCode
  | .stop p => p.code ++ [.set fun v i => { v with lastSelector := i.selector },
      .set fun v _ => { v with robotState := .flagDetection }] ++
        (clearCode freq).drop 2 ++ sleepCode
  | .takeSelector => [.set fun v i => { v with lastSelector := i.selector },
      .set fun v _ => { v with robotState := .flagDetection }] ++
        (clearCode freq).drop 2 ++ sleepCode
  | .setDetection => [.set fun v _ => { v with robotState := .flagDetection }] ++
      (clearCode freq).drop 2 ++ sleepCode
  | .testDetection => (clearCode freq).drop 2 ++ sleepCode
  | .readStart => detectionCode ++ (clearCode freq).drop 3 ++ sleepCode
  | .testWindow => detectionCode.drop 1 ++ (clearCode freq).drop 3 ++ sleepCode
  | .waitImage => [.block fun v i => { v with country := i.flag }] ++ detectionCode.drop 1 ++
      (clearCode freq).drop 3 ++ sleepCode
  | .setFound => detectionCode.drop 2 ++ (clearCode freq).drop 3 ++ sleepCode
  | .takeSelectorAgain => detectionCode.drop 3 ++ (clearCode freq).drop 3 ++ sleepCode
  | .testDance => (clearCode freq).drop 3 ++ sleepCode
  | .restartPosition => restartDanceCode freq ++
      [.set fun v _ => { v with country := .undefinedFlag }] ++ sleepCode
  | .restartSong => (restartDanceCode freq).drop 1 ++
      [.set fun v _ => { v with country := .undefinedFlag }] ++ sleepCode
  | .restartFlag => (restartDanceCode freq).drop 2 ++
      [.set fun v _ => { v with country := .undefinedFlag }] ++ sleepCode
  | .clearCountry => [.set fun v _ => { v with country := .undefinedFlag }] ++ sleepCode
  | .sleep => sleepCode

/-- What is left to do at a program counter of `Dance`. -/
def DancePc.code : DancePc → Code
  | .loop => danceCode
  | .readState dancing => [.ite (fun v _ => dancing && v.robotState = .wait) noteCode
      [.block fun v _ => v]]
  | .readDancing waiting => [.ite (fun v _ => v.isDancing && waiting) noteCode
      [.block fun v _ => v]]
  | .getTime => noteCode
  | .testLoad => noteCode.drop 1
  | .testRead k => .read (fun v _ => load v.currentSong.notes k)
      (fun note => if note ≠ 0 then playCode else silenceCode) :: noteCode.drop 2
  | .playLoad => playCode ++ noteCode.drop 2
  | .playRead k => .read (fun v _ => load v.currentSong.notes k)
      (fun note => [.set fun v _ => { v with dac := some note }]) :: changeFigureCode ::
        noteCode.drop 2
  | .play frequency => .set (fun v _ => { v with dac := some frequency }) :: changeFigureCode ::
      noteCode.drop 2
  | .figureLeft => changeFigureCode :: noteCode.drop 2
  | .figureRight r => .set (fun v _ => { v with rightSpeed := r.right }) :: noteCode.drop 2
  | .silenceDac => silenceCode ++ noteCode.drop 2
  | .silenceLeft => silenceCode.drop 1 ++ noteCode.drop 2
  | .silenceRight => silenceCode.drop 2 ++ noteCode.drop 2
  | .rythmLoad => noteCode.drop 2
  | .rythmRead k => .read (fun v _ => load v.currentSong.rythm k)
      (fun rythm => if noteOffset < rythm then holdCode else []) :: noteCode.drop 3
  | .deadlineLoad => holdCode ++ noteCode.drop 3
  | .deadlineRead k => .read (fun v _ => (load v.currentSong.rythm k).map fun rythm =>
        v.time + BitVec.ofNat 32 rythm - BitVec.ofNat 32 noteOffset)
      (fun deadline => [sleepUntilCode deadline]) :: holdCode.drop 1 ++ noteCode.drop 3
  | .sleepUntil deadline => sleepUntilCode deadline :: holdCode.drop 1 ++ noteCode.drop 3
  | .noteStop => holdCode.drop 1 ++ noteCode.drop 3
  | .sleepGap => holdCode.drop 2 ++ noteCode.drop 3
  | .incLoad => noteCode.drop 3
  | .incStore k => .set (fun v _ => { v with musicPosition := u16 (k + 1) }) :: noteCode.drop 4
  | .testEnd => noteCode.drop 4
  | .stop p => p.code
  | .idle => [.block fun v _ => v]

/-- The variables of a state of the machines. -/
def Robot.vars (s : Robot) : Vars where
  musicPosition := s.musicPosition
  currentSong := s.currentSong
  isDancing := s.isDancing
  robotState := s.robotState
  leftSpeed := s.leftSpeed
  rightSpeed := s.rightSpeed
  dac := s.dac
  country := s.country
  lastSelector := s.lastSelector
  startTime := s.startTime
  time := s.time

/-- The state of the code that a state of the machines stands for. -/
def Robot.source (freq : Note → ℕ) (s : Robot) : Coded Vars Input :=
  ⟨s.vars, s.msPc.code freq, s.dancePc.code⟩

/-- One step of the code of `ManageStates`, from the code that is left at a statement, is one
step of its machine at that statement: same variables, and the code that is left at the next
one. -/
theorem codeStep_manageStates (freq : Note → ℕ) (s : Robot) (i : Input) :
    codeStep (manageStatesCode freq) (s.msPc.code freq) s.vars i =
      (manageStates freq s i).map fun u => (u.msPc.code freq, u.vars) := by
  cases hpc : s.msPc <;> simp only [manageStates, hpc]
  case obstacle =>
    split_ifs with h
    · exact codeStep_ite_of_true h
    · exact codeStep_ite_of_false (Bool.eq_false_iff.2 h)
  case testSelector =>
    split_ifs with h
    · exact codeStep_ite_of_true (decide_eq_true h)
    · exact codeStep_ite_of_false (decide_eq_false h)
  case testDetection =>
    split_ifs with h
    · exact codeStep_ite_of_true (decide_eq_true h)
    · exact codeStep_ite_of_false (decide_eq_false h)
  case testWindow =>
    split_ifs with h
    · exact codeStep_loop_of_true h
    · exact codeStep_loop_of_false (Bool.eq_false_iff.2 h)
  case testDance =>
    split_ifs with h
    · exact codeStep_ite_of_true (decide_eq_true h)
    · exact codeStep_ite_of_false (decide_eq_false h)
  case stop p => cases p <;> rfl
  all_goals rfl

/-- One step of the code of `Dance` is one step of its machine, also where `&&` does not read
its second operand and where an index leaves the array. -/
theorem codeStep_dance (s : Robot) (i : Input) :
    codeStep danceCode s.dancePc.code s.vars i =
      (dance s i).map fun u => (u.dancePc.code, u.vars) := by
  cases hpc : s.dancePc <;> simp only [dance, hpc]
  case loop =>
    refine codeStep_read.trans ?_
    cases i.stateFirst <;> rfl
  case readState d =>
    split_ifs with h
    · exact codeStep_ite_of_true h
    · exact codeStep_ite_of_false (Bool.eq_false_iff.2 h)
  case readDancing w =>
    split_ifs with h
    · exact codeStep_ite_of_true h
    · exact codeStep_ite_of_false (Bool.eq_false_iff.2 h)
  case testRead k =>
    refine codeStep_read.trans ?_
    show (load s.currentSong.notes k).map _ = _
    cases load s.currentSong.notes k with
    | none => rfl
    | some x =>
      simp only [Option.map_some, Option.bind_eq_bind, Option.bind_some]
      split_ifs <;> rfl
  case playRead k =>
    refine codeStep_read.trans ?_
    show (load s.currentSong.notes k).map _ = _
    cases load s.currentSong.notes k <;> rfl
  case rythmRead k =>
    refine codeStep_read.trans ?_
    show (load s.currentSong.rythm k).map _ = _
    cases load s.currentSong.rythm k with
    | none => rfl
    | some x =>
      simp only [Option.map_some, Option.bind_eq_bind, Option.bind_some]
      split_ifs <;> rfl
  case deadlineRead k =>
    refine codeStep_read.trans ?_
    show ((load s.currentSong.rythm k).map _).map _ = _
    cases load s.currentSong.rythm k <;> rfl
  case testEnd =>
    split_ifs with h
    · exact codeStep_ite_of_true (decide_eq_true h)
    · exact codeStep_ite_of_false (decide_eq_false h)
  case stop p => cases p <;> rfl
  all_goals rfl

/-- `ManageStates` blocks where the code does: its next access is a call in which the thread
blocks, and at every other statement `Dance` cannot run. -/
theorem codeBlocked_code (freq : Note → ℕ) (pc : MsPc) :
    codeBlocked (pc.code freq) = pc.blocked := by
  cases pc with
  | stop p => cases p <;> rfl
  | _ => rfl

/-- **The machines are the code.**  From every state, under every schedule and all inputs,
the two program-counter machines compute what the code of the two threads computes, and
they stop where it does. -/
theorem source_eq_threads (freq : Note → ℕ) (as : List (Priority × Input)) (s : Robot) :
    as.foldlM (source freq).step (s.source freq) =
      (as.foldlM (threads freq).step s).map (Robot.source freq) :=
  codeThreads_foldlM (T := threads freq) (fun s => codeBlocked_code freq s.msPc)
    (codeStep_manageStates freq)
    (fun s i u hu => by rw [(MsStep.of_manageStates hu).frame.1])
    codeStep_dance
    (fun s i u hu => by rw [(DanceStep.of_dance hu).frame.msPc]) as s

end Dancing
end JeanBot
