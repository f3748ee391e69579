/-
# What a step can be

`MsStep` and `DanceStep` list the branches of `manageStates` and `dance` with the
guard under which each is taken, and `step_cases` inverts a step of the schedule
into one of them.  The invariants of the two threads are case analyses on these,
and never unfold the transition functions.
-/

import JeanBot.Dancing.Robot

namespace JeanBot
namespace Dancing

open Lib FlagDetection

variable {freq : Note → ℕ} {s u : Robot} {i : Input}

/-- The branches of `manageStates`. -/
inductive MsStep (freq : Note → ℕ) (s : Robot) (i : Input) : Robot → Prop
  | start (hpc : s.msPc = .start) : MsStep freq s i { s with msPc := .init }
  | init (hpc : s.msPc = .init) :
      MsStep freq s i { s with lastSelector := i.selector, msPc := .obstacle }
  | panic (hpc : s.msPc = .obstacle) (h : obstacleDetected i.prox = true) :
      MsStep freq s i { s with msPc := .panicLeft }
  | unpanic (hpc : s.msPc = .obstacle) (h : obstacleDetected i.prox = false) :
      MsStep freq s i { s with msPc := .setWait }
  | panicLeft (hpc : s.msPc = .panicLeft) :
      MsStep freq s i { s with leftSpeed := 0, msPc := .panicRight }
  | panicRight (hpc : s.msPc = .panicRight) :
      MsStep freq s i { s with rightSpeed := 0, msPc := .setPause }
  | setPause (hpc : s.msPc = .setPause) :
      MsStep freq s i { s with robotState := .pause, msPc := .sleep }
  | setWait (hpc : s.msPc = .setWait) :
      MsStep freq s i { s with robotState := .wait, msPc := .testSelector }
  | turned (hpc : s.msPc = .testSelector) (h : i.selector ≠ s.lastSelector) :
      MsStep freq s i { s with msPc := .stop .flag }
  | unturned (hpc : s.msPc = .testSelector) (h : i.selector = s.lastSelector) :
      MsStep freq s i { s with msPc := .testDetection }
  | stop (p : StopPc) (hpc : s.msPc = .stop p) :
      MsStep freq s i { p.exec s with msPc := (p.next.map .stop).getD .takeSelector }
  | takeSelector (hpc : s.msPc = .takeSelector) :
      MsStep freq s i { s with lastSelector := i.selector, msPc := .setDetection }
  | setDetection (hpc : s.msPc = .setDetection) :
      MsStep freq s i { s with robotState := .flagDetection, msPc := .testDetection }
  | detect (hpc : s.msPc = .testDetection) (h : s.robotState = .flagDetection) :
      MsStep freq s i { s with msPc := .readStart }
  | skipDetection (hpc : s.msPc = .testDetection) (h : s.robotState ≠ .flagDetection) :
      MsStep freq s i { s with msPc := .testDance }
  | readStart (hpc : s.msPc = .readStart) :
      MsStep freq s i { s with startTime := i.clock, msPc := .testWindow }
  | openWindow (hpc : s.msPc = .testWindow)
      (h : windowOpen s.startTime i.clock s.country = true) :
      MsStep freq s i { s with msPc := .waitImage }
  | closeWindow (hpc : s.msPc = .testWindow)
      (h : windowOpen s.startTime i.clock s.country = false) :
      MsStep freq s i { s with msPc := .setFound }
  | waitImage (hpc : s.msPc = .waitImage) :
      MsStep freq s i { s with country := i.flag, msPc := .testWindow }
  | setFound (hpc : s.msPc = .setFound) :
      MsStep freq s i { s with
        robotState := if s.country = .undefinedFlag then .wait else .dance
        msPc := .takeSelectorAgain }
  | takeSelectorAgain (hpc : s.msPc = .takeSelectorAgain) :
      MsStep freq s i { s with lastSelector := i.selector, msPc := .testDance }
  | restart (hpc : s.msPc = .testDance) (h : s.robotState = .dance) :
      MsStep freq s i { s with msPc := .restartPosition }
  | skipRestart (hpc : s.msPc = .testDance) (h : s.robotState ≠ .dance) :
      MsStep freq s i { s with msPc := .sleep }
  | restartPosition (hpc : s.msPc = .restartPosition) :
      MsStep freq s i { s with musicPosition := 0, msPc := .restartSong }
  | restartSong (hpc : s.msPc = .restartSong) :
      MsStep freq s i { s with
        currentSong := lutFlagToMusic freq s.country, msPc := .restartFlag }
  | restartFlag (hpc : s.msPc = .restartFlag) :
      MsStep freq s i { s with isDancing := true, msPc := .clearCountry }
  | clearCountry (hpc : s.msPc = .clearCountry) :
      MsStep freq s i { s with country := .undefinedFlag, msPc := .sleep }
  | sleep (hpc : s.msPc = .sleep) : MsStep freq s i { s with msPc := .obstacle }

/-- The branches of `dance`. -/
inductive DanceStep (s : Robot) (i : Input) : Robot → Prop
  | loopState (hpc : s.dancePc = .loop) (h : i.stateFirst = true) :
      DanceStep s i { s with dancePc := .readDancing (s.robotState = .wait) }
  | loopDancing (hpc : s.dancePc = .loop) (h : i.stateFirst = false) :
      DanceStep s i { s with dancePc := .readState s.isDancing }
  | readStateEnter (hpc : s.dancePc = .readState true) (h : s.robotState = .wait) :
      DanceStep s i { s with dancePc := .getTime }
  | readStateIdle (d : Bool) (hpc : s.dancePc = .readState d)
      (h : d = false ∨ s.robotState ≠ .wait) : DanceStep s i { s with dancePc := .idle }
  | readDancingEnter (hpc : s.dancePc = .readDancing true) (h : s.isDancing = true) :
      DanceStep s i { s with dancePc := .getTime }
  | readDancingIdle (w : Bool) (hpc : s.dancePc = .readDancing w)
      (h : w = false ∨ s.isDancing = false) : DanceStep s i { s with dancePc := .idle }
  | getTime (hpc : s.dancePc = .getTime) :
      DanceStep s i { s with time := i.clock, dancePc := .testLoad }
  | testLoad (hpc : s.dancePc = .testLoad) :
      DanceStep s i { s with dancePc := .testRead s.musicPosition }
  | note (k : ℕ) (hpc : s.dancePc = .testRead k) (hk : k < musicSize)
      (h : s.currentSong.noteAt k ≠ 0) : DanceStep s i { s with dancePc := .playLoad }
  | rest (k : ℕ) (hpc : s.dancePc = .testRead k) (hk : k < musicSize)
      (h : s.currentSong.noteAt k = 0) : DanceStep s i { s with dancePc := .silenceDac }
  | playLoad (hpc : s.dancePc = .playLoad) :
      DanceStep s i { s with dancePc := .playRead s.musicPosition }
  | playRead (k : ℕ) (hpc : s.dancePc = .playRead k) (hk : k < musicSize) :
      DanceStep s i { s with dancePc := .play (s.currentSong.noteAt k) }
  | play (f : ℕ) (hpc : s.dancePc = .play f) :
      DanceStep s i { s with dac := some f, dancePc := .figureLeft }
  | figureLeft (r : Figure) (hpc : s.dancePc = .figureLeft) (h : changeFigure i.rand = r) :
      DanceStep s i { s with leftSpeed := r.left, dancePc := .figureRight r }
  | figureRight (r : Figure) (hpc : s.dancePc = .figureRight r) :
      DanceStep s i { s with rightSpeed := r.right, dancePc := .rythmLoad }
  | silenceDac (hpc : s.dancePc = .silenceDac) :
      DanceStep s i { s with dac := none, dancePc := .silenceLeft }
  | silenceLeft (hpc : s.dancePc = .silenceLeft) :
      DanceStep s i { s with leftSpeed := 0, dancePc := .silenceRight }
  | silenceRight (hpc : s.dancePc = .silenceRight) :
      DanceStep s i { s with rightSpeed := 0, dancePc := .rythmLoad }
  | rythmLoad (hpc : s.dancePc = .rythmLoad) :
      DanceStep s i { s with dancePc := .rythmRead s.musicPosition }
  | long (k : ℕ) (hpc : s.dancePc = .rythmRead k) (hk : k < musicSize)
      (h : noteOffset < s.currentSong.rythmAt k) : DanceStep s i { s with dancePc := .deadlineLoad }
  | short (k : ℕ) (hpc : s.dancePc = .rythmRead k) (hk : k < musicSize)
      (h : ¬noteOffset < s.currentSong.rythmAt k) : DanceStep s i { s with dancePc := .incLoad }
  | deadlineLoad (hpc : s.dancePc = .deadlineLoad) :
      DanceStep s i { s with dancePc := .deadlineRead s.musicPosition }
  | deadlineRead (k : ℕ) (d : BitVec 32) (hpc : s.dancePc = .deadlineRead k)
      (hk : k < musicSize) : DanceStep s i { s with dancePc := .sleepUntil d }
  | sleepUntil (d : BitVec 32) (hpc : s.dancePc = .sleepUntil d) :
      DanceStep s i { s with dancePc := .noteStop }
  | noteStop (hpc : s.dancePc = .noteStop) :
      DanceStep s i { s with dac := none, dancePc := .sleepGap }
  | sleepGap (hpc : s.dancePc = .sleepGap) : DanceStep s i { s with dancePc := .incLoad }
  | incLoad (hpc : s.dancePc = .incLoad) :
      DanceStep s i { s with dancePc := .incStore s.musicPosition }
  | incStore (v : ℕ) (hpc : s.dancePc = .incStore v) :
      DanceStep s i { s with musicPosition := u16 (v + 1), dancePc := .testEnd }
  | ended (hpc : s.dancePc = .testEnd) (h : musicSize ≤ s.musicPosition) :
      DanceStep s i { s with dancePc := .stop .flag }
  | notEnded (hpc : s.dancePc = .testEnd) (h : s.musicPosition < musicSize) :
      DanceStep s i { s with dancePc := .loop }
  | stop (p : StopPc) (hpc : s.dancePc = .stop p) :
      DanceStep s i { p.exec s with dancePc := (p.next.map .stop).getD .loop }
  | idle (hpc : s.dancePc = .idle) : DanceStep s i { s with dancePc := .loop }

/-- A step of `manageStates` is one of its branches: the case analysis over the statements is
made here once, and every invariant is derived from the list of branches. -/
theorem MsStep.of_manageStates (h : manageStates freq s i = some u) : MsStep freq s i u := by
  cases hpc : s.msPc <;> simp only [manageStates, hpc] at h
  case start => cases h; exact .start hpc
  case init => cases h; exact .init hpc
  case obstacle =>
    split at h <;> cases h
    · exact .panic hpc ‹_›
    · exact .unpanic hpc (Bool.eq_false_iff.2 ‹_›)
  case panicLeft => cases h; exact .panicLeft hpc
  case panicRight => cases h; exact .panicRight hpc
  case setPause => cases h; exact .setPause hpc
  case setWait => cases h; exact .setWait hpc
  case testSelector =>
    split at h <;> cases h
    · exact .turned hpc ‹_›
    · exact .unturned hpc (not_not.1 ‹_›)
  case stop p => cases h; exact .stop p hpc
  case takeSelector => cases h; exact .takeSelector hpc
  case setDetection => cases h; exact .setDetection hpc
  case testDetection =>
    split at h <;> cases h
    · exact .detect hpc ‹_›
    · exact .skipDetection hpc ‹_›
  case readStart => cases h; exact .readStart hpc
  case testWindow =>
    split at h <;> cases h
    · exact .openWindow hpc ‹_›
    · exact .closeWindow hpc (Bool.eq_false_iff.2 ‹_›)
  case waitImage => cases h; exact .waitImage hpc
  case setFound => cases h; exact .setFound hpc
  case takeSelectorAgain => cases h; exact .takeSelectorAgain hpc
  case testDance =>
    split at h <;> cases h
    · exact .restart hpc ‹_›
    · exact .skipRestart hpc ‹_›
  case restartPosition => cases h; exact .restartPosition hpc
  case restartSong => cases h; exact .restartSong hpc
  case restartFlag => cases h; exact .restartFlag hpc
  case clearCountry => cases h; exact .clearCountry hpc
  case sleep => cases h; exact .sleep hpc

/-- A read that succeeded was inside of the array, so the branches know the bound of the index
that they use. -/
theorem lt_of_load {a : CArray musicSize ℕ} {k x : ℕ} (h : load a k = some x) :
    k < musicSize := by
  by_contra hk
  rw [load, dif_neg hk] at h
  cases h

/-- A step of `dance` is one of its branches.  Where it reads an entry, the branch says that the
index was below `MUSIC_SIZE` and what was found there. -/
theorem DanceStep.of_dance (h : dance s i = some u) : DanceStep s i u := by
  cases hpc : s.dancePc <;> simp only [dance, hpc] at h
  case loop =>
    split at h <;> cases h
    · exact .loopState hpc ‹_›
    · exact .loopDancing hpc (Bool.eq_false_iff.2 ‹_›)
  case readState d =>
    split at h <;> rename_i hd <;> cases h
    · obtain ⟨rfl, hw⟩ : d = true ∧ s.robotState = .wait := by simpa using hd
      exact .readStateEnter hpc hw
    · exact .readStateIdle d hpc (by simpa [imp_iff_not_or] using hd)
  case readDancing w =>
    split at h <;> rename_i hd <;> cases h
    · obtain ⟨hs, rfl⟩ : s.isDancing = true ∧ w = true := by simpa using hd
      exact .readDancingEnter hpc hs
    · exact .readDancingIdle w hpc (by simpa [imp_iff_not_or, or_comm] using hd)
  case getTime => cases h; exact .getTime hpc
  case testLoad => cases h; exact .testLoad hpc
  case testRead k =>
    obtain ⟨f, hf, h⟩ := Option.bind_eq_some_iff.1 h
    obtain rfl := Music.noteAt_of_load hf
    split at h <;> cases h
    · exact .note k hpc (lt_of_load hf) ‹_›
    · exact .rest k hpc (lt_of_load hf) (not_not.1 ‹_›)
  case playLoad => cases h; exact .playLoad hpc
  case playRead k =>
    obtain ⟨f, hf, h⟩ := Option.bind_eq_some_iff.1 h
    obtain rfl := Music.noteAt_of_load hf
    cases h
    exact .playRead k hpc (lt_of_load hf)
  case play f => cases h; exact .play f hpc
  case figureLeft => cases h; exact .figureLeft _ hpc rfl
  case figureRight r => cases h; exact .figureRight r hpc
  case silenceDac => cases h; exact .silenceDac hpc
  case silenceLeft => cases h; exact .silenceLeft hpc
  case silenceRight => cases h; exact .silenceRight hpc
  case rythmLoad => cases h; exact .rythmLoad hpc
  case rythmRead k =>
    obtain ⟨d, hd, h⟩ := Option.bind_eq_some_iff.1 h
    obtain rfl := Music.rythmAt_of_load hd
    split at h <;> cases h
    · exact .long k hpc (lt_of_load hd) ‹_›
    · exact .short k hpc (lt_of_load hd) ‹_›
  case deadlineLoad => cases h; exact .deadlineLoad hpc
  case deadlineRead k =>
    obtain ⟨d, hd, h⟩ := Option.bind_eq_some_iff.1 h
    cases h
    exact .deadlineRead k _ hpc (lt_of_load hd)
  case sleepUntil d => cases h; exact .sleepUntil d hpc
  case noteStop => cases h; exact .noteStop hpc
  case sleepGap => cases h; exact .sleepGap hpc
  case incLoad => cases h; exact .incLoad hpc
  case incStore v => cases h; exact .incStore v hpc
  case testEnd =>
    split at h <;> cases h
    · exact .ended hpc ‹_›
    · exact .notEnded hpc (Nat.lt_of_not_le ‹_›)
  case stop p => cases h; exact .stop p hpc
  case idle => cases h; exact .idle hpc

/-- `ManageStates` lets `Dance` run at three statements only: before it has started, while it
waits for an image, and in its sleep. -/
theorem MsPc.blocked_cases {pc : MsPc} (h : pc.blocked = true) :
    pc = .start ∨ pc = .waitImage ∨ pc = .sleep := by
  cases pc <;> simp_all [MsPc.blocked]

/-- A step of `Dance` is one of the threads where `ManageStates` sleeps. -/
theorem step_low (hb : s.msPc = .sleep) (h : dance s i = some u) :
    (threads freq).step s (.low, i) = some u := by
  simp [Threads.step, threads, hb, MsPc.blocked, h]

/-- **What one step of the two threads can be**: a branch of `ManageStates`, at any time, or a
branch of `Dance` while `ManageStates` is blocked.  Nothing else about the schedule is known. -/
theorem step_cases {a : Priority × Input} (h : (threads freq).step s a = some u) :
    (∃ i, a = (.high, i) ∧ MsStep freq s i u) ∨
      ∃ i, a = (.low, i) ∧ s.msPc.blocked = true ∧ DanceStep s i u := by
  obtain ⟨i, rfl, hi⟩ | ⟨i, rfl, hb, hi⟩ := Threads.step_cases h
  · exact Or.inl ⟨i, rfl, .of_manageStates hi⟩
  · exact Or.inr ⟨i, rfl, hb, .of_dance hi⟩

end Dancing
end JeanBot
