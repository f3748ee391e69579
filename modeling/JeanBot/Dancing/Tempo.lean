/-
# The music keeps its tempo

A note starts where `Dance` reads the clock for it.  In a playback (`TimedPlayback`),
notes start in the order of the song, and between the starts of two notes passes at least
the time that the song gives to the entries between them, whatever the pauses, the
preemptions and the wrap of the clock (`starts_notBefore`).

How much later a note of a playback is depends on the delays outside of the notes alone:
what delays `Dance` between its clock reading and its windowed sleep is made up for by the
sleep, as long as it is called before its deadline (`starts_notAfter`).

A deadline in the past is one turn of the clock away.  A restart that leaves `Dance` with
an empty entry of the new song under its deadline makes such a deadline, and while
`ManageStates` keeps reading the value that `last_selector` holds, the dance that was
started does not begin for 49 days (`restart_hangs`).
-/

import JeanBot.Dancing.Timing

namespace JeanBot
namespace Dancing

open Lib FlagDetection

variable {freq : Note → ℕ} {sleepUntilWindowed : BitVec 32 → BitVec 32 → BitVec 32 → ℕ}
  {s u t : Clocked} {m : Moment} {tr : List (Clocked × Moment)} {song : Music} {tight : Prop}

/-- A note starts: its position, the time, and how long `Dance` was late in all. -/
structure Start where
  position : ℕ
  time : ℕ
  lag : ℕ

/-- The start of a note in a step. -/
def starts (sleepUntilWindowed : BitVec 32 → BitVec 32 → BitVec 32 → ℕ) (s : Clocked)
    (m : Moment) : Option Start :=
  match m.priority, s.robot.dancePc with
  | .low, .getTime =>
    some ⟨s.robot.musicPosition, m.time, s.lag + lateness sleepUntilWindowed s m⟩
  | _, _ => none

/-- The entry of `e` is over at time `now`, and if `tight`, it has not been over for
longer than `Dance` was late since `e`. -/
def OnBeat (song : Music) (tight : Prop) (e : Start) (now lag : ℕ) : Prop :=
  e.time + song.rythmAt e.position ≤ now ∧
    (tight → now + e.lag ≤ e.time + song.rythmAt e.position + lag)

/-- The entry of `e` is being played: `Dance` has read the clock for it. -/
@[mk_iff] structure InNote (song : Music) (tight : Prop) (e : Start) (t : Clocked) : Prop where
  time : t.robot.time = BitVec.ofNat 32 e.time
  noteStart : t.noteStart = e.time
  started : e.time ≤ t.last .low
  lag : tight → if noteOffset < song.rythmAt e.position then e.lag ≤ t.lag
    else t.last .low + e.lag ≤ e.time + t.lag

/-- Where `Dance` is in the entry of `e`, the last one started. -/
def Beat (song : Music) (tight : Prop) (e : Start) (t : Clocked) : Prop :=
  match t.robot.dancePc with
  | .rythmRead k => InNote song tight e t ∧ k = e.position
  | .deadlineLoad => InNote song tight e t ∧ noteOffset < song.rythmAt e.position
  | .deadlineRead k =>
    InNote song tight e t ∧ noteOffset < song.rythmAt e.position ∧ k = e.position
  | .sleepUntil d =>
    InNote song tight e t ∧ noteOffset < song.rythmAt e.position ∧
      d = BitVec.ofNat 32 (e.time + (song.rythmAt e.position - noteOffset))
  | .noteStop | .sleepGap => OnBeat song tight e (t.last .low + noteOffset) t.lag
  | .idle => e.time + song.rythmAt e.position ≤ t.last .low
  | pc => if pc.inNote then InNote song tight e t else OnBeat song tight e (t.last .low) t.lag

/-- `Dance` can read the clock before it plays anything. -/
def DancePc.beforeClock : DancePc → Bool
  | .loop | .readState _ | .readDancing _ | .idle | .getTime => true
  | _ => false

/-- The last note started and the next one to be played. -/
def Counted (e : Option Start) (n : ℕ) (pc : DancePc) : Prop :=
  match e, pc with
  | none, pc => n = 0 ∧ pc.beforeClock = true
  | some e, .testLoad => n = e.position
  | some e, .testRead _ => n = e.position
  | some e, _ => n = e.position + 1

/-- A step delays the music in no way that the sleep does not make up for: `Dance` is idle
only before the first note, and the windowed sleep is called before its deadline. -/
def inTime (s : Clocked) (m : Moment) : Bool :=
  match m.priority, s.robot.dancePc with
  | .low, .idle => s.robot.isDancing && s.robot.musicPosition = 0
  | .low, .sleepUntil _ =>
    m.call + noteOffset ≤ s.noteStart + s.robot.currentSong.rythmAt s.robot.musicPosition
  | _, _ => true

/-- The deadline of a note is the clock reading and the duration of the entry that is read now,
less the gap between two notes, in 32 bits: nothing keeps it from lying in the past. -/
theorem dancePc_deadlineRead {s u : Robot} {i : Input} {k : ℕ} (h : dance s i = some u)
    (hpc : s.dancePc = .deadlineRead k) : u.dancePc = .sleepUntil
      (s.time + BitVec.ofNat 32 (s.currentSong.rythmAt k) - BitVec.ofNat 32 noteOffset) := by
  rw [dance, hpc] at h
  obtain ⟨d, hd, h⟩ := Option.bind_eq_some_iff.1 h
  obtain rfl := Music.rythmAt_of_load hd
  obtain rfl := Option.some.inj h
  rfl

/-- In an entry, `music_position` is the position of the note that was started: the count of the
notes and the count of the positions agree from the clock reading to the end of the windowed
sleep. -/
theorem Counted.musicPosition_eq {s : Robot} {e : Start} {n : ℕ}
    (h : Counted (some e) n s.dancePc) (hs : Playing s n)
    (hpc : s.dancePc.inNote = true ∨ ∃ d, s.dancePc = .sleepUntil d) :
    s.musicPosition = e.position := by
  cases hd : s.dancePc <;> simp_all [Counted, Playing, DancePc.inNote]

/-! ### One step -/

/-- A delay that is counted in `lag` keeps the beat: the entry stays over, and both sides of the
bound on lateness grow by the delay. -/
theorem OnBeat.delay {e : Start} {a b lag : ℕ} (h : OnBeat song tight e a lag) (hab : a ≤ b) :
    OnBeat song tight e b (lag + (b - a)) := by
  refine ⟨h.1.trans hab, fun hx => ?_⟩
  have hle := h.2 hx
  omega

/-- How late a step in an entry is: not at all, as far as the music goes, if the entry ends with
a windowed sleep, and by all the time since the last step of `Dance` if it is too short for one.
-/
theorem lateness_inNote (hp : m.priority = .low) (hpc : s.robot.dancePc.inNote = true) :
    lateness sleepUntilWindowed s m =
      if noteOffset < s.robot.currentSong.rythmAt s.robot.musicPosition then 0
      else m.time - s.last .low := by
  cases hd : s.robot.dancePc <;>
    simp_all [lateness, sleepTicks, DancePc.inNote]

/-- How late a step outside of an entry is: by the time since the last step of `Dance`, less the
ticks that the statement asks to sleep. -/
theorem lateness_outside (hp : m.priority = .low) (hpc : s.robot.dancePc.inNote = false)
    (hne : ∀ d, s.robot.dancePc ≠ .sleepUntil d) : lateness sleepUntilWindowed s m =
      m.time - (s.last .low + sleepTicks sleepUntilWindowed s.robot m) := by
  cases hd : s.robot.dancePc <;> simp_all [lateness, DancePc.inNote]

/-- A step between the clock reading and the windowed sleep leaves the reading as it is, and
what delays it counts only if no windowed sleep makes up for it. -/
theorem InNote.step {e : Start} (hs : InNote song tight e s)
    (h : DanceMoment sleepUntilWindowed s m u) (hpc : s.robot.dancePc.inNote = true)
    (hpos : s.robot.musicPosition = e.position) (hsong : s.robot.currentSong = song) :
    InNote song tight e u := by
  have hne : s.robot.dancePc ≠ .getTime := fun hd => by simp [hd, DancePc.inNote] at hpc
  have hcall := h.called
  have hwait := h.waited
  have hlate : lateness sleepUntilWindowed s m = _ := lateness_inNote h.priority hpc
  rw [hsong, hpos] at hlate
  constructor
  · exact ((DanceStep.of_dance h.dance).time_eq hne).trans hs.time
  · rw [h.noteStart, if_neg hne, hs.noteStart]
  · have hle := hs.started
    rw [h.last]
    omega
  · intro hx
    have hle := hs.lag hx
    rw [h.last, h.lag, hlate]
    split_ifs at hle ⊢ <;> omega

/-- The clock reading starts an entry, at the position that `Dance` has come to, at the time of
the step, and with the lateness up to this step. -/
theorem DanceMoment.inNote (h : DanceMoment sleepUntilWindowed s m u)
    (hpc : s.robot.dancePc = .getTime) : InNote song tight
      ⟨s.robot.musicPosition, m.time, s.lag + lateness sleepUntilWindowed s m⟩ u := by
  have hd := h.dance
  rw [Dancing.dance, hpc] at hd
  constructor
  · rw [← Option.some.inj hd]
    exact h.clock
  · rw [h.noteStart, if_pos hpc]
  · exact h.last.ge
  · intro _
    rw [h.last, h.lag]
    split_ifs <;> exact le_rfl

/-- The windowed sleep ends on the beat: called before its deadline it ends there, whatever has
delayed the statements of the entry, and it never ends before the entry is over but for the gap
that follows. -/
theorem InNote.sleepUntil {e : Start} (hw : Windowed sleepUntilWindowed)
    (hs : InNote song tight e s) (h : DanceMoment sleepUntilWindowed s m u) {d : BitVec 32}
    (hpc : s.robot.dancePc = .sleepUntil d) (hlong : noteOffset < song.rythmAt e.position)
    (hr : song.rythmAt e.position < 2 ^ 32)
    (hd : d = BitVec.ofNat 32 (e.time + (song.rythmAt e.position - noteOffset)))
    (hC : tight → m.call + noteOffset ≤ e.time + song.rythmAt e.position) :
    OnBeat song tight e (u.last .low + noteOffset) u.lag := by
  have hcall : e.time ≤ m.call := hs.started.trans h.called
  have hticks : sleepTicks sleepUntilWindowed s.robot m = windowedSleep (BitVec.ofNat 32 e.time)
      (BitVec.ofNat 32 (e.time + (song.rythmAt e.position - noteOffset)))
      (BitVec.ofNat 32 m.call) := by
    simp only [sleepTicks, h.priority, hpc, hw _ _ _, hs.time, hd]
  have hlate : lateness sleepUntilWindowed s m =
      m.time - (m.call + sleepTicks sleepUntilWindowed s.robot m) := by
    simp only [lateness, h.priority, hpc]
  have hwait := h.waited
  have hD : song.rythmAt e.position - noteOffset < 2 ^ 32 := by omega
  have hlow := le_add_windowedSleep hcall hD
  rw [← hticks] at hlow
  rw [h.last, h.lag, hlate]
  refine ⟨by omega, fun hx => ?_⟩
  have hend := (add_windowedSleep_eq_iff hcall hD).2 (by have := hC hx; omega)
  have hlag := hs.lag hx
  rw [if_pos hlong] at hlag
  rw [← hticks] at hend
  omega

/-- A step outside of an entry that waits for `x` of the ticks it is expected to: these take it
closer to the beat, and whatever it waits beyond them is lateness. -/
theorem OnBeat.step {e : Start} {x y : ℕ}
    (hs : OnBeat song tight e (s.last .low + x + y) s.lag)
    (h : DanceMoment sleepUntilWindowed s m u) (hpc : s.robot.dancePc.inNote = false)
    (hne : ∀ d, s.robot.dancePc ≠ .sleepUntil d)
    (hx : sleepTicks sleepUntilWindowed s.robot m = x) :
    OnBeat song tight e (u.last .low + y) u.lag := by
  have hcall := h.called
  have hwait := h.waited
  have hb := hs.delay (show s.last .low + x + y ≤ m.time + y by omega)
  rwa [Nat.add_sub_add_right, ← hx, ← lateness_outside h.priority hpc hne, ← h.lag,
    ← h.last] at hb

/-- A step of `Dance` that reads no clock takes it from one part of the entry of `e` to the
next: to the windowed sleep if the entry is long, past it if the entry is empty, and from there
over the gap to the beat. -/
theorem DanceMoment.beat {e : Start} (h : DanceMoment sleepUntilWindowed s m u)
    (hw : Windowed sleepUntilWindowed) (hsong : s.robot.currentSong = song)
    (hr : song.rythmAt e.position = 0 ∨ noteOffset < song.rythmAt e.position)
    (hr' : song.rythmAt e.position < 2 ^ 32)
    (hpos : s.robot.dancePc.inNote = true ∨ (∃ d, s.robot.dancePc = .sleepUntil d) →
      s.robot.musicPosition = e.position)
    (hs : Beat song tight e s) (hne : s.robot.dancePc ≠ .getTime)
    (hidle : tight → s.robot.dancePc ≠ .idle) (hC : tight → inTime s m = true) :
    Beat song tight e u := by
  have hcall := h.called
  have hwait := h.waited
  have hin : s.robot.dancePc.inNote = true → InNote song tight e s → InNote song tight e u :=
    fun hpc hi => hi.step h hpc (hpos (Or.inl hpc)) hsong
  obtain ⟨v, now, last, noteStart, lag⟩ := u
  have hlast : last .low = m.time := h.last
  have hu : DanceStep s.robot m.input v := .of_dance h.dance
  cases hu with
  | rythmLoad hpc =>
    simp only [Beat, hpc] at hs
    exact ⟨hin (by rw [hpc]; rfl) hs, hpos (Or.inl (by rw [hpc]; rfl))⟩
  | long k hpc hk hlong =>
    simp only [Beat, hpc] at hs
    exact ⟨hin (by rw [hpc]; rfl) hs.1, by rwa [hsong, hs.2] at hlong⟩
  | short k hpc hk hshort =>
    simp only [Beat, hpc] at hs
    obtain ⟨hi, rfl⟩ := hs
    rw [hsong] at hshort
    have h0 := hr.resolve_right hshort
    have hi' := hin (by rw [hpc]; rfl) hi
    refine ⟨by rw [h0]; exact hi'.started, fun hx => ?_⟩
    have hle := hi'.lag hx
    rw [if_neg hshort] at hle
    rwa [h0]
  | deadlineLoad hpc =>
    simp only [Beat, hpc] at hs
    exact ⟨hin (by rw [hpc]; rfl) hs.1, hs.2, hpos (Or.inl (by rw [hpc]; rfl))⟩
  | deadlineRead k d hpc hk =>
    simp only [Beat, hpc] at hs
    obtain ⟨hi, hlong, rfl⟩ := hs
    refine ⟨hin (by rw [hpc]; rfl) hi, hlong, ?_⟩
    have hd := dancePc_deadlineRead h.dance hpc
    rw [hsong, hi.time] at hd
    exact (DancePc.sleepUntil.inj hd).trans (ofNat_add_sub_ofNat hlong.le)
  | sleepUntil d hpc =>
    simp only [Beat, hpc] at hs
    obtain ⟨hi, hlong, hd⟩ := hs
    refine hi.sleepUntil hw h hpc hlong hr' hd fun hx => ?_
    have hle := hC hx
    simp only [inTime, h.priority, hpc, decide_eq_true_eq] at hle
    rwa [hsong, hpos (Or.inr ⟨d, hpc⟩), hi.noteStart] at hle
  | noteStop hpc =>
    simp only [Beat, hpc] at hs
    exact OnBeat.step (x := 0) hs h (by rw [hpc]; rfl) (by simp [hpc])
      (by simp [sleepTicks, h.priority, hpc])
  | sleepGap hpc =>
    simp only [Beat, hpc] at hs
    exact OnBeat.step (x := noteOffset) (y := 0) hs h (by rw [hpc]; rfl) (by simp [hpc])
      (by simp [sleepTicks, h.priority, hpc])
  | idle hpc =>
    simp only [Beat, hpc] at hs
    refine ⟨?_, fun hx => absurd hpc (hidle hx)⟩
    show _ ≤ last .low
    omega
  | getTime hpc => exact absurd hpc hne
  | testLoad hpc | note _ hpc _ _ | rest _ hpc _ _ | playLoad hpc | playRead _ hpc _
  | play _ hpc | figureLeft _ hpc _ | figureRight _ hpc | silenceDac hpc | silenceLeft hpc
  | silenceRight hpc =>
    simp only [Beat, hpc] at hs
    exact hin (by rw [hpc]; rfl) hs
  | readStateIdle _ hpc _ | readDancingIdle _ hpc _ =>
    simp only [Beat, hpc] at hs
    refine (OnBeat.step (x := 0) (y := 0) hs h (by rw [hpc]; rfl) (by simp [hpc]) ?_).1
    simp [sleepTicks, h.priority, hpc]
  | stop p hpc =>
    simp only [Beat, hpc] at hs
    have hb := OnBeat.step (x := 0) (y := 0) hs h (by rw [hpc]; rfl) (by simp [hpc])
      (by simp [sleepTicks, h.priority, hpc])
    cases p <;> exact hb
  | loopState hpc _ | loopDancing hpc _ | readStateEnter hpc _ | readDancingEnter hpc _
  | incLoad hpc | incStore _ hpc | ended hpc _ | notEnded hpc _ =>
    simp only [Beat, hpc] at hs
    exact OnBeat.step (x := 0) (y := 0) hs h (by rw [hpc]; rfl) (by simp [hpc])
      (by simp [sleepTicks, h.priority, hpc])

/-! ### Counting -/

/-- A step of `Dance` that reads no clock and plays nothing changes neither the note that was
started last nor the position to be played next. -/
theorem DanceStep.counted {s u : Robot} {i : Input} {e : Option Start} {n : ℕ}
    (h : DanceStep s i u) (hs : Counted e n s.dancePc) (hne : s.dancePc ≠ .getTime)
    (hk : s.dancePc.tested = none) : Counted e n u.dancePc := by
  cases h with
  | stop p hpc => cases p <;> cases e <;> simp_all [Counted, DancePc.beforeClock, StopPc.next]
  | _ => cases e <;> simp_all [Counted, DancePc.beforeClock, DancePc.tested]

/-- A step of `Dance` that plays a position plays that of the note that was started, so from
here on the next position is one further than the note. -/
theorem DanceStep.counted_succ {s u : Robot} {i : Input} {e : Option Start} {n k : ℕ}
    (h : DanceStep s i u) (hs : Counted e n s.dancePc) (hk : s.dancePc.tested = some k) :
    Counted e (n + 1) u.dancePc := by
  have hpc := tested_eq_some hk
  cases h with
  | note _ hpc' _ _ => cases e <;> simp_all [Counted, DancePc.beforeClock]
  | rest _ hpc' _ _ => cases e <;> simp_all [Counted, DancePc.beforeClock]
  | _ => simp_all

/-! ### Runs -/

/-- A timed run from `s`, where a restart has just found `Dance` idle, during which
`ManageStates` keeps reading the value that `last_selector` holds: the one that it read
last before the restart. -/
structure TimedPlayback (freq : Note → ℕ)
    (sleepUntilWindowed : BitVec 32 → BitVec 32 → BitVec 32 → ℕ) (s : Clocked)
    (tr : List (Clocked × Moment)) (t : Clocked) : Prop where
  reachable : Reachable freq s.robot
  restarted : s.robot.msPc = .clearCountry
  idle : s.robot.dancePc = .idle
  run : Run (Clocked.step freq sleepUntilWindowed) s tr t
  unturned : ∀ x ∈ tr, x.2.priority = .high → x.2.input.selector = s.robot.lastSelector

/-- Two notes that start one after the other. -/
def Follows (song : Music) (tight : Prop) (e e' : Start) : Prop :=
  e'.position = e.position + 1 ∧ OnBeat song tight e e'.time e'.lag

/-- A step of `ManageStates` leaves `Dance` where it is in its entry, since it writes nothing
that the beat speaks of. -/
theorem MsMoment.beat {e : Start} (h : MsMoment freq s m u) (hs : Beat song tight e s) :
    Beat song tight e u := by
  have hin : InNote song tight e u = InNote song tight e s := by
    simp only [inNote_iff, h.step.time_eq, h.last, h.noteStart, h.lag]
  rwa [Beat, h.step.frame.1, hin, h.last, h.lag]

/-- What holds in a playback, `e` being the last note that started. -/
structure Keeping (s : Clocked) (tight : Prop) (e : Option Start) (t : Clocked) : Prop where
  quiet : MsQuiet t.robot
  unstopped : t.robot.msPc ≠ .stop .flag
  selector : t.robot.lastSelector = s.robot.lastSelector
  song : t.robot.currentSong = s.robot.currentSong
  beat : ∀ x ∈ e, Beat s.robot.currentSong tight x t
  counted : ∃ n, Playing t.robot n ∧ Counted e n t.robot.dancePc

/-- A step of `ManageStates` that reads the selector where it was leaves all that counts for the
music: the statement of `Dance`, its clock reading, the position and the song. -/
theorem Keeping.ms {e : Option Start} (hs : Keeping s tight e t) (h : MsMoment freq t m u)
    (hsel : m.input.selector = s.robot.lastSelector) : Keeping s tight e u := by
  obtain ⟨hq, hne, hlast, hsong, hbeat, n, hplay, hcount⟩ := hs
  obtain ⟨hplay', hq', hne'⟩ := h.step.playing hplay hq (hsel.trans hlast.symm) hne
  obtain ⟨-, -, hsong', -, hlast'⟩ := h.step.quiet hq hne
  exact ⟨hq', hne', hlast'.trans hlast, hsong'.trans hsong, fun x hx => h.beat (hbeat x hx), n,
    hplay', h.step.frame.1 ▸ hcount⟩

/-- A step of `Dance` that starts no note stays on the beat of the last one.  In a song of the
table an entry is either empty or longer than `note_offset`, so none is cut by its own gap. -/
theorem Keeping.dance {e : Option Start} (hs : Keeping s tight e t)
    (h : DanceMoment sleepUntilWindowed t m u) (hw : Windowed sleepUntilWindowed)
    (hr : ∀ k, s.robot.currentSong.rythmAt k = 0 ∨ noteOffset < s.robot.currentSong.rythmAt k)
    (hr' : ∀ k, s.robot.currentSong.rythmAt k < 2 ^ 32) (hpc : t.robot.dancePc ≠ .getTime)
    (hC : tight → inTime t m = true) : Keeping s tight e u := by
  obtain ⟨hq, hne, hlast, hsong, hbeat, n, hplay, hcount⟩ := hs
  have hu : DanceStep t.robot m.input u.robot := .of_dance h.dance
  have hf := hu.frame
  refine ⟨hu.msQuiet hq, hf.msPc ▸ hne, hf.lastSelector.trans hlast,
    hf.currentSong.trans hsong, fun x hx => ?_, ?_⟩
  · obtain rfl := Option.mem_def.1 hx
    refine h.beat hw hsong (hr _) (hr' _) (fun hin => hcount.musicPosition_eq hplay hin)
      (hbeat x rfl) hpc (fun hx hi => ?_) hC
    -- a note has started, so the next one is not the first
    have hfirst := hC hx
    simp only [inTime, h.priority, hi, Bool.and_eq_true, decide_eq_true_eq] at hfirst
    simp_all [Playing, Counted]
  · cases hk : t.robot.dancePc.tested with
    | none => exact ⟨n, hu.playing hplay hk, hu.counted hcount hpc hk⟩
    | some k =>
      obtain ⟨n', hn', hplay'⟩ := hu.played_playing hplay hk
      obtain ⟨-, -, rfl⟩ := player_eq_some.1 hn'
      exact ⟨n + 1, hplay', hu.counted_succ hcount hk⟩

/-- A step of `Dance` that starts a note: it is the first of the song if none was started
before, and otherwise it follows the last one on its beat. -/
theorem Keeping.start {e : Option Start} (hs : Keeping s tight e t)
    (h : DanceMoment sleepUntilWindowed t m u) (hpc : t.robot.dancePc = .getTime) :
    Keeping s tight
        (some ⟨t.robot.musicPosition, m.time, t.lag + lateness sleepUntilWindowed t m⟩) u ∧
      e.elim (t.robot.musicPosition = 0) (Follows s.robot.currentSong tight ·
        ⟨t.robot.musicPosition, m.time, t.lag + lateness sleepUntilWindowed t m⟩) := by
  obtain ⟨hq, hne, hlast, hsong, hbeat, n, hplay, hcount⟩ := hs
  have hu : DanceStep t.robot m.input u.robot := .of_dance h.dance
  have hf := hu.frame
  have hd := h.dance
  rw [Dancing.dance, hpc] at hd
  have hupc : u.robot.dancePc = .testLoad := by rw [← Option.some.inj hd]
  have hpos : t.robot.musicPosition = n := by
    simp only [Playing, hpc] at hplay
    exact hplay.2.1
  refine ⟨⟨hu.msQuiet hq, hf.msPc ▸ hne, hf.lastSelector.trans hlast,
    hf.currentSong.trans hsong, fun x hx => ?_, n, ?_, ?_⟩, ?_⟩
  · obtain rfl := Option.some.inj hx
    rw [Beat, hupc]
    exact h.inNote hpc
  · exact hu.playing hplay (by rw [hpc]; rfl)
  · rw [hupc]
    exact hpos.symm
  · rw [hpc] at hcount
    cases e with
    | none => exact hpos.trans hcount.1
    | some x =>
      have hx := hbeat x rfl
      rw [Beat, hpc] at hx
      have hb := OnBeat.step (x := 0) (y := 0) hx h (by rw [hpc]; rfl) (by simp [hpc])
        (by simp [sleepTicks, h.priority, hpc])
      rw [Nat.add_zero, h.last, h.lag] at hb
      exact ⟨hpos.trans hcount, hb⟩

/-- **Notes start on the beat.**  In a playback the first note is that of position 0, and each
one follows the note before it; where `tight` is asked for, every step has to be in time. -/
theorem TimedPlayback.isChain (h : TimedPlayback freq sleepUntilWindowed s tr t) (tight : Prop)
    (hw : Windowed sleepUntilWindowed) (hC : tight → ∀ x ∈ tr, inTime x.1 x.2 = true) :
    (events (starts sleepUntilWindowed) tr).IsChain (Follows s.robot.currentSong tight) ∧
      ∀ e ∈ (events (starts sleepUntilWindowed) tr).head?, e.position = 0 := by
  obtain ⟨hr, hpc, hidle, hrun, hsel⟩ := h
  have hm := hr.msInv.1
  simp only [MsInv, hpc] at hm
  obtain ⟨-, -, hd, hpos, hsong⟩ := hm
  have h0 : Keeping s tight none s := by
    refine ⟨by rw [MsQuiet, hpc]; trivial, by simp [hpc], rfl, rfl, by simp, 0, ?_, ?_⟩
    · simp [Playing, hidle, hd, hpos, musicSize]
    · simp [Counted, hidle, DancePc.beforeClock]
  have hlong : ∀ k, s.robot.currentSong.rythmAt k = 0 ∨
      noteOffset < s.robot.currentSong.rythmAt k := hsong ▸ rythmAt_lutFlagToMusic freq _
  have hlt : ∀ k, s.robot.currentSong.rythmAt k < 2 ^ 32 := fun k =>
    (hsong ▸ rythmAt_lutFlagToMusic_lt freq _ k).trans (by decide)
  have hall := hrun.isChain_events (R := Keeping s tight) (fun e => e.position = 0)
    (Follows s.robot.currentSong tight) (starts sleepUntilWindowed)
    (C := fun t m => (m.priority = .high → m.input.selector = s.robot.lastSelector) ∧
      (tight → inTime t m = true)) (fun x hx => ⟨hsel x hx, fun he => hC he x hx⟩) h0 ?_
  · exact ⟨hall.1, hall.2.1⟩
  rintro e t m u hs ⟨hsel, hin⟩ hstep
  obtain hu | hu := Clocked.step_cases hstep
  · have hev : starts sleepUntilWindowed t m = none := by rw [starts, hu.priority]
    rw [hev]
    exact ⟨hs.ms hu (hsel hu.priority), by simp⟩
  · by_cases hg : t.robot.dancePc = .getTime
    · have hev : starts sleepUntilWindowed t m = some ⟨t.robot.musicPosition, m.time,
          t.lag + lateness sleepUntilWindowed t m⟩ := by rw [starts, hu.priority, hg]
      obtain ⟨hs', hfollow⟩ := hs.start hu hg
      rw [hev]
      refine ⟨hs', fun y hy => ?_⟩
      obtain rfl := Option.some.inj hy
      exact hfollow
    · have hev : starts sleepUntilWindowed t m = none := by
        unfold starts
        split <;> simp_all
      rw [hev]
      exact ⟨hs.dance hu hw hlong hlt hg hin, by simp⟩

/-- The time at which entry `k` of a song is due, from the start of the song on. -/
def Music.onset (song : Music) : ℕ → ℕ
  | 0 => 0
  | k + 1 => song.onset k + song.rythmAt k

/-- Between two notes passes at least the time that the song gives to the entries between
them, and if `tight`, at most that and the time for which `Dance` was late. -/
def Paced (song : Music) (tight : Prop) (e e' : Start) : Prop :=
  e.time + song.onset e'.position ≤ e'.time + song.onset e.position ∧
    (tight → e'.time + song.onset e.position + e.lag ≤ e.time + song.onset e'.position + e'.lag)

/-- From a note to the next one the onset grows by the duration of one entry, which is the time
that `OnBeat` gives to it. -/
theorem Follows.paced {e e' : Start} (h : Follows song tight e e') : Paced song tight e e' := by
  obtain ⟨hpos, hle, hlag⟩ := h
  rw [Paced, hpos, Music.onset]
  refine ⟨by omega, fun hx => ?_⟩
  have hle' := hlag hx
  omega

instance : Trans (Paced song tight) (Paced song tight) (Paced song tight) where
  trans := by
    rintro e e' e'' ⟨h₁, h₂⟩ ⟨h₁', h₂'⟩
    refine ⟨by omega, fun hx => ?_⟩
    have hle := h₂ hx
    have hle' := h₂' hx
    omega

/-- Numbers of which each is one more than the one before are counted up from the first. -/
theorem eq_range'_of_isChain {l : List ℕ} {a : ℕ} (h : (a :: l).IsChain fun x y => y = x + 1) :
    a :: l = List.range' a (l.length + 1) := by
  induction l generalizing a with
  | nil => rfl
  | cons b l ih =>
    obtain ⟨rfl, h⟩ := List.isChain_cons_cons.1 h
    rw [List.length_cons, List.range'_succ, ← ih h]

/-- Notes that follow one another from position 0 on are those of the positions 0, 1, 2 and so
on, none of them left out. -/
theorem map_position_of_isChain {es : List Start} (h : es.IsChain (Follows song tight))
    (h0 : ∀ e ∈ es.head?, e.position = 0) : es.map Start.position = List.range es.length := by
  have hchain : (es.map Start.position).IsChain fun x y => y = x + 1 :=
    (List.isChain_map _).2 (h.imp fun _ _ hf => hf.1)
  cases es with
  | nil => rfl
  | cons e es =>
    rw [List.map_cons, h0 e rfl] at hchain
    rw [List.map_cons, h0 e rfl, eq_range'_of_isChain hchain, List.length_map, List.length_cons,
      List.range_eq_range']

/-- **The music does not run ahead.**  In a playback the notes start in the order of the
song, and between two of them passes at least the time that the song gives to the entries
between them. -/
theorem starts_notBefore (hw : Windowed sleepUntilWindowed)
    (h : TimedPlayback freq sleepUntilWindowed s tr t) :
    (events (starts sleepUntilWindowed) tr).map Start.position =
        List.range (events (starts sleepUntilWindowed) tr).length ∧
      (events (starts sleepUntilWindowed) tr).Pairwise fun e e' =>
        e.time + s.robot.currentSong.onset e'.position ≤
          e'.time + s.robot.currentSong.onset e.position := by
  obtain ⟨hchain, hhead⟩ := h.isChain False hw nofun
  have hpaced := (hchain.imp fun _ _ hf => hf.paced).pairwise
  exact ⟨map_position_of_isChain hchain hhead, hpaced.imp And.left⟩

/-- A schedule from the restart of `restartIdle` on, with its delays, is a playback in time, if it
reads the selector where `last_selector` has it. -/
theorem exists_timedPlayback (as : List ((Priority × Input) × ℕ))
    {P : List (Clocked × Moment) → Prop}
    (h : ∃ s ∈ (promptly concertPitch Clocked.powerUp restartIdle).foldlM
        (Clocked.step concertPitch windowedSleep) Clocked.powerUp,
      ∃ t ∈ (delayed concertPitch s as).foldlM (Clocked.step concertPitch windowedSleep) s,
        (s.robot.msPc = .clearCountry ∧ s.robot.dancePc = .idle) ∧
          (∀ x ∈ trace (Clocked.step concertPitch windowedSleep) s (delayed concertPitch s as),
            x.2.input.selector = s.robot.lastSelector) ∧
          P (trace (Clocked.step concertPitch windowedSleep) s (delayed concertPitch s as))) :
    ∃ s tr t, TimedPlayback concertPitch windowedSleep s tr t ∧ P tr := by
  obtain ⟨s, hs, t, ht, ⟨hpc, hidle⟩, hsel, hP⟩ := h
  have hreach : Clocked.Reachable concertPitch windowedSleep s := ⟨_, run_of_foldlM hs⟩
  exact ⟨s, _, t, ⟨hreach.robot, hpc, hidle, run_of_foldlM ht, fun x hx _ => hsel x hx⟩, hP⟩

/-- Three notes after a restart. -/
def firstNotes : List (Priority × Input) :=
  msFor 7 (clear 1 .undefinedFlag) ++ danceFor 62 (clear 1 .undefinedFlag)

/-- The first three notes of the song start after 200, 420 and 640 ticks: each of them takes the
220 ticks that the song gives it. -/
theorem starts_notBefore_firstNotes : ∃ s tr t,
    TimedPlayback concertPitch windowedSleep s tr t ∧
      (events (starts windowedSleep) tr).map Start.time = [200, 420, 640] ∧
      (events (starts windowedSleep) tr).Pairwise fun e e' =>
        e.time + s.robot.currentSong.onset e'.position ≤
          e'.time + s.robot.currentSong.onset e.position := by
  obtain ⟨s, tr, t, hplay, hev⟩ := exists_timedPlayback (firstNotes.map (·, 0))
    (P := fun tr => (events (starts windowedSleep) tr).map Start.time = [200, 420, 640])
    (by decide +kernel)
  exact ⟨s, tr, t, hplay, hev, (starts_notBefore (fun _ _ _ => rfl) hplay).2⟩

/-- **The music does not drag behind**: in a playback, as long as `Dance` is idle only before
the first note and calls its windowed sleeps before their deadlines, a note is late by no more
than the delays of `Dance` between its sleeps and its clock readings, which `lag` adds up.  What
delays it inside a note has no effect on the next one, because the windowed sleep ends at a
deadline that is counted from the start of the note. -/
theorem starts_notAfter (hw : Windowed sleepUntilWindowed)
    (h : TimedPlayback freq sleepUntilWindowed s tr t) (hC : ∀ x ∈ tr, inTime x.1 x.2 = true) :
    (events (starts sleepUntilWindowed) tr).Pairwise fun e e' =>
      e'.time + s.robot.currentSong.onset e.position + e.lag ≤
        e.time + s.robot.currentSong.onset e'.position + e'.lag := by
  obtain ⟨hchain, -⟩ := h.isChain True hw fun _ => hC
  have hpaced := (hchain.imp fun _ _ hf => hf.paced).pairwise
  exact hpaced.imp fun hp => hp.2 trivial

/-- The same notes, with `Dance` 30 ticks late inside the first of them and 25 ticks late
between the second and the third. -/
def lateNotes : List ((Priority × Input) × ℕ) :=
  firstNotes.mapIdx fun n a => (a, if n = 15 then 30 else if n = 45 then 25 else 0)

/-- The sleep of the first note makes up for the 30 ticks by which `Dance` is late inside it,
and the 25 ticks between the second note and the third delay the third one. -/
theorem starts_notAfter_firstNotes : ∃ s tr t,
    TimedPlayback concertPitch windowedSleep s tr t ∧ (∀ x ∈ tr, inTime x.1 x.2 = true) ∧
      (events (starts windowedSleep) tr).map (fun e => (e.time, e.lag)) =
        [(200, 100), (420, 100), (665, 125)] ∧
      (events (starts windowedSleep) tr).Pairwise fun e e' =>
        e'.time + s.robot.currentSong.onset e.position + e.lag ≤
          e.time + s.robot.currentSong.onset e'.position + e'.lag := by
  obtain ⟨s, tr, t, hplay, hin, hev⟩ := exists_timedPlayback lateNotes
    (P := fun tr => (∀ x ∈ tr, inTime x.1 x.2 = true) ∧
      (events (starts windowedSleep) tr).map (fun e => (e.time, e.lag)) =
        [(200, 100), (420, 100), (665, 125)])
    (by decide +kernel)
  exact ⟨s, tr, t, hplay, hin, hev, starts_notAfter (fun _ _ _ => rfl) hplay hin⟩

/-! ### A deadline in the past -/

/-- The time until which `Dance` waits for a note that started at `noteStart`, when the
duration that it reads for the deadline is less than `note_offset`. -/
def hangsUntil (noteStart rythm : ℕ) : ℕ := noteStart + (2 ^ 32 - (noteOffset - rythm))

/-- `Dance` is about to compute the deadline from entry `k`, or waits for it. -/
structure Hanging (s : Clocked) (k : ℕ) (t : Clocked) : Prop where
  quiet : MsQuiet t.robot
  unstopped : t.robot.msPc ≠ .stop .flag
  selector : t.robot.lastSelector = s.robot.lastSelector
  song : t.robot.currentSong = s.robot.currentSong
  isDancing : t.robot.isDancing = true
  dac : t.robot.dac = s.robot.dac
  clock : ClockInv t
  noteStart : t.noteStart = s.noteStart
  waiting : t.robot.dancePc = .deadlineRead k ∨ t.robot.dancePc = .sleepUntil
    (BitVec.ofNat 32 (hangsUntil s.noteStart (s.robot.currentSong.rythmAt k)))

/-- A step of `ManageStates` that reads the selector where it was does not stop the dance, so it
touches neither the DAC nor the deadline of `Dance`. -/
theorem Hanging.ms {k : ℕ} (hs : Hanging s k t) (h : MsMoment freq t m u)
    (hsel : m.input.selector = s.robot.lastSelector) : Hanging s k u := by
  obtain ⟨hq, hne, hlast, hsong, hd, hdac, hclock, hstart, hwait⟩ := hs
  obtain ⟨hq', -, hsong', hd', hlast'⟩ := h.step.quiet hq hne
  have hne' : u.robot.msPc ≠ .stop .flag ∧ u.robot.dac = t.robot.dac := by
    have hu := h.step
    clear h
    generalize u.robot = v at hu
    cases hu with
    | turned hpc ht => exact absurd (hsel.trans hlast.symm) ht
    | stop p hpc => cases p <;> simp_all [MsQuiet]
    | _ => simp
  exact ⟨hq', hne'.1, hlast'.trans hlast, hsong'.trans hsong, hd'.trans hd, hne'.2.trans hdac,
    h.clockInv hclock, h.noteStart.trans hstart, h.step.frame.1 ▸ hwait⟩

/-- A step of `Dance` computes the deadline from the short entry, which makes it one turn of the
clock away, or it is the sleep until then, and when it is over the turn is too. -/
theorem Hanging.dance {k : ℕ} (hs : Hanging s k t) (h : DanceMoment sleepUntilWindowed t m u)
    (hw : Windowed sleepUntilWindowed) (hshort : s.robot.currentSong.rythmAt k < noteOffset) :
    Hanging s k u ∨ hangsUntil s.noteStart (s.robot.currentSong.rythmAt k) ≤ u.now := by
  obtain ⟨hq, hne, hlast, hsong, hd, hdac, hclock, hstart, hwait⟩ := hs
  have hu : DanceStep t.robot m.input u.robot := .of_dance h.dance
  have hf := hu.frame
  rcases hwait with hpc | hpc
  · left
    have hnext := dancePc_deadlineRead h.dance hpc
    rw [hclock.time, hstart, hsong, ofNat_add_sub_ofNat_of_lt hshort (by decide)] at hnext
    have hrest : u.robot.isDancing = t.robot.isDancing ∧ u.robot.dac = t.robot.dac := by
      clear h hnext hf
      generalize u.robot = v at hu
      cases hu <;> simp_all
    exact ⟨hu.msQuiet hq, hf.msPc ▸ hne, hf.lastSelector.trans hlast, hf.currentSong.trans hsong,
      hrest.1.trans hd, hrest.2.trans hdac, h.clockInv hclock,
      by rw [h.noteStart, if_neg (by simp [hpc]), hstart], Or.inr hnext⟩
  · right
    have hcall : s.noteStart ≤ m.call := hstart ▸ hclock.started.trans h.called
    have hsleep := le_add_windowedSleep (w := 32) (T := s.noteStart) (c := m.call)
      (D := 2 ^ 32 - (noteOffset - s.robot.currentSong.rythmAt k)) hcall (by omega)
    have hwaited := h.waited
    simp only [sleepTicks, h.priority, hpc, hw _ _ _, hclock.time, hstart] at hwaited
    rw [h.now]
    exact hsleep.trans hwaited

/-- **A restart can hang the robot for 49 days**: when it leaves `Dance` with an entry of
less than `note_offset` under its deadline, the deadline underflows, and as long as
`ManageStates` keeps reading the value that `last_selector` holds, `Dance` sleeps: no note
starts and the DAC stays as it is until the clock has turned once. -/
theorem restart_hangs (hw : Windowed sleepUntilWindowed)
    (hs : Clocked.Reachable freq sleepUntilWindowed s) (hpc : s.robot.msPc = .clearCountry)
    {k : ℕ} (hk : s.robot.dancePc = .deadlineRead k)
    (hshort : s.robot.currentSong.rythmAt k < noteOffset)
    (h : Run (Clocked.step freq sleepUntilWindowed) s tr t)
    (hsel : ∀ x ∈ tr, x.2.priority = .high → x.2.input.selector = s.robot.lastSelector)
    (hnow : t.now < hangsUntil s.noteStart (s.robot.currentSong.rythmAt k)) :
    t.robot.isDancing = true ∧ events (starts sleepUntilWindowed) tr = [] ∧
      t.robot.dac = s.robot.dac := by
  have hm := hs.robot.msInv.1
  simp only [MsInv, hpc] at hm
  have h0 : Hanging s k s := ⟨by rw [MsQuiet, hpc]; trivial, by simp [hpc], rfl, rfl, hm.2.2.1, rfl,
    hs.clockInv, rfl, Or.inl hk⟩
  have hall := h.history (P := fun tr t =>
      Hanging s k t ∧ events (starts sleepUntilWindowed) tr = [] ∨
        hangsUntil s.noteStart (s.robot.currentSong.rythmAt k) ≤ t.now)
    (C := fun _ m => m.priority = .high → m.input.selector = s.robot.lastSelector) hsel
    (Or.inl ⟨h0, rfl⟩) ?_
  · obtain ⟨hh, hev⟩ := hall.resolve_right (Nat.not_le.2 hnow)
    exact ⟨hh.isDancing, hev, hh.dac⟩
  rintro tr t m u ht hsel hstep
  obtain hu | hu := Clocked.step_cases hstep
  · rcases ht with ⟨hh, hev⟩ | hle
    · refine Or.inl ⟨hh.ms hu (hsel hu.priority), ?_⟩
      rw [events_snoc, hev, starts, hu.priority]
      rfl
    · exact Or.inr (hle.trans hu.later)
  · rcases ht with ⟨hh, hev⟩ | hle
    · refine (hh.dance hu hw hshort).imp_left fun hh' => ⟨hh', ?_⟩
      have hne : starts sleepUntilWindowed t m = none := by
        unfold starts
        rcases hh.waiting with hpc | hpc <;> simp [hpc, hu.priority]
      rw [events_snoc, hev, hne]
      rfl
    · exact Or.inr (hle.trans hu.later)

/-- The French song is at position 43, the deadline of its note is about to be computed, and
the Italian song, which has 43 entries, is started. -/
def italianAfterFrench : List (Priority × Input) :=
  startDance .france ++ danceFor 865 (clear 1 .france) ++ msFor 22 (clear 2 .italy)

/-- What the threads read at time `now`. -/
def readAt (now : ℕ) : Input := { clear 2 .undefinedFlag with clock := BitVec.ofNat 32 now }

/-- `Dance` computes its deadline, and 46 days later `ManageStates` wakes up. -/
def daysLater : List Moment :=
  [⟨.high, readAt 19240, 19240, 19240⟩, ⟨.low, readAt 19240, 19240, 19240⟩,
    ⟨.high, readAt 4000000000, 19240, 4000000000⟩]

/-- The Italian song has no entry at position 43 of the French one: its dance has not begun 46
days after it was started. -/
theorem restart_hangs_italianAfterFrench : ∃ s tr t,
    Clocked.Reachable concertPitch windowedSleep s ∧ s.robot.msPc = .clearCountry ∧
      s.robot.dancePc = .deadlineRead 43 ∧
      Run (Clocked.step concertPitch windowedSleep) s tr t ∧
      (∀ x ∈ tr, x.2.priority = .high → x.2.input.selector = s.robot.lastSelector) ∧
      s.now = 19240 ∧ t.now = 4000000000 ∧ t.robot.isDancing = true ∧
      events (starts windowedSleep) tr = [] ∧ t.robot.dac = s.robot.dac := by
  obtain ⟨s, tr, t, hs, h, ⟨hnow, hpc, hk, hshort⟩, hun, hnow', hlt⟩ := exists_run_run
    (Clocked.step concertPitch windowedSleep) Clocked.powerUp
    (promptly concertPitch Clocked.powerUp italianAfterFrench) (fun _ => daysLater)
    (P := fun s tr t => (s.now = 19240 ∧ s.robot.msPc = .clearCountry ∧
        s.robot.dancePc = .deadlineRead 43 ∧ s.robot.currentSong.rythmAt 43 < noteOffset) ∧
      (∀ x ∈ tr, x.2.priority = .high → x.2.input.selector = s.robot.lastSelector) ∧
      t.now = 4000000000 ∧ t.now < hangsUntil s.noteStart (s.robot.currentSong.rythmAt 43))
    (by decide +kernel)
  exact ⟨s, tr, t, ⟨_, hs⟩, hpc, hk, h, hun, hnow, hnow',
    restart_hangs (fun _ _ _ => rfl) ⟨_, hs⟩ hpc hk hshort h hun hlt⟩

end Dancing
end JeanBot
