/-
# Detection episodes

What one iteration of `ManageStates` does to the outside: `get_flag` calls with
their results, and `restart_dance` calls.  `country` is static and survives the
iteration, and `ROBOT_STATE` is assigned up to four times in it, but an iteration
is self-contained: its events are `get_flag` calls that find nothing, or
`get_flag` calls of which the last one finds a flag, and then one restart with that
flag (`episodes`).
-/

import JeanBot.Dancing.Invariants

namespace JeanBot
namespace Dancing

open Lib FlagDetection

variable {freq : Note → ℕ} {s u t : Robot} {i : Input} {tr : List (Robot × (Priority × Input))}

/-- What `ManageStates` does in a step: it starts an iteration, it returns from
`get_flag`, or it calls `restart_dance`. -/
inductive MsEvent
  | head
  | flag (found : Flag)
  | restart (country : Flag)
  deriving DecidableEq, Repr

/-- The event of a step. -/
def msEvent (s : Robot) (a : Priority × Input) : Option MsEvent :=
  match a.1, s.msPc with
  | .high, .obstacle => some .head
  | .high, .waitImage => some (.flag a.2.flag)
  | .high, .restartPosition => some (.restart s.country)
  | _, _ => none

/-- The events of the current iteration. -/
def sinceHead (es : List MsEvent) : List MsEvent :=
  es.foldl (fun acc e => if e = .head then [] else acc ++ [e]) []

/-- One more event: the head of an iteration forgets the events of the one before, and any other
event is added to them. -/
theorem sinceHead_snoc (es : List MsEvent) (e : MsEvent) :
    sinceHead (es ++ [e]) = if e = .head then [] else sinceHead es ++ [e] := by
  rw [sinceHead, List.foldl_append]
  rfl

/-- An iteration so far: `get_flag` calls, and after them at most one restart, with
a flag that the last of them found. -/
def EpisodeSoFar (es : List MsEvent) : Prop :=
  ∃ fs : List Flag, es = fs.map .flag ∨
    ∃ f, f ≠ .undefinedFlag ∧ fs.getLast? = some f ∧ es = fs.map .flag ++ [.restart f]

/-- A complete iteration: no flag was found and there was no restart, or the last
`get_flag` call found a flag and there was one restart, with that flag. -/
def EpisodeDone (es : List MsEvent) : Prop :=
  ∃ fs : List Flag, (es = fs.map .flag ∧ ∀ f ∈ fs, f = .undefinedFlag) ∨
    ∃ f, f ≠ .undefinedFlag ∧ fs.getLast? = some f ∧ es = fs.map .flag ++ [.restart f]

/-- The flags found so far, and `country`: only the last one can be defined. -/
structure Pending (fs : List Flag) (country : Flag) : Prop where
  last : fs.getLast?.getD .undefinedFlag = country
  dropLast : ∀ f ∈ fs.dropLast, f = .undefinedFlag

/-- Before the first image no flag was found, and `country` is undefined. -/
theorem Pending.nil : Pending [] .undefinedFlag := ⟨rfl, nofun⟩

/-- While `country` is undefined, none of the images has shown a flag. -/
theorem Pending.all_undefined {fs : List Flag} (h : Pending fs .undefinedFlag) :
    ∀ f ∈ fs, f = .undefinedFlag := by
  obtain ⟨hlast, hdrop⟩ := h
  rcases List.eq_nil_or_concat' fs with rfl | ⟨gs, g, rfl⟩
  · nofun
  · rw [List.dropLast_concat] at hdrop
    rw [List.getLast?_concat, Option.getD_some] at hlast
    intro f hf
    rcases List.mem_append.1 hf with hf | hf
    · exact hdrop f hf
    · rw [List.mem_singleton.1 hf, hlast]

/-- A `get_flag` call is appended while `country` is undefined, and what it returns is `country`
then. -/
theorem Pending.snoc {fs : List Flag} (h : Pending fs .undefinedFlag) (f : Flag) :
    Pending (fs ++ [f]) f := by
  constructor
  · rw [List.getLast?_concat, Option.getD_some]
  · rw [List.dropLast_concat]
    exact h.all_undefined

/-- A flag that was found was found by the last call, because the window closes behind it. -/
theorem Pending.getLast?_eq {fs : List Flag} {country : Flag} (h : Pending fs country)
    (hc : country ≠ .undefinedFlag) : fs.getLast? = some country := by
  obtain ⟨rfl, -⟩ := h
  cases hl : fs.getLast? with
  | none => rw [hl] at hc; exact absurd rfl hc
  | some f => rfl

/-- What the events of the current iteration are at each statement. -/
def EpisodeInv (es : List MsEvent) (s : Robot) : Prop :=
  match s.msPc with
  | .testWindow | .waitImage | .setFound | .takeSelectorAgain | .testDance
  | .restartPosition => ∃ fs : List Flag, es = fs.map .flag ∧ Pending fs s.country
  | .restartSong | .restartFlag | .clearCountry =>
    ∃ fs : List Flag, es = fs.map .flag ++ [.restart s.country] ∧ Pending fs s.country
  | .sleep | .obstacle => EpisodeDone es
  | _ => es = []

/-- An iteration without a detection is complete. -/
theorem EpisodeDone.nil : EpisodeDone [] := ⟨[], Or.inl ⟨rfl, nofun⟩⟩

/-- What one step of `ManageStates` does to the events of the iteration: it appends the result
of a `get_flag` or the restart, and at the head of the next iteration nothing is left of them.
-/
theorem MsStep.episodeInv (h : MsStep freq s i u) (hm : MsInv freq s) {es : List MsEvent}
    (hs : EpisodeInv (sinceHead es) s) :
    EpisodeInv (sinceHead (es ++ (msEvent s (.high, i)).toList)) u := by
  cases h with
  | panic hpc ho => simp [msEvent, hpc, sinceHead_snoc, EpisodeInv]
  | unpanic hpc ho => simp [msEvent, hpc, sinceHead_snoc, EpisodeInv]
  | waitImage hpc =>
    simp only [EpisodeInv, MsInv, hpc] at hs hm
    obtain ⟨fs, he, hp⟩ := hs
    rw [hm.1] at hp
    refine ⟨fs ++ [i.flag], ?_, hp.snoc i.flag⟩
    simp [msEvent, hpc, sinceHead_snoc, he]
  | restartPosition hpc =>
    simp only [EpisodeInv, hpc] at hs
    obtain ⟨fs, he, hp⟩ := hs
    refine ⟨fs, ?_, hp⟩
    simp [msEvent, hpc, sinceHead_snoc, he]
  | init hpc =>
    simp only [EpisodeInv, hpc] at hs
    rw [msEvent, hpc, Option.toList_none, List.append_nil, hs]
    exact .nil
  | setPause hpc =>
    simp only [EpisodeInv, hpc] at hs
    rw [msEvent, hpc, Option.toList_none, List.append_nil, hs]
    exact .nil
  | skipDetection hpc hd =>
    simp only [EpisodeInv, MsInv, hpc] at hs hm
    refine ⟨[], by simp [msEvent, hpc, hs], ?_⟩
    show Pending [] s.country
    rw [hm.1]
    exact .nil
  | readStart hpc =>
    simp only [EpisodeInv, MsInv, hpc] at hs hm
    refine ⟨[], by simp [msEvent, hpc, hs], ?_⟩
    show Pending [] s.country
    rw [hm.1]
    exact .nil
  | skipRestart hpc hd =>
    simp only [EpisodeInv, MsInv, hpc] at hs hm
    obtain ⟨fs, he, hp⟩ := hs
    obtain ⟨hc, -⟩ := hm.resolve_right fun h => hd h.2.1
    rw [hc] at hp
    exact ⟨fs, Or.inl ⟨by simp [msEvent, hpc, he], hp.all_undefined⟩⟩
  | clearCountry hpc =>
    simp only [EpisodeInv, MsInv, hpc] at hs hm
    obtain ⟨fs, he, hp⟩ := hs
    exact ⟨fs, Or.inr ⟨_, hm.1, hp.getLast?_eq hm.1, by simp [msEvent, hpc, he]⟩⟩
  | stop p hpc => cases p <;> simp_all [msEvent, EpisodeInv, StopPc.next]
  | _ hpc => simp_all [msEvent, EpisodeInv]

/-- `Dance` does nothing to the events of the iteration, and it writes neither `country` nor the
statement of `ManageStates`. -/
theorem DanceStep.episodeInv (h : DanceStep s i u) {es : List MsEvent} (hs : EpisodeInv es s) :
    EpisodeInv es u := by
  rw [EpisodeInv, h.frame.msPc, h.frame.country]
  exact hs

/-- At every statement of `ManageStates` the events are those of an iteration so far: where a
restart is among them, `country` is defined, and it was found by the last call. -/
theorem EpisodeInv.soFar {es : List MsEvent} (h : EpisodeInv es s) (hm : MsInv freq s) :
    EpisodeSoFar es := by
  have hnil : es = [] → EpisodeSoFar es := fun he => ⟨[], Or.inl he⟩
  have hpending : (∃ fs : List Flag, es = fs.map .flag ∧ Pending fs s.country) →
      EpisodeSoFar es := fun ⟨fs, he, _⟩ => ⟨fs, Or.inl he⟩
  have hrestart : s.country ≠ .undefinedFlag →
      (∃ fs : List Flag, es = fs.map .flag ++ [.restart s.country] ∧ Pending fs s.country) →
      EpisodeSoFar es := fun hc ⟨fs, he, hp⟩ => ⟨fs, Or.inr ⟨_, hc, hp.getLast?_eq hc, he⟩⟩
  have hdone : EpisodeDone es → EpisodeSoFar es := fun ⟨fs, he⟩ => ⟨fs, he.imp_left And.left⟩
  cases hpc : s.msPc <;> simp only [EpisodeInv, MsInv, hpc] at h hm
  case restartSong => exact hrestart hm.1 h
  case restartFlag => exact hrestart hm.1 h
  case clearCountry => exact hrestart hm.1 h
  all_goals first | exact hnil h | exact hpending h | exact hdone h

/-- **Detection episodes are self-contained.**  In every run from power-up:
`country` is undefined at the head of an iteration, a `get_flag` that has not
returned finds `FLAG_DETECTION` and no dance, the events of the current iteration are
`get_flag` calls and after them at most one restart with the flag that the last of
them found, and at the end of the iteration there was one if any of them found a
flag. -/
theorem episodes (h : Run (threads freq).step powerUp tr t) :
    (t.msPc = .obstacle → t.country = .undefinedFlag) ∧
      (t.msPc = .waitImage → t.robotState = .flagDetection ∧ t.isDancing = false) ∧
      EpisodeSoFar (sinceHead (events msEvent tr)) ∧
      (t.msPc = .sleep ∨ t.msPc = .obstacle →
        EpisodeDone (sinceHead (events msEvent tr))) := by
  obtain ⟨hm, he⟩ : MsInv freq t ∧ EpisodeInv (sinceHead (events msEvent tr)) t := by
    refine h.history (C := fun _ _ => True)
      (P := fun tr t => MsInv freq t ∧ EpisodeInv (sinceHead (events msEvent tr)) t)
      (fun _ _ => trivial) ⟨inv_powerUp.ms, rfl⟩ ?_
    rintro tr s a u ⟨hm, he⟩ - hstep
    rw [events_snoc]
    obtain ⟨i, rfl, hu⟩ | ⟨i, rfl, hb, hu⟩ := step_cases hstep
    · exact ⟨hu.msInv hm, hu.episodeInv hm he⟩
    · refine ⟨hu.msInv hb hm, ?_⟩
      rw [show msEvent s (.low, i) = none from rfl, Option.toList_none, List.append_nil]
      exact hu.episodeInv he
  refine ⟨fun hpc => ?_, fun hpc => ?_, he.soFar hm, ?_⟩
  · rw [MsInv, hpc] at hm
    exact hm.1
  · rw [MsInv, hpc] at hm
    exact hm.2
  · rintro (hpc | hpc) <;> rwa [EpisodeInv, hpc] at he

/-- The selector is turned, two images show nothing and the third one a flag. -/
def thirdImage : List (Priority × Input) :=
  msFor 3 (clear 0 .undefinedFlag) ++ msFor 16 (clear 1 .undefinedFlag) ++ msFor 9 (clear 1 .japan)

/-- Two images show nothing and the third one a flag: when the iteration ends, its events are
the three calls and the restart for that flag. -/
theorem episodes_thirdImage : ∃ tr t, Run (threads concertPitch).step powerUp tr t ∧
    t.msPc = .sleep ∧ sinceHead (events msEvent tr) =
        [.flag .undefinedFlag, .flag .undefinedFlag, .flag .japan, .restart .japan] ∧
      EpisodeDone (sinceHead (events msEvent tr)) := by
  obtain ⟨t, h, hpc⟩ := exists_run (threads concertPitch).step powerUp thirdImage
    (P := fun t => t.msPc = .sleep) (by decide +kernel)
  have hev : sinceHead (events msEvent (trace (threads concertPitch).step powerUp thirdImage)) =
      [.flag .undefinedFlag, .flag .undefinedFlag, .flag .japan, .restart .japan] := by
    decide +kernel
  exact ⟨_, t, h, hpc, hev, (episodes h).2.2.2 (Or.inl hpc)⟩

end Dancing
end JeanBot
