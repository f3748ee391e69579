/-
# One dance for each turn of the selector

`ManageStates` reads the selector at four statements and remembers what it has read in
`last_selector`, at the end of a detection too, so that a selector that is turned by more
than one step does not start a second one.  At every test of the selector `last_selector` is
therefore the value that was read last, wherever that was (`LastRead`), and a detection is
started exactly when the value has changed since (`detects_iff_turned`).

A detection starts at most one dance (`mayStart`), so in every run there are no more dances
than detections, and no more detections than changes in the values that were read
(`dances_le_turns`).
-/

import JeanBot.Dancing.Bounds
import JeanBot.Lib.RunLength

namespace JeanBot
namespace Dancing

open Lib FlagDetection

variable {freq : Note → ℕ} {s u t : Robot} {i : Input} {tr : List (Robot × (Priority × Input))}

/-- The value that `get_selector` returns in a step that calls it. -/
def readSelector (s : Robot) (a : Priority × Input) : Option ℤ :=
  match a.1, s.msPc with
  | .high, .init | .high, .testSelector | .high, .takeSelector | .high, .takeSelectorAgain =>
    some a.2.selector
  | _, _ => none

/-- A test finds the selector turned, and a detection is started. -/
def turnSeen (s : Robot) (a : Priority × Input) : Option Unit :=
  if a.1 = .high ∧ s.msPc = .testSelector ∧ a.2.selector ≠ s.lastSelector then some () else none

/-- A dance is started, for the flag. -/
def danceStarted (s : Robot) (a : Priority × Input) : Option Flag :=
  if startsDance s a then some s.country else none

/-- How often the selector was turned between two readings. -/
def turns (readings : List ℤ) : ℕ := (runs readings).length - 1

/-- A value that differs from the last one read is a turn. -/
theorem turns_concat_of_ne {l : List ℤ} {v w : ℤ} (h : l.getLast? = some v) (hne : w ≠ v) :
    turns (l ++ [w]) = turns l + 1 := by
  have hpos : 0 < (runs l).length := by
    refine List.length_pos_of_ne_nil fun hnil => ?_
    have hl := expand_runs l
    rw [hnil, expand_nil] at hl
    rw [← hl] at h
    cases h
  have hruns : runs (l ++ [w]) = runs l ++ runs [w] := by
    refine runs_append fun x hx y hy => ?_
    obtain rfl := Option.some.inj (h.symm.trans hx)
    obtain rfl := Option.some.inj hy
    exact hne.symm
  have hone : (runs [w]).length = 1 := rfl
  rw [turns, turns, hruns, List.length_append, hone]
  omega

/-- One more value read takes back no turn that was seen before. -/
theorem turns_le_concat (l : List ℤ) (w : ℤ) : turns l ≤ turns (l ++ [w]) := by
  have hrev : (runs (l ++ [w])).length = (push (w, 1) (runs l.reverse)).length := by
    rw [← List.length_reverse, ← runs_reverse, List.reverse_append]
    rfl
  have hlen : (runs l.reverse).length = (runs l).length := by
    rw [runs_reverse, List.length_reverse]
  have hle := length_le_push (w, 1) (runs l.reverse)
  unfold turns
  omega

/-! ### The last value read -/

/-- The value read last is remembered, except from a test that finds the selector turned to
the next reading. -/
def LastRead (v : Option ℤ) (s : Robot) : Prop :=
  match s.msPc with
  | .start | .init => v = none
  | .stop _ | .takeSelector => True
  | _ => v = some s.lastSelector

/-- `ManageStates` stores what it reads.  The one value that it does not store, at a test that
finds the selector turned, is forgotten for that of the reading after `stop_dancing`, and until
then nothing is claimed. -/
theorem MsStep.lastRead (h : MsStep freq s i u) {v : Option ℤ} (hs : LastRead v s) :
    LastRead (readSelector s (.high, i) <|> v) u := by
  cases h with
  | stop p hpc => cases p <;> simp [LastRead, StopPc.next]
  | unturned hpc heq => simp [LastRead, readSelector, hpc, heq]
  | _ hpc => simp_all [LastRead, readSelector]

/-- `Dance` reads no selector and writes no `last_selector`, so what `ManageStates` remembers of
it stays. -/
theorem DanceStep.lastRead (h : DanceStep s i u) {v : Option ℤ} (hs : LastRead v s) :
    LastRead v u := by
  have hf := h.frame
  rw [LastRead, hf.msPc, hf.lastSelector]
  exact hs

/-- A step keeps `last_selector` at the value read last, be it of `ManageStates`, which may read
a new one, or of `Dance`. -/
theorem lastRead_snoc {a : Priority × Input} (hs : LastRead (events readSelector tr).getLast? s)
    (h : (threads freq).step s a = some u) :
    LastRead (events readSelector (tr ++ [(s, a)])).getLast? u := by
  rw [events_snoc, List.getLast?_append]
  obtain ⟨i, rfl, hu⟩ | ⟨i, rfl, hb, hu⟩ := step_cases h
  · have hread := hu.lastRead hs
    cases hr : readSelector s (.high, i) <;> rw [hr] at hread <;> exact hread
  · exact hu.lastRead hs

/-- Along every run from power-up, `last_selector` is the value read last, but on the way
through a `stop_dancing`, behind which it is read again. -/
theorem lastRead_of_run (h : Run (threads freq).step powerUp tr t) :
    LastRead (events readSelector tr).getLast? t :=
  h.history (P := fun tr t => LastRead (events readSelector tr).getLast? t)
    (C := fun _ _ => True) (fun _ _ => trivial) rfl fun _ _ _ _ hs _ hstep => lastRead_snoc hs hstep

/-- **A detection is started exactly when the selector was turned** since it was read last,
be it at the start, at the last test or at the end of the last detection. -/
theorem detects_iff_turned (h : Run (threads freq).step powerUp tr t)
    (hpc : t.msPc = .testSelector) (hs : (threads freq).step t (.high, i) = some u) :
    u.msPc = .stop .flag ↔ (events readSelector tr).getLast? ≠ some i.selector := by
  have hlast := lastRead_of_run h
  rw [LastRead, hpc] at hlast
  rw [hlast, ne_eq, Option.some.injEq]
  obtain ⟨j, hj, hu⟩ | ⟨j, hj, -⟩ := step_cases hs
  · obtain ⟨-, rfl⟩ := Prod.mk.inj hj
    cases hu <;> simp_all [eq_comm]
  · cases hj

/-- The selector is turned to 1 and is found so at the first test, and has not been turned
again at the next one. -/
theorem detects_iff_turned_twice : ∃ tr s u tr' t u',
    Run (threads concertPitch).step powerUp tr s ∧ s.msPc = .testSelector ∧
      (threads concertPitch).step s (.high, clear 1 .italy) = some u ∧ u.msPc = .stop .flag ∧
      (events readSelector tr).getLast? ≠ some 1 ∧
      Run (threads concertPitch).step powerUp tr' t ∧ t.msPc = .testSelector ∧
      (threads concertPitch).step t (.high, clear 1 .italy) = some u' ∧ u'.msPc ≠ .stop .flag ∧
      (events readSelector tr').getLast? = some 1 := by
  obtain ⟨s, h, hpc, u, hu, hstop⟩ := exists_run (threads concertPitch).step powerUp
    (msFor 4 (clear 0 .italy)) (P := fun s => s.msPc = .testSelector ∧
      ∃ u ∈ (threads concertPitch).step s (.high, clear 1 .italy), u.msPc = .stop .flag)
    (by decide +kernel)
  obtain ⟨t, h', hpc', u', hu', hne⟩ := exists_run (threads concertPitch).step powerUp
    (msFor 4 (clear 0 .italy) ++ msFor 23 (clear 1 .italy)) (P := fun t => t.msPc = .testSelector ∧
      ∃ u ∈ (threads concertPitch).step t (.high, clear 1 .italy), u.msPc ≠ .stop .flag)
    (by decide +kernel)
  have hlast := not_not.1 fun hlast => hne ((detects_iff_turned h' hpc' hu').2 hlast)
  exact ⟨_, s, u, _, t, u', h, hpc, hu, hstop, (detects_iff_turned h hpc hu).1 hstop, h', hpc',
    hu', hne, hlast⟩

/-! ### Dances and turns -/

/-- Whether a detection that was started can still start a dance. -/
def mayStart (s : Robot) : ℕ :=
  match s.msPc with
  | .stop _ | .takeSelector | .setDetection | .readStart | .testWindow | .waitImage
  | .setFound | .takeSelectorAgain | .restartPosition | .restartSong | .restartFlag => 1
  | .testDetection => if s.robotState = .flagDetection then 1 else 0
  | .testDance => if s.robotState = .dance then 1 else 0
  | _ => 0

/-- A step of `ManageStates` starts no dance without a detection: a detection allows one dance,
and its `restart_dance` uses that up. -/
theorem MsStep.mayStart_le (h : MsStep freq s i u) (hm : MsInv freq s) :
    mayStart u + (danceStarted s (.high, i)).toList.length ≤
      mayStart s + (turnSeen s (.high, i)).toList.length := by
  cases h with
  | stop p hpc => cases p <;> simp [mayStart, danceStarted, startsDance, hpc, StopPc.next]
  | takeSelectorAgain hpc =>
    by_cases hd : s.robotState = .dance <;> simp [mayStart, danceStarted, startsDance, hpc, hd]
  | _ hpc => simp_all [mayStart, danceStarted, startsDance, turnSeen, MsInv]

/-- There are no more dances than detections, and while a detection may still start a dance
there is one more of them. -/
theorem started_le_seen (h : Run (threads freq).step powerUp tr t) :
    (events danceStarted tr).length + mayStart t ≤ (events turnSeen tr).length := by
  refine (h.history (P := fun tr t => MsInv freq t ∧
    (events danceStarted tr).length + mayStart t ≤ (events turnSeen tr).length)
    (C := fun _ _ => True) (fun _ _ => trivial) ⟨inv_powerUp.ms, le_rfl⟩ ?_).2
  rintro tr s a u ⟨hm, hle⟩ - hstep
  rw [events_snoc, events_snoc, List.length_append, List.length_append]
  obtain ⟨i, rfl, hu⟩ | ⟨i, rfl, hb, hu⟩ := step_cases hstep
  · have hmay := hu.mayStart_le hm
    exact ⟨hu.msInv hm, by omega⟩
  · have hmay : mayStart u = mayStart s := by
      rw [mayStart, hu.frame.msPc, hu.frame.robotState, mayStart]
    have hstart : danceStarted s (.low, i) = none := rfl
    have hseen : turnSeen s (.low, i) = none := if_neg fun h => by cases h.1
    rw [hstart, hseen, hmay]
    exact ⟨hu.msInv hb hm, hle⟩

/-- A step sees a turn only where the value read differs from the one read last, and this is a
turn in the list of the values. -/
theorem seen_le_turns_snoc {l : List ℤ} (hs : LastRead l.getLast? s) (i : Input) {n : ℕ}
    (hn : n ≤ turns l) : n + (turnSeen s (.high, i)).toList.length ≤
      turns (l ++ (readSelector s (.high, i)).toList) := by
  by_cases hturn : s.msPc = .testSelector ∧ i.selector ≠ s.lastSelector
  · obtain ⟨hpc, hne⟩ := hturn
    rw [LastRead, hpc] at hs
    have hseen : turnSeen s (.high, i) = some () := if_pos ⟨rfl, hpc, hne⟩
    have hread : readSelector s (.high, i) = some i.selector := by rw [readSelector, hpc]
    rw [hread, Option.toList_some, turns_concat_of_ne hs hne, hseen]
    exact Nat.succ_le_succ hn
  · have hseen : turnSeen s (.high, i) = none := if_neg fun h => hturn h.2
    rw [hseen]
    cases readSelector s (.high, i) with
    | none => simpa using hn
    | some v => exact hn.trans (turns_le_concat l v)

/-- There are no more detections than turns: every detection is begun by a value that differs
from the one read last. -/
theorem seen_le_turns (h : Run (threads freq).step powerUp tr t) :
    (events turnSeen tr).length ≤ turns (events readSelector tr) := by
  refine (h.history (P := fun tr t => LastRead (events readSelector tr).getLast? t ∧
    (events turnSeen tr).length ≤ turns (events readSelector tr))
    (C := fun _ _ => True) (fun _ _ => trivial) ⟨rfl, le_rfl⟩ ?_).2
  rintro tr s a u ⟨hlast, hle⟩ - hstep
  refine ⟨lastRead_snoc hlast hstep, ?_⟩
  rw [events_snoc, events_snoc, List.length_append]
  obtain ⟨i, rfl, hu⟩ | ⟨i, rfl, hb, hu⟩ := step_cases hstep
  · exact seen_le_turns_snoc hlast i hle
  · have hread : readSelector s (.low, i) = none := rfl
    have hseen : turnSeen s (.low, i) = none := if_neg fun h => by cases h.1
    rw [hread, hseen]
    simpa using hle

/-- **The robot dances at most once for each turn of the selector.**  In every run there
are no more dances than detections, and no more detections than changes in the values that
`get_selector` returned. -/
theorem dances_le_turns (h : Run (threads freq).step powerUp tr t) :
    (events danceStarted tr).length ≤ (events turnSeen tr).length ∧
      (events turnSeen tr).length ≤ turns (events readSelector tr) :=
  ⟨(Nat.le_add_right _ _).trans (started_le_seen h), seen_le_turns h⟩

/-- The selector is turned twice, the second time during the detection. -/
def turnedTwice : List (Priority × Input) :=
  msFor 3 (clear 0 .france) ++ msFor 14 (clear 1 .france) ++ msFor 40 (clear 2 .france)

/-- There is one dance in this run, although the value that was read has changed twice: the
second turn is taken over at the end of the detection. -/
theorem dances_le_turns_turnedTwice : ∃ tr t, Run (threads concertPitch).step powerUp tr t ∧
    (events danceStarted tr).length = 1 ∧ turns (events readSelector tr) = 2 ∧
      (events danceStarted tr).length ≤ (events turnSeen tr).length := by
  obtain ⟨t, h, hdances, hturns⟩ := exists_run (threads concertPitch).step powerUp turnedTwice
    (P := fun _ => (events danceStarted
        (trace (threads concertPitch).step powerUp turnedTwice)).length = 1 ∧
      turns (events readSelector (trace (threads concertPitch).step powerUp turnedTwice)) = 2)
    (by decide +kernel)
  exact ⟨_, t, h, hdances, hturns, (dances_le_turns h).1⟩

end Dancing
end JeanBot
