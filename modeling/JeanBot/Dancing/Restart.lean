/-
# A restart and what `Dance` was doing

`restart_dance` resets `music_position`, installs the song and sets
`is_dancing`.  `Dance` is somewhere in its loop at that moment, and what it still
has to do for the previous song falls on the new one:

| `Dance` is | the new song |
| --- | --- |
| after the test of a note, before `music_position++` | starts at position 1 |
| at `music_position++`, `v` loaded, `v + 1 < MUSIC_SIZE` | starts at position `v + 1` |
| at `music_position++`, `v` loaded, `v + 1 ≥ MUSIC_SIZE` | is stopped at once |
| about to call `stop_dancing` at the end of the song | is stopped at once |
| anywhere else | starts at position 0 and is played |

`firstPlayed_iff` is the exact condition for the first position played to be 0,
`restartKept_iff` the one for the restart not to be lost.
-/

import JeanBot.Dancing.Invariants
import Mathlib.Data.List.TakeWhile

namespace JeanBot
namespace Dancing

open Lib FlagDetection

variable {freq : Note → ℕ} {s u t : Robot} {i : Input} {tr : List (Robot × (Priority × Input))}

/-! ### What a step plays and calls -/

/-- The position at which the guarded branch reads `notes` for its test. -/
def DancePc.tested : DancePc → Option ℕ
  | .testRead k => some k
  | _ => none

/-- The position that a step plays: `Dance` is in the guarded branch and reads
`notes` there for its test. -/
def played (s : Robot) (a : Priority × Input) : Option ℕ :=
  match a.1 with
  | .high => none
  | .low => s.dancePc.tested

/-- The step is the first statement of a `stop_dancing` of `ManageStates`. -/
def msStops (s : Robot) (a : Priority × Input) : Bool := a.1 = .high && s.msPc = .stop .flag

/-- The step is the first statement of a `stop_dancing` of either thread, or of a
`restart_dance`. -/
def stopsOrRestarts (s : Robot) (a : Priority × Input) : Bool :=
  match a.1 with
  | .high => s.msPc = .stop .flag || s.msPc = .restartPosition
  | .low => s.dancePc = .stop .flag

/-- Where nobody stops or starts a dance, `ManageStates` does not stop one. -/
theorem msStops_of_stopsOrRestarts {a : Priority × Input} (h : stopsOrRestarts s a = false) :
    msStops s a = false := by
  obtain ⟨p, i⟩ := a
  cases p <;> simp_all [stopsOrRestarts, msStops]

/-- `Dance` is between the test of a note and `music_position++`. -/
def DancePc.afterTest : DancePc → Bool
  | .loop | .readState _ | .readDancing _ | .getTime | .testLoad | .testRead _ => false
  | .incStore _ | .testEnd | .stop _ | .idle => false
  | _ => true

/-- `Dance` has nothing left to do that would move the new song past its first
position. -/
def DancePc.fresh : DancePc → Bool
  | .testRead k => k = 0
  | .incStore v => musicSize ≤ v + 1
  | .loop | .readState _ | .readDancing _ | .getTime | .testLoad => true
  | .testEnd | .stop _ | .idle => true
  | _ => false

/-- `Dance` is going to end the song, whatever the position becomes. -/
def DancePc.ending : DancePc → Bool
  | .stop .flag => true
  | .incStore v => musicSize ≤ v + 1
  | _ => false

/-! ### `ManageStates` after a restart -/

/-- `ManageStates` is outside the detection and the restart. -/
def MsQuiet (s : Robot) : Prop :=
  match s.msPc with
  | .clearCountry | .sleep | .obstacle | .panicLeft | .panicRight | .setPause | .setWait => True
  | .testSelector | .stop .flag | .testDetection | .testDance => s.robotState = .wait
  | _ => False

/-- As long as it does not stop the dance, `ManageStates` stays outside of the detection, and
leaves the position, the song, `is_dancing` and `last_selector` alone, however often it pauses
the robot. -/
theorem MsStep.quiet (h : MsStep freq s i u) (hs : MsQuiet s) (hno : s.msPc ≠ .stop .flag) :
    MsQuiet u ∧ u.musicPosition = s.musicPosition ∧ u.currentSong = s.currentSong ∧
      u.isDancing = s.isDancing ∧ u.lastSelector = s.lastSelector := by
  cases h with
  | stop p hpc => cases p <;> simp_all [MsQuiet]
  | setWait hpc => exact ⟨rfl, rfl, rfl, rfl, rfl⟩
  | _ hpc => simp_all [MsQuiet]

/-- `Dance` moves neither `ManageStates` nor `ROBOT_STATE`. -/
theorem DanceStep.msQuiet (h : DanceStep s i u) (hs : MsQuiet s) : MsQuiet u := by
  rw [MsQuiet, h.frame.msPc, h.frame.robotState]
  exact hs

/-! ### The first position played -/

/-- Whatever happens after `s`, the first position that `Dance` plays is 0, as long
as no `stop_dancing` and no `restart_dance` is called. -/
def FirstPlayedIsZero (freq : Note → ℕ) (s : Robot) : Prop :=
  ∀ tr t, Run (threads freq).step s tr t → (∀ x ∈ tr, stopsOrRestarts x.1 x.2 = false) →
    ∀ k ∈ (events played tr).head?, k = 0

/-- The next position played is 0, or the song is ended first. -/
def FreshInv (s : Robot) : Prop :=
  s.dancePc.fresh = true ∧
    match s.dancePc with
    | .testRead _ | .incStore _ | .stop .flag | .stop .position => True
    | .testEnd => s.musicPosition = 0 ∨ musicSize ≤ s.musicPosition
    | _ => s.musicPosition = 0

/-- Just after a reset of the position, a fresh `Dance` plays position 0 next or ends the song.
-/
theorem FreshInv.of_musicPosition (h : s.dancePc.fresh = true) (h0 : s.musicPosition = 0) :
    FreshInv s := by
  refine ⟨h, ?_⟩
  split
  · trivial
  · trivial
  · trivial
  · trivial
  · exact Or.inl h0
  · exact h0

/-- It speaks of the statement of `Dance` and of the position only. -/
theorem FreshInv.congr (h : FreshInv s) (hpc : u.dancePc = s.dancePc)
    (hpos : u.musicPosition = s.musicPosition) : FreshInv u := by
  unfold FreshInv at h ⊢
  rwa [hpc, hpos]

/-- `Dance` keeps it until it tests a position or calls `stop_dancing`: the only increment of a
fresh `Dance` takes the position to the end, where the song is ended. -/
theorem DanceStep.freshInv (h : DanceStep s i u) (hp : PosInv s) (hs : FreshInv s)
    (hno : s.dancePc ≠ .stop .flag) (hk : s.dancePc.tested = none) : FreshInv u := by
  obtain ⟨hfresh, hpos⟩ := hs
  cases h with
  | stop p hpc =>
    cases p <;> simp_all [FreshInv, StopPc.exec, StopPc.next, DancePc.fresh]
  | incStore v hpc =>
    have hv : v < musicSize := by rw [PosInv, hpc] at hp; exact hp.1
    rw [hpc] at hfresh
    refine ⟨rfl, Or.inr ?_⟩
    show musicSize ≤ u16 (v + 1)
    rw [u16_succ hv]
    exact of_decide_eq_true hfresh
  | note k hpc => simp [DancePc.tested, hpc] at hk
  | rest k hpc => simp [DancePc.tested, hpc] at hk
  | notEnded hpc hlt =>
    simp only [hpc] at hpos
    exact .of_musicPosition rfl (hpos.resolve_right (Nat.not_le.2 hlt))
  | _ hpc =>
    clear hp
    simp_all [FreshInv, DancePc.fresh]

/-- A position is tested at one statement of `Dance` only. -/
theorem tested_eq_some {pc : DancePc} {k : ℕ} (h : pc.tested = some k) : pc = .testRead k := by
  cases pc <;> simp_all [DancePc.tested]

/-- A restart that finds `Dance` fresh is played from position 0: the position was reset, and
nothing moves it before the first test. -/
theorem firstPlayed_of_fresh (hm : MsQuiet s) (hp : PosInv s) (hs : FreshInv s) :
    FirstPlayedIsZero freq s := by
  intro tr t h hno k hk
  have hinv : (events played tr = [] ∧ MsQuiet t ∧ PosInv t ∧ FreshInv t) ∨
      (events played tr).head? = some 0 := by
    refine h.history (C := fun s a => stopsOrRestarts s a = false)
      (P := fun tr t => (events played tr = [] ∧ MsQuiet t ∧ PosInv t ∧ FreshInv t) ∨
        (events played tr).head? = some 0) hno (Or.inl ⟨rfl, hm, hp, hs⟩) ?_
    rintro tr s a u hP hCs hstep
    rw [events_snoc]
    rcases hP with ⟨hnil, hm, hp, hs⟩ | hzero
    · rw [hnil]
      obtain ⟨i, rfl, hu⟩ | ⟨i, rfl, hb, hu⟩ := step_cases hstep
      · have hne : s.msPc ≠ .stop .flag := by
          intro hpc
          simp [stopsOrRestarts, hpc] at hCs
        obtain ⟨hm', hpos, -⟩ := hu.quiet hm hne
        exact Or.inl ⟨rfl, hm', hu.posInv hp, hs.congr hu.frame.1 hpos⟩
      · have hne : s.dancePc ≠ .stop .flag := by
          intro hpc
          simp [stopsOrRestarts, hpc] at hCs
        cases hk : s.dancePc.tested with
        | none =>
          refine Or.inl ⟨?_, hu.msQuiet hm, hu.posInv hp, hu.freshInv hp hs hne hk⟩
          simp [played, hk]
        | some k =>
          have hf := hs.1
          rw [tested_eq_some hk] at hf
          obtain rfl : k = 0 := of_decide_eq_true hf
          exact Or.inr (by simp [played, hk])
    · exact Or.inr (by rw [List.head?_append, hzero]; rfl)
  rcases hinv with ⟨hnil, -⟩ | hzero
  · rw [hnil] at hk
    cases hk
  · rw [hzero] at hk
    exact (Option.some.inj hk).symm

/-! ### Runs without a note -/

/-- The robot gets from `s` to `t` without playing a position, and without a
`stop_dancing` or a `restart_dance`. -/
def Silently (freq : Note → ℕ) (s t : Robot) : Prop :=
  ∃ tr, Run (threads freq).step s tr t ∧ (∀ x ∈ tr, stopsOrRestarts x.1 x.2 = false) ∧
    events played tr = []

theorem Silently.refl : Silently freq s s := ⟨[], .nil, by simp, rfl⟩

/-- One more step that plays nothing, and neither stops nor starts a dance. -/
theorem Silently.snoc {a : Priority × Input} (h : Silently freq s t)
    (hu : (threads freq).step t a = some u) (hno : stopsOrRestarts t a = false)
    (hpl : played t a = none) : Silently freq s u := by
  obtain ⟨tr, hrun, hC, hev⟩ := h
  refine ⟨tr ++ [(t, a)], hrun.snoc hu, fun x hx => ?_, ?_⟩
  · rcases List.mem_append.1 hx with hx | hx
    · exact hC x hx
    · rw [List.mem_singleton.1 hx]
      exact hno
  · rw [events_snoc, hev, hpl]
    rfl

/-- A step of `ManageStates` that is neither a stop nor a restart. -/
theorem Silently.high (h : Silently freq s t) (hu : manageStates freq t i = some u)
    (hstop : t.msPc ≠ .stop .flag) (hre : t.msPc ≠ .restartPosition) : Silently freq s u :=
  h.snoc (a := (.high, i)) hu (by simp [stopsOrRestarts, hstop, hre]) rfl

/-- A step of `Dance` that tests nothing and stops nothing, while `ManageStates` sleeps. -/
theorem Silently.low (h : Silently freq s t) (hb : t.msPc = .sleep) (hu : dance t i = some u)
    (hstop : t.dancePc ≠ .stop .flag) (hk : t.dancePc.tested = none) : Silently freq s u :=
  h.snoc (step_low hb hu) (by simp [stopsOrRestarts, hstop]) hk

/-- Two such runs, one after the other. -/
theorem Silently.trans (h : Silently freq s t) (h' : Silently freq t u) : Silently freq s u := by
  obtain ⟨tr, hrun, hC, hev⟩ := h
  obtain ⟨tr', hrun', hC', hev'⟩ := h'
  refine ⟨tr ++ tr', hrun.trans hrun', fun x hx => ?_, by rw [events_append, hev, hev']; rfl⟩
  rcases List.mem_append.1 hx with hx | hx
  · exact hC x hx
  · exact hC' x hx

/-- The last statement of the iteration after a restart leads into the sleep. -/
theorem silently_clearCountry (freq : Note → ℕ) (hpc : s.msPc = .clearCountry) :
    Silently freq s { s with country := .undefinedFlag, msPc := .sleep } :=
  Silently.refl.high (i := clear 0 .undefinedFlag) (by rw [manageStates, hpc]) (by simp [hpc])
    (by simp [hpc])

/-- An iteration of `ManageStates` without an obstacle that reads the selector where it was: it
comes back to its sleep, and the state is `WAIT`. -/
theorem silently_iteration (freq : Note → ℕ) (hpc : s.msPc = .sleep) :
    Silently freq s { s with robotState := .wait } := by
  have h₁ : Silently freq s { s with msPc := .obstacle } :=
    Silently.refl.high (i := clear s.lastSelector .undefinedFlag) (by rw [manageStates, hpc])
      (by simp [hpc]) (by simp [hpc])
  have h₂ : Silently freq s { s with msPc := .setWait } :=
    h₁.high (i := clear s.lastSelector .undefinedFlag) rfl (by simp) (by simp)
  have h₃ : Silently freq s { s with robotState := .wait, msPc := .testSelector } :=
    h₂.high (i := clear s.lastSelector .undefinedFlag) rfl (by simp) (by simp)
  have h₄ : Silently freq s { s with robotState := .wait, msPc := .testDetection } :=
    h₃.high (i := clear s.lastSelector .undefinedFlag) (by simp [manageStates, clear])
      (by simp) (by simp)
  have h₅ : Silently freq s { s with robotState := .wait, msPc := .testDance } :=
    h₄.high (i := clear s.lastSelector .undefinedFlag) rfl (by simp) (by simp)
  have h₆ : Silently freq s { s with robotState := .wait, msPc := .sleep } :=
    h₅.high (i := clear s.lastSelector .undefinedFlag) rfl (by simp) (by simp)
  rwa [← hpc] at h₆

/-- How many steps `Dance` is at most away from `music_position++`. -/
def DancePc.toInc : DancePc → ℕ
  | .loop | .readState _ | .readDancing _ | .getTime | .testLoad | .testRead _ => 0
  | .incStore _ | .testEnd | .stop _ | .idle => 0
  | .playLoad => 13
  | .playRead _ => 12
  | .play _ => 11
  | .figureLeft => 10
  | .figureRight _ => 9
  | .silenceDac => 11
  | .silenceLeft => 10
  | .silenceRight => 9
  | .rythmLoad => 8
  | .rythmRead _ => 7
  | .deadlineLoad => 6
  | .deadlineRead _ => 5
  | .sleepUntil _ => 4
  | .noteStop => 3
  | .sleepGap => 2
  | .incLoad => 1

/-- In a note, `Dance` approaches `music_position++` and moves neither the position nor
`is_dancing` before. -/
theorem DanceStep.toInc_lt (h : DanceStep s i u) (ha : s.dancePc.afterTest = true)
    (hne : s.dancePc ≠ .incLoad) : u.dancePc.afterTest = true ∧
      u.dancePc.toInc < s.dancePc.toInc ∧ u.musicPosition = s.musicPosition ∧
      u.isDancing = s.isDancing := by
  cases h with
  | stop p hpc => cases p <;> simp_all [DancePc.afterTest]
  | _ => simp_all [DancePc.afterTest, DancePc.toInc]

/-- `Dance` alone finishes its note and comes to `music_position++`, with the position as it
was. -/
theorem exists_silently_incLoad (freq : Note → ℕ) (hp : PosInv s) (hpc : s.msPc = .sleep)
    (ha : s.dancePc.afterTest = true) : ∃ t, Silently freq s t ∧ PosInv t ∧ t.msPc = .sleep ∧
      t.dancePc = .incLoad ∧ t.musicPosition = s.musicPosition ∧ t.isDancing = s.isDancing := by
  -- the steps to `music_position++` decrease
  induction hn : s.dancePc.toInc using Nat.strong_induction_on generalizing s with
  | _ n ih =>
    by_cases hne : s.dancePc = .incLoad
    · exact ⟨s, .refl, hp, hpc, hne, rfl, rfl⟩
    · obtain ⟨u, hu⟩ := hp.exists_dance (clear 0 .undefinedFlag)
      have hd := DanceStep.of_dance hu
      obtain ⟨ha', hlt, hpos, hdan⟩ := hd.toInc_lt ha hne
      obtain ⟨t, ht, hpt, hpct, hinc, hpost, hdant⟩ :=
        ih _ (hn ▸ hlt) (hd.posInv hp) (hd.frame.msPc.trans hpc) ha' rfl
      have hlow : Silently freq s u := by
        refine Silently.refl.low hpc hu ?_ ?_
        · rintro hstop
          rw [hstop] at ha
          cases ha
        · cases hk : s.dancePc.tested with
          | none => rfl
          | some k =>
            rw [tested_eq_some hk] at ha
            cases ha
      exact ⟨t, hlow.trans ht, hpt, hpct, hinc, hpost.trans hpos, hdant.trans hdan⟩

/-- After `music_position++`, the next position played is the new one, if the song
has not ended and `ManageStates` returns to `WAIT`. -/
theorem exists_silently_testRead (freq : Note → ℕ) (hpc : s.msPc = .sleep)
    (hd : s.dancePc = .testEnd) (hlt : s.musicPosition < musicSize) (hdan : s.isDancing = true) :
    ∃ t, Silently freq s t ∧ t.msPc = .sleep ∧ t.dancePc = .testRead s.musicPosition := by
  let i := clear 0 .undefinedFlag
  have h₁ : Silently freq s { s with dancePc := .loop } :=
    Silently.refl.low (i := i) hpc (by simp [dance, hd, Nat.not_le.2 hlt]) (by simp [hd])
      (by simp [hd, DancePc.tested])
  have h₂ : Silently freq s { s with dancePc := .loop, robotState := .wait } :=
    h₁.trans (silently_iteration freq hpc)
  have h₃ : Silently freq s { s with dancePc := .readState true, robotState := .wait } :=
    h₂.low (i := i) hpc (by simp [dance, i, clear, hdan]) (by simp) rfl
  have h₄ : Silently freq s { s with dancePc := .getTime, robotState := .wait } :=
    h₃.low (i := i) hpc (by simp [dance]) (by simp) rfl
  have h₅ : Silently freq s { s with time := 0, dancePc := .testLoad, robotState := .wait } :=
    h₄.low (i := i) hpc rfl (by simp) rfl
  exact ⟨_, h₅.low (i := i) hpc rfl (by simp) rfl, hpc, rfl⟩

/-- Where `Dance` is not fresh it has a later position in hand, for the test or for the store of
the increment, or is in a note, which it will end with the increment. -/
theorem not_fresh_cases {pc : DancePc} (h : pc.fresh ≠ true) :
    (∃ k, k ≠ 0 ∧ pc = .testRead k) ∨ (∃ v, v + 1 < musicSize ∧ pc = .incStore v) ∨
      pc.afterTest = true := by
  cases pc <;> simp_all [DancePc.fresh, DancePc.afterTest]

/-- The store of `music_position++` writes what was loaded plus one, whatever the position has
become since. -/
theorem silently_incStore (freq : Note → ℕ) {v : ℕ} (hpc : s.msPc = .sleep)
    (hd : s.dancePc = .incStore v) (hv : v < musicSize) :
    Silently freq s { s with musicPosition := v + 1, dancePc := .testEnd } :=
  Silently.refl.low (i := clear 0 .undefinedFlag) hpc (by simp [dance, hd, u16_succ hv])
    (by simp [hd]) (by simp [hd, DancePc.tested])

/-- Where `music_position++` is carried out after a restart, a position other than
0 is the next one played. -/
theorem exists_silently_of_incStore (freq : Note → ℕ) {v : ℕ} (hpc : s.msPc = .sleep)
    (hd : s.dancePc = .incStore v) (hv : v + 1 < musicSize) (hdan : s.isDancing = true) :
    ∃ t, Silently freq s t ∧ t.msPc = .sleep ∧ t.dancePc = .testRead (v + 1) := by
  have h₁ := silently_incStore freq hpc hd (Nat.lt_of_succ_lt hv)
  obtain ⟨t, ht, hpct, hk⟩ := exists_silently_testRead freq
    (s := { s with musicPosition := v + 1, dancePc := .testEnd }) hpc rfl hv hdan
  exact ⟨t, h₁.trans ht, hpct, hk⟩

/-- A restart that does not find `Dance` fresh can be played from another position than 0: from
the one that is about to be tested, the one that is about to be stored, or position 1 after the
note. -/
theorem exists_silently_of_not_fresh (freq : Note → ℕ) (hp : PosInv s) (hpc : s.msPc = .sleep)
    (h0 : s.musicPosition = 0) (hdan : s.isDancing = true) (h : s.dancePc.fresh ≠ true) :
    ∃ t k, Silently freq s t ∧ t.msPc = .sleep ∧ k ≠ 0 ∧ t.dancePc = .testRead k := by
  rcases not_fresh_cases h with ⟨k, hk, hd⟩ | ⟨v, hv, hd⟩ | ha
  · exact ⟨s, k, .refl, hpc, hk, hd⟩
  · obtain ⟨t, ht, hpct, hd'⟩ := exists_silently_of_incStore freq hpc hd hv hdan
    exact ⟨t, v + 1, ht, hpct, Nat.succ_ne_zero v, hd'⟩
  · obtain ⟨t, ht, hpt, hpct, hd, h0', hdan'⟩ := exists_silently_incLoad freq hp hpc ha
    have h₁ : Silently freq s { t with dancePc := .incStore 0 } :=
      ht.low (i := clear 0 .undefinedFlag) hpct (by simp [dance, hd, h0', h0]) (by simp [hd])
        (by simp [hd, DancePc.tested])
    obtain ⟨t', ht', hpct', hd'⟩ := exists_silently_of_incStore freq
      (s := { t with dancePc := .incStore 0 }) hpct rfl (by decide) (hdan'.trans hdan)
    exact ⟨t', 1, h₁.trans ht', hpct', Nat.one_ne_zero, hd'⟩

/-- **A restarted dance begins at the first note** exactly when `restart_dance` finds `Dance`
fresh: outside a note, except for a test that still reads position 0 and an increment that ends
the song.  In one direction freshness is an invariant up to the first test; in the other, a
schedule plays another position from every other statement. -/
theorem firstPlayed_iff (h : Reachable freq s) (hpc : s.msPc = .clearCountry) :
    FirstPlayedIsZero freq s ↔ s.dancePc.fresh = true := by
  obtain ⟨hm, hp⟩ := h.msInv
  simp only [MsInv, hpc] at hm
  obtain ⟨-, -, hdan, h0, -⟩ := hm
  constructor
  · intro hfirst
    by_contra hne
    let s₁ : Robot := { s with country := .undefinedFlag, msPc := .sleep }
    have h₁ : Silently freq s s₁ := silently_clearCountry freq hpc
    obtain ⟨t, k, ht, hpct, hk, hd⟩ := exists_silently_of_not_fresh freq (s := s₁)
      hp rfl h0 hdan hne
    obtain ⟨tr, hrun, hC, hev⟩ := h₁.trans ht
    obtain ⟨tr₀, h₀⟩ := h
    have hpt : PosInv t := (Reachable.msInv ⟨_, h₀.trans hrun⟩).2
    obtain ⟨u, hu⟩ := hpt.exists_dance (clear 0 .undefinedFlag)
    refine hk (hfirst _ u (hrun.snoc (step_low hpct hu)) (fun x hx => ?_) k ?_)
    · rcases List.mem_append.1 hx with hx | hx
      · exact hC x hx
      · rw [List.mem_singleton.1 hx]
        simp [stopsOrRestarts, hd]
    · simp [hev, played, hd, DancePc.tested]
  · exact fun hf => firstPlayed_of_fresh (by rw [MsQuiet, hpc]; trivial) hp
      (.of_musicPosition hf h0)

/-- `Dance` is idle when the first dance is started. -/
def restartIdle : List (Priority × Input) :=
  danceFor 2 (clear 0 .undefinedFlag) ++ msFor 3 (clear 0 .undefinedFlag) ++
    msFor 20 (clear 1 .italy)

/-- The song that this restart starts begins at position 0. -/
theorem firstPlayed_restartIdle : ∃ s, Reachable concertPitch s ∧ s.msPc = .clearCountry ∧
    s.dancePc = .idle ∧ FirstPlayedIsZero concertPitch s := by
  obtain ⟨s, h, hpc, hd⟩ := exists_run (threads concertPitch).step powerUp restartIdle
    (P := fun s => s.msPc = .clearCountry ∧ s.dancePc = .idle) (by decide +kernel)
  exact ⟨s, ⟨_, h⟩, hpc, hd, (firstPlayed_iff ⟨_, h⟩ hpc).2 (by rw [hd]; rfl)⟩

/-- The selector is turned in the middle of the first note, and a second dance is
started before that note ends. -/
def restartInNote : List (Priority × Input) :=
  startDance .france ++ danceFor 14 (clear 1 .undefinedFlag) ++ msFor 22 (clear 2 .italy)

/-- `ManageStates` returns to `WAIT`, and `Dance` finishes its note and goes on to
the next one. -/
def finishNote : List (Priority × Input) :=
  msFor 7 (clear 2 .undefinedFlag) ++ danceFor 11 (clear 2 .undefinedFlag)

/-- **A restart in the middle of a note skips the first note**: the position that `Dance` was to
increment after the note is the one that was reset, so the new song starts at its second note.
-/
theorem restartInNote_skips : ∃ s, Reachable concertPitch s ∧ s.msPc = .clearCountry ∧
    ¬FirstPlayedIsZero concertPitch s := by
  obtain ⟨s, h, hpc, t, ht, hno, hev⟩ := exists_run (threads concertPitch).step powerUp
    restartInNote (P := fun s => s.msPc = .clearCountry ∧
      ∃ t ∈ finishNote.foldlM (threads concertPitch).step s,
        (∀ x ∈ trace (threads concertPitch).step s finishNote,
          stopsOrRestarts x.1 x.2 = false) ∧
        (events played (trace (threads concertPitch).step s finishNote)).head? = some 1)
    (by decide +kernel)
  exact ⟨s, ⟨_, h⟩, hpc, fun hfirst =>
    Nat.one_ne_zero (hfirst _ t (run_of_foldlM ht) hno 1 hev)⟩

/-! ### Restarts that are lost -/

/-- The part of a trace from the first state on in which `Dance` is about to load a
position for the test of a note.  What is played in it was also loaded in it. -/
def fromLoad (tr : List (Robot × (Priority × Input))) : List (Robot × (Priority × Input)) :=
  tr.dropWhile fun x => x.1.dancePc ≠ .testLoad

/-- Nothing was loaded in a trace if nothing was before its last step and nothing is
in it. -/
theorem fromLoad_snoc_eq_nil {x : Robot × (Priority × Input)} :
    fromLoad (tr ++ [x]) = [] ↔ fromLoad tr = [] ∧ x.1.dancePc ≠ .testLoad := by
  simp only [fromLoad, List.dropWhile_eq_nil_iff, List.forall_mem_append, List.forall_mem_singleton,
    decide_eq_true_eq]

/-- After the first load, every further step belongs to the part from there on. -/
theorem fromLoad_snoc (h : fromLoad tr ≠ []) (x : Robot × (Priority × Input)) :
    fromLoad (tr ++ [x]) = fromLoad tr ++ [x] := by
  rw [fromLoad, List.dropWhile_append, if_neg (by simpa [fromLoad] using h)]
  rfl

/-- What is played after the first load is played. -/
theorem mem_of_mem_fromLoad {k : ℕ} (h : k ∈ events played (fromLoad tr)) :
    k ∈ events played tr :=
  ((List.dropWhile_sublist _).filterMap _).subset h

/-- What is played after the first load stays so. -/
theorem mem_fromLoad_snoc {k : ℕ} (h : k ∈ events played (fromLoad tr))
    (x : Robot × (Priority × Input)) : k ∈ events played (fromLoad (tr ++ [x])) := by
  have hne : fromLoad tr ≠ [] := by
    rintro hnil
    rw [hnil] at h
    cases h
  rw [fromLoad_snoc hne, events_append]
  exact List.mem_append_left _ h

/-- Whatever happens after `s`, the song stays, and the dance goes on until it is
stopped by `ManageStates` or has played the last position of this song, which it has
also loaded after `s`: a test that was still to read the position loaded before a
restart does not count. -/
def RestartKept (freq : Note → ℕ) (s : Robot) : Prop :=
  ∀ tr t, Run (threads freq).step s tr t → (∀ x ∈ tr, msStops x.1 x.2 = false) →
    t.currentSong = s.currentSong ∧
      (t.isDancing = true ∨ musicSize - 1 ∈ events played (fromLoad tr))

/-- `Dance` does not end the song before it has played the last position. -/
structure KeptInv (s : Robot) : Prop where
  ending : s.dancePc.ending = false
  tested : ∀ k, s.dancePc = .testRead k → s.musicPosition = k ∨ s.musicPosition = 0
  after : s.dancePc.afterTest = true → s.musicPosition + 1 < musicSize
  testEnd : s.dancePc = .testEnd → s.musicPosition < musicSize

/-- After a reset of the position the whole song is still to be played, unless `Dance` has
already decided to end it. -/
theorem KeptInv.of_musicPosition (h : s.dancePc.ending = false) (h0 : s.musicPosition = 0) :
    KeptInv s := by
  have h1 : 1 < musicSize := by decide
  exact ⟨h, fun _ _ => Or.inr h0, fun _ => by omega, fun _ => by omega⟩

/-- It speaks of the statement of `Dance` and of the position only. -/
theorem KeptInv.congr (h : KeptInv s) (hpc : u.dancePc = s.dancePc)
    (hpos : u.musicPosition = s.musicPosition) : KeptInv u := by
  obtain ⟨h₁, h₂, h₃, h₄⟩ := h
  constructor <;> rw [hpc] <;> try rw [hpos]
  · exact h₁
  · exact h₂
  · exact h₃
  · exact h₄

/-- The test of a position before the last one leads into a note that does not end
the song, and so does the test of any position after a reset. -/
theorem KeptInv.after_test {k : ℕ} (hs : KeptInv s) (hpc : s.dancePc = .testRead k)
    (hlt : k < musicSize) (hk : s.dancePc = .testRead (musicSize - 1) → s.musicPosition = 0) :
    s.musicPosition + 1 < musicSize := by
  have hk' : k = musicSize - 1 → s.musicPosition = 0 := by
    rintro rfl
    exact hk hpc
  have hpos := hs.tested k hpc
  unfold musicSize at *
  omega

/-- `Dance` keeps it, unless it tests the last position without a reset since it loaded
it. -/
theorem DanceStep.keptInv (h : DanceStep s i u) (hs : KeptInv s) (hd : s.isDancing = true)
    (hk : s.dancePc = .testRead (musicSize - 1) → s.musicPosition = 0) :
    u.isDancing = true ∧ KeptInv u := by
  have hlast := fun k hpc hlt => hs.after_test (k := k) hpc hlt hk
  obtain ⟨h₁, h₂, h₃, h₄⟩ := hs
  cases h with
  | stop p hpc =>
    cases p with
    | flag => simp [hpc, DancePc.ending] at h₁
    | _ =>
      refine ⟨hd, ?_⟩
      constructor <;> simp [StopPc.next, DancePc.ending, DancePc.afterTest]
  | note k hpc hlt hn => exact ⟨hd, rfl, by simp, fun _ => hlast k hpc hlt, by simp⟩
  | rest k hpc hlt hn => exact ⟨hd, rfl, by simp, fun _ => hlast k hpc hlt, by simp⟩
  | incLoad hpc =>
    have hlt : s.musicPosition + 1 < musicSize := h₃ (by rw [hpc]; rfl)
    exact ⟨hd, decide_eq_false (Nat.not_le.2 hlt), by simp, fun _ => hlt, by simp⟩
  | incStore v hpc =>
    have hlt : v + 1 < musicSize := by simpa [hpc, DancePc.ending] using h₁
    refine ⟨hd, rfl, by simp, fun ha => Bool.noConfusion ha, fun _ => ?_⟩
    show u16 (v + 1) < musicSize
    rwa [u16_succ (Nat.lt_of_succ_lt hlt)]
  | ended hpc he => exact absurd (h₄ hpc) (Nat.not_lt.2 he)
  | _ hpc =>
    clear hlast hk
    refine ⟨hd, ?_⟩
    constructor <;> simp_all [DancePc.ending, DancePc.afterTest]

/-- A position that `Dance` loaded before the run was reset since. -/
def StaleReset (tr : List (Robot × (Priority × Input))) (t : Robot) : Prop :=
  fromLoad tr = [] → ∀ k, t.dancePc = .testRead k → t.musicPosition = 0

/-- A step of `Dance` comes to a test only from the load for it. -/
theorem DanceStep.staleReset (h : DanceStep s i u) {a : Priority × Input} :
    StaleReset (tr ++ [(s, a)]) u := by
  intro hnil k hpc
  have hne := (fromLoad_snoc_eq_nil.1 hnil).2
  cases h with
  | testLoad hload => exact absurd hload hne
  | stop p _ => cases p <;> cases hpc
  | _ => cases hpc

/-- A step of `ManageStates` that leaves the position alone. -/
theorem StaleReset.high {a : Priority × Input} (hs : StaleReset tr s)
    (hpc : u.dancePc = s.dancePc) (hpos : u.musicPosition = s.musicPosition) :
    StaleReset (tr ++ [(s, a)]) u := by
  intro hnil k hk
  rw [hpos]
  exact hs (fromLoad_snoc_eq_nil.1 hnil).1 k (hpc ▸ hk)

/-- A restart that does not find `Dance` about to end the song is kept: from a reset position
on, `is_dancing` is cleared only behind the last position, and the song is not replaced without
a stop. -/
theorem restartKept_of_keptInv (hm : MsQuiet s) (hd : s.isDancing = true) (hs : KeptInv s)
    (h0 : s.musicPosition = 0) : RestartKept freq s := by
  intro tr t h hno
  have hinv : MsQuiet t ∧ t.currentSong = s.currentSong ∧
      ((t.isDancing = true ∧ KeptInv t ∧ StaleReset tr t) ∨
        musicSize - 1 ∈ events played (fromLoad tr)) := by
    refine h.history (C := fun s a => msStops s a = false)
      (P := fun tr t => MsQuiet t ∧ t.currentSong = s.currentSong ∧
        ((t.isDancing = true ∧ KeptInv t ∧ StaleReset tr t) ∨
          musicSize - 1 ∈ events played (fromLoad tr))) hno
      ⟨hm, rfl, Or.inl ⟨hd, hs, fun _ _ _ => h0⟩⟩ ?_
    rintro tr t a u ⟨hm, hsong, hP⟩ hCs hstep
    obtain ⟨i, rfl, hu⟩ | ⟨i, rfl, hb, hu⟩ := step_cases hstep
    · have hne : t.msPc ≠ .stop .flag := by
        intro hpc
        simp [msStops, hpc] at hCs
      obtain ⟨hm', hpos, hsong', hd', -⟩ := hu.quiet hm hne
      refine ⟨hm', hsong'.trans hsong, ?_⟩
      rcases hP with ⟨hd, hs, hr⟩ | hmem
      · exact Or.inl ⟨hd'.trans hd, hs.congr hu.frame.1 hpos, hr.high hu.frame.1 hpos⟩
      · exact Or.inr (mem_fromLoad_snoc hmem _)
    · refine ⟨hu.msQuiet hm, hu.frame.currentSong.trans hsong, ?_⟩
      rcases hP with ⟨hd, hs, hr⟩ | hmem
      · by_cases hk : t.dancePc = .testRead (musicSize - 1) ∧ fromLoad tr ≠ []
        -- the last position, loaded in the run
        · refine Or.inr ?_
          rw [fromLoad_snoc hk.2, events_snoc, played, hk.1]
          exact List.mem_append_right _ (List.mem_singleton_self _)
        · have hstale : t.dancePc = .testRead (musicSize - 1) → t.musicPosition = 0 :=
            fun hpc => hr (not_not.1 fun hne => hk ⟨hpc, hne⟩) _ hpc
          obtain ⟨hd', hs'⟩ := hu.keptInv hs hd hstale
          exact Or.inl ⟨hd', hs', hu.staleReset⟩
      · exact Or.inr (mem_fromLoad_snoc hmem _)
  exact ⟨hinv.2.1, hinv.2.2.imp_left And.left⟩

/-- `Dance` carries its decision to end the song through, although the position was reset in the
meantime. -/
theorem exists_silently_stop (freq : Note → ℕ) (hp : PosInv s) (hpc : s.msPc = .sleep)
    (h : s.dancePc.ending = true) :
    ∃ t, Silently freq s t ∧ t.msPc = .sleep ∧ t.dancePc = .stop .flag := by
  cases hd : s.dancePc with
  | stop p =>
    rw [hd] at h
    cases p with
    | flag => exact ⟨s, .refl, hpc, hd⟩
    | _ => cases h
  | incStore v =>
    have hv : musicSize ≤ v + 1 := by
      rw [hd] at h
      exact of_decide_eq_true h
    have hlt : v < musicSize := by
      rw [PosInv, hd] at hp
      exact hp.1
    have h₁ := silently_incStore freq hpc hd hlt
    have h₂ : Silently freq s { s with musicPosition := v + 1, dancePc := .stop .flag } :=
      h₁.low (i := clear 0 .undefinedFlag) hpc (by simp [dance, hv]) (by simp) rfl
    exact ⟨_, h₂, hpc, rfl⟩
  | _ => rw [hd] at h; cases h

/-- **No restart is lost** exactly when `restart_dance` does not find `Dance` about to end the
previous song: at the first statement of its `stop_dancing`, or at the store of the increment
that leads there.  From any other statement `is_dancing` stays set until the last position of
the new song is tested, unless `ManageStates` stops it. -/
theorem restartKept_iff (h : Reachable freq s) (hpc : s.msPc = .clearCountry) :
    RestartKept freq s ↔ s.dancePc.ending = false := by
  obtain ⟨hm, hp⟩ := h.msInv
  simp only [MsInv, hpc] at hm
  obtain ⟨-, -, hdan, h0, -⟩ := hm
  constructor
  · intro hkept
    by_contra hne
    let s₁ : Robot := { s with country := .undefinedFlag, msPc := .sleep }
    have h₁ : Silently freq s s₁ := silently_clearCountry freq hpc
    obtain ⟨t, ht, hpct, hd⟩ := exists_silently_stop freq (s := s₁) hp rfl
      (Bool.not_eq_false _ ▸ hne)
    obtain ⟨tr, hrun, hC, hev⟩ := h₁.trans ht
    have hu : dance t (clear 0 .undefinedFlag) =
        some { t with isDancing := false, dancePc := .stop .position } := by
      rw [dance, hd]
      rfl
    obtain ⟨-, hlost | hlost⟩ := hkept _ _ (hrun.snoc (step_low hpct hu)) fun x hx => by
      rcases List.mem_append.1 hx with hx | hx
      · exact msStops_of_stopsOrRestarts (hC x hx)
      · rw [List.mem_singleton.1 hx]
        rfl
    · cases hlost
    · have hmem := mem_of_mem_fromLoad hlost
      simp [hev, played, hd, DancePc.tested] at hmem
  · exact fun he => restartKept_of_keptInv (by rw [MsQuiet, hpc]; trivial) hdan
      (.of_musicPosition he h0) h0

/-- A restart that finds `Dance` idle is kept. -/
theorem restartKept_restartIdle : ∃ s, Reachable concertPitch s ∧ s.msPc = .clearCountry ∧
    s.dancePc = .idle ∧ RestartKept concertPitch s := by
  obtain ⟨s, h, hpc, hd⟩ := exists_run (threads concertPitch).step powerUp restartIdle
    (P := fun s => s.msPc = .clearCountry ∧ s.dancePc = .idle) (by decide +kernel)
  exact ⟨s, ⟨_, h⟩, hpc, hd, (restartKept_iff ⟨_, h⟩ hpc).2 (by rw [hd]; rfl)⟩

/-- The first song is played to its end, and a second dance is started before
`Dance` carries out the `stop_dancing` at the end of the first. -/
def restartAtEnd : List (Priority × Input) :=
  startDance .france ++ danceFor 1090 (clear 1 .undefinedFlag) ++ msFor 22 (clear 2 .italy)

/-- **A restart at the end of a song is lost**: the `stop_dancing` of the first song clears the
`is_dancing` of the second, of which nothing was played, without a stop by `ManageStates`. -/
theorem restartAtEnd_lost : ∃ s, Reachable concertPitch s ∧ s.msPc = .clearCountry ∧
    ¬RestartKept concertPitch s := by
  obtain ⟨s, h, hpc, t, ht, hno, hd, hev⟩ := exists_run (threads concertPitch).step powerUp
    restartAtEnd (P := fun s => s.msPc = .clearCountry ∧
      let as := msFor 1 (clear 2 .undefinedFlag) ++ danceFor 1 (clear 2 .undefinedFlag)
      ∃ t ∈ as.foldlM (threads concertPitch).step s,
        (∀ x ∈ trace (threads concertPitch).step s as, msStops x.1 x.2 = false) ∧
        t.isDancing = false ∧ events played (trace (threads concertPitch).step s as) = [])
    (by decide +kernel)
  refine ⟨s, ⟨_, h⟩, hpc, fun hkept => ?_⟩
  obtain ⟨-, hlost | hlost⟩ := hkept _ t (run_of_foldlM ht) hno
  · exact Bool.noConfusion (hd.symm.trans hlost)
  · have hmem := mem_of_mem_fromLoad hlost
    rw [hev] at hmem
    cases hmem

end Dancing
end JeanBot
