/-
# The window of a flag detection

`ManageStates` calls `get_flag` again while
`chVTGetSystemTime() < start_time + FLAG_DETECTION_DURATION`.  The clock and the
sum are `systime_t`, 32 bits, and are compared as they are, so the comparison
means what it says only when both or neither have wrapped around.

`elapsed e₀ d n` is the true time since `start_time` at the `n`-th test, `d n`
being the duration of the `n`-th pass.  `windowKept_iff` is the exact condition:
at every test that is due, `start_time` plus the elapsed time has wrapped around
if and only if `start_time` plus the duration of the window has.
-/

import JeanBot.Dancing.Invariants

namespace JeanBot
namespace Dancing

open Lib FlagDetection

/-! ### Comparing wrapped sums -/

/-- **Two sums of a start and times below one turn of the clock compare like the
times** exactly when both have wrapped around or neither has. -/
theorem add_lt_add_iff_wrapped {w : ℕ} (S : BitVec w) {e D : ℕ} (he : e < 2 ^ w)
    (hD : D < 2 ^ w) :
    ((S + BitVec.ofNat w e < S + BitVec.ofNat w D) ↔ e < D) ↔
      (2 ^ w ≤ S.toNat + e ↔ 2 ^ w ≤ S.toNat + D) := by
  have hS := S.isLt
  have hmod : ∀ x, x < 2 ^ w → (S.toNat + x) % 2 ^ w =
      if 2 ^ w ≤ S.toNat + x then S.toNat + x - 2 ^ w else S.toNat + x := by
    intro x hx
    split_ifs with h
    · rw [Nat.mod_eq_sub_mod h, Nat.mod_eq_of_lt (by omega)]
    · exact Nat.mod_eq_of_lt (by omega)
  rw [BitVec.lt_def, BitVec.toNat_add, BitVec.toNat_add, BitVec.toNat_ofNat, BitVec.toNat_ofNat,
    Nat.mod_eq_of_lt he, Nat.mod_eq_of_lt hD, hmod e he, hmod D hD]
  split_ifs <;> omega

/-! ### The loop -/

variable {freq : Note → ℕ} {s t u : Robot} {e₀ : ℕ} {d : ℕ → ℕ}

/-- The true time since `start_time` at the `n`-th test of the loop. -/
def elapsed (e₀ : ℕ) (d : ℕ → ℕ) : ℕ → ℕ
  | 0 => e₀
  | n + 1 => elapsed e₀ d n + d n

/-- The inputs of a step at `e` ticks after `start_time`, no flag in sight. -/
def unseen (startTime : BitVec 32) (e : ℕ) : Input :=
  { clear 0 .undefinedFlag with clock := startTime + BitVec.ofNat 32 e }

/-- `ManageStates` at the `n`-th test of its loop, `none` if it has left the loop
before. -/
def atTest (freq : Note → ℕ) (s : Robot) (e₀ : ℕ) (d : ℕ → ℕ) : ℕ → Option Robot
  | 0 => some s
  | n + 1 => do
    let t ← atTest freq s e₀ d n
    let u ← manageStates freq t (unseen s.startTime (elapsed e₀ d n))
    if u.msPc = .waitImage then manageStates freq u (unseen s.startTime (elapsed e₀ d (n + 1)))
    else none

/-- At every test that is made, `get_flag` is called again if and only if fewer
than `FLAG_DETECTION_DURATION` ticks have elapsed since `start_time`. -/
def WindowKept (freq : Note → ℕ) (s : Robot) (e₀ : ℕ) (d : ℕ → ℕ) : Prop :=
  ∀ n t, atTest freq s e₀ d n = some t →
    ∃ u, manageStates freq t (unseen s.startTime (elapsed e₀ d n)) = some u ∧
      (u.msPc = .waitImage ↔ elapsed e₀ d n < flagDetectionDuration.toNat)

/-- The test at `e` ticks after `start_time` is right. -/
def TestRight (startTime : BitVec 32) (e : ℕ) : Prop :=
  2 ^ 32 ≤ startTime.toNat + e ↔ 2 ^ 32 ≤ startTime.toNat + flagDetectionDuration.toNat

/-- The condition of the loop at `e` ticks after `start_time`, no flag found. -/
def openAt (startTime : BitVec 32) (e : ℕ) : Bool :=
  windowOpen startTime (startTime + BitVec.ofNat 32 e) .undefinedFlag

/-- What one test decides: it compares a clock reading with the end of the window, both modulo
`2 ^ 32`, so it is right exactly where both have wrapped around since `start_time` or neither
has. -/
theorem openAt_iff (startTime : BitVec 32) {e : ℕ} (he : e < 2 ^ 32) :
    (openAt startTime e = true ↔ e < flagDetectionDuration.toNat) ↔ TestRight startTime e := by
  rw [TestRight, ← add_lt_add_iff_wrapped startTime he flagDetectionDuration.isLt,
    BitVec.ofNat_toNat, BitVec.setWidth_eq]
  simp [openAt, windowOpen]

/-- The test as a step of `ManageStates`: while no flag was found, the clock alone decides
whether there is one more image. -/
theorem manageStates_testWindow (hpc : s.msPc = .testWindow) (hc : s.country = .undefinedFlag)
    (e : ℕ) : manageStates freq s (unseen s.startTime e) = some
      { s with msPc := if openAt s.startTime e = true then .waitImage else .setFound } := by
  rw [manageStates, hpc, hc]
  by_cases ho : openAt s.startTime e = true
  · rw [if_pos ho]
    exact if_pos ho
  · rw [if_neg ho]
    exact if_neg ho

/-- A test is made if all tests before it went on, and a pass without a flag changes nothing, so
each of them starts from the same state. -/
theorem atTest_eq (hpc : s.msPc = .testWindow) (hc : s.country = .undefinedFlag) (n : ℕ) :
    atTest freq s e₀ d n =
      if ∀ m < n, openAt s.startTime (elapsed e₀ d m) = true then some s else none := by
  induction n with
  | zero => simp [atTest]
  | succ n ih =>
    rw [atTest, ih]
    by_cases hall : ∀ m < n, openAt s.startTime (elapsed e₀ d m) = true
    · have hback : { s with country := .undefinedFlag, msPc := .testWindow } = s := by
        rw [← hc, ← hpc]
      rw [if_pos hall, Option.bind_eq_bind, Option.bind_some, manageStates_testWindow hpc hc,
        Option.bind_some]
      by_cases ho : openAt s.startTime (elapsed e₀ d n) = true
      · have hall' : ∀ m < n + 1, openAt s.startTime (elapsed e₀ d m) = true := by
          intro m hm
          rcases Nat.lt_succ_iff_lt_or_eq.1 hm with hm | rfl
          · exact hall m hm
          · exact ho
        rw [if_pos ho, if_pos rfl, if_pos hall']
        exact congrArg some hback
      · rw [if_neg ho, if_neg (by simp), if_neg fun hall' => ho (hall' n n.lt_succ_self)]
    · rw [if_neg hall, if_neg fun hall' => hall fun m hm => hall' m (Nat.lt_succ_of_lt hm)]
      rfl

/-- The window is kept when every test that is made decides right: the tests that are made are
those before which all others went on. -/
theorem windowKept_iff_openAt (hpc : s.msPc = .testWindow) (hc : s.country = .undefinedFlag) :
    WindowKept freq s e₀ d ↔
      ∀ n, (∀ m < n, openAt s.startTime (elapsed e₀ d m) = true) →
        (openAt s.startTime (elapsed e₀ d n) = true ↔
          elapsed e₀ d n < flagDetectionDuration.toNat) := by
  have hgoes : ∀ b : Bool, (if b = true then MsPc.waitImage else .setFound) = .waitImage ↔
      b = true := by decide
  constructor
  · intro h n hall
    obtain ⟨u, hu, hiff⟩ := h n s (by rw [atTest_eq hpc hc, if_pos hall])
    rw [manageStates_testWindow hpc hc] at hu
    obtain rfl := Option.some.inj hu
    dsimp only at hiff
    rwa [hgoes] at hiff
  · intro h n t ht
    rw [atTest_eq hpc hc] at ht
    split_ifs at ht with hall
    obtain rfl := Option.some.inj ht
    refine ⟨_, manageStates_testWindow hpc hc _, ?_⟩
    dsimp only
    rw [hgoes]
    exact h n hall

/-- A test that is due comes less than one turn of the clock after `start_time`. -/
theorem elapsed_lt (he : e₀ < 2 ^ 31) (hd : ∀ n, d n < 2 ^ 31) {n : ℕ}
    (h : ∀ m < n, elapsed e₀ d m < flagDetectionDuration.toNat) : elapsed e₀ d n < 2 ^ 32 := by
  cases n with
  | zero => exact he.trans (by decide)
  | succ n =>
    have h₁ := h n n.lt_succ_self
    have h₂ := hd n
    have h₃ : flagDetectionDuration.toNat = 10000 := rfl
    rw [elapsed]
    omega

/-- **The window of ten seconds is kept** exactly when at every test that is due,
up to the first one after the window, the clock has wrapped around since
`start_time` if and only if it will have at the end of the window. -/
theorem windowKept_iff (hpc : s.msPc = .testWindow) (hc : s.country = .undefinedFlag)
    (he : e₀ < 2 ^ 31) (hd : ∀ n, d n < 2 ^ 31) :
    WindowKept freq s e₀ d ↔
      ∀ n, (∀ m < n, elapsed e₀ d m < flagDetectionDuration.toNat) →
        TestRight s.startTime (elapsed e₀ d n) := by
  rw [windowKept_iff_openAt hpc hc]
  constructor
  · intro h n hdue
    have hopen : ∀ m < n, openAt s.startTime (elapsed e₀ d m) = true := by
      intro m
      -- the tests before a test that is due are made, one after the other
      induction m using Nat.strong_induction_on with
      | _ m ih => exact fun hm => (h m fun j hj => ih j hj (hj.trans hm)).2 (hdue m hm)
    exact (openAt_iff s.startTime (elapsed_lt he hd hdue)).1 (h n hopen)
  · intro h n hopen
    have hdue : ∀ m < n, elapsed e₀ d m < flagDetectionDuration.toNat := by
      intro m
      induction m using Nat.strong_induction_on with
      | _ m ih =>
        intro hm
        have hdue' : ∀ j < m, elapsed e₀ d j < flagDetectionDuration.toNat :=
          fun j hj => ih j hj (hj.trans hm)
        exact ((openAt_iff s.startTime (elapsed_lt he hd hdue')).2 (h m hdue')).1 (hopen m hm)
    exact (openAt_iff s.startTime (elapsed_lt he hd hdue)).2 (h n hdue)

/-- `ManageStates` at the first test of its loop. -/
def atFirstTest (startTime : BitVec 32) : Robot :=
  { powerUp with robotState := .flagDetection, startTime := startTime, msPc := .testWindow }

/-- Passes of the same length add up to a multiple of it. -/
theorem elapsed_const (k n : ℕ) : elapsed 0 (fun _ => k) n = n * k := by
  induction n with
  | zero => rw [elapsed, Nat.zero_mul]
  | succ n ih => rw [elapsed, ih, Nat.succ_mul]

/-- Passes of 100 ticks from power-up on keep the window, since the clock does not wrap around
in it. -/
theorem windowKept_fromZero : WindowKept concertPitch (atFirstTest 0) 0 fun _ => 100 := by
  refine (windowKept_iff rfl rfl (by decide) fun _ => by decide).2 fun n hdue => ?_
  have hn : n * 100 ≤ 10000 := by
    rcases n with _ | n
    · decide
    · have := hdue n n.lt_succ_self
      rw [elapsed_const] at this
      have h₃ : flagDetectionDuration.toNat = 10000 := rfl
      omega
  have h₀ : (atFirstTest 0).startTime.toNat = 0 := rfl
  rw [TestRight, elapsed_const, h₀]
  refine iff_of_false (by omega) (by decide)

/-- **The window closes at once** if it ends after the clock has wrapped around:
5000 ticks before, the first test already leaves the loop. -/
theorem windowKept_beforeWrap :
    ¬WindowKept concertPitch (atFirstTest 4294962296) 0 fun _ => 100 := by
  intro h
  obtain ⟨u, hu, hiff⟩ := h 0 _ rfl
  have hpc : u.msPc = .setFound := by
    obtain rfl := Option.some.inj hu
    decide
  exact MsPc.noConfusion (hpc.symm.trans (hiff.2 (by decide)))

end Dancing
end JeanBot
