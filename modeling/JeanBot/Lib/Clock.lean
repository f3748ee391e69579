/-
# A clock that wraps around, and sleeping until a deadline

The clock shows true time `t` as the word `BitVec.ofNat w t`.  `windowedSleep` is a
sleep until `next` that is skipped when the clock has left the window from `prev` to
`next`, all three compared around the wrap: the differences to `prev` are.

`windowedSleep_ofNat` says how long it is in true time.  It never ends before the
deadline (`le_add_windowedSleep`), however late it is called, and it ends at the
deadline exactly when it is called before it (`add_windowedSleep_eq_iff`).  A deadline
that lies before `prev` is one turn of the clock later (`ofNat_add_sub_ofNat_of_lt`).
-/

import Mathlib.Data.BitVec

namespace JeanBot
namespace Lib

variable {w : ℕ}

/-- The ticks for which a sleep from `now` until `next` lasts, when it may start from
`prev` on. -/
def windowedSleep (prev next now : BitVec w) : ℕ :=
  if now - prev < next - prev then (next - now).toNat else 0

/-- The difference of two clock readings is the time between them, less the whole turns: the
wrap of the clock cancels out. -/
theorem toNat_ofNat_sub_ofNat {a b : ℕ} (h : a ≤ b) :
    (BitVec.ofNat w b - BitVec.ofNat w a).toNat = (b - a) % 2 ^ w := by
  have hb : BitVec.ofNat w b = BitVec.ofNat w a + BitVec.ofNat w (b - a) := by
    rw [← BitVec.ofNat_add, Nat.add_sub_cancel' h]
  rw [hb, BitVec.add_comm, BitVec.add_sub_cancel, BitVec.toNat_ofNat]

variable {T D c : ℕ}

/-- **How long a windowed sleep is**: what is left of the `D` ticks after `T`, and nothing after
the deadline.  A call that comes whole turns late sleeps as if these had not passed. -/
theorem windowedSleep_ofNat (hc : T ≤ c) (hD : D < 2 ^ w) :
    windowedSleep (BitVec.ofNat w T) (BitVec.ofNat w (T + D)) (BitVec.ofNat w c) =
      D - (c - T) % 2 ^ w := by
  have hnow := toNat_ofNat_sub_ofNat (w := w) hc
  have hnext := toNat_ofNat_sub_ofNat (w := w) (Nat.le_add_right T D)
  rw [Nat.add_sub_cancel_left, Nat.mod_eq_of_lt hD] at hnext
  have hsleep : BitVec.ofNat w (T + D) - BitVec.ofNat w c =
      BitVec.ofNat w (T + D) - BitVec.ofNat w T - (BitVec.ofNat w c - BitVec.ofNat w T) :=
    (sub_sub_sub_cancel_right _ _ _).symm
  unfold windowedSleep
  split_ifs with h
  · rw [hsleep, BitVec.toNat_sub_of_le (BitVec.le_of_lt h), hnow, hnext]
  · rw [BitVec.lt_def, hnow, hnext] at h
    omega

/-- A windowed sleep does not end before its deadline, no matter how long after `T` it is
called. -/
theorem le_add_windowedSleep (hc : T ≤ c) (hD : D < 2 ^ w) :
    T + D ≤ c + windowedSleep (BitVec.ofNat w T) (BitVec.ofNat w (T + D)) (BitVec.ofNat w c) := by
  have hmod := Nat.mod_le (c - T) (2 ^ w)
  rw [windowedSleep_ofNat hc hD]
  omega

/-- A windowed sleep ends at its deadline exactly when it is not called after it, so whatever
delays the call up to then is made up for. -/
theorem add_windowedSleep_eq_iff (hc : T ≤ c) (hD : D < 2 ^ w) :
    c + windowedSleep (BitVec.ofNat w T) (BitVec.ofNat w (T + D)) (BitVec.ofNat w c) = T + D ↔
      c ≤ T + D := by
  rw [windowedSleep_ofNat hc hD]
  constructor
  · omega
  · intro h
    rcases Nat.lt_or_ge (c - T) (2 ^ w) with hlt | hge
    · rw [Nat.mod_eq_of_lt hlt]
      omega
    · omega

/-- A deadline `g` ticks before the end of `r` ticks is `r - g` ticks away, also where one of
the sums wraps around. -/
theorem ofNat_add_sub_ofNat {r g : ℕ} (h : g ≤ r) :
    BitVec.ofNat w T + BitVec.ofNat w r - BitVec.ofNat w g = BitVec.ofNat w (T + (r - g)) := by
  rw [sub_eq_iff_eq_add, ← BitVec.ofNat_add, ← BitVec.ofNat_add]
  congr 1
  omega

/-- Where `r` is less than `g`, the deadline would lie before `T`, and in `w` bits it is nearly
one turn of the clock after it. -/
theorem ofNat_add_sub_ofNat_of_lt {r g : ℕ} (h : r < g) (hg : g ≤ 2 ^ w) :
    BitVec.ofNat w T + BitVec.ofNat w r - BitVec.ofNat w g =
      BitVec.ofNat w (T + (2 ^ w - (g - r))) := by
  rw [sub_eq_iff_eq_add, ← BitVec.ofNat_add, ← BitVec.ofNat_add,
    show T + (2 ^ w - (g - r)) + g = T + r + 2 ^ w by omega]
  exact BitVec.eq_of_toNat_eq (by simp)

end Lib
end JeanBot
