/-
# Arrays of a fixed length and counted loops

A C array of `n` elements is a function on `Fin n`.  An access goes through
`load` and `store`, which fail outside the array, so a program whose result is
`some _` made no access out of bounds.  `upto a k` is the list of the first `k`
entries: what a program that fills an array from the left has written so far.

A loop `for (i = lo; i < hi; i++)` is `forRange lo hi body`, the body failing
where one of its accesses does.  `forRange_inv` is its one induction: an
invariant indexed by the counter, which every pass carries from `i` to `i + 1`
without failing, holds at `hi` of a loop that has not failed.
-/

import Mathlib.Data.List.GetD
import Mathlib.Data.List.OfFn
import Mathlib.Data.List.TakeDrop
import Mathlib.Algebra.Order.Ring.Nat
import Mathlib.Logic.Function.Basic

namespace JeanBot
namespace Lib

/-- An array of `n` elements. -/
abbrev CArray (n : ℕ) (α : Type*) := Fin n → α

variable {n : ℕ} {α β σ : Type*}

/-- The read `a[i]`, failing outside the array. -/
def load (a : CArray n α) (i : ℕ) : Option α := if h : i < n then some (a ⟨i, h⟩) else none

/-- The write `a[i] = x`, failing outside the array. -/
def store (a : CArray n α) (i : ℕ) (x : α) : Option (CArray n α) :=
  if h : i < n then some (Function.update a ⟨i, h⟩ x) else none

/-- The first `k` entries. -/
def upto (a : CArray n α) (k : ℕ) : List α := (List.ofFn a).take k

/-- A read inside the array succeeds, with the entry at the index. -/
theorem load_of_lt (a : CArray n α) {i : ℕ} (h : i < n) : load a i = some (a ⟨i, h⟩) :=
  dif_pos h

/-- A write inside the array succeeds, and what it leaves is the array with the one entry
changed. -/
theorem store_of_lt (a : CArray n α) {i : ℕ} (h : i < n) (x : α) :
    store a i x = some (Function.update a ⟨i, h⟩ x) :=
  dif_pos h

/-- An array is read where its list of entries is: in both an index past the end has no value.
-/
theorem getElem?_ofFn_eq_load (a : CArray n α) (i : ℕ) : (List.ofFn a)[i]? = load a i := by
  rw [List.getElem?_ofFn]
  rfl

/-- The list of the reversed array is the reversed list. -/
theorem ofFn_rev (a : CArray n α) : List.ofFn (fun i => a i.rev) = (List.ofFn a).reverse := by
  refine List.ext_getElem (by simp) fun i hi _ => ?_
  rw [List.getElem_reverse, List.getElem_ofFn, List.getElem_ofFn]
  congr 1
  rw [Fin.ext_iff, Fin.val_rev]
  simp only [List.length_ofFn]
  omega

/-- An array that holds `l` and then copies of `d` is the padded list: reading it gives the
entries of `l` and `d` behind them. -/
theorem ofFn_eq_rightpad {a : CArray n α} {l : List α} {d : α} (hl : l.length ≤ n)
    (ha : ∀ i, load a i = if i < n then some (l.getD i d) else none) :
    List.ofFn a = l.rightpad n d := by
  refine List.ext_getElem? fun i => ?_
  rw [getElem?_ofFn_eq_load, ha, List.rightpad]
  rcases Nat.lt_or_ge i l.length with hi | hi
  · rw [if_pos (by omega), List.getElem?_append_left hi, List.getD_eq_getElem?_getD,
      List.getElem?_eq_getElem hi, Option.getD_some]
  · rw [List.getD_eq_default _ _ hi, List.getElem?_append_right hi, List.getElem?_replicate]
    exact if_congr (by omega) rfl rfl

/-- The first `k` entries of an array are `k`, as long as it has so many. -/
theorem length_upto (a : CArray n α) {k : ℕ} (h : k ≤ n) : (upto a k).length = k := by
  rw [upto, List.length_take, List.length_ofFn, min_eq_left h]

/-- The first `k` entries, read at a position below `k`, are the entries of the array. -/
theorem getElem?_upto (a : CArray n α) {i k : ℕ} (h : i < k) : (upto a k)[i]? = load a i := by
  rw [upto, List.getElem?_take_of_lt h, getElem?_ofFn_eq_load]

/-- One more entry is one more element at the end. -/
theorem upto_succ (a : CArray n α) {k : ℕ} {x : α} (h : load a k = some x) :
    upto a (k + 1) = upto a k ++ [x] := by
  rw [upto, List.take_add_one, getElem?_ofFn_eq_load, h]
  rfl

/-- A write changes no entry but its own, so a read at any other index gives what it gave
before. -/
theorem load_update_of_ne (a : CArray n α) {i j : ℕ} (hi : i < n) (x : α) (hij : j ≠ i) :
    load (Function.update a ⟨i, hi⟩ x) j = load a j := by
  by_cases hj : j < n
  · rw [load_of_lt _ hj, load_of_lt _ hj,
      Function.update_of_ne (fun h => hij (congrArg Fin.val h))]
  · simp only [load, hj, dite_false]

/-- A write is read back. -/
theorem load_update_self (a : CArray n α) {i : ℕ} (hi : i < n) (x : α) :
    load (Function.update a ⟨i, hi⟩ x) i = some x := by
  rw [load_of_lt _ hi, Function.update_self]

/-- A write at or after position `k` leaves the first `k` entries alone: what is before a cursor
is not touched by a write at it. -/
theorem upto_update_of_le (a : CArray n α) {i k : ℕ} (hi : i < n) (x : α) (h : k ≤ i) :
    upto (Function.update a ⟨i, hi⟩ x) k = upto a k := by
  refine List.ext_getElem? fun j => ?_
  rcases Nat.lt_or_ge j k with hj | hj
  · rw [getElem?_upto _ hj, getElem?_upto _ hj, load_update_of_ne a hi x (by omega)]
  · rw [List.getElem?_eq_none (by rw [upto, List.length_take]; omega),
      List.getElem?_eq_none (by rw [upto, List.length_take]; omega)]

/-- A write at the cursor appends to what is before the cursor, whatever stood there. -/
theorem upto_update_succ (a : CArray n α) {k : ℕ} (hk : k < n) (x : α) :
    upto (Function.update a ⟨k, hk⟩ x) (k + 1) = upto a k ++ [x] := by
  rw [upto_succ _ (load_update_self a hk x), upto_update_of_le a hk x le_rfl]

/-- A stretch of the array on which it is constant is a block of that value in the list. -/
theorem take_drop_ofFn (a : CArray n α) {lo hi : ℕ} (hlo : lo ≤ hi) (hhi : hi ≤ n) {c : α}
    (h : ∀ i : Fin n, lo ≤ i.val → i.val < hi → a i = c) :
    ((List.ofFn a).drop lo).take (hi - lo) = List.replicate (hi - lo) c := by
  refine List.ext_getElem ?_ fun i hi₁ _ => ?_
  · simp only [List.length_take, List.length_drop, List.length_ofFn, List.length_replicate]
    omega
  · simp only [List.length_take, List.length_drop, List.length_ofFn] at hi₁
    rw [List.getElem_take, List.getElem_drop, List.getElem_ofFn, List.getElem_replicate]
    exact h _ (Nat.le_add_right lo i) (show lo + i < hi by omega)

/-- A constant stretch at the end of the first entries is a block behind the others. -/
theorem take_ofFn_of_const (a : CArray n α) {lo hi : ℕ} (hlo : lo ≤ hi) (hhi : hi ≤ n) {c : α}
    (h : ∀ i : Fin n, lo ≤ i.val → i.val < hi → a i = c) :
    (List.ofFn a).take hi = (List.ofFn a).take lo ++ List.replicate (hi - lo) c := by
  rw [← take_drop_ofFn a hlo hhi h, ← List.take_add, Nat.add_sub_cancel' hlo]

/-- A constant stretch at the start of the last entries is a block in front of the others. -/
theorem drop_ofFn_of_const (a : CArray n α) {lo hi : ℕ} (hlo : lo ≤ hi) (hhi : hi ≤ n) {c : α}
    (h : ∀ i : Fin n, lo ≤ i.val → i.val < hi → a i = c) :
    (List.ofFn a).drop lo = List.replicate (hi - lo) c ++ (List.ofFn a).drop hi := by
  rw [← take_drop_ofFn a hlo hhi h]
  conv_lhs => rw [← List.take_append_drop (hi - lo) ((List.ofFn a).drop lo)]
  rw [List.drop_drop, Nat.add_sub_cancel' hlo]

/-- Arrays that agree below `k` have the same first `k` entries. -/
theorem take_ofFn_congr {a b : CArray n α} {k : ℕ} (h : ∀ i : Fin n, i.val < k → a i = b i) :
    (List.ofFn a).take k = (List.ofFn b).take k := by
  refine List.ext_getElem (by simp) fun i hi _ => ?_
  rw [List.length_take, List.length_ofFn] at hi
  rw [List.getElem_take, List.getElem_take, List.getElem_ofFn, List.getElem_ofFn]
  exact h _ (show i < k by omega)

/-- Arrays that agree from `k` on have the same entries from there. -/
theorem drop_ofFn_congr {a b : CArray n α} {k : ℕ} (h : ∀ i : Fin n, k ≤ i.val → a i = b i) :
    (List.ofFn a).drop k = (List.ofFn b).drop k := by
  refine List.ext_getElem (by simp) fun i hi _ => ?_
  rw [List.getElem_drop, List.getElem_drop, List.getElem_ofFn, List.getElem_ofFn]
  exact h _ (Nat.le_add_right k i)

/-- `for (i = lo; i < hi; i++) body`. -/
def forRange (lo hi : ℕ) (body : ℕ → σ → Option σ) (s : σ) : Option σ :=
  (List.range' lo (hi - lo)).foldlM (fun s i => body i s) s

/-- A loop whose range is empty does nothing and does not fail. -/
theorem forRange_of_le {lo hi : ℕ} (h : hi ≤ lo) (body : ℕ → σ → Option σ) (s : σ) :
    forRange lo hi body s = some s := by
  rw [forRange, Nat.sub_eq_zero_of_le h]
  rfl

/-- **The loop rule.**  If `P lo` holds at the start and every pass takes `P i`
to `P (i + 1)` without failing, the loop does not fail and ends in `P hi`. -/
theorem forRange_inv {lo hi : ℕ} {f : ℕ → σ → Option σ} {P : ℕ → σ → Prop} {s : σ}
    (hle : lo ≤ hi) (h₀ : P lo s)
    (hstep : ∀ i s, lo ≤ i → i < hi → P i s → ∃ s', f i s = some s' ∧ P (i + 1) s') :
    ∃ s', forRange lo hi f s = some s' ∧ P hi s' := by
  obtain ⟨d, rfl⟩ := Nat.exists_eq_add_of_le hle
  rw [forRange, Nat.add_sub_cancel_left]
  clear hle
  -- the invariant is carried through the passes that remain, from any counter
  induction d generalizing lo s with
  | zero => exact ⟨s, rfl, h₀⟩
  | succ d ih =>
    obtain ⟨s₁, hb, h₁⟩ := hstep lo s le_rfl (by omega) h₀
    obtain ⟨s', hf, h'⟩ := ih h₁
      fun i s hlo hhi => hstep i s (by omega) (by omega)
    refine ⟨s', ?_, by rwa [show lo + (d + 1) = lo + 1 + d by omega]⟩
    rw [List.range'_succ, List.foldlM_cons, hb]
    exact hf

end Lib
end JeanBot
