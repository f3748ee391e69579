/-
# Run-length encoding

A group is a value with a size, and a list of groups stands for the list
`expand` writes out.  `fuse` merges every maximal stretch of groups of one value
into a single group that carries the sum of their sizes, and the run-length
encoding `runs l` is `fuse` of the groups of size `1`.

`fuse` is a right fold, but a program meets the groups from the left, holding
the group it is still adding to.  `fuse_cons_cons_of_eq` and
`fuse_cons_cons_of_ne` are its two moves: swallow the next group, or let go of
the pending one.

Three facts connect encodings with the lists they stand for.  Encoding what a
list of nonempty groups expands to is fusing it (`runs_expand`).  A cut between
two different values is a cut of the encoding (`fuse_append`).  And three blocks
of different neighbours lie side by side in a list exactly when three runs, each
at least as long, lie side by side in its encoding (`exists_block_infix_iff`).

`collapse u` drops every `u` that is followed by another one, and `stretches p`
counts the maximal stretches on which `p` holds; `length_collapse` is the length
of the first in terms of the second.
-/

import Mathlib.Algebra.BigOperators.Group.List.Basic
import Mathlib.Algebra.Order.BigOperators.Group.List
import Mathlib.Algebra.Order.Group.Nat
import Mathlib.Data.List.Chain
import Mathlib.Algebra.Order.Ring.Nat
import Mathlib.Data.List.Infix

namespace JeanBot
namespace Lib

variable {α β : Type*} [DecidableEq α]

/-- Put a group in front of a list of groups, merging it with a first group of
the same value. -/
def push (g : α × ℕ) : List (α × ℕ) → List (α × ℕ)
  | [] => [g]
  | h :: t => if g.1 = h.1 then (g.1, g.2 + h.2) :: t else g :: h :: t

/-- Merge every maximal stretch of groups of one value into one group. -/
def fuse (gs : List (α × ℕ)) : List (α × ℕ) := gs.foldr push []

/-- The run-length encoding of a list. -/
def runs (l : List α) : List (α × ℕ) := fuse (l.map fun a => (a, 1))

omit [DecidableEq α] in
/-- What a list of groups stands for. -/
def expand (gs : List (α × ℕ)) : List α := gs.flatMap fun g => List.replicate g.2 g.1

/-! ### Fusing -/

@[simp] theorem fuse_nil : fuse ([] : List (α × ℕ)) = [] := rfl

/-- Fusing goes from the right: the first group is pushed onto the fused rest. -/
@[simp] theorem fuse_cons (g : α × ℕ) (gs : List (α × ℕ)) : fuse (g :: gs) = push g (fuse gs) := rfl

@[simp] theorem push_nil (g : α × ℕ) : push g [] = [g] := rfl

/-- In front of a group of its value it makes that group larger. -/
theorem push_cons_of_eq {g h : α × ℕ} (e : g.1 = h.1) (t : List (α × ℕ)) :
    push g (h :: t) = (g.1, g.2 + h.2) :: t := if_pos e

/-- In front of a group of another value it stays as it is. -/
theorem push_cons_of_ne {g h : α × ℕ} (e : g.1 ≠ h.1) (t : List (α × ℕ)) :
    push g (h :: t) = g :: h :: t := if_neg e

/-- A pushed group is at the head, with at least its size: it has grown if the next one was of
its value. -/
theorem push_eq_cons (g : α × ℕ) (gs : List (α × ℕ)) :
    ∃ s t, push g gs = (g.1, s) :: t ∧ g.2 ≤ s := by
  cases gs with
  | nil => exact ⟨g.2, [], rfl, le_rfl⟩
  | cons h t =>
    by_cases e : g.1 = h.1
    · exact ⟨g.2 + h.2, t, push_cons_of_eq e t, by omega⟩
    · exact ⟨g.2, h :: t, push_cons_of_ne e t, le_rfl⟩

/-- Pushing a group makes the list no shorter, as it takes at most one group into it. -/
theorem length_le_push (g : α × ℕ) (gs : List (α × ℕ)) : gs.length ≤ (push g gs).length := by
  cases gs with
  | nil => exact Nat.zero_le _
  | cons h t =>
    by_cases e : g.1 = h.1
    · rw [push_cons_of_eq e, List.length_cons, List.length_cons]
    · rw [push_cons_of_ne e]
      exact Nat.le_succ _

/-- The sizes do not show in the values of what is pushed: only values decide whether two groups
become one. -/
theorem map_fst_push_eq {gs hs : List (α × ℕ)} (h : gs.map Prod.fst = hs.map Prod.fst) (a : α)
    (m m' : ℕ) : (push (a, m) gs).map Prod.fst = (push (a, m') hs).map Prod.fst := by
  match gs, hs, h with
  | [], [], _ => rfl
  | g :: gs, k :: hs, h =>
    obtain ⟨hk, h⟩ := List.cons.inj h
    by_cases e : a = g.1
    · rw [push_cons_of_eq (g := (a, m)) e, push_cons_of_eq (g := (a, m')) (e.trans hk)]
      exact congrArg (a :: ·) h
    · rw [push_cons_of_ne (g := (a, m)) e,
        push_cons_of_ne (g := (a, m')) (fun e' => e (e'.trans hk.symm))]
      exact congrArg (a :: ·) (congrArg₂ List.cons hk h)

/-- Two groups of one value are pushed as one of their common size. -/
theorem push_push_of_eq {g h : α × ℕ} (e : g.1 = h.1) (gs : List (α × ℕ)) :
    push g (push h gs) = push (g.1, g.2 + h.2) gs := by
  cases gs with
  | nil => exact push_cons_of_eq e []
  | cons k t =>
    by_cases e' : h.1 = k.1
    · rw [push_cons_of_eq e', push_cons_of_eq (h := (h.1, h.2 + k.2)) e,
        push_cons_of_eq (g := (g.1, g.2 + h.2)) (e.trans e'), Nat.add_assoc]
    · rw [push_cons_of_ne e', push_cons_of_eq e, push_cons_of_ne (g := (g.1, g.2 + h.2))
        (fun h' => e' (e ▸ h'))]

/-- A group in front of one of another value is pushed as it is, whatever follows. -/
theorem push_push_of_ne {g h : α × ℕ} (e : g.1 ≠ h.1) (gs : List (α × ℕ)) :
    push g (push h gs) = g :: push h gs := by
  obtain ⟨s, t, hp, -⟩ := push_eq_cons h gs
  rw [hp, push_cons_of_ne (h := (h.1, s)) e]

/-- The pending group swallows the next one, if that is of its value, and then fuses with what
follows. -/
theorem fuse_cons_cons_of_eq {g h : α × ℕ} (e : g.1 = h.1) (gs : List (α × ℕ)) :
    fuse (g :: h :: gs) = fuse ((g.1, g.2 + h.2) :: gs) := push_push_of_eq e _

/-- The pending group is finished by a group of another value, which is pending then. -/
theorem fuse_cons_cons_of_ne {g h : α × ℕ} (e : g.1 ≠ h.1) (gs : List (α × ℕ)) :
    fuse (g :: h :: gs) = g :: fuse (h :: gs) := push_push_of_ne e _

/-- The neighbours of a fused list have different values, so fusing it again does nothing. -/
theorem isChain_fuse (gs : List (α × ℕ)) : (fuse gs).IsChain fun g h => g.1 ≠ h.1 := by
  induction gs with
  | nil => exact List.IsChain.nil
  | cons g gs ih =>
    rw [fuse_cons]
    cases hf : fuse gs with
    | nil => exact List.isChain_singleton g
    | cons h t =>
      rw [hf] at ih
      by_cases e : g.1 = h.1
      · rw [push_cons_of_eq e]
        cases t with
        | nil => exact List.isChain_singleton _
        | cons k t =>
          rw [List.isChain_cons_cons] at ih ⊢
          exact ⟨e ▸ ih.1, ih.2⟩
      · rw [push_cons_of_ne e]
        exact List.isChain_cons_cons.2 ⟨e, ih⟩

/-- Fusing keeps a lower bound on the sizes: a group that swallows another one only grows. -/
theorem le_of_mem_fuse {gs : List (α × ℕ)} {m : ℕ} (h : ∀ g ∈ gs, m ≤ g.2) :
    ∀ g ∈ fuse gs, m ≤ g.2 := by
  induction gs with
  | nil => exact h
  | cons g gs ih =>
    have ih := ih fun k hk => h k (List.mem_cons_of_mem _ hk)
    have hg := h g (List.mem_cons_self ..)
    rw [fuse_cons]
    cases hf : fuse gs with
    | nil => simpa using hg
    | cons k t =>
      rw [hf] at ih
      by_cases e : g.1 = k.1
      · rw [push_cons_of_eq e]
        intro x hx
        rcases List.mem_cons.1 hx with rfl | hx
        · exact hg.trans (Nat.le_add_right _ _)
        · exact ih x (List.mem_cons_of_mem _ hx)
      · rw [push_cons_of_ne e]
        intro x hx
        rcases List.mem_cons.1 hx with rfl | hx
        · exact hg
        · exact ih x hx

/-- Fusing keeps the sum of the sizes, since the size of a group that is swallowed is added. -/
theorem sum_fuse (gs : List (α × ℕ)) :
    ((fuse gs).map Prod.snd).sum = (gs.map Prod.snd).sum := by
  induction gs with
  | nil => rfl
  | cons g gs ih =>
    rw [fuse_cons, List.map_cons, List.sum_cons, ← ih]
    cases fuse gs with
    | nil => rfl
    | cons h t =>
      by_cases e : g.1 = h.1
      · rw [push_cons_of_eq e, List.map_cons, List.sum_cons, List.map_cons, List.sum_cons,
          Nat.add_assoc]
      · rw [push_cons_of_ne e, List.map_cons, List.sum_cons]

omit [DecidableEq α] in
/-- Leaving groups out does not make the sizes sum to more. -/
theorem sum_filter_le (p : α × ℕ → Bool) (gs : List (α × ℕ)) :
    ((gs.filter p).map Prod.snd).sum ≤ (gs.map Prod.snd).sum :=
  (List.filter_sublist.map Prod.snd).sum_le_sum fun _ _ => Nat.zero_le _

/-- Fusing never makes a list longer: every group becomes one or is swallowed. -/
theorem length_fuse_le (gs : List (α × ℕ)) : (fuse gs).length ≤ gs.length := by
  induction gs with
  | nil => exact le_rfl
  | cons g gs ih =>
    rw [fuse_cons, List.length_cons]
    cases hf : fuse gs with
    | nil => simp
    | cons h t =>
      rw [hf, List.length_cons] at ih
      by_cases e : g.1 = h.1
      · rw [push_cons_of_eq e, List.length_cons]; omega
      · rw [push_cons_of_ne e, List.length_cons, List.length_cons]; omega

/-- **A cut between two values is a cut of the fused list**: no group swallows another one
across it. -/
theorem fuse_append {xs ys : List (α × ℕ)}
    (h : ∀ x ∈ xs.getLast?, ∀ y ∈ ys.head?, x.1 ≠ y.1) : fuse (xs ++ ys) = fuse xs ++ fuse ys := by
  induction xs with
  | nil => rfl
  | cons g xs ih =>
    cases xs with
    | nil =>
      cases ys with
      | nil => simp
      | cons y ys => exact fuse_cons_cons_of_ne (h g rfl y rfl) ys
    | cons g' xs =>
      have ih := ih fun x hx => h x (by rwa [List.getLast?_cons_cons])
      rw [List.cons_append, fuse_cons, ih, fuse_cons g]
      obtain ⟨s, t, hp, -⟩ := push_eq_cons g' (fuse xs)
      rw [fuse_cons, hp, List.cons_append]
      by_cases e : g.1 = g'.1
      · rw [push_cons_of_eq (h := (g'.1, s)) e, push_cons_of_eq (h := (g'.1, s)) e,
          List.cons_append]
      · rw [push_cons_of_ne (h := (g'.1, s)) e, push_cons_of_ne (h := (g'.1, s)) e,
          List.cons_append, List.cons_append]

/-! ### Encoding and expanding -/

omit [DecidableEq α] in
@[simp] theorem expand_nil : expand ([] : List (α × ℕ)) = [] := rfl

omit [DecidableEq α] in
/-- The first group is written out in front of the others. -/
@[simp] theorem expand_cons (g : α × ℕ) (gs : List (α × ℕ)) :
    expand (g :: gs) = List.replicate g.2 g.1 ++ expand gs := rfl

omit [DecidableEq α] in
/-- Groups are written out one after the other, wherever the list of them is cut. -/
theorem expand_append (xs ys : List (α × ℕ)) : expand (xs ++ ys) = expand xs ++ expand ys :=
  List.flatMap_append

@[simp] theorem runs_nil : runs ([] : List α) = [] := rfl

/-- An element is pushed onto the runs of the rest as a group of its own. -/
@[simp] theorem runs_cons (a : α) (l : List α) : runs (a :: l) = push (a, 1) (runs l) := rfl

/-- The neighbouring runs of a list have different values, otherwise they would be one run. -/
theorem isChain_runs (l : List α) : (runs l).IsChain fun g h => g.1 ≠ h.1 := isChain_fuse _

/-- A run is never empty, since it is fused of single elements. -/
theorem one_le_of_mem_runs {l : List α} : ∀ g ∈ runs l, 1 ≤ g.2 :=
  le_of_mem_fuse fun g hg => by
    obtain ⟨a, -, rfl⟩ := List.mem_map.1 hg
    exact le_rfl

omit [DecidableEq α] in
/-- Written out, groups of one element each are their elements. -/
theorem expand_map_one (l : List α) : expand (l.map fun a => (a, 1)) = l := by
  induction l with
  | nil => rfl
  | cons a l ih => rw [List.map_cons, expand_cons, ih]; rfl

/-- Fusing does not change what is written out: two neighbouring blocks of one value are one
block. -/
theorem expand_fuse (gs : List (α × ℕ)) : expand (fuse gs) = expand gs := by
  induction gs with
  | nil => rfl
  | cons g gs ih =>
    rw [fuse_cons, expand_cons, ← ih]
    cases fuse gs with
    | nil => rfl
    | cons h t =>
      by_cases e : g.1 = h.1
      · rw [push_cons_of_eq e, expand_cons, expand_cons, ← e, List.replicate_add,
          List.append_assoc]
      · rw [push_cons_of_ne e, expand_cons]

/-- **The encoding is lossless**: written out, the runs of a list are the list. -/
theorem expand_runs (l : List α) : expand (runs l) = l := by
  rw [runs, expand_fuse, expand_map_one]

/-- A block in front of a list is one group in front of its encoding, which may swallow the
first run. -/
theorem runs_replicate_append {a : α} {s : ℕ} (hs : 0 < s) (l : List α) :
    runs (List.replicate s a ++ l) = push (a, s) (runs l) := by
  obtain ⟨s, rfl⟩ := Nat.exists_eq_add_of_lt hs
  rw [Nat.zero_add]
  clear hs
  induction s with
  | zero => rfl
  | succ s ih =>
    rw [List.replicate_succ, List.cons_append, runs_cons, ih,
      push_push_of_eq (g := (a, 1)) (h := (a, s + 1)) rfl, Nat.add_comm]

/-- **Encoding what nonempty groups expand to is fusing them**, so two lists of groups that
stand for one list have the same runs. -/
theorem runs_expand {gs : List (α × ℕ)} (h : ∀ g ∈ gs, 0 < g.2) : runs (expand gs) = fuse gs := by
  induction gs with
  | nil => rfl
  | cons g gs ih =>
    rw [expand_cons, runs_replicate_append (h g (List.mem_cons_self ..)),
      ih fun k hk => h k (List.mem_cons_of_mem _ hk), fuse_cons]

/-- Groups of alternating values are already fused: none of them swallows its neighbour. -/
theorem fuse_of_isChain {gs : List (α × ℕ)} (h : gs.IsChain fun g h => g.1 ≠ h.1) :
    fuse gs = gs := by
  induction gs with
  | nil => rfl
  | cons g gs ih =>
    rw [fuse_cons, ih h.tail]
    cases gs with
    | nil => rfl
    | cons k gs => exact push_cons_of_ne (List.isChain_cons_cons.1 h).1 gs

/-- The values of a fused list are those of the runs of its values, whatever the sizes. -/
theorem map_fst_fuse (gs : List (α × ℕ)) :
    (fuse gs).map Prod.fst = (runs (gs.map Prod.fst)).map Prod.fst := by
  induction gs with
  | nil => rfl
  | cons g gs ih => exact map_fst_push_eq ih g.1 g.2 1

/-- A list in which no value follows itself has runs of size `1`, so their values are the list.
-/
theorem map_fst_runs_of_isChain {l : List α} (h : l.IsChain fun a b => a ≠ b) :
    (runs l).map Prod.fst = l := by
  rw [runs, fuse_of_isChain ((List.isChain_map _).2 h), List.map_map]
  exact List.map_id l

omit [DecidableEq α] in
/-- The length of a list is the sum of the sizes of its groups. -/
theorem length_expand (gs : List (α × ℕ)) : (expand gs).length = (gs.map Prod.snd).sum := by
  induction gs with
  | nil => rfl
  | cons g gs ih =>
    rw [expand_cons, List.length_append, List.length_replicate, ih, List.map_cons, List.sum_cons]

omit [DecidableEq α] in
/-- Reversed groups stand for the reversed list, since each of them reads the same from both
ends. -/
theorem expand_reverse (gs : List (α × ℕ)) : expand gs.reverse = (expand gs).reverse := by
  induction gs with
  | nil => rfl
  | cons g gs ih =>
    rw [List.reverse_cons, expand_append, ih, expand_cons, expand_cons, expand_nil,
      List.append_nil, List.reverse_append, List.reverse_replicate]

/-- **The encoding of the reversed list is the reversed encoding**, although the runs are built
from one end. -/
theorem runs_reverse (l : List α) : runs l.reverse = (runs l).reverse := by
  have hexp : l.reverse = expand (runs l).reverse := by rw [expand_reverse, expand_runs]
  have hpos : ∀ g ∈ (runs l).reverse, 0 < g.2 := fun g hg =>
    one_le_of_mem_runs g (List.mem_reverse.1 hg)
  have hchain : (runs l).reverse.IsChain fun g h => g.1 ≠ h.1 :=
    List.isChain_reverse.2 ((isChain_runs l).imp fun _ _ h => h.symm)
  rw [hexp, runs_expand hpos, fuse_of_isChain hchain]

/-- The encoding of a block that is not empty is one group. -/
theorem runs_replicate {a : α} {s : ℕ} (hs : 0 < s) : runs (List.replicate s a) = [(a, s)] := by
  have h := runs_replicate_append hs ([] : List α) (a := a)
  rwa [List.append_nil] at h

/-- The sizes of the runs of a list sum to its length, so it has no more runs than elements. -/
theorem sum_runs (l : List α) : ((runs l).map Prod.snd).sum = l.length := by
  rw [runs, sum_fuse, List.map_map]
  simp [Function.comp_def]

/-- A cut between two different values is a cut of the encoding: no run goes across it. -/
theorem runs_append {xs ys : List α} (h : ∀ x ∈ xs.getLast?, ∀ y ∈ ys.head?, x ≠ y) :
    runs (xs ++ ys) = runs xs ++ runs ys := by
  rw [runs, List.map_append, fuse_append]
  · rfl
  · intro x hx y hy
    rw [List.getLast?_map] at hx
    rw [List.head?_map] at hy
    obtain ⟨a, ha, rfl⟩ := Option.map_eq_some_iff.1 hx
    obtain ⟨b, hb, rfl⟩ := Option.map_eq_some_iff.1 hy
    exact h a ha b hb

/-- A run is no longer than the list that it is a run of. -/
theorem le_length_of_mem_runs {l : List α} {g : α × ℕ} (h : g ∈ runs l) : g.2 ≤ l.length := by
  rw [← sum_runs l]
  exact List.le_sum_of_mem (List.mem_map_of_mem h)

/-- The run a list ends with when a block ends it: the block may be a part of it, so its size is
only bounded from below. -/
theorem exists_runs_append_replicate (p : List α) {a : α} {s : ℕ} (hs : 0 < s) :
    ∃ p' s', runs (p ++ List.replicate s a) = p' ++ [(a, s')] ∧ s ≤ s' := by
  induction p with
  | nil =>
    exact ⟨[], s, runs_replicate hs, le_rfl⟩
  | cons b p ih =>
    obtain ⟨p', s', hr, hle⟩ := ih
    rw [List.cons_append, runs_cons, hr]
    cases p' with
    | nil =>
      by_cases e : b = a
      · subst e
        exact ⟨[], 1 + s', push_cons_of_eq (g := (b, 1)) (h := (b, s')) rfl [], by omega⟩
      · exact ⟨[(b, 1)], s', push_cons_of_ne (g := (b, 1)) (h := (a, s')) e [], hle⟩
    | cons g t =>
      by_cases e : b = g.1
      · exact ⟨(b, 1 + g.2) :: t, s', push_cons_of_eq (g := (b, 1)) e _, hle⟩
      · exact ⟨(b, 1) :: g :: t, s', push_cons_of_ne (g := (b, 1)) e _, hle⟩

/-- **Three blocks side by side are three runs side by side.**  The outer blocks
may be parts of longer runs, so only lower bounds are kept. -/
theorem exists_block_infix_iff {a b c : α} (hab : a ≠ b) (hbc : b ≠ c) {m : ℕ} (hm : 0 < m)
    (l : List α) :
    (∃ i j k, m ≤ i ∧ m ≤ j ∧ m ≤ k ∧
      List.replicate i a ++ List.replicate j b ++ List.replicate k c <:+: l) ↔
    ∃ i j k, m ≤ i ∧ m ≤ j ∧ m ≤ k ∧ [(a, i), (b, j), (c, k)] <:+: runs l := by
  constructor
  · rintro ⟨i, j, k, hi, hj, hk, p, q, rfl⟩
    obtain ⟨p', i', hp, hi'⟩ := exists_runs_append_replicate p (a := a) (s := i) (by omega)
    obtain ⟨k', q', hq, hk'⟩ := push_eq_cons (c, k) (runs q)
    refine ⟨i', j, k', by omega, hj, by exact hk.trans hk', p', q', ?_⟩
    have hcut : p ++ (List.replicate i a ++ List.replicate j b ++ List.replicate k c) ++ q =
        (p ++ List.replicate i a) ++ (List.replicate j b ++ (List.replicate k c ++ q)) := by
      simp only [List.append_assoc]
    -- the list is cut before and after the middle block
    rw [hcut, runs_append, hp, runs_replicate_append (by omega), runs_replicate_append (by omega),
      hq, push_cons_of_ne hbc]
    · simp
    · intro x hx y hy
      have hx' : x = a := by
        rw [List.getLast?_append, List.getLast?_replicate, if_neg (by omega)] at hx
        simpa using hx.symm
      have hy' : y = b := by
        rw [List.head?_append, List.head?_replicate, if_neg (by omega)] at hy
        simpa using hy.symm
      rw [hx', hy']
      exact hab
  · rintro ⟨i, j, k, hi, hj, hk, p, q, h⟩
    refine ⟨i, j, k, hi, hj, hk, expand p, expand q, ?_⟩
    rw [← expand_runs l, ← h, expand_append, expand_append]
    simp

omit [DecidableEq α] in
/-- Three neighbours of a list are three positions in a row. -/
theorem triple_infix_iff {a b c : α} {l : List α} :
    [a, b, c] <:+: l ↔ ∃ i, l[i]? = some a ∧ l[i + 1]? = some b ∧ l[i + 2]? = some c := by
  rw [List.infix_iff_getElem?]
  constructor
  · rintro ⟨i, -, h⟩
    refine ⟨i, ?_, ?_, ?_⟩
    · simpa using h 0 (by simp)
    · simpa [Nat.add_comm] using h 1 (by simp)
    · simpa [Nat.add_comm] using h 2 (by simp)
  · rintro ⟨i, ha, hb, hc⟩
    have hlen : i + 2 < l.length := (List.getElem?_eq_some_iff.1 hc).1
    refine ⟨i, by simp only [List.length_cons, List.length_nil]; omega, fun j hj => ?_⟩
    match j, hj with
    | 0, _ => simpa using ha
    | 1, _ => simpa [Nat.add_comm] using hb
    | 2, _ => simpa [Nat.add_comm] using hc

/-! ### Collapsing one value -/

/-- Drop every `u` that is followed by another `u`. -/
def collapse (u : α) : List α → List α
  | [] => []
  | a :: l => if a = u ∧ l.head? = some u then collapse u l else a :: collapse u l

/-- A single element has no neighbour to collapse with. -/
theorem collapse_singleton (u a : α) : collapse u [a] = [a] := if_neg fun h => nomatch h.2

omit [DecidableEq α] in
/-- The number of maximal stretches on which `p` holds, counted at their ends. -/
def stretches (p : β → Bool) : List β → ℕ
  | [] => 0
  | b :: l => stretches p l + if p b ∧ ¬ l.head?.any p then 1 else 0

/-- Where equal neighbours are all `u`, collapsing `u` keeps one value per run: other values
have runs of one element. -/
theorem map_fst_runs_eq_collapse {u : α} {l : List α} (h : l.IsChain fun a b => a = b → a = u) :
    (runs l).map Prod.fst = collapse u l := by
  induction l with
  | nil => rfl
  | cons a l ih =>
    have ih := ih h.tail
    cases l with
    | nil => simp [collapse]
    | cons b l =>
      have hab := (List.isChain_cons_cons.1 h).1
      obtain ⟨s, t, hp, -⟩ := push_eq_cons (b, 1) (runs l)
      rw [runs_cons, hp] at ih
      rw [runs_cons, runs_cons, hp, collapse, ← ih]
      by_cases e : a = b
      · rw [push_cons_of_eq e, if_pos ⟨hab e, by rw [← e, hab e]; rfl⟩, ← e]
        rfl
      · rw [push_cons_of_ne e, if_neg fun hu => e (hu.1.trans (Option.some.inj hu.2).symm)]
        rfl

/-- **The length of a collapsed list**: its other values, and one for every
stretch of `u`. -/
theorem length_collapse (u : α) (l : List α) :
    (collapse u l).length = l.countP (fun a => a ≠ u) + stretches (fun a => a = u) l := by
  induction l with
  | nil => rfl
  | cons a l ih =>
    rw [collapse, stretches, List.countP_cons]
    by_cases hu : a = u
    · by_cases hl : l.head? = some u
      · simp [hu, hl, ih]
      · have hl' : ¬ l.head?.any (fun a => decide (a = u)) = true := by
          cases l with
          | nil => simp
          | cons b l => simpa using hl
        simp [hu, hl, ih, hl']
        omega
    · simp [hu, ih]
      omega

/-- Collapsing only leaves elements out, and keeps the order of the others. -/
theorem collapse_sublist (u : α) (l : List α) : (collapse u l).Sublist l := by
  induction l with
  | nil => exact List.Sublist.slnil
  | cons a l ih =>
    rw [collapse]
    split_ifs
    · exact ih.cons a
    · exact ih.cons_cons a

/-- Where no value follows itself, `u` does not outnumber the other values by more
than one, and not at all unless it comes first. -/
theorem countP_eq_le_of_isChain (u : α) {l : List α} (h : l.IsChain fun a b => a ≠ b) :
    l.countP (fun a => a = u) ≤
      l.countP (fun a => a ≠ u) + if l.head? = some u then 1 else 0 := by
  induction l with
  | nil => exact Nat.zero_le _
  | cons a l ih =>
    have ih := ih h.tail
    by_cases hu : a = u
    · have hl : l.head? ≠ some u := fun hl => by
        obtain ⟨b, l, rfl⟩ := List.exists_cons_of_ne_nil (l := l) (by rintro rfl; cases hl)
        exact (List.isChain_cons_cons.1 h).1 (hu.trans (Option.some.inj hl).symm)
      rw [if_neg hl] at ih
      rw [List.countP_cons_of_pos (by simpa using hu), List.countP_cons_of_neg (by simpa using hu),
        List.head?_cons, if_pos (congrArg some hu)]
      omega
    · rw [List.countP_cons_of_neg (by simpa using hu), List.countP_cons_of_pos (by simpa using hu)]
      split_ifs at ih ⊢ <;> omega

/-- Another value than `u` cuts the collapsed list where it cuts the list: no stretch of `u`
goes across it. -/
theorem collapse_append_cons {u c : α} (hc : c ≠ u) (p r : List α) :
    collapse u (p ++ c :: r) = collapse u p ++ c :: collapse u r := by
  induction p with
  | nil => exact if_neg fun h => hc h.1
  | cons a p ih =>
    have hhead : (p ++ c :: r).head? = some u ↔ p.head? = some u := by
      cases p with
      | nil => simp [hc]
      | cons b p => rfl
    rw [List.cons_append, collapse, collapse, ih]
    simp only [hhead]
    split_ifs
    · rfl
    · rfl

/-- A value other than `u` in the collapsed list comes from one in the list, with what is before
and behind it collapsed. -/
theorem exists_of_collapse_eq {u c : α} (hc : c ≠ u) {l v w : List α}
    (h : collapse u l = v ++ c :: w) :
    ∃ p r, l = p ++ c :: r ∧ collapse u p = v ∧ collapse u r = w := by
  induction l generalizing v with
  | nil => simp [collapse] at h
  | cons a l ih =>
    by_cases hu : a = u ∧ l.head? = some u
    · rw [collapse, if_pos hu] at h
      obtain ⟨p, r, rfl, hp, hr⟩ := ih h
      refine ⟨a :: p, r, rfl, ?_, hr⟩
      -- the head of `p` is the `u` that `a` is dropped for
      have hpu : p.head? = some u := by
        cases p with
        | nil => exact absurd (Option.some.inj hu.2) hc
        | cons b p => exact hu.2
      rw [collapse, if_pos ⟨hu.1, hpu⟩, hp]
    · rw [collapse, if_neg hu] at h
      cases v with
      | nil =>
        obtain ⟨rfl, hr⟩ := List.cons.inj h
        exact ⟨[], l, rfl, rfl, hr⟩
      | cons b v =>
        obtain ⟨rfl, hl⟩ := List.cons.inj h
        obtain ⟨p, r, rfl, hp, hr⟩ := ih hl
        refine ⟨a :: p, r, rfl, ?_, hr⟩
        have hpu : ¬ (a = u ∧ p.head? = some u) := fun h' => hu ⟨h'.1, by
          cases p with
          | nil => exact absurd h'.2 (by simp)
          | cons b p => exact h'.2⟩
        rw [collapse, if_neg hpu, hp]

/-- Of a list that is not empty something is left, since of each stretch one element stays. -/
theorem collapse_eq_nil {u : α} {l : List α} (h : collapse u l = []) : l = [] := by
  induction l with
  | nil => rfl
  | cons a l ih =>
    rw [collapse] at h
    split_ifs at h with hu
    rw [ih h] at hu
    exact absurd hu.2 (by simp)

/-- **Neighbours other than `u` are neighbours before collapsing**: of a stretch of `u` between
two of them one element would be left. -/
theorem triple_infix_collapse_iff {u a b c : α} (ha : a ≠ u) (hb : b ≠ u) (hc : c ≠ u)
    (l : List α) : [a, b, c] <:+: collapse u l ↔ [a, b, c] <:+: l := by
  constructor
  · rintro ⟨p', q', h⟩
    rw [List.append_assoc] at h
    obtain ⟨p, r, rfl, -, h⟩ := exists_of_collapse_eq ha h.symm
    obtain ⟨p₁, r₁, rfl, hp₁, h⟩ := exists_of_collapse_eq (v := []) hb h
    obtain ⟨p₂, r₂, rfl, hp₂, -⟩ := exists_of_collapse_eq (v := []) hc h
    obtain rfl := collapse_eq_nil hp₁
    obtain rfl := collapse_eq_nil hp₂
    exact ⟨p, r₂, by simp⟩
  · rintro ⟨p, q, rfl⟩
    refine ⟨collapse u p, collapse u q, ?_⟩
    have hsplit : p ++ [a, b, c] ++ q = p ++ a :: ([] ++ b :: ([] ++ c :: q)) := by simp
    rw [hsplit, collapse_append_cons ha, collapse_append_cons hb, collapse_append_cons hc]
    simp [collapse]

omit [DecidableEq α] in
/-- Stretches are counted on the images as on the elements. -/
theorem stretches_map (p : α → Bool) (f : β → α) (l : List β) :
    stretches p (l.map f) = stretches (p ∘ f) l := by
  induction l with
  | nil => rfl
  | cons b l ih =>
    rw [List.map_cons, stretches, stretches, ih]
    cases l <;> rfl

end Lib
end JeanBot
