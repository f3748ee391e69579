/-
# Deleting short runs

`dropShort m l` is `l` with every maximal run of fewer than `m` elements deleted.
A block of at least `m` elements survives, and what stands on its two sides is
cleaned apart (`dropShort_block`).  A window of fewer than `m` elements in front of
such a block leaves nothing but copies of its value (`exists_dropShort_window`).

`Grows w gs hs` says that two encodings have the same values and that each run of
the second is longer by at most `w`.  Copies of a value inserted next to it let one
run grow (`grows_insert`), and a window of `w` elements between long blocks lets the
runs around it grow by at most `w`, whatever it holds (`grows_window`).  What two such
windows make of a list is `Near` one another, and these differences add up.
-/

import JeanBot.Lib.RunLength
import Mathlib.Data.List.Forall2

namespace JeanBot
namespace Lib

variable {α : Type*} [DecidableEq α]

/-! ### Blocks at an end -/

/-- The block of one value that a list starts with, as long as it goes; it is empty where the
list starts with another value. -/
theorem exists_eq_replicate_append (a : α) (l : List α) :
    ∃ j q, l = List.replicate j a ++ q ∧ a ∉ q.head? := by
  induction l with
  | nil => exact ⟨0, [], rfl, by simp⟩
  | cons b l ih =>
    by_cases e : b = a
    · obtain ⟨j, q, rfl, hq⟩ := ih
      exact ⟨j + 1, q, by rw [e, List.replicate_succ, List.cons_append], hq⟩
    · exact ⟨0, b :: l, rfl, by simpa using e⟩

/-- The block of one value that a list ends with, as long as it goes back. -/
theorem exists_eq_append_replicate (a : α) (l : List α) :
    ∃ p j, l = p ++ List.replicate j a ∧ a ∉ p.getLast? := by
  obtain ⟨j, q, hl, hq⟩ := exists_eq_replicate_append a l.reverse
  refine ⟨q.reverse, j, ?_, by rwa [List.getLast?_reverse]⟩
  rw [← List.reverse_reverse l, hl, List.reverse_append, List.reverse_replicate]

/-! ### Deleting -/

/-- The list with every maximal run of fewer than `m` elements deleted. -/
def dropShort (m : ℕ) (l : List α) : List α := expand ((runs l).filter fun g => m ≤ g.2)

variable {m : ℕ} {a b : α}

@[simp] theorem dropShort_nil : dropShort m ([] : List α) = [] := rfl

/-- Deleting does not depend on the direction in which the list is read: a run has the same
length from either end. -/
theorem dropShort_reverse (l : List α) : dropShort m l.reverse = (dropShort m l).reverse := by
  rw [dropShort, runs_reverse, List.filter_reverse, expand_reverse]
  rfl

/-- The runs of what is left are the long runs, and neighbours of one value, with only short
runs between them before, are fused. -/
theorem runs_dropShort (l : List α) :
    runs (dropShort m l) = fuse ((runs l).filter fun g => m ≤ g.2) :=
  runs_expand fun g hg => one_le_of_mem_runs g (List.mem_of_mem_filter hg)

/-- A cut between two different values is a cut of the cleaned list, as it is a cut of the runs.
-/
theorem dropShort_append {xs ys : List α} (h : ∀ x ∈ xs.getLast?, ∀ y ∈ ys.head?, x ≠ y) :
    dropShort m (xs ++ ys) = dropShort m xs ++ dropShort m ys := by
  rw [dropShort, runs_append h, List.filter_append, expand_append]
  rfl

/-- A list shorter than `m` has only short runs, so nothing of it is left. -/
theorem dropShort_of_length_lt {l : List α} (h : l.length < m) : dropShort m l = [] := by
  have hshort : (runs l).filter (fun g => decide (m ≤ g.2)) = [] :=
    List.filter_eq_nil_iff.2 fun g hg => by
      have := le_length_of_mem_runs hg
      simp only [decide_eq_true_eq]
      omega
  rw [dropShort, hshort]
  rfl

/-- A long block stays as it is. -/
theorem dropShort_replicate {s : ℕ} (hm : 0 < m) (hs : m ≤ s) :
    dropShort m (List.replicate s a) = List.replicate s a := by
  rw [dropShort, runs_replicate (by omega), List.filter_singleton]
  simp [hs]

/-- **What stands on the two sides of a long block is cleaned apart**, if neither side ends in
the value of the block. -/
theorem dropShort_block {p q : List α} {s : ℕ} (hm : 0 < m) (hs : m ≤ s) (hp : a ∉ p.getLast?)
    (hq : a ∉ q.head?) : dropShort m (p ++ (List.replicate s a ++ q)) =
      dropShort m p ++ (List.replicate s a ++ dropShort m q) := by
  rw [dropShort_append, dropShort_append, dropShort_replicate hm hs]
  · intro x hx y hy
    rw [List.getLast?_replicate, if_neg (by omega)] at hx
    obtain rfl := Option.mem_some_iff.1 hx
    rintro rfl
    exact hq hy
  · intro x hx y hy
    rw [List.head?_append, List.head?_replicate, if_neg (by omega)] at hy
    obtain rfl := Option.mem_some_iff.1 hy
    rintro rfl
    exact hp hx

/-- A list that ends with a long block: more of the block at the end is kept, with nothing else
changed. -/
theorem dropShort_append_replicate (p : List α) {s : ℕ} (hm : 0 < m) (hs : m ≤ s) (i : ℕ) :
    dropShort m (p ++ List.replicate (s + i) a) =
      dropShort m (p ++ List.replicate s a) ++ List.replicate i a := by
  obtain ⟨p, j, rfl, hp⟩ := exists_eq_append_replicate a p
  have h : ∀ k, m ≤ k → dropShort m (p ++ List.replicate k a) =
      dropShort m p ++ List.replicate k a := fun k hk => by
    have h := dropShort_block (q := []) hm hk hp (by simp)
    simpa using h
  rw [List.append_assoc, List.append_assoc, ← List.replicate_add, ← List.replicate_add,
    h _ (by omega), h _ (by omega), List.append_assoc, ← List.replicate_add, Nat.add_assoc]

/-- A long block at the end is still there after the deletion, whatever stands in front of it.
-/
theorem exists_dropShort_eq_append (p : List α) {s : ℕ} (hm : 0 < m) (hs : m ≤ s) :
    ∃ c, dropShort m (p ++ List.replicate s a) = c ++ List.replicate s a := by
  obtain ⟨p, j, rfl, hp⟩ := exists_eq_append_replicate a p
  have h := dropShort_block (s := j + s) (q := []) hm (by omega) hp (by simp)
  rw [dropShort_nil, List.append_nil, List.replicate_add] at h
  refine ⟨dropShort m p ++ List.replicate j a, ?_⟩
  rw [List.append_assoc, List.append_assoc]
  exact h

/-- In front of a long block nothing is left of a short window but copies of its value, those at
the end of the window that belong to the run of the block. -/
theorem exists_dropShort_window (V q : List α) {t : ℕ} (hV : V.length < m) (ht : m ≤ t) :
    ∃ j ≤ V.length, ∃ c, dropShort m (List.replicate t b ++ q) = List.replicate t b ++ c ∧
      dropShort m (V ++ (List.replicate t b ++ q)) =
        List.replicate j b ++ (List.replicate t b ++ c) := by
  obtain ⟨V, j, rfl, hp⟩ := exists_eq_append_replicate b V
  obtain ⟨k, q, rfl, hq⟩ := exists_eq_replicate_append b q
  have hm : 0 < m := by omega
  rw [List.length_append, List.length_replicate] at hV ⊢
  have h := dropShort_block (p := []) (s := t + k) hm (by omega) (by simp) hq
  have h' := dropShort_block (s := j + (t + k)) hm (by omega) hp hq
  rw [dropShort_of_length_lt (l := V) (by omega)] at h'
  simp only [dropShort_nil, List.nil_append, List.replicate_add, List.append_assoc] at h h'
  refine ⟨j, by omega, List.replicate k b ++ dropShort m q, h, ?_⟩
  rw [List.append_assoc]
  exact h'

/-- **Two long blocks may meet**: also where they are of one value, the lists on the
two sides are cleaned apart. -/
theorem dropShort_append_of_long (p q : List α) {s t : ℕ} (hm : 0 < m) (hs : m ≤ s) (ht : m ≤ t) :
    dropShort m ((p ++ List.replicate s a) ++ (List.replicate t b ++ q)) =
      dropShort m (p ++ List.replicate s a) ++ dropShort m (List.replicate t b ++ q) := by
  by_cases e : a = b
  · subst e
    obtain ⟨p, j, rfl, hp⟩ := exists_eq_append_replicate a p
    obtain ⟨k, q, rfl, hq⟩ := exists_eq_replicate_append a q
    have hl : dropShort m (p ++ List.replicate (j + s) a) =
        dropShort m p ++ List.replicate (j + s) a := by
      simpa using dropShort_block (q := []) hm (hs.trans (Nat.le_add_left s j)) hp (by simp)
    have hr : dropShort m (List.replicate (t + k) a ++ q) =
        List.replicate (t + k) a ++ dropShort m q := by
      simpa using dropShort_block (p := []) hm (ht.trans (Nat.le_add_right t k)) (by simp) hq
    have hc := dropShort_block (s := j + s + (t + k)) hm (by omega) hp hq
    rw [List.replicate_add, List.append_assoc] at hc
    rw [List.append_assoc p, ← List.replicate_add, ← List.append_assoc (List.replicate t a),
      ← List.replicate_add, hl, hr, List.append_assoc, hc]
    simp only [List.append_assoc]
  · refine dropShort_append fun x hx y hy => ?_
    rw [List.getLast?_append, List.getLast?_replicate, if_neg (by omega)] at hx
    rw [List.head?_append, List.head?_replicate, if_neg (by omega)] at hy
    obtain rfl := Option.mem_some_iff.1 hx
    obtain rfl := Option.mem_some_iff.1 hy
    exact e

/-! ### Growing runs -/

/-- The same values, and every run of the second encoding longer by at most `w`. -/
def Grows (w : ℕ) (gs hs : List (α × ℕ)) : Prop :=
  List.Forall₂ (fun g h => g.1 = h.1 ∧ g.2 ≤ h.2 ∧ h.2 ≤ g.2 + w) gs hs

variable {v w : ℕ} {gs hs ks : List (α × ℕ)}

omit [DecidableEq α] in
theorem Grows.refl (gs : List (α × ℕ)) : Grows 0 gs gs :=
  List.forall₂_same.2 fun _ _ => ⟨rfl, le_rfl, le_rfl⟩

omit [DecidableEq α] in
/-- What has grown by at most `v` has grown by at most any larger bound. -/
theorem Grows.mono (h : Grows v gs hs) (hvw : v ≤ w) : Grows w gs hs :=
  h.imp fun _ _ ⟨h₁, h₂, h₃⟩ => ⟨h₁, h₂, by omega⟩

omit [DecidableEq α] in
/-- What grows twice has grown by the sum of both bounds. -/
theorem Grows.trans (h : Grows v gs hs) (h' : Grows w hs ks) : Grows (v + w) gs ks := by
  induction h generalizing ks with
  | nil =>
    cases h'
    exact .nil
  | cons hg _ ih =>
    cases h' with
    | cons hg' h' =>
      obtain ⟨h₁, h₂, h₃⟩ := hg
      obtain ⟨h₁', h₂', h₃'⟩ := hg'
      exact .cons ⟨h₁.trans h₁', by omega, by omega⟩ (ih h')

/-- The same group in front of both lists: it swallows the first group of both or of neither, so
the sizes differ as before. -/
theorem Grows.push (h : Grows w gs hs) (g : α × ℕ) : Grows w (push g gs) (push g hs) := by
  cases h with
  | nil => exact (Grows.refl [g]).mono (Nat.zero_le w)
  | @cons k l gs hs hk h =>
    obtain ⟨h₁, h₂, h₃⟩ := hk
    by_cases e : g.1 = k.1
    · rw [push_cons_of_eq e, push_cons_of_eq (e.trans h₁)]
      exact .cons ⟨rfl, by dsimp only; omega, by dsimp only; omega⟩ h
    · rw [push_cons_of_ne e, push_cons_of_ne (h₁ ▸ e)]
      exact .cons ⟨rfl, le_rfl, Nat.le_add_right _ _⟩ (.cons ⟨h₁, h₂, h₃⟩ h)

/-- A longer group in front lets the first run grow by as much, be it a run of its own or not.
-/
theorem grows_push_size (a : α) (s i : ℕ) (gs : List (α × ℕ)) :
    Grows i (push (a, s) gs) (push (a, s + i) gs) := by
  have hrest : ∀ t : List (α × ℕ), Grows i t t := fun t => (Grows.refl t).mono (Nat.zero_le i)
  cases gs with
  | nil => exact .cons ⟨rfl, Nat.le_add_right s i, le_rfl⟩ .nil
  | cons h t =>
    by_cases e : a = h.1
    · rw [push_cons_of_eq (g := (a, s)) e, push_cons_of_eq (g := (a, s + i)) e]
      exact .cons ⟨rfl, by dsimp only; omega, by dsimp only; omega⟩ (hrest t)
    · rw [push_cons_of_ne (g := (a, s)) e, push_cons_of_ne (g := (a, s + i)) e]
      exact .cons ⟨rfl, Nat.le_add_right s i, le_rfl⟩ (hrest (h :: t))

/-- **Copies of a value next to it let one run grow**, by as many as there are, and the other
runs stay. -/
theorem grows_insert (c : List α) (a : α) (i : ℕ) (d : List α) :
    Grows i (runs (c ++ a :: d)) (runs (c ++ a :: (List.replicate i a ++ d))) := by
  induction c with
  | nil =>
    have h := runs_replicate_append (a := a) (Nat.succ_pos i) d
    rw [List.replicate_succ, List.cons_append, Nat.succ_eq_one_add] at h
    rw [List.nil_append, List.nil_append, h, runs_cons]
    exact grows_push_size a 1 i (runs d)
  | cons x c ih => exact ih.push (x, 1)

/-! ### Runs of almost the same length -/

/-- The same values, and every run longer or shorter by at most `w`. -/
def Near (w : ℕ) (gs hs : List (α × ℕ)) : Prop :=
  List.Forall₂ (fun g h => g.1 = h.1 ∧ g.2 ≤ h.2 + w ∧ h.2 ≤ g.2 + w) gs hs

omit [DecidableEq α] in
theorem Near.refl (gs : List (α × ℕ)) : Near 0 gs gs :=
  List.forall₂_same.2 fun _ _ => ⟨rfl, le_rfl, le_rfl⟩

omit [DecidableEq α] in
/-- **Differences add up**: what is near one another by `v` and then by `w` is near by the sum.
-/
theorem Near.trans (h : Near v gs hs) (h' : Near w hs ks) : Near (v + w) gs ks := by
  induction h generalizing ks with
  | nil =>
    cases h'
    exact .nil
  | cons hg _ ih =>
    cases h' with
    | cons hg' h' =>
      obtain ⟨h₁, h₂, h₃⟩ := hg
      obtain ⟨h₁', h₂', h₃'⟩ := hg'
      exact .cons ⟨h₁.trans h₁', by omega, by omega⟩ (ih h')

omit [DecidableEq α] in
/-- What has grown from the same runs is near: the sizes of both lie between those of the runs
and these with `w` more. -/
theorem Grows.near (h : Grows w gs hs) (h' : Grows w gs ks) : Near w hs ks := by
  induction h generalizing ks with
  | nil =>
    cases h'
    exact .nil
  | cons hg _ ih =>
    cases h' with
    | cons hg' h' =>
      obtain ⟨h₁, h₂, h₃⟩ := hg
      obtain ⟨h₁', h₂', h₃'⟩ := hg'
      exact .cons ⟨h₁.symm.trans h₁', by omega, by omega⟩ (ih h')

/-! ### A window between long blocks -/

/-- Empty, or ended by a block of at least `m` elements. -/
def LongEnd (m : ℕ) (l : List α) : Prop :=
  l = [] ∨ ∃ p a s, m ≤ s ∧ l = p ++ List.replicate s a

/-- Empty, or started by a block of at least `m` elements. -/
def LongStart (m : ℕ) (l : List α) : Prop :=
  l = [] ∨ ∃ b t q, m ≤ t ∧ l = List.replicate t b ++ q

/-- A short window in front of a long block lets the run of that block grow by at most its
length, behind whatever stands in front of the window. -/
theorem grows_window_right {V Q : List α} (hV : V.length < m) (hQ : LongStart m Q) (c : List α) :
    Grows V.length (runs (c ++ dropShort m Q)) (runs (c ++ dropShort m (V ++ Q))) := by
  obtain rfl | ⟨b, t, q, ht, rfl⟩ := hQ
  · rw [List.append_nil, dropShort_of_length_lt hV, dropShort_nil]
    exact (Grows.refl _).mono (Nat.zero_le _)
  · obtain ⟨j, hj, d, hQ, hVQ⟩ := exists_dropShort_window (b := b) V q hV ht
    obtain ⟨t, rfl⟩ := Nat.exists_eq_add_of_lt (show 0 < t by omega)
    have hswap : List.replicate j b ++ (List.replicate (0 + t + 1) b ++ d) =
        b :: (List.replicate j b ++ (List.replicate t b ++ d)) := by
      rw [← List.cons_append, ← List.replicate_succ, ← List.append_assoc, ← List.append_assoc,
        ← List.replicate_add, ← List.replicate_add]
      congr 2
      omega
    rw [hQ, hVQ, hswap, Nat.zero_add, List.replicate_succ, List.cons_append]
    exact (grows_insert c b j (List.replicate t b ++ d)).mono hj

/-- **A short window between long blocks lets the runs around it grow** by at most
its length, whatever it holds. -/
theorem grows_window {P V Q : List α} (hV : V.length < m) (hP : LongEnd m P)
    (hQ : LongStart m Q) :
    Grows V.length (runs (dropShort m P ++ dropShort m Q))
      (runs (dropShort m (P ++ (V ++ Q)))) := by
  obtain rfl | ⟨p, a, s, hs, rfl⟩ := hP
  · exact grows_window_right hV hQ []
  have hm : 0 < m := by omega
  obtain ⟨i, V, rfl, hV'⟩ := exists_eq_replicate_append a V
  rw [List.length_append, List.length_replicate] at hV ⊢
  -- the copies of `a` at the left end of the window stay, and the rest is cleaned with `Q`
  have hcut : dropShort m (p ++ List.replicate s a ++ (List.replicate i a ++ V ++ Q)) =
      dropShort m (p ++ List.replicate s a) ++ (List.replicate i a ++ dropShort m (V ++ Q)) := by
    have hsplit : p ++ List.replicate s a ++ (List.replicate i a ++ V ++ Q) =
        (p ++ List.replicate (s + i) a) ++ (V ++ Q) := by
      rw [List.replicate_add]
      simp only [List.append_assoc]
    rw [hsplit, ← List.append_assoc (dropShort m _), ← dropShort_append_replicate p hm hs]
    cases V with
    | nil =>
      obtain rfl | ⟨b, t, q, ht, rfl⟩ := hQ
      · simp
      · exact dropShort_append_of_long p q hm (hs.trans (Nat.le_add_right s i)) ht
    | cons x V =>
      refine dropShort_append fun y hy z hz => ?_
      rw [List.getLast?_append, List.getLast?_replicate, if_neg (by omega)] at hy
      obtain rfl := Option.mem_some_iff.1 hy
      rintro rfl
      exact hV' hz
  rw [hcut, ← List.append_assoc]
  refine Grows.trans ?_ (grows_window_right (by omega) hQ _)
  obtain ⟨c, hc⟩ := exists_dropShort_eq_append (a := a) p hm hs
  obtain ⟨s, rfl⟩ := Nat.exists_eq_add_of_lt (show 0 < s by omega)
  have hlast : ∀ d, c ++ List.replicate (0 + s + 1) a ++ d = c ++ List.replicate s a ++ a :: d :=
    fun d => by
      rw [Nat.zero_add, List.replicate_succ', ← List.append_assoc, List.append_assoc _ [a],
        List.singleton_append]
  rw [hc, hlast, List.append_assoc _ (List.replicate i a), hlast]
  exact grows_insert (c ++ List.replicate s a) a i (dropShort m Q)

end Lib
end JeanBot
