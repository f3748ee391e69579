/-
# What each pass computes

One statement for each step of `extract_color_bands`, over the list of the
groups that the arrays hold in their first entries (`Groups.entries`): step 1
leaves the run-length encoding of the line, step 2 the groups of at least
`MIN_GROUP_SIZE` in their order, step 3 the fused groups, step 4 the same groups
with the narrow ones recoloured, step 5 writes one colour per stretch.  No step
fails, so no access is out of bounds, and no `uint16_t` wraps.

Steps 1 and 3 are one scan.  `Scan.Pending s rest total` says that what is
written so far, the pending group and the groups still to come fuse to `total`;
the two branches of the body keep it (`Scan.Pending.swallow`,
`Scan.Pending.next`) and the last flush cashes it in (`Scan.Pending.finish`).
Steps 2 and 3 write over the arrays they read.  The write cursor stays below the
counter, so what is still to be read is what the arrays held at the start
(`Groups.SameFrom`).

A scan that starts at the second entry never enters its body on fewer than two
groups: steps 3 and 5 then have no groups and no bands to show, even for a line
that is a single group (`step3_of_lt_two`, `step5_of_lt_two`).
-/

import JeanBot.FlagDetection.ColorBands
import JeanBot.Lib.RunLength

namespace JeanBot
namespace FlagDetection

open Lib

/-- The groups held in the first `k` entries. -/
def Groups.entries (g : Groups) (k : ℕ) : List (Color × ℕ) :=
  (upto g.colorGroups k).zip (upto g.sizeOfGroups k)

/-- Two pairs of arrays hold the same groups from position `i` on. -/
def Groups.SameFrom (g g' : Groups) (i : ℕ) : Prop :=
  ∀ j, i ≤ j → load g'.colorGroups j = load g.colorGroups j ∧
    load g'.sizeOfGroups j = load g.sizeOfGroups j

/-- Write one group. -/
def Groups.put (g : Groups) (i : Fin imageBufferSize) (c : Color) (size : ℕ) : Groups :=
  ⟨Function.update g.colorGroups i c, Function.update g.sizeOfGroups i size⟩

theorem imageBufferSize_lt : imageBufferSize < 2 ^ 16 := by decide

@[simp] theorem Groups.entries_zero (g : Groups) : g.entries 0 = [] := rfl

/-- The first `k` entries are `k` groups, as long as they lie in the arrays: past the end there
is nothing to read. -/
theorem Groups.length_entries (g : Groups) {k : ℕ} (h : k ≤ imageBufferSize) :
    (g.entries k).length = k := by
  rw [Groups.entries, List.length_zip, length_upto _ h, length_upto _ h, min_self]

/-- One more group is one more entry: where the colour and the size at `k` can be read, they are
the entry behind the first `k`. -/
theorem Groups.entries_succ (g : Groups) {k : ℕ} {c : Color} {size : ℕ}
    (hc : load g.colorGroups k = some c) (hs : load g.sizeOfGroups k = some size)
    (hk : k < imageBufferSize) : g.entries (k + 1) = g.entries k ++ [(c, size)] := by
  rw [Groups.entries, upto_succ _ hc, upto_succ _ hs,
    List.zip_append (by rw [length_upto _ hk.le, length_upto _ hk.le])]
  rfl

/-- The group at a position below `k` is an element of the first `k`. -/
theorem Groups.getElem?_entries (g : Groups) {i k : ℕ} (hik : i < k) (hi : i < imageBufferSize) :
    (g.entries k)[i]? = some (g.colorGroups ⟨i, hi⟩, g.sizeOfGroups ⟨i, hi⟩) := by
  rw [Groups.entries, List.getElem?_zip_eq_some, getElem?_upto _ hik, getElem?_upto _ hik,
    load_of_lt _ hi, load_of_lt _ hi]
  exact ⟨rfl, rfl⟩

/-- The groups from position `i` on are the group at `i` and those after it. -/
theorem Groups.drop_entries (g : Groups) {i k : ℕ} (hik : i < k) (hk : k ≤ imageBufferSize) :
    (g.entries k).drop i = (g.colorGroups ⟨i, by omega⟩, g.sizeOfGroups ⟨i, by omega⟩) ::
      (g.entries k).drop (i + 1) := by
  have hlen : i < (g.entries k).length := by rwa [g.length_entries hk]
  have hget := g.getElem?_entries hik (hik.trans_le hk)
  rw [List.getElem?_eq_getElem hlen] at hget
  rw [List.drop_eq_getElem_cons hlen, Option.some.inj hget]

/-- A group written at the cursor is appended to those before it, whatever the arrays held at
that position. -/
theorem Groups.entries_put (g : Groups) {k : ℕ} (hk : k < imageBufferSize) (c : Color) (size : ℕ) :
    (g.put ⟨k, hk⟩ c size).entries (k + 1) = g.entries k ++ [(c, size)] := by
  rw [Groups.entries, Groups.put, upto_update_succ _ hk, upto_update_succ _ hk,
    List.zip_append (by rw [length_upto _ hk.le, length_upto _ hk.le])]
  rfl

theorem Groups.SameFrom.refl (g : Groups) (i : ℕ) : g.SameFrom g i := fun _ _ => ⟨rfl, rfl⟩

/-- What agrees from one position on agrees from any later one on. -/
theorem Groups.SameFrom.mono {g g' : Groups} {i j : ℕ} (h : g.SameFrom g' i) (hij : i ≤ j) :
    g.SameFrom g' j := fun k hk => h k (hij.trans hk)

/-- Where the arrays agree from `i` on, entry `i` can be read in either.  This is how a pass
reads its input from the arrays that it has written up to the cursor. -/
theorem Groups.SameFrom.load_eq {g g' : Groups} {i : ℕ} (h : g.SameFrom g' i)
    (hi : i < imageBufferSize) :
    load g'.colorGroups i = some (g.colorGroups ⟨i, hi⟩) ∧
      load g'.sizeOfGroups i = some (g.sizeOfGroups ⟨i, hi⟩) :=
  ⟨(h i le_rfl).1.trans (load_of_lt _ hi), (h i le_rfl).2.trans (load_of_lt _ hi)⟩

/-- A write before position `i` keeps what is held from `i` on, so a pass whose cursor is behind
its index does not disturb what it has still to read. -/
theorem Groups.SameFrom.put {g g' : Groups} {i k : ℕ} (h : g.SameFrom g' i)
    (hk : k < imageBufferSize) (hki : k < i) (c : Color) (size : ℕ) :
    g.SameFrom (g'.put ⟨k, hk⟩ c size) i := fun j hj =>
  ⟨(load_update_of_ne _ hk c (by omega)).trans (h j hj).1,
    (load_update_of_ne _ hk size (by omega)).trans (h j hj).2⟩

/-! ### The scan of steps 1 and 3 -/

/-- What is written so far, the pending group and the groups still to come fuse
to `total`. -/
def Scan.Pending (s : Scan) (rest total : List (Color × ℕ)) : Prop :=
  s.groups.entries s.colorGroupIndex ++
    fuse ((s.currentColor, s.currentGroupSize) :: rest) = total

/-- The scan after a flush. -/
def Scan.flushed (s : Scan) (h : s.colorGroupIndex < imageBufferSize) : Scan :=
  { s with
    groups := s.groups.put ⟨s.colorGroupIndex, h⟩ s.currentColor s.currentGroupSize
    colorGroupIndex := s.colorGroupIndex + 1 }

/-- A flush with the cursor in the arrays does not fail, and it appends the pending group at the
cursor. -/
theorem Scan.flush_eq (s : Scan) (h : s.colorGroupIndex < imageBufferSize) :
    s.flush = some (s.flushed h) := by
  have hw : u16 (s.colorGroupIndex + 1) = s.colorGroupIndex + 1 :=
    u16_of_lt (by have := imageBufferSize_lt; omega)
  rw [Scan.flush, store_of_lt _ h, store_of_lt _ h, hw]
  rfl

/-- The sizes still to be added up are bounded by those of the result, so the sum in the pending
group does not wrap around. -/
theorem Scan.Pending.size_le {s : Scan} {rest total : List (Color × ℕ)}
    (h : s.Pending rest total) :
    s.currentGroupSize + (rest.map Prod.snd).sum ≤ (total.map Prod.snd).sum := by
  rw [← h, List.map_append, List.sum_append, sum_fuse, List.map_cons, List.sum_cons]
  exact Nat.le_add_left _ _

/-- A group of the pending colour is added to the pending group, and the result to be reached
stays the same. -/
theorem Scan.Pending.swallow {s : Scan} {c : Color} {size : ℕ} {rest total : List (Color × ℕ)}
    (h : s.Pending ((c, size) :: rest) total) (hc : c = s.currentColor) :
    Scan.Pending { s with currentGroupSize := s.currentGroupSize + size } rest total := by
  rw [Scan.Pending] at h ⊢
  rwa [fuse_cons_cons_of_eq (g := (s.currentColor, s.currentGroupSize)) hc.symm] at h

/-- A group of another colour replaces the pending group, which is written at the cursor and is
then part of the result. -/
theorem Scan.Pending.next {s : Scan} {c : Color} {size : ℕ} {rest total : List (Color × ℕ)}
    (h : s.Pending ((c, size) :: rest) total) (hc : c ≠ s.currentColor)
    (hi : s.colorGroupIndex < imageBufferSize) :
    Scan.Pending { s.flushed hi with currentColor := c, currentGroupSize := size } rest total := by
  rw [Scan.Pending] at h ⊢
  rw [fuse_cons_cons_of_ne (g := (s.currentColor, s.currentGroupSize)) hc.symm] at h
  simp only [Scan.flushed]
  rw [Groups.entries_put _ hi, List.append_assoc]
  exact h

/-- The last flush leaves the result in the arrays: when no group is to come, the pending one
completes it. -/
theorem Scan.Pending.finish {s : Scan} {total : List (Color × ℕ)} (h : s.Pending [] total)
    (hi : s.colorGroupIndex < imageBufferSize) :
    (s.flushed hi).groups.entries (s.flushed hi).colorGroupIndex = total := by
  rw [← h]
  exact Groups.entries_put _ hi _ _

/-! ### Step 1 -/

/-- The pixels from `i` on, as groups of size 1. -/
def pixelsFrom (line : CArray imageBufferSize Color) (i : ℕ) : List (Color × ℕ) :=
  ((List.ofFn line).drop i).map fun c => (c, 1)

/-- The pixels from `i` on are pixel `i`, as a group of one, and those after it. -/
theorem pixelsFrom_eq_cons (line : CArray imageBufferSize Color) {i : ℕ} (h : i < imageBufferSize) :
    pixelsFrom line i = (line ⟨i, h⟩, 1) :: pixelsFrom line (i + 1) := by
  rw [pixelsFrom, List.drop_eq_getElem_cons (by rwa [List.length_ofFn]), List.map_cons,
    List.getElem_ofFn]
  rfl

/-- After the last pixel there are none. -/
theorem pixelsFrom_imageBufferSize (line : CArray imageBufferSize Color) :
    pixelsFrom line imageBufferSize = [] := by
  rw [pixelsFrom, List.drop_eq_nil_of_le (by rw [List.length_ofFn])]
  rfl

/-- The state of step 1 before pixel `i`; after the last pixel everything is
written. -/
def Step1Inv (line : CArray imageBufferSize Color) (i : ℕ) (s : Scan) : Prop :=
  if i < imageBufferSize then
    s.colorGroupIndex < i ∧ s.Pending (pixelsFrom line i) (runs (List.ofFn line))
  else
    s.colorGroupIndex ≤ imageBufferSize ∧
      s.groups.entries s.colorGroupIndex = runs (List.ofFn line)

/-- Lines 91-102 on one pixel: it is swallowed by the pending group or replaces it, and the
cursor stays behind the pixels read, so the flush is inside the arrays. -/
theorem nextPixel_inv (line : CArray imageBufferSize Color) {i : ℕ} {s : Scan}
    (hi : i < imageBufferSize) (hidx : s.colorGroupIndex < i)
    (hp : s.Pending (pixelsFrom line i) (runs (List.ofFn line))) :
    ∃ t, nextPixel line i s = some t ∧ t.colorGroupIndex < i + 1 ∧
      t.Pending (pixelsFrom line (i + 1)) (runs (List.ofFn line)) := by
  rw [pixelsFrom_eq_cons line hi] at hp
  by_cases hc : line ⟨i, hi⟩ = s.currentColor
  · have hsize := hp.size_le
    rw [sum_runs, List.length_ofFn, List.map_cons, List.sum_cons] at hsize
    have hu : u16 (s.currentGroupSize + 1) = s.currentGroupSize + 1 :=
      u16_of_lt (by have := imageBufferSize_lt; omega)
    refine ⟨{ s with currentGroupSize := s.currentGroupSize + 1 }, ?_,
      hidx.trans (Nat.lt_succ_self i), hp.swallow hc⟩
    simp only [nextPixel, load_of_lt _ hi, Option.bind_eq_bind, Option.bind_some, ne_eq, hc,
      not_true_eq_false, if_false, hu, Option.pure_def]
  · have hw : s.colorGroupIndex < imageBufferSize := hidx.trans hi
    refine ⟨{ s.flushed hw with currentColor := line ⟨i, hi⟩, currentGroupSize := 1 }, ?_,
      Nat.succ_lt_succ hidx, hp.next hc hw⟩
    simp only [nextPixel, load_of_lt _ hi, Option.bind_eq_bind, Option.bind_some, ne_eq, hc,
      not_false_eq_true, if_true, Scan.flush_eq s hw, Option.pure_def]

/-- One pixel of step 1, with the flush behind the last one: as long as pixels are to come the
scan is pending, and after the last one the arrays hold the runs of the line. -/
theorem step1Body_inv (line : CArray imageBufferSize Color) {i : ℕ} {s : Scan}
    (hi : i < imageBufferSize) (h : Step1Inv line i s) :
    ∃ s', step1Body line i s = some s' ∧ Step1Inv line (i + 1) s' := by
  rw [Step1Inv, if_pos hi] at h
  obtain ⟨t, ht, hidx, hp⟩ := nextPixel_inv line hi h.1 h.2
  rw [step1Body, ht, Option.bind_eq_bind, Option.bind_some]
  rcases Nat.lt_or_ge (i + 1) imageBufferSize with hlast | hlast
  · refine ⟨t, if_neg (by omega), ?_⟩
    rw [Step1Inv, if_pos hlast]
    exact ⟨hidx, hp⟩
  · have hend : i + 1 = imageBufferSize := by omega
    have hw : t.colorGroupIndex < imageBufferSize := by omega
    rw [hend, pixelsFrom_imageBufferSize] at hp
    refine ⟨t.flushed hw, by rw [if_pos (by omega), Scan.flush_eq t hw], ?_⟩
    rw [Step1Inv, if_neg (by omega)]
    exact ⟨hw, hp.finish hw⟩

/-- **Step 1 is the run-length encoding of the line.** -/
theorem step1_spec (line : CArray imageBufferSize Color) :
    ∃ g n, step1 line = some (g, n) ∧ n ≤ imageBufferSize ∧
      g.entries n = runs (List.ofFn line) := by
  have h0 : 0 < imageBufferSize := by decide
  have hinit : Step1Inv line 1 ⟨⟨fun _ => .undefinedColor, fun _ => 0⟩, 0, line ⟨0, h0⟩, 1⟩ := by
    rw [Step1Inv, if_pos (by decide)]
    refine ⟨Nat.one_pos, ?_⟩
    rw [Scan.Pending, Groups.entries_zero, List.nil_append, ← pixelsFrom_eq_cons line h0,
      pixelsFrom, List.drop_zero, runs]
  obtain ⟨s, hs, hinv⟩ := forRange_inv (by decide) hinit
    fun i s _ hi h => step1Body_inv line hi h
  rw [Step1Inv, if_neg (lt_irrefl _)] at hinv
  refine ⟨s.groups, s.colorGroupIndex, ?_, hinv.1, hinv.2⟩
  rw [step1, load_of_lt _ h0, Option.bind_eq_bind, Option.bind_some, hs]
  rfl

/-! ### Step 2 -/

/-- The test of step 2. -/
def isLarge (g : Color × ℕ) : Bool := minGroupSize ≤ g.2

/-- One group of step 2: it is copied to the cursor if it is large, and the cursor stays behind
the index, so the groups to come are still those of the input. -/
theorem step2Body_inv {g : Groups} {i n : ℕ} {s : Groups × ℕ} (hi : i < n)
    (hn : n ≤ imageBufferSize) (hidx : s.2 ≤ i) (hsame : g.SameFrom s.1 i)
    (hent : s.1.entries s.2 = (g.entries i).filter isLarge) :
    ∃ s', step2Body i s = some s' ∧ s'.2 ≤ i + 1 ∧ g.SameFrom s'.1 (i + 1) ∧
      s'.1.entries s'.2 = (g.entries (i + 1)).filter isLarge := by
  have hlt : i < imageBufferSize := hi.trans_le hn
  obtain ⟨hc, hs⟩ := hsame.load_eq hlt
  rw [g.entries_succ (load_of_lt _ hlt) (load_of_lt _ hlt) hlt, List.filter_append, ← hent]
  by_cases hbig : minGroupSize ≤ g.sizeOfGroups ⟨i, hlt⟩
  · have hw : s.2 < imageBufferSize := hidx.trans_lt hlt
    have hu : u16 (s.2 + 1) = s.2 + 1 := u16_of_lt (by have := imageBufferSize_lt; omega)
    refine ⟨(s.1.put ⟨s.2, hw⟩ (g.colorGroups ⟨i, hlt⟩) (g.sizeOfGroups ⟨i, hlt⟩), s.2 + 1),
      ?_, by simpa using hidx, ?_, ?_⟩
    · simp only [step2Body, hs, hc, store_of_lt _ hw, hbig, hu, if_true, Option.bind_eq_bind,
        Option.bind_some, Option.pure_def]
      rfl
    · exact (hsame.mono (Nat.le_succ i)).put hw (by omega) _ _
    · rw [Groups.entries_put _ hw, List.filter_singleton]
      simp [isLarge, hbig]
  · refine ⟨s, ?_, by omega, hsame.mono (Nat.le_succ i), ?_⟩
    · simp only [step2Body, hs, hbig, if_false, Option.bind_eq_bind, Option.bind_some,
        Option.pure_def]
    · rw [List.filter_singleton]
      simp [isLarge, hbig]

/-- Step 2 before group `i`: the groups kept so far are the large ones among the first `i`, and
from `i` on the arrays are those of the input. -/
theorem step2_inv (g : Groups) {n i : ℕ} (hn : n ≤ imageBufferSize) (hi : i ≤ n) :
    ∃ s, forRange 0 i step2Body (g, 0) = some s ∧ s.2 ≤ i ∧ g.SameFrom s.1 i ∧
      s.1.entries s.2 = (g.entries i).filter isLarge :=
  forRange_inv (P := fun i (s : Groups × ℕ) => s.2 ≤ i ∧ g.SameFrom s.1 i ∧
      s.1.entries s.2 = (g.entries i).filter isLarge)
    (Nat.zero_le i) ⟨le_rfl, .refl g 0, rfl⟩
    fun _ _ _ hj ⟨hidx, hsame, hent⟩ => step2Body_inv (hj.trans_le hi) hn hidx hsame hent

/-- **Step 2 keeps the groups of at least `MIN_GROUP_SIZE`**, in their order, although it writes
them over the groups that it reads. -/
theorem step2_spec (g : Groups) {n : ℕ} (hn : n ≤ imageBufferSize) :
    ∃ g' m, step2 g n = some (g', m) ∧ m ≤ n ∧
      g'.entries m = (g.entries n).filter isLarge := by
  obtain ⟨s, hs, hidx, -, hent⟩ := step2_inv g hn le_rfl
  exact ⟨s.1, s.2, hs, hidx, hent⟩

/-! ### Step 3 -/

/-- The state of step 3 before group `i` of `n`; after the last group everything
is written. -/
def Step3Inv (g : Groups) (n i : ℕ) (s : Scan) : Prop :=
  g.SameFrom s.groups i ∧
    if i < n then
      s.colorGroupIndex < i ∧ s.Pending ((g.entries n).drop i) (fuse (g.entries n))
    else
      s.colorGroupIndex ≤ n ∧ s.groups.entries s.colorGroupIndex = fuse (g.entries n)

/-- Lines 139-150 on one group: it is swallowed by the pending group, whose size does not wrap
around, or replaces it, and the cursor stays behind the index. -/
theorem nextGroup_inv {g : Groups} {n i : ℕ} {s : Scan} (hn : n ≤ imageBufferSize)
    (hsum : ((g.entries n).map Prod.snd).sum < 2 ^ 16) (hi : i < n) (hsame : g.SameFrom s.groups i)
    (hidx : s.colorGroupIndex < i)
    (hp : s.Pending ((g.entries n).drop i) (fuse (g.entries n))) :
    ∃ t, nextGroup i s = some t ∧ g.SameFrom t.groups (i + 1) ∧ t.colorGroupIndex < i + 1 ∧
      t.Pending ((g.entries n).drop (i + 1)) (fuse (g.entries n)) := by
  have hlt : i < imageBufferSize := hi.trans_le hn
  obtain ⟨hc, hs⟩ := hsame.load_eq hlt
  rw [g.drop_entries hi hn] at hp
  by_cases he : g.colorGroups ⟨i, hlt⟩ = s.currentColor
  · have hsize := hp.size_le
    rw [sum_fuse, List.map_cons, List.sum_cons] at hsize
    have hu : u16 (s.currentGroupSize + g.sizeOfGroups ⟨i, hlt⟩) =
        s.currentGroupSize + g.sizeOfGroups ⟨i, hlt⟩ := u16_of_lt (by omega)
    refine ⟨{ s with currentGroupSize := s.currentGroupSize + g.sizeOfGroups ⟨i, hlt⟩ }, ?_,
      hsame.mono (Nat.le_succ i), hidx.trans (Nat.lt_succ_self i), hp.swallow he⟩
    simp only [nextGroup, hc, hs, Option.bind_eq_bind, Option.bind_some, ne_eq, he,
      not_true_eq_false, if_false, hu, Option.pure_def]
  · have hw : s.colorGroupIndex < imageBufferSize := hidx.trans hlt
    -- the flush writes below `i`, so group `i` is still to be read
    have hsame₁ : g.SameFrom (s.flushed hw).groups i := hsame.put hw hidx _ _
    obtain ⟨hc₁, hs₁⟩ := hsame₁.load_eq hlt
    refine ⟨{ s.flushed hw with
        currentColor := g.colorGroups ⟨i, hlt⟩, currentGroupSize := g.sizeOfGroups ⟨i, hlt⟩ },
      ?_, hsame₁.mono (Nat.le_succ i), Nat.succ_lt_succ hidx, hp.next he hw⟩
    simp only [nextGroup, hc, Option.bind_eq_bind, Option.bind_some, ne_eq, he, not_false_eq_true,
      if_true, Scan.flush_eq s hw, hc₁, hs₁, Option.pure_def]

/-- One group of step 3, with the flush behind the last one, which leaves the fused groups in
the arrays. -/
theorem step3Body_inv {g : Groups} {n i : ℕ} {s : Scan} (hn : n ≤ imageBufferSize)
    (hsum : ((g.entries n).map Prod.snd).sum < 2 ^ 16) (hi : i < n) (h : Step3Inv g n i s) :
    ∃ s', step3Body n i s = some s' ∧ Step3Inv g n (i + 1) s' := by
  rw [Step3Inv, if_pos hi] at h
  obtain ⟨t, ht, hsame, hidx, hp⟩ := nextGroup_inv hn hsum hi h.1 h.2.1 h.2.2
  rw [step3Body, ht, Option.bind_eq_bind, Option.bind_some]
  rcases Nat.lt_or_ge (i + 1) n with hlast | hlast
  · refine ⟨t, if_neg (by omega), hsame, ?_⟩
    rw [if_pos hlast]
    exact ⟨hidx, hp⟩
  · have hw : t.colorGroupIndex < imageBufferSize := by omega
    rw [List.drop_eq_nil_of_le (by rw [g.length_entries hn]; omega)] at hp
    refine ⟨t.flushed hw, by rw [if_pos (by omega), Scan.flush_eq t hw], hsame.put hw hidx _ _, ?_⟩
    rw [if_neg (by omega)]
    exact ⟨hidx.trans_le (by omega), hp.finish hw⟩

/-- Step 3 before group `i`: the loop starts at the second group, with the first one pending. -/
theorem step3_inv (g : Groups) {n i : ℕ} (hn : n ≤ imageBufferSize)
    (hsum : ((g.entries n).map Prod.snd).sum < 2 ^ 16) (h2 : 2 ≤ n) (h1 : 1 ≤ i) (hi : i ≤ n) :
    ∃ s, forRange 1 i (step3Body n)
        ⟨g, 0, g.colorGroups ⟨0, by decide⟩, g.sizeOfGroups ⟨0, by decide⟩⟩ = some s ∧
      Step3Inv g n i s := by
  refine forRange_inv h1 ⟨.refl g 1, ?_⟩ fun _ _ _ hj h =>
    step3Body_inv hn hsum (hj.trans_le hi) h
  rw [if_pos (by omega)]
  refine ⟨Nat.one_pos, ?_⟩
  rw [Scan.Pending, Groups.entries_zero, List.nil_append, ← g.drop_entries (by omega) hn,
    List.drop_zero]

/-- **Step 3 fuses the groups**, where there are at least two of them. -/
theorem step3_spec (g : Groups) {n : ℕ} (h2 : 2 ≤ n) (hn : n ≤ imageBufferSize)
    (hsum : ((g.entries n).map Prod.snd).sum < 2 ^ 16) :
    ∃ g' m, step3 g n = some (g', m) ∧ m ≤ n ∧ g'.entries m = fuse (g.entries n) := by
  obtain ⟨s, hs, -, hinv⟩ := step3_inv g hn hsum h2 (by omega) le_rfl
  rw [if_neg (lt_irrefl _)] at hinv
  refine ⟨s.groups, s.colorGroupIndex, ?_, hinv.1, hinv.2⟩
  rw [step3, load_of_lt _ (by decide), load_of_lt _ (by decide), Option.bind_eq_bind,
    Option.bind_some, Option.bind_eq_bind, Option.bind_some, hs]
  rfl

/-- **Step 3 loses a single group**: its loop starts at the second one and is not entered, so
the flush inside it is not reached and the cursor stays at 0. -/
theorem step3_of_lt_two (g : Groups) {n : ℕ} (h2 : n < 2) : step3 g n = some (g, 0) := by
  rw [step3, load_of_lt _ (by decide), load_of_lt _ (by decide)]
  simp [forRange_of_le (show n ≤ 1 by omega)]

/-! ### Step 4 -/

/-- The colour of a group after step 4. -/
def bandColor (g : Color × ℕ) : Color := if g.2 < minColorBandWidth then .undefinedColor else g.1

/-- **Step 4 recolours the narrow groups**: it makes the colour of every group below
`MIN_COLOR_BAND_WIDTH` undefined and keeps that of every other one. -/
theorem step4_spec (g : Groups) {n : ℕ} (hn : n ≤ imageBufferSize) :
    ∃ g', step4 g n = some g' ∧ upto g'.colorGroups n = (g.entries n).map bandColor := by
  suffices h : ∀ i g', i < n → g.SameFrom g' i →
      upto g'.colorGroups i = (g.entries i).map bandColor →
      ∃ g'', step4Body i g' = some g'' ∧ g.SameFrom g'' (i + 1) ∧
        upto g''.colorGroups (i + 1) = (g.entries (i + 1)).map bandColor by
    obtain ⟨g', hg', -, hcol⟩ := forRange_inv (s := g) (f := step4Body)
      (P := fun i g' => g.SameFrom g' i ∧ upto g'.colorGroups i = (g.entries i).map bandColor)
      (Nat.zero_le n) ⟨.refl g 0, rfl⟩ fun i g' _ hi hP => h i g' hi hP.1 hP.2
    exact ⟨g', hg', hcol⟩
  intro i g' hi hsame hcol
  have hlt : i < imageBufferSize := hi.trans_le hn
  obtain ⟨hc, hs⟩ := hsame.load_eq hlt
  rw [g.entries_succ (load_of_lt _ hlt) (load_of_lt _ hlt) hlt, List.map_append, ← hcol]
  by_cases hw : g.sizeOfGroups ⟨i, hlt⟩ < minColorBandWidth
  · refine ⟨{ g' with colorGroups := Function.update g'.colorGroups ⟨i, hlt⟩ .undefinedColor },
      ?_, fun j hj => ⟨?_, (hsame j (by omega)).2⟩, ?_⟩
    · simp only [step4Body, hs, store_of_lt _ hlt, hw, if_true, Option.bind_eq_bind,
        Option.bind_some, Option.pure_def]
    · exact (load_update_of_ne _ hlt _ (by omega)).trans (hsame j (by omega)).1
    · rw [upto_update_succ _ hlt]
      simp [bandColor, hw]
  · refine ⟨g', ?_, hsame.mono (Nat.le_succ i), ?_⟩
    · simp only [step4Body, hs, hw, if_false, Option.bind_eq_bind, Option.bind_some,
        Option.pure_def]
    · rw [upto_succ _ hc]
      simp [bandColor, hw]

/-! ### Step 5 -/

/-- The writes that fill an array from its first entry on. -/
def fillWrites (l : List Color) : List (ℕ × Color) := l.mapIdx Prod.mk

/-- One more colour is one more write, behind the others, at the position that is the number of
the writes so far. -/
theorem fillWrites_snoc (l : List Color) (c : Color) :
    fillWrites (l ++ [c]) = fillWrites l ++ [(l.length, c)] := List.mapIdx_concat

/-- What is written so far, the pending band and the entries still to come make
the bands of the colours `cs`. -/
def BandScan.Pending (s : BandScan) (rest cs : List Color) : Prop :=
  ∃ out : List Color, s.colorGroupIndex = out.length ∧ s.written = fillWrites out ∧
    out ++ (runs (s.currentColor :: rest)).map Prod.fst = (runs cs).map Prod.fst

/-- Lines 181-186 on one entry: a colour that differs from the current one is the next band, and
the band before it is written. -/
theorem BandScan.Pending.next {g : Groups} {i : ℕ} {s : BandScan} {rest cs : List Color}
    (hi : i < imageBufferSize) (hidx : s.colorGroupIndex < i)
    (hp : s.Pending (g.colorGroups ⟨i, hi⟩ :: rest) cs) :
    ∃ t, nextBand g i s = some t ∧ t.colorGroupIndex < i + 1 ∧ t.Pending rest cs := by
  obtain ⟨out, hout, hw, htot⟩ := hp
  by_cases he : g.colorGroups ⟨i, hi⟩ = s.currentColor
  · refine ⟨s, ?_, hidx.trans (Nat.lt_succ_self i), out, hout, hw, ?_⟩
    · simp only [nextBand, load_of_lt _ hi, Option.bind_eq_bind, Option.bind_some, ne_eq, he,
        not_true_eq_false, if_false, Option.pure_def]
    · -- a second entry of the pending colour only makes its run longer
      rw [he, runs_cons, runs_cons, push_push_of_eq rfl] at htot
      rw [← htot, runs_cons, map_fst_push_eq rfl]
  · have hu : u16 (s.colorGroupIndex + 1) = s.colorGroupIndex + 1 :=
      u16_of_lt (by have := imageBufferSize_lt; omega)
    refine ⟨⟨s.colorGroupIndex + 1, g.colorGroups ⟨i, hi⟩, s.write.written⟩, ?_,
      Nat.succ_lt_succ hidx, out ++ [s.currentColor], ?_, ?_, ?_⟩
    · simp only [nextBand, load_of_lt _ hi, Option.bind_eq_bind, Option.bind_some, ne_eq, he,
        not_false_eq_true, if_true, BandScan.write, hu, Option.pure_def]
    · rw [List.length_append, hout]
      rfl
    · rw [fillWrites_snoc, BandScan.write, hw, hout]
    · rw [runs_cons, runs_cons, push_push_of_ne (Ne.symm he)] at htot
      rw [← htot, List.append_assoc]
      rfl

/-- The last write completes the bands: when no entry is to come, the current colour is the last
one. -/
theorem BandScan.Pending.finish {s : BandScan} {cs : List Color} (hp : s.Pending [] cs) :
    s.write.written = fillWrites ((runs cs).map Prod.fst) := by
  obtain ⟨out, hout, hw, htot⟩ := hp
  rw [← htot, BandScan.write, hw, hout]
  exact (fillWrites_snoc out s.currentColor).symm

/-- The state of step 5 before entry `i` of the colours `cs`; after the last one
everything is written. -/
def Step5Inv (cs : List Color) (i : ℕ) (s : BandScan) : Prop :=
  if i < cs.length then s.colorGroupIndex < i ∧ s.Pending (cs.drop i) cs
  else s.written = fillWrites ((runs cs).map Prod.fst)

/-- The colours from position `i` on are the colour at `i` and those after it. -/
theorem drop_upto (g : Groups) {i n : ℕ} (hi : i < imageBufferSize) (hin : i < n)
    (hn : n ≤ imageBufferSize) : (upto g.colorGroups n).drop i =
      g.colorGroups ⟨i, hi⟩ :: (upto g.colorGroups n).drop (i + 1) := by
  have hlen : i < (upto g.colorGroups n).length := by rwa [length_upto _ hn]
  have hget := getElem?_upto g.colorGroups hin
  rw [List.getElem?_eq_getElem hlen, load_of_lt _ hi] at hget
  rw [List.drop_eq_getElem_cons hlen, Option.some.inj hget]

/-- One entry of step 5, with the write behind the last one, after which the bands are those of
the runs of the colours. -/
theorem step5Body_inv {g : Groups} {n i : ℕ} {s : BandScan} (hn : n ≤ imageBufferSize)
    (hi : i < n) (h : Step5Inv (upto g.colorGroups n) i s) :
    ∃ s', step5Body g n i s = some s' ∧ Step5Inv (upto g.colorGroups n) (i + 1) s' := by
  have hlen : (upto g.colorGroups n).length = n := length_upto _ hn
  have hlt : i < imageBufferSize := hi.trans_le hn
  rw [Step5Inv, hlen, if_pos hi, drop_upto g hlt hi hn] at h
  obtain ⟨t, ht, hidx, hp⟩ := h.2.next hlt h.1
  rw [step5Body, ht, Option.bind_eq_bind, Option.bind_some]
  rcases Nat.lt_or_ge (i + 1) n with hlast | hlast
  · refine ⟨t, congrArg some (if_neg (by omega)), ?_⟩
    rw [Step5Inv, hlen, if_pos hlast]
    exact ⟨hidx, hp⟩
  · rw [List.drop_eq_nil_of_le (by omega)] at hp
    refine ⟨t.write, congrArg some (if_pos (by omega)), ?_⟩
    rw [Step5Inv, hlen, if_neg (by omega)]
    exact hp.finish

/-- **Step 5 writes one entry per stretch of one colour**, where there are at least two groups.
It does not look at the size of `color_bands`, so how many it writes is up to the groups. -/
theorem step5_spec (g : Groups) {n : ℕ} (h2 : 2 ≤ n) (hn : n ≤ imageBufferSize) :
    step5 g n = some (fillWrites ((runs (upto g.colorGroups n)).map Prod.fst)) := by
  have h0 : 0 < imageBufferSize := by decide
  have hlen : (upto g.colorGroups n).length = n := length_upto _ hn
  have hinit : Step5Inv (upto g.colorGroups n) 1 ⟨0, g.colorGroups ⟨0, h0⟩, []⟩ := by
    rw [Step5Inv, hlen, if_pos (by omega)]
    refine ⟨Nat.one_pos, [], rfl, rfl, ?_⟩
    rw [← drop_upto g h0 (by omega) hn, List.drop_zero, List.nil_append]
  obtain ⟨s, hs, hinv⟩ := forRange_inv (show 1 ≤ n by omega) hinit
    fun i s _ hi h => step5Body_inv hn hi h
  rw [Step5Inv, hlen, if_neg (lt_irrefl _)] at hinv
  rw [step5, load_of_lt _ h0, Option.bind_eq_bind, Option.bind_some, hs, ← hinv]
  rfl

/-- **Step 5 writes nothing for a single group**: its loop starts at the second one and is not
entered, so the write inside it is not reached. -/
theorem step5_of_lt_two (g : Groups) {n : ℕ} (h2 : n < 2) : step5 g n = some [] := by
  rw [step5, load_of_lt _ (by decide)]
  simp [forRange_of_le (show n ≤ 1 by omega)]

end FlagDetection
end JeanBot
