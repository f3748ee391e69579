/-
# What the first three passes leave in the arrays

Step 1 fills `color_groups` and `size_of_groups` and steps 2 and 3 rewrite them in
place, with a read cursor and a write cursor of their own.

`step1_lossless`: the groups that step 1 leaves are nonempty, neighbouring ones
differ, and written out they are the line.

`inPlace_passes`: on any arrays, also on such as step 1 never leaves, step 2 is
the filter and step 3 is the fusion.  Before each of its passes the write cursor
has not gone beyond the read cursor and what is still to be read is what the
arrays held at the start (`Step2Fresh`, `Step3Fresh`), and the sum that a pass of
step 3 may form fits into a `uint16_t`.
-/

import JeanBot.FlagDetection.Passes

namespace JeanBot
namespace FlagDetection

open Lib

/-! ### Step 1 -/

/-- **Step 1 is lossless.**  It makes no access out of bounds, and the groups in
the first `number_of_groups` entries are nonempty, of alternating colours, and
make up the line. -/
theorem step1_lossless (line : CArray imageBufferSize Color) :
    ∃ g n, step1 line = some (g, n) ∧ 1 ≤ n ∧ n ≤ imageBufferSize ∧
      (∀ e ∈ g.entries n, 1 ≤ e.2) ∧ (g.entries n).IsChain (fun e f => e.1 ≠ f.1) ∧
      expand (g.entries n) = List.ofFn line ∧
      ((g.entries n).map Prod.snd).sum = imageBufferSize := by
  obtain ⟨g, n, hstep, hn, he⟩ := step1_spec line
  have hsum : ((g.entries n).map Prod.snd).sum = imageBufferSize := by
    rw [he, sum_runs, List.length_ofFn]
  have hpos : 1 ≤ n := by
    -- no groups would be no pixels
    rcases Nat.eq_zero_or_pos n with rfl | hpos
    · cases hsum
    · exact hpos
  refine ⟨g, n, hstep, hpos, hn, ?_, ?_, ?_, hsum⟩
  · rw [he]
    exact one_le_of_mem_runs
  · rw [he]
    exact isChain_runs _
  · rw [he, expand_runs]

/-! ### Steps 2 and 3 -/

/-- Before pass `i` of step 2: the write cursor is not beyond `i`, and from `i` on
the arrays hold what they held at the start. -/
def Step2Fresh (g : Groups) (i : ℕ) : Prop :=
  ∃ s, forRange 0 i step2Body (g, 0) = some s ∧ s.2 ≤ i ∧ g.SameFrom s.1 i

/-- Step 3 before pass `i`. -/
def step3At (g : Groups) (n i : ℕ) : Option Scan := do
  let c ← load g.colorGroups 0
  let size ← load g.sizeOfGroups 0
  forRange 1 i (step3Body n) ⟨g, 0, c, size⟩

/-- Step 3 returns the arrays and the cursor that it has reached after its last pass, so what
holds before each pass holds of its result. -/
theorem step3_eq_step3At (g : Groups) (n : ℕ) :
    step3 g n = (step3At g n n).map fun s => (s.groups, s.colorGroupIndex) := by
  rw [step3, step3At, load_of_lt _ (by decide), load_of_lt _ (by decide)]
  simp only [Option.bind_eq_bind, Option.bind_some]
  cases forRange 1 n (step3Body n) _ <;> rfl

/-- Before pass `i` of step 3: the write cursor is below `i`, from `i` on the arrays
hold what they held at the start, and adding group `i` to the pending group does not
wrap. -/
def Step3Fresh (g : Groups) (n i : ℕ) : Prop :=
  ∃ s, step3At g n i = some s ∧ s.colorGroupIndex < i ∧ g.SameFrom s.groups i ∧
    ∀ size ∈ load s.groups.sizeOfGroups i, s.currentGroupSize + size < 2 ^ 16

/-- Before each of its passes step 3 is fresh.  The cursor and the arrays are those of the
invariant of the scan, and the pending group and the groups to come have together no more pixels
than the groups had at the start, so their sum does not wrap. -/
theorem step3Fresh (g : Groups) {n i : ℕ} (hn : n ≤ imageBufferSize)
    (hsum : ((g.entries n).map Prod.snd).sum < 2 ^ 16) (h1 : 1 ≤ i) (hi : i < n) :
    Step3Fresh g n i := by
  obtain ⟨s, hs, hsame, hinv⟩ := step3_inv g hn hsum (by omega) h1 hi.le
  rw [if_pos hi] at hinv
  obtain ⟨hidx, hp⟩ := hinv
  have hlt : i < imageBufferSize := hi.trans_le hn
  refine ⟨s, ?_, hidx, hsame, fun size hsize => ?_⟩
  · rw [step3At, load_of_lt _ (by decide), load_of_lt _ (by decide)]
    exact hs
  · -- group `i` is still to be added, and all the groups together do not wrap
    have hread : size = g.sizeOfGroups ⟨i, hlt⟩ :=
      Option.some.inj (hsize.symm.trans (hsame.load_eq hlt).2)
    have hle := hp.size_le
    rw [g.drop_entries hi hn, sum_fuse, List.map_cons, List.sum_cons] at hle
    omega

/-- **Steps 2 and 3 are a filter and a fusion**, although they write over the arrays
they read.  They make no access out of bounds, no pass reads an entry that was
overwritten, and no sum of sizes wraps. -/
theorem inPlace_passes (g : Groups) {n : ℕ} (hn : n ≤ imageBufferSize)
    (hsum : ((g.entries n).map Prod.snd).sum ≤ imageBufferSize) :
    ∃ g₂ m, step2 g n = some (g₂, m) ∧ m ≤ n ∧
      g₂.entries m = (g.entries n).filter isLarge ∧ (∀ i < n, Step2Fresh g i) ∧
      (2 ≤ m → (∃ g₃ k, step3 g₂ m = some (g₃, k) ∧ k ≤ m ∧
          g₃.entries k = fuse ((g.entries n).filter isLarge)) ∧
        ∀ i, 1 ≤ i → i < m → Step3Fresh g₂ m i) := by
  obtain ⟨g₂, m, h₂, hm, he₂⟩ := step2_spec g hn
  have hmn : m ≤ imageBufferSize := hm.trans hn
  have hsum₂ : ((g₂.entries m).map Prod.snd).sum < 2 ^ 16 := by
    rw [he₂]
    exact ((sum_filter_le isLarge _).trans hsum).trans_lt imageBufferSize_lt
  refine ⟨g₂, m, h₂, hm, he₂, fun i hi => ?_, fun h2 => ⟨?_, fun i h1 hi => ?_⟩⟩
  · obtain ⟨s, hs, hidx, hsame, -⟩ := step2_inv g hn hi.le
    exact ⟨s, hs, hidx, hsame⟩
  · obtain ⟨g₃, k, h₃, hk, he₃⟩ := step3_spec g₂ h2 hmn hsum₂
    exact ⟨g₃, k, h₃, hk, by rw [he₃, he₂]⟩
  · exact step3Fresh g₂ hmn hsum₂ h1 hi

/-- A red band with five blue pixels in it. -/
def spottedBand : Groups where
  colorGroups := fun i => if i.val = 1 then .blue else .red
  sizeOfGroups := fun i => if i.val = 1 then 5 else 40

/-- Step 2 drops the blue group between the two red ones, and step 3 fuses these, which are
neighbours then: one group of 80 pixels is left. -/
theorem inPlace_spottedBand : ∃ g₂ g₃ k, step2 spottedBand 3 = some (g₂, 2) ∧
    step3 g₂ 2 = some (g₃, k) ∧ g₃.entries k = [(.red, 80)] := by
  have hfilter : (spottedBand.entries 3).filter isLarge = [(.red, 40), (.red, 40)] := by
    decide +kernel
  obtain ⟨g₂, m, h₂, hm, he, -, h₃⟩ := inPlace_passes spottedBand (n := 3) (by decide)
    (by decide +kernel)
  rw [hfilter] at he h₃
  have hm2 : m = 2 := by
    rw [← g₂.length_entries (hm.trans (by decide)), he]
    rfl
  subst hm2
  obtain ⟨⟨g₃, k, h₃, -, he₃⟩, -⟩ := h₃ le_rfl
  exact ⟨g₂, g₃, k, h₂, h₃, he₃⟩

end FlagDetection
end JeanBot
