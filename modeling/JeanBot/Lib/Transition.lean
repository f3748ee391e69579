/-
# Runs of a transition function, and two threads by priority

`step s a` is the state after action `a` in state `s`, or `none` where `a` is
not possible.  A `Run` keeps its trace, the list of the states it stepped from
with the actions it took there, so a property of a run can speak of its events
(`events obs`), and a hypothesis can restrict the steps that are taken: every
rule below has a condition `C` that holds at every step of the trace.

`Run.history` is the one induction: a property of the trace and the state that
holds at the start and that every step keeps.  `Run.invariant` forgets the
trace, and `Run.simulates` is forward simulation, where a step is either silent
or matched by one abstract step labelled with its event.  `Run.length_events_le` counts:
a rank that pays for every event bounds their number.  `Run.isChain_events` relates
each event to the one before it.

`Threads` is the preemptive schedule of two threads of different priority: the
high thread may step in any state, which is a preemption or a wake-up where it
was blocked, and the low thread only in states where the high one is blocked.
-/

import Mathlib.Data.List.Chain

namespace JeanBot
namespace Lib

variable {S A E S' I : Type*}

/-- A run from `s`, with its trace, to its last state. -/
inductive Run (step : S → A → Option S) (s : S) : List (S × A) → S → Prop
  | nil : Run step s [] s
  | snoc {tr : List (S × A)} {t : S} {a : A} {u : S} :
      Run step s tr t → step t a = some u → Run step s (tr ++ [(t, a)]) u

/-- The events of a trace. -/
def events (obs : S → A → Option E) (tr : List (S × A)) : List E :=
  tr.filterMap fun x => obs x.1 x.2

/-- One more step adds its event, if it has one, behind those before it. -/
@[simp] theorem events_snoc (obs : S → A → Option E) (tr : List (S × A)) (t : S) (a : A) :
    events obs (tr ++ [(t, a)]) = events obs tr ++ (obs t a).toList := by
  rw [events, List.filterMap_append, ← events]
  cases h : obs t a <;> simp [h]

/-- To observe the image of a trace is to observe the trace through the map. -/
theorem events_map {A' : Type*} (obs : S' → A' → Option E) (f : S → S') (g : A → A')
    (tr : List (S × A)) : events obs (tr.map fun x => (f x.1, g x.2)) =
      events (fun s a => obs (f s) (g a)) tr := by
  rw [events, List.filterMap_map]
  rfl

/-- The events of a trace that goes on are those of its two parts, one after the other. -/
theorem events_append (obs : S → A → Option E) (tr tr' : List (S × A)) :
    events obs (tr ++ tr') = events obs tr ++ events obs tr' :=
  List.filterMap_append

section Rules

variable {step : S → A → Option S} {s t : S} {tr : List (S × A)} {C : S → A → Prop}

/-- **The history rule.**  A property of the trace and the state that holds at
the start and that every permitted step keeps holds at the end of every run
whose steps are permitted. -/
theorem Run.history {P : List (S × A) → S → Prop} (h : Run step s tr t)
    (hC : ∀ x ∈ tr, C x.1 x.2) (h₀ : P [] s)
    (hstep : ∀ tr t a u, P tr t → C t a → step t a = some u → P (tr ++ [(t, a)]) u) : P tr t := by
  induction h with
  | nil => exact h₀
  | snoc _ hs ih =>
    exact hstep _ _ _ _ (ih fun x hx => hC x (List.mem_append_left _ hx))
      (hC _ (List.mem_append_right _ (List.mem_singleton_self _))) hs

/-- **The invariant rule** over permitted steps: a property of states that holds at the start
and that they keep holds at the end. -/
theorem Run.invariant {P : S → Prop} (h : Run step s tr t) (hC : ∀ x ∈ tr, C x.1 x.2)
    (h₀ : P s) (hstep : ∀ t a u, P t → C t a → step t a = some u → P u) : P t :=
  h.history hC h₀ fun _ => hstep

/-- Runs are composed at the state where the first ends and the second starts. -/
theorem Run.trans {u : S} {tr' : List (S × A)} (h : Run step s tr t) (h' : Run step t tr' u) :
    Run step s (tr ++ tr') u := by
  induction h' with
  | nil => rwa [List.append_nil]
  | snoc _ hs ih => rw [← List.append_assoc]; exact ih.snoc hs

/-- **Runs are mapped to runs** by a map that takes steps to steps. -/
theorem Run.map {A' : Type*} {step' : S' → A' → Option S'} {f : S → S'} {g : A → A'}
    (h : Run step s tr t)
    (hstep : ∀ t a u, step t a = some u → step' (f t) (g a) = some (f u)) :
    Run step' (f s) (tr.map fun x => (f x.1, g x.2)) (f t) := by
  induction h with
  | nil => exact .nil
  | snoc _ hs ih =>
    rw [List.map_append]
    exact ih.snoc (hstep _ _ _ hs)

/-- **Refinement up to silent steps.**  Where every step leaves the image of the state
as it is or is a step between the images, the image of a run is a run. -/
theorem Run.refines {A' : Type*} {step' : S' → A' → Option S'} {f : S → S'}
    (h : Run step s tr t)
    (hstep : ∀ t a u, step t a = some u → f u = f t ∨ ∃ b, step' (f t) b = some (f u)) :
    ∃ tr', Run step' (f s) tr' (f t) := by
  induction h with
  | nil => exact ⟨[], .nil⟩
  | snoc _ hs ih =>
    obtain ⟨tr', ih⟩ := ih
    rcases hstep _ _ _ hs with heq | ⟨b, hb⟩
    · exact ⟨tr', heq ▸ ih⟩
    · exact ⟨_, ih.snoc hb⟩

/-- **Forward simulation.**  Where every permitted step is silent or matched by
an abstract step labelled with its event, the events of a run are a run of the
abstract transition function. -/
theorem Run.simulates {step' : S' → E → Option S'} {R : S → S' → Prop}
    {obs : S → A → Option E} {s' : S'} (h : Run step s tr t) (hC : ∀ x ∈ tr, C x.1 x.2)
    (h₀ : R s s')
    (hsilent : ∀ t t' a u, R t t' → C t a → step t a = some u → obs t a = none → R u t')
    (hevent : ∀ t t' a u e, R t t' → C t a → step t a = some u → obs t a = some e →
      ∃ u', step' t' e = some u' ∧ R u u') :
    ∃ t', (events obs tr).foldlM step' s' = some t' ∧ R t t' := by
  refine h.history (P := fun tr t => ∃ t', (events obs tr).foldlM step' s' = some t' ∧ R t t')
    hC ⟨s', rfl, h₀⟩ ?_
  rintro tr t a u ⟨t', hf, hR⟩ hCa hs
  rw [events_snoc, List.foldlM_append, hf]
  cases ho : obs t a with
  | none => exact ⟨t', rfl, hsilent t t' a u hR hCa hs ho⟩
  | some e =>
    obtain ⟨u', hu, hR'⟩ := hevent t t' a u e hR hCa hs ho
    refine ⟨u', ?_, hR'⟩
    simp [hu]

/-- **The chain rule.**  Where the first event satisfies `r₀` and every other one is
related by `r` to the one before it, with an invariant that may speak of the last event,
the events of a run are a chain. -/
theorem Run.isChain_events {R : Option E → S → Prop} (h : Run step s tr t) (r₀ : E → Prop)
    (r : E → E → Prop) (obs : S → A → Option E) (hC : ∀ x ∈ tr, C x.1 x.2) (h₀ : R none s)
    (hstep : ∀ e t a u, R e t → C t a → step t a = some u →
      R (obs t a <|> e) u ∧ ∀ y ∈ obs t a, e.elim (r₀ y) (r · y)) :
    (events obs tr).IsChain r ∧ (∀ y ∈ (events obs tr).head?, r₀ y) ∧
      R (events obs tr).getLast? t := by
  refine h.history (P := fun tr t => (events obs tr).IsChain r ∧
    (∀ y ∈ (events obs tr).head?, r₀ y) ∧ R (events obs tr).getLast? t) hC ⟨.nil, nofun, h₀⟩ ?_
  rintro tr t a u ⟨hchain, hhead, hR⟩ hCa hs
  obtain ⟨hR', hr⟩ := hstep _ t a u hR hCa hs
  rw [events_snoc]
  cases ho : obs t a with
  | none =>
    rw [ho] at hR'
    rw [Option.toList_none, List.append_nil]
    exact ⟨hchain, hhead, hR'⟩
  | some y =>
    rw [ho] at hR' hr
    rw [Option.toList_some, List.getLast?_concat]
    have hy := hr y rfl
    refine ⟨hchain.append (.singleton y) fun x hx z hz => ?_, ?_, hR'⟩
    · obtain rfl := Option.some.inj hz
      rw [hx] at hy
      exact hy
    · cases hes : events obs tr with
      | nil =>
        intro z hz
        obtain rfl := Option.some.inj hz
        rw [hes] at hy
        exact hy
      | cons x es =>
        rw [hes] at hhead
        exact hhead

/-- **The ranking rule.**  Where permitted steps keep `P` and pay for their events with
the rank, the rank at the start bounds the number of events. -/
theorem Run.length_events_le {P : S → Prop} (h : Run step s tr t) (rank : S → ℕ)
    (obs : S → A → Option E) (hC : ∀ x ∈ tr, C x.1 x.2) (h₀ : P s)
    (hstep : ∀ t a u, P t → C t a → step t a = some u →
      P u ∧ rank u + (obs t a).toList.length ≤ rank t) :
    rank t + (events obs tr).length ≤ rank s := by
  refine (h.history (P := fun tr t => P t ∧ rank t + (events obs tr).length ≤ rank s) hC
    ⟨h₀, Nat.le_refl _⟩ ?_).2
  rintro tr t a u ⟨hPt, hle⟩ hCa hs
  obtain ⟨hPu, hlt⟩ := hstep t a u hPt hCa hs
  refine ⟨hPu, ?_⟩
  rw [events_snoc, List.length_append]
  omega

/-- A permission that no step gives, that every event needs and that no event leaves allows one
event in a whole run. -/
theorem Run.length_events_le_one {P : S → Prop} {obs : S → A → Option E}
    (h : Run step s tr t) (can : S → Bool) (hC : ∀ x ∈ tr, C x.1 x.2) (h₀ : P s)
    (hP : ∀ t a u, P t → C t a → step t a = some u → P u)
    (hgive : ∀ t a u, P t → C t a → step t a = some u → can u = true →
      can t = true ∧ obs t a = none)
    (hneed : ∀ t a u e, P t → C t a → step t a = some u → obs t a = some e → can t = true) :
    (events obs tr).length ≤ 1 := by
  have hle := h.length_events_le (fun t => (can t).toNat) obs hC h₀ ?_
  · have h₁ := Bool.toNat_le (can s)
    omega
  · intro t a u hPt hCt hs
    refine ⟨hP t a u hPt hCt hs, ?_⟩
    cases hu : can u with
    | true =>
      obtain ⟨ht, ho⟩ := hgive t a u hPt hCt hs hu
      simp [ht, ho]
    | false =>
      cases ho : obs t a with
      | none => exact Nat.zero_le _
      | some e => simp [hneed t a u e hPt hCt hs ho]

end Rules

/-! ### Executing a list of actions -/

/-- The trace of the actions `as` from `s`, up to one that is not possible. -/
def trace (step : S → A → Option S) (s : S) : List A → List (S × A)
  | [] => []
  | a :: as => (s, a) :: match step s a with
    | some t => trace step t as
    | none => []

/-- Executing a list of actions is a run with the trace of the list, so a run can be given by
its actions and computed. -/
theorem run_of_foldlM {step : S → A → Option S} {s t : S} {as : List A}
    (h : as.foldlM step s = some t) : Run step s (trace step s as) t := by
  induction as generalizing s with
  | nil =>
    obtain rfl := Option.some.inj h
    exact .nil
  | cons a as ih =>
    rw [List.foldlM_cons] at h
    cases hs : step s a with
    | none => rw [hs] at h; cases h
    | some u =>
      rw [hs] at h
      rw [trace, hs]
      exact (Run.snoc .nil hs).trans (ih h)

/-- A list of actions that executes to a state in which `P` holds is a run to such
a state. -/
theorem exists_run (step : S → A → Option S) (s : S) (as : List A) {P : S → Prop}
    (h : ∃ t ∈ as.foldlM step s, P t) : ∃ t, Run step s (trace step s as) t ∧ P t := by
  obtain ⟨t, ht, hP⟩ := h
  exact ⟨t, run_of_foldlM ht, hP⟩

/-- Two lists of actions, the second from where the first ends, are a run up to the state
that a result is about and a run from it. -/
theorem exists_run_run (step : S → A → Option S) (s : S) (as : List A) (bs : S → List A)
    {P : S → List (S × A) → S → Prop}
    (h : ∃ t ∈ as.foldlM step s, ∃ u ∈ (bs t).foldlM step t, P t (trace step t (bs t)) u) :
    ∃ t tr u, Run step s (trace step s as) t ∧ Run step t tr u ∧ P t tr u := by
  obtain ⟨t, ht, u, hu, hP⟩ := h
  exact ⟨t, _, u, run_of_foldlM ht, run_of_foldlM hu, hP⟩

/-! ### Two threads by priority -/

/-- Two threads over one state, each stepping on an input from outside, and the
states in which the high one is blocked. -/
structure Threads (S I : Type*) where
  high : S → I → Option S
  low : S → I → Option S
  blocked : S → Bool

/-- Which of the two threads steps. -/
inductive Priority
  | high
  | low
  deriving DecidableEq, Repr

/-- One step of the schedule: the low thread runs only while the high one is
blocked. -/
def Threads.step (T : Threads S I) (s : S) (a : Priority × I) : Option S :=
  match a.1 with
  | .high => T.high s a.2
  | .low => if T.blocked s then T.low s a.2 else none

/-- What one step of the schedule can be: a step of the high thread, at any time, or one of the
low thread while the high one is blocked. -/
theorem Threads.step_cases {T : Threads S I} {s u : S} {a : Priority × I}
    (h : T.step s a = some u) :
    (∃ i, a = (.high, i) ∧ T.high s i = some u) ∨
      ∃ i, a = (.low, i) ∧ T.blocked s = true ∧ T.low s i = some u := by
  obtain ⟨p, i⟩ := a
  cases p with
  | high => exact Or.inl ⟨i, rfl, h⟩
  | low =>
    have h' : (if T.blocked s then T.low s i else none) = some u := h
    split at h'
    · exact Or.inr ⟨i, rfl, ‹_›, h'⟩
    · cases h'

/-- **The invariant rule for two threads**: the low thread keeps the invariant
from states where the high one is blocked. -/
theorem Threads.invariant {T : Threads S I} {s t : S} {tr : List (S × (Priority × I))}
    {C : S → Priority × I → Prop} {P : S → Prop} (h : Run T.step s tr t)
    (hC : ∀ x ∈ tr, C x.1 x.2) (h₀ : P s)
    (hhigh : ∀ t i u, P t → C t (.high, i) → T.high t i = some u → P u)
    (hlow : ∀ t i u, P t → C t (.low, i) → T.blocked t = true → T.low t i = some u → P u) :
    P t := by
  refine h.invariant hC h₀ fun t a u hP hCa hs => ?_
  obtain ⟨i, rfl, hi⟩ | ⟨i, rfl, hb, hi⟩ := Threads.step_cases hs
  · exact hhigh t i u hP hCa hi
  · exact hlow t i u hP hCa hb hi

end Lib
end JeanBot
